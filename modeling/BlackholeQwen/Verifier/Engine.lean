import BlackholeQwen.Lib.Call

/-!
# The engines over native GDN slot 0 (`scripts/ci/verifier_engine.py`)

Every `VerifierEngine` of the process runs its captured traces on native slot 0, and keeps its request's state between
them in a carry of its own. `_resident` names the engine whose state the slot holds.

- `Recurrence`: the target's GDN recurrence over 48 layers, as a parameter. `Slot` is a state of them all, `copyLayers`
  a copy that stops part way.
- `Native`: slot 0, `_resident`, the engines, the packed blocks with the segments that they have verified and not
  committed, the tickets issued, and the record of the slot at each replay of an engine's verify.
- `construct`, `verify`, `adoptPacked`, `publish`, `park`, `rebind`, `close`: the methods, with the device's answers as
  arguments; `packedVerify` and `commitUser` are the block's part of a round. A block's commits are not put off. `step`
  is the verify and the publication that `FastRequest.step` makes in one call.
- `VerifierEngine.start` and `committed` are the observer's: where the request's prefill ended, and what it has
  committed since.
-/

namespace BlackholeQwen.Verifier

open Lib

/-- The GDN helpers of the target. -/
abbrev LAYERS : Nat := 48

/-- A recurrent state of every layer. -/
abbrev Slot (σ : Type) : Type := Fin LAYERS → σ

/-- The target's recurrence: what a request's prefill leaves, and a row of a request at a position. -/
structure Recurrence (σ ρ : Type) where
  prefilled : ρ → Slot σ
  advance : ρ → Nat → Slot σ → Nat → Slot σ

/-- A state advanced by rows from a position on. -/
def Recurrence.rows {σ ρ : Type} (m : Recurrence σ ρ) (request : ρ) : Nat → Slot σ → List Nat → Slot σ
  | _, s, [] => s
  | position, s, token :: tokens => m.rows request (position + 1) (m.advance request position s token) tokens

/-- A copy layer by layer that stops after `count` of them. -/
def copyLayers {σ : Type} (count : Nat) (source target : Slot σ) : Slot σ :=
  fun layer => if layer.val < count then source layer else target layer

/-- A ticket; no two have one number. -/
structure Ticket where
  number : Nat
  position : Nat
  tokens : List Nat
  deriving DecidableEq, Repr

/-- `phase`. -/
inductive EnginePhase
  | preparing | idle | verified | committing | failed | parked | closed
  deriving DecidableEq, Repr

/-- The bucket of a verified ticket: the engine's own, over the state that its trace started from, or a segment of a
packed block. -/
inductive Bucket (σ : Type)
  | sequential (entry : Slot σ)
  | packed (block segment : Nat)

/-- An engine with its session's pending ticket. -/
structure VerifierEngine (σ ρ : Type) where
  request : ρ
  phase : EnginePhase
  position : Nat
  pending : Option Ticket
  bucket : Option (Bucket σ)
  carry : Slot σ
  session : Option Ticket
  start : Nat
  committed : List Nat

/-- The state of the engine's request at its committed frontier. -/
def VerifierEngine.state {σ ρ : Type} (m : Recurrence σ ρ) (e : VerifierEngine σ ρ) : Slot σ :=
  m.rows e.request e.start (m.prefilled e.request) e.committed

/-- A segment that a block has verified: the engine whose carry it restored, the ticket, and the state it started
from. -/
structure PackedSegment (σ ρ : Type) where
  segment : Nat
  engine : Nat
  ticket : Ticket
  request : ρ
  entry : Slot σ

/-- A packed block, between its verify trace and its last commit. -/
structure Packed (σ ρ : Type) where
  failed : Bool
  pending : List (PackedSegment σ ρ)

/-- A replay of an engine's verify: the slot that it started from, and the state of the engine's request. -/
structure Replayed (σ : Type) where
  engine : Nat
  slot : Slot σ
  state : Slot σ

/-- The process. -/
structure Native (σ ρ : Type) where
  slot : Slot σ
  resident : Option Nat
  engines : Nat → Option (VerifierEngine σ ρ)
  blocks : Nat → Packed σ ρ
  issued : Nat
  replayed : List (Replayed σ)

/-- How a copy ends: complete, or raised after some layers. -/
abbrev Copy : Type := Option (Nat × PyError)

/-- How a trace on slot 0 ends: refused before it ran, raised over what it left in the slot, or returned. -/
inductive Trace (σ : Type)
  | refused (e : PyError)
  | raised (slot : Slot σ) (e : PyError)
  | returned

/-- The answers to a `verify`. -/
structure VerifyEnv (σ : Type) where
  captured : Bool
  bound : Except PyError Unit
  copy : Copy
  staged : Except PyError Unit
  trace : Trace σ
  readback : Except PyError Unit

/-- How a block's commit ends: raised after some layers of the carry, or returned; either way over what it left in the
slot. -/
inductive CommitTrace (σ : Type)
  | raised (count : Nat) (slot : Slot σ) (e : PyError)
  | returned (slot : Slot σ)

/-- The answers to a `publish`: the commit trace of a block of rows, or the check, the copy and the fence of a single
row, then the copy into the carry; or the packed block's commit. -/
structure PublishEnv (σ : Type) where
  commit : Trace σ
  bound : Except PyError Unit
  checkpoint : Copy
  sync : Except PyError Unit
  copy : Copy
  packed : CommitTrace σ

/-- How a packed verify ends: refused, raised before it claims the slot, raised or returned over what its trace left
there. -/
inductive PackedTrace (σ : Type)
  | refused (e : PyError)
  | staged (e : PyError)
  | raised (slot : Slot σ) (e : PyError)
  | returned (slot : Slot σ)

namespace Native

variable {σ ρ : Type}

/-- A process before its first engine. -/
def init (slot : Slot σ) : Native σ ρ := ⟨slot, none, fun _ => none, fun _ => ⟨false, []⟩, 0, []⟩

/-- An engine enters the process. -/
def put (w : Native σ ρ) (id : Nat) (e : VerifierEngine σ ρ) : Native σ ρ :=
  { w with engines := fun i => if i = id then some e else w.engines i }

/-- An engine changes. -/
def modify (w : Native σ ρ) (id : Nat) (f : VerifierEngine σ ρ → VerifierEngine σ ρ) : Native σ ρ :=
  { w with engines := fun i => if i = id then (w.engines i).map f else w.engines i }

/-- A block as it is now. -/
def putBlock (w : Native σ ρ) (block : Nat) (b : Packed σ ρ) : Native σ ρ :=
  { w with blocks := fun i => if i = block then b else w.blocks i }

/-- `note_prefill`, `note_packed_step`: the slot was rewritten, so nobody is resident. -/
def displace (w : Native σ ρ) (slot : Slot σ) : Native σ ρ := { w with slot := slot, resident := none }

/-- What a copy leaves in its target. -/
def copied (copy : Copy) (source target : Slot σ) : Slot σ :=
  match copy with
  | none => source
  | some (count, _) => copyLayers count source target

/-- How a copy ends. -/
def copyEnd (copy : Copy) : Except PyError Unit :=
  match copy with
  | none => .ok ()
  | some (_, e) => .error e

/-- `restore_carry`: claimed before the copy. -/
def restoreCarry (w : Native σ ρ) (id : Nat) (e : VerifierEngine σ ρ) (copy : Copy) : Call (Native σ ρ) Unit :=
  if w.resident = some id then Call.ret w ()
  else ⟨{ w with resident := some id, slot := copied copy e.carry w.slot }, copyEnd copy⟩

/-- `save_carry`: claimed before the copy. -/
def saveCarry (w : Native σ ρ) (id : Nat) (copy : Copy) : Call (Native σ ρ) Unit :=
  ⟨{ w with resident := some id }.modify id fun e => { e with carry := copied copy w.slot e.carry }, copyEnd copy⟩

/-! ## Tickets -/

/-- `GreedySession.propose`: a session without a ticket issues one at its frontier. -/
def propose (w : Native σ ρ) (id : Nat) (e : VerifierEngine σ ρ) (tokens : List Nat) : Native σ ρ :=
  if e.session = none then
    { w with issued := w.issued + 1 }.modify id fun e => { e with session := some ⟨w.issued, e.position, tokens⟩ }
  else w

/-- The session ends its ticket without a publication. -/
def withdraw (w : Native σ ρ) (id : Nat) : Native σ ρ := w.modify id fun e => { e with session := none }

/-! ## The engine's own verify and publish -/

/-- The checks of `verify`. -/
def verifyCheck (e : VerifierEngine σ ρ) (ticket : Ticket) (captured : Bool) : Except PyError Unit := do
  raiseIf (e.session ≠ some ticket) (.valueError "Another request or stale ticket")
  raiseIf (e.phase ≠ .idle ∨ e.pending ≠ none ∨ ticket.position ≠ e.position ∨ captured = false)
    (.valueError "An idle engine and its next supported request ticket are required")

/-- The trace of a verify, on what the observer records. -/
def replayTrace (m : Recurrence σ ρ) (w : Native σ ρ) (id : Nat) (e : VerifierEngine σ ρ) (ticket : Ticket)
    (trace : Trace σ) : Call (Native σ ρ) Unit :=
  match trace with
  | .refused err => Call.throw w err
  | .raised slot err =>
    Call.throw { w with slot := slot, replayed := w.replayed ++ [⟨id, w.slot, e.state m⟩] } err
  | .returned =>
    Call.ret { w with
      slot := m.rows e.request ticket.position w.slot ticket.tokens
      replayed := w.replayed ++ [⟨id, w.slot, e.state m⟩] } ()

/-- The `try` of `verify`: the state that the trace started from. -/
def verifyBody (m : Recurrence σ ρ) (w : Native σ ρ) (id : Nat) (e : VerifierEngine σ ρ) (ticket : Ticket)
    (env : VerifyEnv σ) : Call (Native σ ρ) (Slot σ) :=
  Call.attempt env.bound w fun _ =>
  (w.restoreCarry id e env.copy).bind fun w _ =>
  Call.attempt env.staged w fun _ =>
  (w.replayTrace m id e ticket env.trace).bind fun w' _ =>
  Call.attempt env.readback w' fun _ => Call.ret w' w.slot

/-- `verify`. -/
def verify (m : Recurrence σ ρ) (w : Native σ ρ) (id : Nat) (e : VerifierEngine σ ρ) (ticket : Ticket)
    (env : VerifyEnv σ) : Call (Native σ ρ) Unit :=
  Call.attempt (verifyCheck e ticket env.captured) w fun _ =>
  match (w.verifyBody m id e ticket env).result with
  | .ok entry =>
    Call.ret ((w.verifyBody m id e ticket env).obj.modify id fun e =>
      { e with phase := .verified, pending := some ticket, bucket := some (.sequential entry) }) ()
  | .error err =>
    Call.throw ((w.verifyBody m id e ticket env).obj.modify id fun e =>
      { e with phase := .failed, pending := some ticket, session := none }) err

/-- The retained block's commit: the state at the prefix is written into the slot, whatever it held. -/
def commitRows (m : Recurrence σ ρ) (w : Native σ ρ) (e : VerifierEngine σ ρ) (ticket : Ticket) (entry : Slot σ)
    (rows : Nat) (trace : Trace σ) : Call (Native σ ρ) Unit :=
  match trace with
  | .refused err => Call.throw w err
  | .raised slot err => Call.throw { w with slot := slot } err
  | .returned => Call.ret { w with slot := m.rows e.request ticket.position entry (ticket.tokens.take rows) } ()

/-- The commit of a single row: prefix 0 restores the state before it, prefix 1 leaves the slot alone. -/
def commitRow (w : Native σ ρ) (entry : Slot σ) (rows : Nat) (env : PublishEnv σ) : Call (Native σ ρ) Unit :=
  Call.attempt env.bound w fun _ =>
  (if rows = 0 then ⟨{ w with slot := copied env.checkpoint entry w.slot }, copyEnd env.checkpoint⟩
    else Call.ret w () : Call (Native σ ρ) Unit).bind fun w _ =>
  Call.attempt env.sync w fun _ => Call.ret w ()

/-- The engine once its ticket is published. -/
def published (ticket : Ticket) (rows : Nat) (e : VerifierEngine σ ρ) : VerifierEngine σ ρ :=
  { e with
    position := e.position + rows
    committed := e.committed ++ ticket.tokens.take rows
    phase := .idle
    pending := none
    bucket := none
    session := none }

/-- The engine's own publication. -/
def publishOwn (m : Recurrence σ ρ) (w : Native σ ρ) (id : Nat) (e : VerifierEngine σ ρ) (ticket : Ticket)
    (entry : Slot σ) (rows : Nat) (env : PublishEnv σ) : Call (Native σ ρ) Unit :=
  (if 1 < ticket.tokens.length then w.commitRows m e ticket entry rows env.commit
    else w.commitRow entry rows env).bind fun w _ =>
  w.saveCarry id env.copy

/-! ## Packed rounds -/

/-- An entry of a packed round: an idle engine at its ticket's position. -/
def packedEntry (w : Native σ ρ) (entry : Nat × Ticket × Nat) : Except PyError (PackedSegment σ ρ) :=
  match w.engines entry.1 with
  | none => .error (.valueError "Another request or stale ticket")
  | some e => do
    raiseIf (e.session ≠ some entry.2.1) (.valueError "Another request or stale ticket")
    raiseIf (e.phase ≠ .idle ∨ e.pending ≠ none ∨ entry.2.1.position ≠ e.position)
      (.valueError "Every packed entry needs an idle engine and a full ticket at its frontier")
    return ⟨entry.2.2, entry.1, entry.2.1, e.request, e.carry⟩

/-- The checks of the block's `verify`. -/
def packedCheck (w : Native σ ρ) (block : Nat) (entries : List (Nat × Ticket × Nat)) :
    Except PyError (List (PackedSegment σ ρ)) := do
  raiseIf ((w.blocks block).failed = true ∨ (w.blocks block).pending.isEmpty = false)
    (.valueError "An idle packed block is required: every segment of the last round must be committed")
  raiseIf (¬(entries.map fun entry => entry.2.2).Nodup)
    (.valueError "Two packed entries were admitted through the same pool slot")
  entries.mapM w.packedEntry

/-- The sessions of a failed round fail. -/
def failEntries (w : Native σ ρ) (entries : List (Nat × Ticket × Nat)) : Native σ ρ :=
  { w with engines := fun id => (w.engines id).map fun e =>
      if ∃ entry ∈ entries, entry.1 = id ∧ e.session = some entry.2.1 then { e with session := none } else e }

/-- `PackedVerifierEngine.verify`: each segment starts from its engine's carry; the slot is claimed before the trace. -/
def packedVerify (w : Native σ ρ) (block : Nat) (entries : List (Nat × Ticket × Nat)) (trace : PackedTrace σ) :
    Call (Native σ ρ) Unit :=
  Call.attempt (w.packedCheck block entries) w fun segments =>
  match trace with
  | .refused err => Call.throw w err
  | .staged err => Call.throw ((w.putBlock block ⟨true, []⟩).failEntries entries) err
  | .raised slot err => Call.throw (((w.displace slot).putBlock block ⟨true, []⟩).failEntries entries) err
  | .returned slot => Call.ret ((w.displace slot).putBlock block ⟨false, segments⟩) ()

/-- `PackedVerifierEngine.commit_user`: the state at the prefix goes into the carry, and the slot is nobody's. -/
def commitUser (m : Recurrence σ ρ) (w : Native σ ρ) (block segment rows : Nat) (trace : CommitTrace σ) :
    Call (Native σ ρ) Unit :=
  match (w.blocks block).pending.find? (fun s => s.segment = segment) with
  | none => Call.throw w (.valueError "Segment has no verified, uncommitted block")
  | some s =>
    if (w.blocks block).failed then Call.throw w (.valueError "Segment has no verified, uncommitted block")
    else match trace with
      | .raised count slot err =>
        Call.throw (((w.displace slot).putBlock block ⟨true, (w.blocks block).pending⟩).modify s.engine fun e =>
          { e with
            carry := copyLayers (if rows = 0 then 0 else count)
              (m.rows s.request s.ticket.position s.entry (s.ticket.tokens.take rows)) e.carry }) err
      | .returned slot =>
        Call.ret (((w.displace slot).putBlock block
            ⟨false, (w.blocks block).pending.filter fun s => s.segment ≠ segment⟩).modify s.engine fun e =>
          { e with
            carry := if rows = 0 then e.carry
              else m.rows s.request s.ticket.position s.entry (s.ticket.tokens.take rows) }) ()

/-- `adopt_packed`; `rows` says that the block's segments hold the ticket's rows. -/
def adoptPacked (w : Native σ ρ) (id : Nat) (e : VerifierEngine σ ρ) (ticket : Ticket) (block segment : Nat)
    (rows : Bool) : Call (Native σ ρ) Unit :=
  Call.attempt (do
      raiseIf (e.session ≠ some ticket) (.valueError "Another request or stale ticket")
      raiseIf (e.phase ≠ .idle ∨ e.pending ≠ none ∨ ticket.position ≠ e.position)
        (.valueError "Only an idle engine at the ticket frontier can adopt a packed verification")
      raiseIf (rows = false) (.valueError "A packed block segment holding exactly this ticket's rows is required"))
    w fun _ =>
  Call.ret (w.modify id fun e =>
    { e with phase := .verified, pending := some ticket, bucket := some (.packed block segment) }) ()

/-! ## Publish -/

/-- The checks of `publish`: the ticket. -/
def publishCheck (e : VerifierEngine σ ρ) (rows : Nat) : Except PyError Ticket :=
  match e.pending with
  | none => .error (.valueError "Publication requires the live verified ticket during its owner decision")
  | some ticket => do
    raiseIf (e.phase ≠ .verified ∨ e.session ≠ some ticket)
      (.valueError "Publication requires the live verified ticket during its owner decision")
    raiseIf (ticket.tokens.length < rows) (.valueError "Selected prefix outside verified block")
    return ticket

/-- The `try` of `publish`. -/
def publishBody (m : Recurrence σ ρ) (w : Native σ ρ) (id : Nat) (e : VerifierEngine σ ρ) (ticket : Ticket)
    (bucket : Bucket σ) (rows : Nat) (env : PublishEnv σ) : Call (Native σ ρ) Unit :=
  match bucket with
  | .sequential entry => w.publishOwn m id e ticket entry rows env
  | .packed block segment => w.commitUser m block segment rows env.packed

/-- `publish`, inside the session's decision. -/
def publish (m : Recurrence σ ρ) (w : Native σ ρ) (id : Nat) (e : VerifierEngine σ ρ) (rows : Nat)
    (env : PublishEnv σ) : Call (Native σ ρ) Unit :=
  Call.attempt (publishCheck e rows) w fun ticket =>
  match e.bucket with
  | none => Call.throw (w.modify id fun e => { e with phase := .committing, session := none }) .keyError
  | some bucket =>
    match (w.publishBody m id e ticket bucket rows env).result with
    | .ok () => Call.ret ((w.publishBody m id e ticket bucket rows env).obj.modify id (published ticket rows)) ()
    | .error err =>
      Call.throw ((w.publishBody m id e ticket bucket rows env).obj.modify id fun e =>
        { e with phase := .failed, session := none }) err

/-- `FastRequest.step`: the verify and, when it returned, the publication of the prefix decided, or of prefix 0 by an
abort. -/
def step (m : Recurrence σ ρ) (w : Native σ ρ) (id : Nat) (e : VerifierEngine σ ρ) (ticket : Ticket)
    (env : VerifyEnv σ) (rows : Nat) (publication : PublishEnv σ) : Call (Native σ ρ) Unit :=
  (w.verify m id e ticket env).bind fun w _ =>
  match w.engines id with
  | none => Call.ret w ()
  | some e => w.publish m id e rows publication

/-! ## Construction, parking, closing -/

/-- The engine is not resident any more. -/
def leave (w : Native σ ρ) (id : Nat) : Native σ ρ :=
  { w with resident := if w.resident = some id then none else w.resident }

/-- The end of a construction or a rebind: the carry is seeded from the slot. -/
def seed (w : Native σ ρ) (id : Nat) (copy : Copy) : Call (Native σ ρ) Unit :=
  match (w.saveCarry id copy).result with
  | .ok () => Call.ret ((w.saveCarry id copy).obj.modify id fun e => { e with phase := .idle }) ()
  | .error err => Call.throw ((w.saveCarry id copy).obj.modify id fun e => { e with phase := .failed }) err

/-- An engine of a request prefilled to a position, before its carry is seeded. -/
def preparing (request : ρ) (position : Nat) (carry : Slot σ) : VerifierEngine σ ρ :=
  ⟨request, .preparing, position, none, none, carry, none, position, []⟩

/-- `__init__`: the captures end on the state that they found in the slot; `raised` says that they raised, and what they
left there. A failed one closes itself, unless the fence of that raises too. -/
def construct (w : Native σ ρ) (id : Nat) (request : ρ) (position : Nat) (carry : Slot σ)
    (raised : Option (Slot σ × PyError)) (copy : Copy) (fenced : Bool) : Call (Native σ ρ) Unit :=
  match raised with
  | some (slot, err) =>
    Call.throw (((w.displace slot).put id (preparing request position carry)).modify id fun e =>
      { e with phase := if fenced then .closed else .failed }) err
  | none =>
    match (((w.displace w.slot).put id (preparing request position carry)).seed id copy).result with
    | .ok () => ((w.displace w.slot).put id (preparing request position carry)).seed id copy
    | .error err =>
      Call.throw (if fenced then
        ((((w.displace w.slot).put id (preparing request position carry)).seed id copy).obj.leave id).modify id fun e =>
          { e with phase := .closed }
        else (((w.displace w.slot).put id (preparing request position carry)).seed id copy).obj) err

/-- `park`; `refused` is `park_refusal`'s answer but for the phase and the pending ticket. -/
def park (w : Native σ ρ) (id : Nat) (e : VerifierEngine σ ρ) (fence : Except PyError Unit) (refused : Bool) :
    Call (Native σ ρ) Unit :=
  Call.attempt (do
      raiseIf (e.phase ∈ [EnginePhase.parked, .closed]) (.valueError "Only a live engine can park")
      raiseIf (e.phase ∉ [EnginePhase.idle, .preparing, .failed])
        (.valueError "Finish or abort the pending verifier block before closing")
      fence) w fun _ =>
  if e.phase ≠ .idle ∨ e.pending ≠ none ∨ refused = true then Call.ret w ()
  else Call.ret ((w.leave id).modify id fun e => { e with phase := .parked, session := none }) ()

/-- `rebind` of a parked engine to a request prefilled to a position; `checked` says that the request fits the captures,
`written` how the writes before the carry's end. -/
def rebind (w : Native σ ρ) (id : Nat) (e : VerifierEngine σ ρ) (request : ρ) (position : Nat)
    (checked written : Except PyError Unit) (copy : Copy) : Call (Native σ ρ) Unit :=
  Call.attempt (do
      raiseIf (e.phase ≠ .parked) (.valueError "Only a parked engine can be rebound")
      checked) w fun _ =>
  match written with
  | .error err => Call.throw (((w.displace w.slot).put id (preparing request position e.carry)).modify id fun e =>
      { e with phase := .failed }) err
  | .ok () => ((w.displace w.slot).put id (preparing request position e.carry)).seed id copy

/-- `close`; `raised` is an exception of its fence or of a release. -/
def close (w : Native σ ρ) (id : Nat) (e : VerifierEngine σ ρ) (raised : Option PyError) : Call (Native σ ρ) Unit :=
  if e.phase = .closed then Call.ret w ()
  else Call.attempt (raiseIf (e.phase ∉ [EnginePhase.idle, .preparing, .failed, .parked])
      (.valueError "Finish or abort the pending verifier block before closing")) w fun _ =>
  match raised with
  | some err => Call.throw w err
  | none => Call.ret ((w.leave id).modify id fun e => { e with phase := .closed, pending := none }) ()

end Native

end BlackholeQwen.Verifier
