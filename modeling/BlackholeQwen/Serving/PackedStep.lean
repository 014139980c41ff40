import BlackholeQwen.Lib.Groups
import BlackholeQwen.Packed.Protocol
import BlackholeQwen.Serving.FastRequest
import Mathlib.Data.List.Sort

/-!
# The packed device step (`serving_packed_step.py`)

- `proposalRows`: the width that the live requests draft, before a round; `ineligible`: why a block cannot serve a
  round's entries, at the step.
- `narrowRound`, `failRound`, `refuseRound`, `sequentialPackedStep` (`serving_sequential_step.py`), `runVerifiedBlock`
  with `commitEntry`: what becomes of entries.
- `packedDeviceStep` and `packedDeviceRounds`: one block's round, and a round over several blocks.

Requests and blocks are objects, named by numbers. What the device, the drafters and the caller's cancellation callback
answer is the environment's, by the tick of the world's clock. `handled` is the observer's: who handled each entry.
-/

namespace BlackholeQwen.Serving

open Lib Speculative Packed

/-! ## The world of a step -/

/-- A request: its transaction, the carry and the page table of its engine, and `engine.serves`: whether the engine's
captures hold so many rows at a position; `none` for an engine without it. `adopted` is the block and the segment that
verified the ticket which the engine holds. -/
structure PackedOwner where
  request : FastRequest
  engine : Engine
  serves : Option (GreedySession → Nat → Nat → Bool)
  adopted : Option (Nat × Nat)

/-- A configured block, and whether its K/V write runs one chain per user. -/
structure ServingBlock where
  engine : PackedVerifierEngine
  kvChains : Bool

/-- An entry of a round. -/
structure PackedEntry where
  requestId : String
  request : Nat
  ticket : BlockTicket
  deriving DecidableEq, Repr

/-- Who handles an entry. -/
inductive Handler
  | verified (block : Nat)
  | sequential
  | refused (block : Nat)
  deriving DecidableEq, Repr

/-- An entry that was handled: its request, and who handled it. -/
structure Handled where
  requestId : String
  request : Nat
  handler : Handler
  deriving DecidableEq, Repr

/-- The requests, the blocks, the request quarantine, the clock, and what has been handled. -/
structure PackedWorld where
  owners : Nat → PackedOwner
  blocks : Nat → ServingBlock
  quarantined : List String
  clock : Nat
  handled : List Handled

/-- A publication through a block: what comes before and after the block's commit. -/
structure PackedPublication where
  before : Except PyError Unit
  commit : BlockCommitEnv
  after : Except PyError Unit

/-- The environment's answers: `forcedCap` is `forced_cap`, `quarantine` whether the quarantine's consumer is installed;
`adopt` stands for the engine's own checks, `checked` for the diagnostic of the sequential step, `reported` for the
records and log lines that a step ends with. -/
structure PackedStepEnv where
  sentinels : Bool
  ladder : Option Bool
  forcedCap : Except PyError (Option Nat)
  quarantine : Bool
  cancelled : Nat → Except PyError Bool
  verify : Nat → VerifyEnv
  predictions : Nat → List (List Token)
  adopt : Nat → Except PyError Unit
  publication : Nat → PackedPublication
  recovery : Nat → PackedPublication
  release : Nat → Nat → BlockCommitEnv
  step : Nat → StepEnv
  checked : Nat → Except PyError Unit
  reported : Nat → Except PyError Unit
  ident : Nat → Nat

namespace PackedEntry

/-- Its request, named and by identity. -/
def key (e : PackedEntry) : String × Nat := (e.requestId, e.request)

end PackedEntry

/-- The request of a handled entry. -/
def Handled.key (h : Handled) : String × Nat := (h.requestId, h.request)

namespace PackedWorld

/-- The environment has answered. -/
def tick (w : PackedWorld) : PackedWorld := { w with clock := w.clock + 1 }

/-- A request changes. -/
def setRequest (w : PackedWorld) (i : Nat) (r : FastRequest) : PackedWorld :=
  { w with owners := Function.update w.owners i { w.owners i with request := r } }

/-- A block changes. -/
def setBlock (w : PackedWorld) (b : Nat) (e : PackedVerifierEngine) : PackedWorld :=
  { w with blocks := Function.update w.blocks b { w.blocks b with engine := e } }

/-- The observer, when entries are handed to a handler. -/
def handle (w : PackedWorld) (handler : Handler) (entries : List PackedEntry) : PackedWorld :=
  { w with handled := w.handled ++ entries.map fun e => ⟨e.requestId, e.request, handler⟩ }

/-- The block of a number. -/
def block (w : PackedWorld) (b : Nat) : PackedBlock := (w.blocks b).engine.block

/-! ## The policy -/

/-- The first of the blocks that a request's engine is bound to. -/
def matched (w : PackedWorld) (blocks : List Nat) (request : Nat) : Option Nat :=
  blocks.find? fun b => ((w.block b).segmentOf (w.owners request).engine).isOk

/-- A live request, as the guards of a proposal read it: its engine and its frontier. -/
def frontier (w : PackedWorld) (request : Nat) : Engine × Nat :=
  ((w.owners request).engine, (w.owners request).request.session.position)

/-- The padded checks of a block's group at a proposal: the idle slot rule and page 0. -/
def proposalPadded (w : PackedWorld) (b : Nat) (group : List Nat) : Except PyError Bool :=
  if group.length = (w.block b).shape.users then .ok true
  else ((w.block b).roundRefusal (group.map w.frontier)).map fun refusal => refusal = none

/-- `kv_shared_at_proposal`, where the block chains its K/V write. -/
def proposalChains (env : PackedStepEnv) (w : PackedWorld) (b : Nat) (group : List Nat) : Except PyError Bool :=
  if (w.blocks b).kvChains then
    ((w.block b).kvGuard env.sentinels (group.map w.frontier)).map fun reason => reason = none
  else .ok true

/-- Whether a block serves its group of live requests as one round: its count, each one's budget and frontier, and the
padded checks before the chained K/V write's. -/
def proposalGroup (env : PackedStepEnv) (w : PackedWorld) (b : Nat) (group : List Nat) : Except PyError Bool :=
  if group.length ≠ (w.block b).shape.users ∧ (w.block b).pads group.length = false then .ok false
  else if ∃ r ∈ group, (w.owners r).request.session.maxNewTokens - (w.owners r).request.session.emitted.length <
      (w.block b).shape.rowsPerUser ∨
      (w.block b).admits env.ladder (w.owners r).request.session.position = false then .ok false
  else proposalPadded w b group >>= fun clear =>
    if clear then proposalChains env w b group else .ok false

/-- The width of a round whose groups are checked in turn. -/
def proposalWidth (env : PackedStepEnv) (w : PackedWorld) : List (Nat × List Nat) → Option Nat →
    Except PyError (Option Nat)
  | [], width => .ok width
  | group :: groups, width =>
    if width.any (fun rows => rows ≠ (w.block group.1).shape.rowsPerUser) then .ok none
    else proposalGroup env w group.1 group.2 >>= fun served =>
      if served then proposalWidth env w groups (some (w.block group.1).shape.rowsPerUser) else .ok none

/-- The width that the live requests draft, each bound to one of the blocks. -/
def proposalLive (env : PackedStepEnv) (w : PackedWorld) (blocks live : List Nat) : Except PyError (Option Nat) :=
  if live = [] ∨ (groupBy (w.matched blocks) live).2 ≠ [] then .ok none
  else proposalWidth env w (groupBy (w.matched blocks) live).1.items none

/-- `proposal_rows`: the width that every live request drafts, if the blocks will serve the round. -/
def proposalRows (env : PackedStepEnv) (w : PackedWorld) (blocks requests : List Nat) : Except PyError (Option Nat) :=
  proposalLive env w blocks (requests.filter fun r => (w.owners r).request.session.finished = false)

/-! ## Eligibility -/

end PackedWorld

/-- Why a round does not go to the block: `ineligible`, or a cancellation before the verify. -/
inductive Ineligible
  | count (entries users : Nat)
  | rows (requestId : String) (rows rowsPerUser : Nat)
  | unbound (requestId : String)
  | outside (requestId : String) (position : Nat)
  | padded (reason : Refusal)
  | kv (reason : KvReason)
  | cancelled
  deriving DecidableEq, Repr

namespace PackedWorld

/-- An entry, as the guards of the step read it: its engine and its ticket's position. -/
def ticketed (w : PackedWorld) (e : PackedEntry) : Engine × Nat := ((w.owners e.request).engine, e.ticket.position)

/-- The checks of one entry. -/
def entryRefusal (env : PackedStepEnv) (w : PackedWorld) (b : Nat) (e : PackedEntry) : Option Ineligible :=
  if e.ticket.rows ≠ (w.block b).shape.rowsPerUser then
    some (.rows e.requestId e.ticket.rows (w.block b).shape.rowsPerUser)
  else if ((w.block b).segmentOf (w.owners e.request).engine).isOk = false then some (.unbound e.requestId)
  else if (w.block b).extent = true ∧ (w.block b).admits env.ladder e.ticket.position = false then
    some (.outside e.requestId e.ticket.position)
  else none

/-- The padded checks of the step. -/
def steppedPadded (w : PackedWorld) (b : Nat) (entries : List PackedEntry) : Except PyError (Option Ineligible) :=
  if entries.length = (w.block b).shape.users then .ok none
  else ((w.block b).roundRefusal (entries.map w.ticketed)).map fun refusal => refusal.map .padded

/-- `kv_shared`, where the block chains its K/V write. -/
def steppedChains (env : PackedStepEnv) (w : PackedWorld) (b : Nat) (entries : List PackedEntry) :
    Except PyError (Option Ineligible) :=
  if (w.blocks b).kvChains then
    ((w.block b).kvGuard env.sentinels (entries.map w.ticketed)).map fun reason => reason.map .kv
  else .ok none

/-- `ineligible`: why the block cannot serve this round as one pass. -/
def ineligible (env : PackedStepEnv) (w : PackedWorld) (b : Nat) (entries : List PackedEntry) :
    Except PyError (Option Ineligible) :=
  if entries.length ≠ (w.block b).shape.users ∧ (w.block b).pads entries.length = false then
    .ok (some (.count entries.length (w.block b).shape.users))
  else match entries.findSome? (entryRefusal env w b) with
    | some reason => .ok (some reason)
    | none => steppedPadded w b entries >>= fun padded =>
      match padded with
      | some reason => .ok (some reason)
      | none => steppedChains env w b entries

/-- Whether the captures of an entry's own engine hold its ticket; an engine without `serves` is not asked. -/
def servable (w : PackedWorld) (e : PackedEntry) : Bool :=
  match (w.owners e.request).serves with
  | none => true
  | some serves => serves (w.owners e.request).request.session e.ticket.rows e.ticket.position

/-- `unservable`: the entries whose ticket no capture of their own engine holds. -/
def unservable (w : PackedWorld) (entries : List PackedEntry) : List PackedEntry :=
  entries.filter fun e => w.servable e = false

/-! ## Narrowing -/

/-- `NARROW_WIDTHS`. -/
def narrowWidths : List Nat := [32, 16, 8, 4, 2, 1]

/-- `servable_width`: the widest cut of a ticket that its engine serves. -/
def servableWidth (w : PackedWorld) (e : PackedEntry) : Option Nat :=
  match (w.owners e.request).serves with
  | none => none
  | some serves => narrowWidths.find? fun rows =>
    rows ≤ e.ticket.rows && serves (w.owners e.request).request.session rows e.ticket.position

/-- The width that each entry is cut to, if it has to be; the first that nothing narrower serves is an error. -/
def narrowPlan (w : PackedWorld) (entries : List PackedEntry) : Except PackedEntry (List (Option Nat)) :=
  entries.mapM fun e =>
    if w.servable e then .ok none
    else match w.servableWidth e with
      | none => .error e
      | some width => .ok (some width)

end PackedWorld

/-- What `narrow_round` leaves: the entries with their tickets, and the one that could not be cut, if one could not. -/
structure Narrowed where
  world : PackedWorld
  entries : List PackedEntry
  refused : Option PackedEntry

/-- One more entry before these. -/
def Narrowed.cons (e : PackedEntry) (n : Narrowed) : Narrowed := { n with entries := e :: n.entries }

namespace PackedWorld

/-- `session.narrow` of an entry's ticket. -/
def narrowTicket (env : PackedStepEnv) (w : PackedWorld) (e : PackedEntry) (width : Nat) :
    Call GreedySession BlockTicket :=
  (w.owners e.request).request.session.narrow e.requestId e.ticket width (env.ident w.clock)

/-- The request of an entry takes a session. -/
def setSession (w : PackedWorld) (e : PackedEntry) (session : GreedySession) : PackedWorld :=
  w.setRequest e.request { (w.owners e.request).request with session }

/-- The cuts, in order; a session that refuses ends them. -/
def narrowEntries (env : PackedStepEnv) : PackedWorld → List (PackedEntry × Option Nat) → Narrowed
  | w, [] => ⟨w, [], none⟩
  | w, (e, none) :: rest => (narrowEntries env w rest).cons e
  | w, (e, some width) :: rest =>
    match (w.narrowTicket env e width).result with
    | .error _ => ⟨w.tick, e :: rest.map Prod.fst, some e⟩
    | .ok ticket =>
      (narrowEntries env (w.tick.setSession e (w.narrowTicket env e width).obj) rest).cons { e with ticket }

/-- `narrow_round`: every width is planned before any session changes. -/
def narrowRound (env : PackedStepEnv) (w : PackedWorld) (entries : List PackedEntry) : Narrowed :=
  match w.narrowPlan entries with
  | .error e => ⟨w, entries, some e⟩
  | .ok widths => narrowEntries env w (entries.zip widths)

/-! ## Publications -/

/-- The block's commit of a ticket that it verified. -/
def commitBlock (w : PackedWorld) (i rows : Nat) (env : BlockCommitEnv) : Call PackedWorld Unit :=
  match (w.owners i).adopted with
  | none => Call.ret w ()
  | some held => ((w.blocks held.1).engine.commitUser held.2 rows env).onto (w.setBlock held.1)

/-- The engine holds a ticket that a block verified, or none. -/
def setAdopted (w : PackedWorld) (i : Nat) (held : Option (Nat × Nat)) : PackedWorld :=
  { w with owners := Function.update w.owners i { w.owners i with adopted := held } }

/-- `runtime.publish` of `rows` rows: the block's commit, between what else it does. -/
def publish (w : PackedWorld) (i rows : Nat) (p : PackedPublication) : Call PackedWorld Unit :=
  Call.attempt p.before w fun _ =>
  (w.commitBlock i rows p.commit).bind fun w _ =>
  Call.attempt p.after w fun _ => Call.ret (w.setAdopted i none) ()

/-- What a publication answers to its session, and the phase that it leaves the engine in. -/
def publicationOf (c : Call PackedWorld Unit) : Publication :=
  match c.result with
  | .ok () => ⟨.returnsNone, .idle⟩
  | .error e => ⟨.raises e, .failed⟩

/-- `session.abort(request_id, ticket, runtime.publish)`, once the publication is called. -/
def abortWith (e : PackedEntry) (c : Call PackedWorld Unit) : Call PackedWorld Unit :=
  ((c.obj.owners e.request).request.abort e.requestId e.ticket (publicationOf c)).onto (c.obj.setRequest e.request)

/-- `session.abort(request_id, ticket, runtime.publish)`. -/
def abortEntry (w : PackedWorld) (e : PackedEntry) (p : PackedPublication) : Call PackedWorld Unit :=
  Call.attempt ((w.owners e.request).request.session.abortGuard e.requestId e.ticket .returnsNone) w fun _ =>
  abortWith e (w.publish e.request 0 p)

/-- `session.commit(request_id, ticket, rows, runtime.publish, max_rows)`, once the publication is called. -/
def commitWith (e : PackedEntry) (rows : List Token) (maxRows : Option Nat) (c : Call PackedWorld Unit) :
    Call PackedWorld Speculative.Decision :=
  ((c.obj.owners e.request).request.session.commit e.requestId e.ticket rows (publicationOf c).answer maxRows).onto
    fun session => c.obj.setRequest e.request
      { (c.obj.owners e.request).request with session, engine := (publicationOf c).engine }

/-- `session.commit(request_id, ticket, rows, runtime.publish, max_rows)`. -/
def commitRows (w : PackedWorld) (e : PackedEntry) (rows : List Token) (maxRows : Option Nat)
    (p : PackedPublication) : Call PackedWorld Speculative.Decision :=
  Call.attempt
    ((w.owners e.request).request.session.commitDecision e.requestId e.ticket rows .returnsNone maxRows) w fun d =>
  commitWith e rows maxRows (w.publish e.request d.stateRows p)

/-! ## Failing and refusing a round -/

/-- The session of an entry takes a phase. -/
def setPhase (w : PackedWorld) (e : PackedEntry) (phase : Phase) : PackedWorld :=
  w.setSession e { (w.owners e.request).request.session with phase }

/-- `fail_round`, of one entry: an adopted ticket is aborted, whatever that answers, and its session failed; another's
verification fails. -/
def failEntry (env : PackedStepEnv) (w : PackedWorld) (e : PackedEntry) : Call PackedWorld Unit :=
  if (w.owners e.request).request.session.phase ≠ .pending ∨
      (w.owners e.request).request.session.pending ≠ some e.ticket then Call.ret w ()
  else if (w.owners e.request).request.engine = .verified then
    Call.ret ((w.tick.abortEntry e (env.recovery w.clock)).obj.setPhase e .failed) ()
  else ((w.owners e.request).request.session.failVerification e.requestId e.ticket).onto (w.setSession e)

/-- Every entry in turn. -/
def failEntries (env : PackedStepEnv) (w : PackedWorld) : List PackedEntry → Call PackedWorld Unit
  | [] => Call.ret w ()
  | e :: entries => (failEntry env w e).bind fun w _ => failEntries env w entries

/-- Decide segments at prefix 0, whatever each answers. -/
def releaseSegments (env : Nat → BlockCommitEnv) (w : PackedWorld) (b : Nat) (segments : List Nat) : PackedWorld :=
  segments.foldl (fun w (segment : Nat) =>
    w.setBlock b ((w.blocks b).engine.commitUser segment 0 (env segment)).obj) w

/-- `fail_round`: every entry, then every segment still undecided. -/
def failRound (env : PackedStepEnv) (w : PackedWorld) (b : Nat) (entries : List PackedEntry) : Call PackedWorld Unit :=
  (failEntries env w entries).bind fun w _ =>
  Call.ret (w.tick.releaseSegments (env.release w.clock) b
    ((List.range (w.block b).shape.users).filter fun s => s ∈ (w.blocks b).engine.pendingSegments)) ()

/-- `abort_refused`: with the quarantine's consumer, every entry is registered and its session marked finished. -/
def abortRefused (env : PackedStepEnv) (w : PackedWorld) (entries : List PackedEntry) : PackedWorld :=
  if env.quarantine = true ∧ ∀ e ∈ entries, e.requestId ≠ "" then
    entries.foldl (fun w e => ({ w with quarantined := w.quarantined ++ [e.requestId] } : PackedWorld).setSession e
      { (w.owners e.request).request.session with finished := true }) w
  else w

/-- `refuse_round`. -/
def refuseRound (env : PackedStepEnv) (w : PackedWorld) (b : Nat) (entries : List PackedEntry) :
    Call PackedWorld (List CommittedOutput) :=
  (failRound env (w.handle (.refused b) entries) b entries).bind fun w _ =>
  Call.ret (abortRefused env w entries) (entries.map fun e =>
    ⟨e.requestId, [], ((abortRefused env w entries).owners e.request).request.session.position, true, true⟩)

/-! ## The sequential step -/

/-- One entry of `sequential_packed_step`. -/
def stepEntry (env : PackedStepEnv) (w : PackedWorld) (e : PackedEntry) : Call PackedWorld CommittedOutput :=
  Call.attempt (raiseIf (e.ticket.requestId ≠ e.requestId)
    (.valueError "Each packed entry must carry its own prepared ticket")) w fun _ =>
  (((w.owners e.request).request.step e.ticket.requestId (env.step w.clock)).onto fun r =>
    (w.tick.handle .sequential [e]).setRequest e.request r).bind fun w out =>
  Call.attempt (do
      raiseIf (out.requestId ≠ e.requestId) (.valueError "A packed request must commit its own output")
      env.checked w.clock) w fun _ => Call.ret w.tick out

/-- The entries in turn. -/
def stepEntries (env : PackedStepEnv) (w : PackedWorld) : List PackedEntry → Call PackedWorld (List CommittedOutput)
  | [] => Call.ret w []
  | e :: entries =>
    (stepEntry env w e).bind fun w out => (stepEntries env w entries).map fun outputs => out :: outputs

/-- `sequential_packed_step`. -/
def sequentialPackedStep (env : PackedStepEnv) (w : PackedWorld) (entries : List PackedEntry) :
    Call PackedWorld (List CommittedOutput) :=
  Call.attempt (do
      raiseIf (entries = []) (.valueError "A packed step needs at least one admitted request")
      env.checked w.clock) w fun _ => stepEntries env w.tick entries

/-! ## The block's round -/

/-- `accept_limit`. -/
def acceptLimit (b : PackedBlock) (position : Nat) : Except PyError (Option Nat) :=
  if b.extent then (Attention.acceptLimit position b.shape.rowsPerUser).map some else .ok none

/-- `commit_limit`. -/
def commitLimit (env : PackedStepEnv) (w : PackedWorld) (b : Nat) (ticket : BlockTicket) :
    Except PyError (Option Nat) := do
  let limit ← acceptLimit (w.block b) ticket.position
  let forced ← env.forcedCap
  return match forced with
    | none => limit
    | some forced => some (min (limit.getD ticket.rows) forced)

/-- The commit of an entry or, on a cancellation, its abort. -/
def decideEntry (env : PackedStepEnv) (w : PackedWorld) (e : PackedEntry) (rows : List Token) (maxRows : Option Nat)
    (cancelled : Bool) : Call PackedWorld CommittedOutput :=
  if cancelled then
    (w.tick.abortEntry e (env.publication w.clock)).bind fun w _ =>
    Call.ret (w.setRequest e.request { (w.owners e.request).request with cancelled := true })
      ⟨e.requestId, [], (w.owners e.request).request.session.position, true, true⟩
  else
    (w.tick.commitRows e rows maxRows (env.publication w.clock)).bind fun w d =>
    Call.ret w ⟨e.requestId, d.emitted, (w.owners e.request).request.session.position,
      (w.owners e.request).request.session.finished, false⟩

/-- `engine.adopt_packed`: verified on the block, in this segment. -/
def adoptPacked (w : PackedWorld) (b : Nat) (e : PackedEntry) (segment : Nat) : PackedWorld :=
  (w.setRequest e.request { (w.owners e.request).request with engine := .verified }).setAdopted e.request
    (some (b, segment))

/-- `commit_entry`. -/
def commitEntry (env : PackedStepEnv) (w : PackedWorld) (b : Nat) (e : PackedEntry) (segment : Nat)
    (rows : List Token) : Call PackedWorld CommittedOutput :=
  Call.attempt (do
      (w.owners e.request).request.session.checkTicket (w.owners e.request).request.session.requestId e.ticket
      env.adopt w.clock) w fun _ =>
  Call.attempt (commitLimit env w b e.ticket) (w.tick.adoptPacked b e segment) fun limit =>
  Call.attempt (env.cancelled w.tick.clock) (w.tick.adoptPacked b e segment) fun cancelled =>
  (decideEntry env (w.tick.tick.adoptPacked b e segment) e rows limit cancelled).bind fun w out =>
  Call.attempt (env.reported w.clock) w fun _ => Call.ret w.tick out

/-- The commits of a verified block, in the entries' order, each at its segment. -/
def commitEntries (env : PackedStepEnv) (w : PackedWorld) (b : Nat) :
    List (PackedEntry × Nat × List Token) → Call PackedWorld (List CommittedOutput)
  | [] => Call.ret w []
  | p :: rest =>
    (commitEntry env w b p.1 p.2.1 p.2.2).bind fun w out =>
    (commitEntries env w b rest).map fun outputs => out :: outputs

/-- The `try` of `run_verified_block`. -/
def verifiedBody (env : PackedStepEnv) (w : PackedWorld) (b : Nat) (entries : List PackedEntry) :
    Call PackedWorld (List CommittedOutput) :=
  (((w.blocks b).engine.verify (entries.map w.ticketed) (env.verify w.clock)).onto (w.tick.setBlock b)).bind fun w' _ =>
  Call.attempt ((w.block b).roundSegments (entries.map w.ticketed)) w' fun segments =>
  Call.attempt (raiseIf ((env.predictions w.clock).length ≠ entries.length ∨ segments.length ≠ entries.length)
    (.valueError "The packed block must return one prediction list and one segment per entry")) w' fun _ =>
  (commitEntries env w' b (entries.zip (segments.zip (env.predictions w.clock)))).bind fun w' outputs =>
  Call.attempt (env.reported w'.clock) w' fun _ => Call.ret w'.tick outputs

/-- `request.busy = busy`, of every entry. -/
def setBusy (w : PackedWorld) (entries : List PackedEntry) (busy : Bool) : PackedWorld :=
  entries.foldl (fun w e => w.setRequest e.request { (w.owners e.request).request with busy }) w

/-- The `except` clause of `run_verified_block`. -/
def recoverRound (env : PackedStepEnv) (w : PackedWorld) (b : Nat) (entries : List PackedEntry) (e : PyError) :
    Call PackedWorld (List CommittedOutput) :=
  (failRound env w b entries).bind fun w _ => Call.throw w e

/-- The body of `run_verified_block` with its `except` clause. -/
def verifiedRound (env : PackedStepEnv) (w : PackedWorld) (b : Nat) (entries : List PackedEntry) :
    Call PackedWorld (List CommittedOutput) :=
  match (verifiedBody env w b entries).result with
  | .ok _ => verifiedBody env w b entries
  | .error e => recoverRound env (verifiedBody env w b entries).obj b entries e

/-- `run_verified_block`. -/
def runVerifiedBlock (env : PackedStepEnv) (w : PackedWorld) (b : Nat) (entries : List PackedEntry) :
    Call PackedWorld (List CommittedOutput) :=
  Call.mk
    ((verifiedRound env ((w.handle (.verified b) entries).setBusy entries true) b entries).obj.setBusy entries false)
    (verifiedRound env ((w.handle (.verified b) entries).setBusy entries true) b entries).result

/-! ## The round -/

/-- `validate_packed_entries`. -/
def validatePackedEntries (w : PackedWorld) (entries : List PackedEntry) : Except PyError Unit :=
  entries.forM fun e => do
    raiseIf (e.ticket.requestId ≠ e.requestId) (.valueError "Each packed entry must carry its own prepared ticket")
    raiseIf ((w.owners e.request).request.closed = true ∨ (w.owners e.request).request.busy = true ∨
        (w.owners e.request).request.cancelled = true ∨
        (w.owners e.request).request.session.pending ≠ some e.ticket)
      (.valueError "One live owner with its prepared ticket required for every packed entry")

/-- What becomes of a block's group: its own round, or refused, or left, with the tickets that it then has, to the
sequential step. -/
inductive Served
  | outputs (outputs : List CommittedOutput)
  | left (entries : List PackedEntry)

/-- A group that `ineligible` gave a reason for. -/
def serveIneligible (env : PackedStepEnv) (w : PackedWorld) (b : Nat) (entries : List PackedEntry) :
    Call PackedWorld Served :=
  if w.unservable entries = [] then Call.ret w (.left entries)
  else match (narrowRound env w entries).refused with
    | some _ => (refuseRound env (narrowRound env w entries).world b (narrowRound env w entries).entries).map .outputs
    | none => Call.ret (narrowRound env w entries).world (.left (narrowRound env w entries).entries)

/-- One block's group, of a round over one block or several. -/
def serveGroup (env : PackedStepEnv) (w : PackedWorld) (b : Nat) (entries : List PackedEntry) :
    Call PackedWorld Served :=
  Call.attempt (ineligible env w b entries) w fun reason =>
  match reason with
  | some _ => serveIneligible env w b entries
  | none =>
    Call.attempt (env.cancelled w.clock) w fun cancelled =>
    if cancelled then Call.ret w.tick (.left entries)
    else (runVerifiedBlock env w.tick b entries).map .outputs

/-- `packed_device_step`. -/
def packedDeviceStep (env : PackedStepEnv) (w : PackedWorld) (entries : List PackedEntry) (b : Nat) :
    Call PackedWorld (List CommittedOutput) :=
  Call.attempt (do
      raiseIf (entries = []) (.valueError "A packed step needs at least one admitted request")
      w.validatePackedEntries entries) w fun _ =>
  (serveGroup env w b entries).bind fun w served =>
  match served with
  | .outputs outputs => Call.ret w outputs
  | .left entries => sequentialPackedStep env w entries

/-- What the blocks' rounds have left so far: the sequential entries, and the outputs by request. -/
structure Rounds where
  sequential : List PackedEntry
  outputs : Dict String CommittedOutput

/-- A group has been served. -/
def Rounds.add (rounds : Rounds) : Served → Rounds
  | .outputs outputs => { rounds with outputs := record CommittedOutput.requestId rounds.outputs outputs }
  | .left entries => { rounds with sequential := rounds.sequential ++ entries }

/-- The blocks' own rounds, in their configured order. -/
def blockRounds (env : PackedStepEnv) (groups : Dict Nat (List PackedEntry)) : List Nat → PackedWorld → Rounds →
    Call PackedWorld Rounds
  | [], w, rounds => Call.ret w rounds
  | b :: blocks, w, rounds =>
    match groups.get? b with
    | none => blockRounds env groups blocks w rounds
    | some group => (serveGroup env w b group).bind fun w served => blockRounds env groups blocks w (rounds.add served)

/-- The sequential batch of a round, back in the round's own order. -/
def inOrder (ids : List String) (entries : List PackedEntry) : List PackedEntry :=
  entries.insertionSort fun a b => ids.idxOf a.requestId ≤ ids.idxOf b.requestId

/-- The sequential part of `packed_device_rounds`. -/
def sequentialRounds (env : PackedStepEnv) (w : PackedWorld) (ids : List String) (rounds : Rounds) :
    Call PackedWorld (Dict String CommittedOutput) :=
  if rounds.sequential = [] then Call.ret w rounds.outputs
  else (sequentialPackedStep env w (inOrder ids rounds.sequential)).map
    (record CommittedOutput.requestId rounds.outputs)

/-- `packed_device_rounds`. -/
def packedDeviceRounds (env : PackedStepEnv) (w : PackedWorld) (entries : List PackedEntry) (blocks : List Nat) :
    Call PackedWorld (List CommittedOutput) :=
  Call.attempt (do
      raiseIf (entries = []) (.valueError "A packed step needs at least one admitted request")
      raiseIf (blocks = [])
        (.valueError "A cancellation callback and at least one packed verify block are required")
      w.validatePackedEntries entries) w fun _ =>
  (blockRounds env (groupBy (fun e => w.matched blocks e.request) entries).1 blocks w
    ⟨(groupBy (fun e => w.matched blocks e.request) entries).2, Dict.empty⟩).bind fun w rounds =>
  (sequentialRounds env w (entries.map PackedEntry.requestId) rounds).bind fun w outputs =>
  Call.attempt (gather outputs (entries.map PackedEntry.requestId)) w fun outputs => Call.ret w outputs

end PackedWorld

end BlackholeQwen.Serving
