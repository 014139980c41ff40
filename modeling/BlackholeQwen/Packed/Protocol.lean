import BlackholeQwen.Gdn.Records
import BlackholeQwen.Packed.Guard
import Mathlib.Data.Finset.Basic
import Mathlib.Data.Finset.Dedup

/-!
# The rounds of a packed verifier (`packed_verifier.py`)

`PackedVerifierEngine` over its retained block (`Gdn.World`): `verify` runs one trace for every segment and decides the
idle ones, `commitUser` decides one segment, `armDeferredCommits` and `flushCommits` put a round's commit traces off.

`Round` is what an observer of the device sees between two verify traces: who was live and where, the decisions with the
fence that each asks for, in order, and where on the device queue it began, from which its commit traces are read
(`Round.traces`); a commit that raises fails the block and is no decision. What sessions, tickets, staging and readback
answer is an argument.
-/

namespace BlackholeQwen.Packed

open Lib Gdn

/-- `phase`. -/
inductive BlockPhase
  | idle | verifying | verified | failed | closed
  deriving DecidableEq, Repr

/-- A decision: its segment, its prefix, and whether it synchronises. -/
structure Decision where
  segment : Nat
  rows : Nat
  synchronize : Bool
  deriving DecidableEq, Repr

/-- A round, from its verify trace to the next; `first` is how much the queue had been given at its verify trace. -/
structure Round where
  live : List (Nat × Nat)
  decisions : List Decision
  first : Nat
  deriving DecidableEq, Repr

namespace Round

/-- The round with one more decision. -/
def decide (r : Round) (d : Decision) : Round := { r with decisions := r.decisions ++ [d] }

/-- The commit traces of the round, on a queue that has been given `sent`. -/
def traces (r : Round) (sent : List Publication) : List Publication := sent.drop r.first

/-- The commit traces that the decisions ask for. -/
def publications (r : Round) : List Publication :=
  (r.decisions.filter fun d => d.rows ≠ 0).map fun d => ⟨d.segment, d.rows⟩

end Round

/-- `PackedVerifierEngine`; `world` is its retained block with the commits it deferred, `past` and `current` are the
observer's, a past round with what the queue was given before the next verify trace. -/
structure PackedVerifierEngine where
  block : PackedBlock
  gdnAfterPairs : Bool
  pipelinedCommits : Bool
  roundFences : Bool
  phase : BlockPhase
  first : Bool
  pendingSegments : Finset Nat
  idleSegments : List Nat
  roundStarts : List (Nat × Nat)
  validatedThisRound : Bool
  deferArmed : Bool
  deferring : Bool
  world : World
  past : List (Round × List Publication)
  current : Option Round

/-- The device's answers to a commit: `trace` says that its trace raised, and whether it had started. -/
structure BlockCommitEnv where
  bound : Bool
  mesh : Bool
  trace : Option (Bool × PyError)
  sync : Option PyError

/-- What a `verify` meets: a flush that raises and how many traces it had enqueued, the checks of each entry's session
and ticket, the context ladder's simulation, the staging, the trace of a first round and its fence, the
replay of a later one, the readback, and its commits of the idle segments. -/
structure VerifyEnv where
  flush : Option (Nat × PyError)
  ticket : Nat → Except PyError Unit
  ladder : Option Bool
  staged : Except PyError Unit
  firstTrace : Except PyError Unit
  firstFence : Except PyError Unit
  replay : ReplayEnv
  readback : Except PyError Unit
  idle : Nat → BlockCommitEnv

namespace PackedVerifierEngine

/-- A block that has been captured and has served no round; `afterPairs` asks for deferred commits, which need the round
fences. -/
def start (block : PackedBlock) (afterPairs pipelinedCommits roundFences fastCommit : Bool) :
    PackedVerifierEngine where
  block
  gdnAfterPairs := afterPairs && roundFences
  pipelinedCommits
  roundFences
  phase := .idle
  first := true
  pendingSegments := ∅
  idleSegments := []
  roundStarts := []
  validatedThisRound := false
  deferArmed := false
  deferring := false
  world := World.start (RetainedGDNBlock.fresh block.shape.blockRows 48
    (some ((List.range block.shape.users).map fun user =>
      (user * block.shape.rowsPerUser, (user + 1) * block.shape.rowsPerUser))) fastCommit roundFences)
  past := []
  current := none

/-! ## Commits -/

/-- `segment_rows`: the segment's index. -/
def segmentIndex (e : PackedVerifierEngine) (segment : Int) : Except PyError Nat := do
  raiseIf (¬(0 ≤ segment ∧ segment < e.block.shape.users)) (.valueError "Segment outside the packed block")
  return segment.toNat

/-- `check_segment`. -/
def checkSegment (e : PackedVerifierEngine) (segment : Int) : Except PyError Nat := do
  let index ← e.segmentIndex segment
  raiseIf (e.phase ≠ .verified ∨ index ∉ e.pendingSegments)
    (.valueError ("Segment " ++ toString index ++ " has no verified, uncommitted block"))
  return index

/-- `check_extent_cap`. -/
def checkExtentCap (e : PackedVerifierEngine) (segment rows : Nat) : Except PyError Unit :=
  if rows = 0 ∨ segment ∈ e.idleSegments then .ok ()
  else match e.roundStarts.lookup segment with
    | none => .error (.valueError ("Packed extent segment " ++ toString segment ++ " at None commits at most None " ++
        "rows; prefix " ++ toString rows ++ " refused"))
    | some start => do
      let limit ← Attention.acceptLimit start e.block.shape.rowsPerUser
      raiseIf (limit < rows) (.valueError ("Packed extent segment " ++ toString segment ++ " at " ++ toString start ++
        " commits at most " ++ toString limit ++ " rows; prefix " ++ toString rows ++ " refused"))

/-- The checks of `commit_user`; the value is the segment and the prefix. -/
def commitCheck (e : PackedVerifierEngine) (segment rows : Int) : Except PyError (Nat × Nat) := do
  raiseIf (e.idleSegments.any (fun i => (i : Int) = segment) = true ∧ rows ≠ 0)
    (.valueError ("Idle segment " ++ toString segment ++ " of a padded round commits nothing; prefix " ++
      toString rows ++ " refused"))
  let index ← e.checkSegment segment
  raiseIf (¬(0 ≤ rows ∧ rows ≤ e.block.shape.rowsPerUser)) (.valueError "Selected prefix outside the user segment")
  if e.block.extent then e.checkExtentCap index rows.toNat
  return (index, rows.toNat)

/-- `execute_commit`: put off, or run in the block's mode. -/
def commitEffect (e : PackedVerifierEngine) (env : BlockCommitEnv) : Effect :=
  if e.deferring then .deferred
  else match env.trace with
    | some (started, err) => .raised started err
    | none => if e.pipelinedCommits then .enqueued else .completed

/-- `last`: the decision that will empty `pending_segments`. -/
def isLast (e : PackedVerifierEngine) (segment : Nat) : Bool := e.pendingSegments = {segment}

/-- The retained block's part of `commit_user`. -/
def commitBlock (e : PackedVerifierEngine) (segment rows : Nat) (env : BlockCommitEnv) : Call World Unit :=
  e.world.commitUser ⟨segment, rows, true, .callable, e.isLast segment, e.roundFences && e.validatedThisRound⟩
    ⟨env.bound, env.mesh, e.commitEffect env, env.sync⟩

/-- The engine after the decision of a segment. -/
def decided (e : PackedVerifierEngine) (segment rows : Nat) (w : World) : PackedVerifierEngine :=
  { e with
    world := w
    pendingSegments := e.pendingSegments.erase segment
    phase := if e.pendingSegments.erase segment = ∅ then .idle else e.phase
    current := e.current.map fun r => r.decide ⟨segment, rows, e.isLast segment⟩ }

/-- `commit_user`. -/
def commitUser (e : PackedVerifierEngine) (segment rows : Int) (env : BlockCommitEnv) :
    Call PackedVerifierEngine Unit :=
  Call.attempt (e.commitCheck segment rows) e fun p =>
  match (e.commitBlock p.1 p.2 env).result with
  | .error err => Call.throw { e with phase := .failed, world := (e.commitBlock p.1 p.2 env).obj } err
  | .ok () => Call.ret (e.decided p.1 p.2 (e.commitBlock p.1 p.2 env).obj) ()

/-- `arm_deferred_commits`. -/
def armDeferredCommits (e : PackedVerifierEngine) : PackedVerifierEngine × Bool :=
  if e.gdnAfterPairs then ({ e with deferArmed := true }, true) else (e, false)

/-- `flush_commits`; `raised` says that it raised and how many traces it had enqueued. -/
def flushCommits (e : PackedVerifierEngine) (raised : Option (Nat × PyError)) : Call PackedVerifierEngine Nat :=
  if e.world.deferred = [] then Call.ret { e with deferArmed := false, deferring := false } 0
  else if e.phase = .failed ∨ e.phase = .closed ∨ e.world.block.poisoned = true ∨ e.world.block.closed = true then
    Call.ret { e with deferArmed := false, deferring := false, world := { e.world with deferred := [] } } 0
  else match raised with
    | some (count, err) =>
      Call.throw { e with
        deferArmed := false
        deferring := false
        phase := .failed
        world := { e.world with
          block := { e.world.block with poisoned := true }
          line := e.world.line.enqueue (e.world.deferred.take count)
          deferred := [] } } err
    | none =>
      ((e.world.flushCommits false).onto fun w =>
        { e with deferArmed := false, deferring := false, world := w }).map fun _ => e.world.deferred.length

/-! ## Verify -/

/-- The checks of an entry's session and ticket, and `admits` of its position. -/
def checkTickets (e : PackedVerifierEngine) (owners : List (Engine × Nat)) (env : VerifyEnv) : Except PyError Unit :=
  owners.zipIdx.forM fun owner => do
    env.ticket owner.2
    raiseIf (e.block.admits env.ladder owner.1.2 = false)
      (.valueError ("Packed ticket at " ++ toString owner.1.2 ++
        if e.block.extent then " is outside the extent path" else " leaves the block's native chunk family"))

/-- `segment_users`, as `padded_refusal` reads them: each owner's position and table at its segment. -/
def segmentUsers (e : PackedVerifierEngine) (owners : List (Engine × Nat)) (segments : List Nat) :
    List (Option (Nat × Table)) :=
  (owners.zip segments).foldl (fun users p => users.set p.2 (some (p.1.2, p.1.1.pages)))
    (List.replicate e.block.shape.users none)

/-- `round_starts` of an extent block: every segment's start, live and idle. -/
def startsOf (e : PackedVerifierEngine) (live : List (Nat × Nat)) : Except PyError (List (Nat × Nat)) :=
  if e.block.extent = false then .ok e.roundStarts
  else if (e.block.idleSegments (live.map Prod.fst)).isEmpty then .ok live
  else (e.block.idleInputs (live.map Prod.fst)).map fun fills => live ++ fills.map fun f => (f.1, f.2.start)

/-- The checks of `verify` before anything is staged: the live segments with their positions, and `round_starts`. -/
def verifyCheck (e : PackedVerifierEngine) (owners : List (Engine × Nat)) (env : VerifyEnv) :
    Except PyError (List (Nat × Nat) × List (Nat × Nat)) := do
  raiseIf (e.phase ≠ .idle)
    (.valueError "An idle packed block is required: every segment of the last round must be committed")
  let segments ← e.block.roundSegments owners
  e.checkTickets owners env
  raiseIf ((e.block.idleSegments segments).isEmpty = false ∧
      e.block.paddedRefusal (e.segmentUsers owners segments) ≠ none)
    (.valueError "The padded packed block cannot serve this round")
  let starts ← e.startsOf (segments.zip (owners.map Prod.snd))
  return (segments.zip (owners.map Prod.snd), starts)

/-- The observer, when a verify trace runs: what the queue has been given since the last one is that round's. -/
def opened (e : PackedVerifierEngine) (live : List (Nat × Nat)) : PackedVerifierEngine :=
  { e with
    past := e.past ++ e.current.toList.map fun r => (r, r.traces e.world.line.sent)
    current := some ⟨live, [], e.world.line.sent.length⟩ }

/-- The verify trace: run and fenced in the first round, a replay of the retained block later. -/
def runTrace (e : PackedVerifierEngine) (live : List (Nat × Nat)) (env : VerifyEnv) : Call PackedVerifierEngine Unit :=
  if e.first then
    Call.attempt env.firstTrace (e.opened live) fun () =>
    Call.attempt env.firstFence (e.opened live) fun () =>
    Call.ret (e.opened live) ()
  else
    ((e.world.replay env.replay).onto fun w =>
      if w.ran.length = e.world.ran.length then { e with world := w }
      else ({ e with world := w } : PackedVerifierEngine).opened live).bind fun e _ =>
    Call.ret { e with validatedThisRound := e.roundFences } ()

/-- The round is verified: every segment is pending. -/
def arrived (e : PackedVerifierEngine) (live : List (Nat × Nat)) : PackedVerifierEngine :=
  { e with
    first := false
    pendingSegments := (live.map Prod.fst).toFinset ∪ (e.block.idleSegments (live.map Prod.fst)).toFinset
    idleSegments := e.block.idleSegments (live.map Prod.fst)
    phase := .verified
    deferring := if e.gdnAfterPairs then e.deferArmed else e.deferring
    deferArmed := if e.gdnAfterPairs then false else e.deferArmed
    world := if e.gdnAfterPairs then { e.world with deferred := [] } else e.world }

/-- `verify` decides the idle segments at prefix 0. -/
def commitIdle (e : PackedVerifierEngine) (env : Nat → BlockCommitEnv) : List Nat → Call PackedVerifierEngine Unit
  | [] => Call.ret e ()
  | segment :: segments => (e.commitUser segment 0 (env segment)).bind fun e _ => commitIdle e env segments

/-- The `try` of `verify`. -/
def verifyBody (e : PackedVerifierEngine) (live : List (Nat × Nat)) (env : VerifyEnv) :
    Call PackedVerifierEngine Unit :=
  Call.attempt env.staged e fun () =>
  (e.runTrace live env).bind fun e _ =>
  Call.attempt env.readback e fun () =>
  (e.arrived live).commitIdle env.idle (e.block.idleSegments (live.map Prod.fst))

/-- The engine as the `try` of `verify` finds it. -/
def verifying (e : PackedVerifierEngine) (starts : List (Nat × Nat)) : PackedVerifierEngine :=
  { e with phase := .verifying, validatedThisRound := false, roundStarts := starts }

/-- The backstop of `verify`: commits that the last round deferred go ahead of its trace. -/
def flushFirst (e : PackedVerifierEngine) (raised : Option (Nat × PyError)) : Call PackedVerifierEngine Nat :=
  if e.world.deferred = [] then Call.ret e 0 else e.flushCommits raised

/-- `verify` of these owners, each at its ticket's position. -/
def verify (e : PackedVerifierEngine) (owners : List (Engine × Nat)) (env : VerifyEnv) :
    Call PackedVerifierEngine Unit :=
  (e.flushFirst env.flush).bind fun e _ =>
  Call.attempt (e.verifyCheck owners env) e fun p =>
  match ((e.verifying p.2).verifyBody p.1 env).result with
  | .ok () => Call.ret ((e.verifying p.2).verifyBody p.1 env).obj ()
  | .error err => Call.throw { ((e.verifying p.2).verifyBody p.1 env).obj with phase := .failed } err

end PackedVerifierEngine

end BlackholeQwen.Packed
