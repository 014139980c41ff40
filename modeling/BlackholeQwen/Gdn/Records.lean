import BlackholeQwen.Lib.Call
import BlackholeQwen.Lib.Dict
import BlackholeQwen.Lib.Fence

/-!
# The retained block of a packed verifier (`scripts/ci/gdn_records.py`)

- `RetainedGDNBlock`: one decision per packed user and epoch, and the flags that arm a replay. The layers' records are
  their count (the checks read nothing else of them); whether a native binding moved and whether the layers share a
  mesh are outcomes of the calls (`validateBindings`, `boundMesh`).
- `World`: the block, the device queue of its publications with the tokens read of `commit_serial`, the publications
  that a round defers (`packed_verifier.py`, `execute_commit` and `flush_commits`), and what an observer of the epoch
  sees: the users decided and whether a publication raised since the last replay that completed, and at each call of a
  replay's operation the state it ran in (`Snapshot`).
- `commitUser`, `noteRoundFence`, `noteDeferredPublications`, `flushCommits`, `replay`, `close`: the methods, with the
  device's answers as arguments.
-/

namespace BlackholeQwen.Gdn

open Lib

/-! ## The block -/

/-- What armed the last replay: the drafts' fence or its own. -/
inductive ReplayFence
  | f9
  | replay
  deriving DecidableEq, Repr

/-- A retained block; `records` counts the layers retained. -/
structure RetainedGDNBlock where
  rows : Nat
  records : Nat
  segments : Option (List (Nat × Nat))
  decisions : Dict Nat Nat
  fastCommit : Bool
  poisoned : Bool
  selectedPrefix : Option (List Nat)
  replayReady : Bool
  replayEpoch : Nat
  closed : Bool
  roundFences : Bool
  fenceOwed : Bool
  commitSerial : Nat
  replayFence : Option ReplayFence

/-- A callback argument. -/
inductive Callback
  | none
  | uncallable
  | callable
  deriving DecidableEq, Repr

namespace RetainedGDNBlock

/-- A block as it is after its layers are appended, before any decision. -/
def fresh (rows records : Nat) (segments : Option (List (Nat × Nat))) (fastCommit roundFences : Bool) :
    RetainedGDNBlock where
  rows := rows
  records := records
  segments := segments
  decisions := Dict.empty
  fastCommit := fastCommit
  poisoned := false
  selectedPrefix := none
  replayReady := false
  replayEpoch := 0
  closed := false
  roundFences := roundFences
  fenceOwed := false
  commitSerial := 0
  replayFence := none

/-- How many users the block packs. -/
def users (b : RetainedGDNBlock) : Nat := (b.segments.getD []).length

/-- `validate_bindings`; `bound` says that every native address is the recorded one. -/
def validateBindings (bound : Bool) : Except PyError Unit :=
  raiseIf (bound = false) (.valueError "Native layer binding changed")

/-- `bound_mesh`; `one` says that the layers belong to one mesh. -/
def boundMesh (one : Bool) : Except PyError Unit :=
  raiseIf (one = false) (.valueError "All retained layers must belong to the same mesh")

/-- `validate_segment`: the user's span. -/
def validateSegment (b : RetainedGDNBlock) (segment : Int) : Except PyError (Nat × Nat) :=
  match b.segments with
  | none => .error (.valueError "Per-user commit applies to a packed block")
  | some spans =>
    if 0 ≤ segment then
      match spans[segment.toNat]? with
      | none => .error (.valueError "Packed user index outside the block")
      | some span => .ok span
    else .error (.valueError "Packed user index outside the block")

/-- The checks of `commit_user` on the block and its arguments. -/
def commitGuard (b : RetainedGDNBlock) (segment rows : Int) (dma : Bool) (publication : Callback) :
    Except PyError Unit := do
  raiseIf (b.closed = true ∨ b.poisoned = true ∨ b.records ≠ 48)
    (.valueError "Exactly one decision per user on a complete live block required")
  let span ← b.validateSegment segment
  raiseIf (¬(0 ≤ rows ∧ rows ≤ (span.2 : Int) - span.1)) (.valueError "Commit prefix outside the user's verified rows")
  raiseIf ((b.decisions.get? segment.toNat).isSome = true) (.valueError "Each packed user decides once per block")
  raiseIf (publication ≠ .none ∧ (dma = false ∨ publication ≠ .callable))
    (.valueError "A bound publication callback requires the DMA path")

/-- The binding check of `commit_user`: `fast_commit` keeps only the epoch's first, and a first one that this round's
replay has made is skipped under round fences. -/
def revalidate (b : RetainedGDNBlock) (validatedThisRound bound : Bool) : Except PyError Unit :=
  if (b.fastCommit = false ∨ b.decisions.items = []) ∧
      ¬(b.roundFences = true ∧ validatedThisRound = true ∧ b.decisions.items = []) then
    validateBindings bound
  else .ok ()

/-- The mesh that `commit_user` needs for the DMA path or a fence. -/
def commitMesh (dma synchronize one : Bool) : Except PyError Unit :=
  if dma = true ∨ synchronize = true then boundMesh one else .ok ()

/-- The decision recorded: `selected_prefix` once every user has one. -/
def decide (b : RetainedGDNBlock) (segment rows : Nat) : RetainedGDNBlock :=
  { b with
    decisions := b.decisions.set segment rows
    commitSerial := b.commitSerial + 1
    selectedPrefix :=
      if (b.decisions.set segment rows).items.length = b.users then
        (List.range b.users).mapM (b.decisions.set segment rows).get?
      else b.selectedPrefix
    replayReady := false
    fenceOwed := false }

/-- The checks of `replay` before its operation; `operation` says that it is callable. -/
def replayGuard (b : RetainedGDNBlock) (operation : Bool) : Except PyError Unit := do
  raiseIf (b.closed = true ∨ b.replayReady = false ∨ b.selectedPrefix = none ∨ b.records ≠ 48)
    (.valueError "A successfully synchronized commit is required before replay")
  raiseIf (operation = false) (.valueError "Bound trace replay operation required")

end RetainedGDNBlock

/-! ## The block with its device queue -/

/-- A user's accepted rows, published into that user's carry. -/
structure Publication where
  segment : Nat
  rows : Nat
  deriving DecidableEq, Repr

/-- What the observer of an epoch sees when a replay calls its operation. -/
structure Snapshot where
  decided : List Nat
  queue : List Publication
  raised : Bool
  deriving DecidableEq, Repr

/-- The block, the device queue, the publications deferred, and the observer's record. -/
structure World where
  block : RetainedGDNBlock
  line : Line Publication
  deferred : List Publication
  decided : List Nat
  raised : Bool
  ran : List Snapshot

/-- How a publication ends: on the queue, through it (a blocking trace), put off, or in an exception, with or without
some of it on the queue. -/
inductive Effect
  | enqueued
  | completed
  | deferred
  | raised (started : Bool) (e : PyError)
  deriving DecidableEq, Repr

/-- The arguments of `commit_user`. -/
structure CommitCall where
  segment : Int
  rows : Int
  dma : Bool
  publication : Callback
  synchronize : Bool
  validatedThisRound : Bool

/-- The device's answers to a `commit_user`; `sync` is the exception of its fence, if any. -/
structure CommitEnv where
  bound : Bool
  mesh : Bool
  effect : Effect
  sync : Option PyError

/-- What the operation of a replay is and does. -/
inductive Operation
  | uncallable
  | enqueued
  | returned
  | raised (e : PyError)
  deriving DecidableEq, Repr

/-- The operation of a replay and the device's answers to the replay. -/
structure ReplayEnv where
  owedMesh : Bool
  owedSync : Option PyError
  operation : Operation
  bound : Bool
  mesh : Bool
  sync : Option PyError
  boundAfter : Bool

namespace World

/-- A world before any decision on its block. -/
def start (b : RetainedGDNBlock) : World := ⟨b, Line.idle, [], [], false, []⟩

/-- `operations.synchronize_device`: a fence that completes or raises. -/
def synchronizeDevice (w : World) (sync : Option PyError) : Call World Unit :=
  match sync with
  | some e => Call.throw w e
  | none => Call.ret { w with line := w.line.fence } ()

/-- The decision of `commit_user`, in the block and for the observer. -/
def decide (w : World) (segment rows : Nat) : World :=
  { w with block := w.block.decide segment rows, decided := w.decided ++ [segment] }

/-- The publication of a decision: none for prefix zero; one that raises poisons the block. -/
def publish (w : World) (p : Publication) (effect : Effect) : Call World Unit :=
  if p.rows = 0 then Call.ret w ()
  else match effect with
    | .enqueued => Call.ret { w with line := w.line.enqueue [p] } ()
    | .completed => Call.ret { w with line := (w.line.enqueue [p]).drain } ()
    | .deferred => Call.ret { w with deferred := w.deferred ++ [p] } ()
    | .raised started e =>
      Call.throw { w with
        block := { w.block with poisoned := true }
        line := w.line.enqueue (if started then [p] else [])
        raised := true } e

/-- The fence of a `synchronize=True` decision: owed under round fences, else made now. -/
def settle (w : World) (synchronize : Bool) (sync : Option PyError) : Call World Unit :=
  if synchronize = false then Call.ret w ()
  else if w.block.roundFences = true then
    Call.ret { w with block := { w.block with fenceOwed := w.block.selectedPrefix.isSome } } ()
  else (w.synchronizeDevice sync).bind fun w _ =>
    Call.ret { w with block := { w.block with replayReady := w.block.selectedPrefix.isSome } } ()

/-- `commit_user`. -/
def commitUser (w : World) (c : CommitCall) (env : CommitEnv) : Call World Unit :=
  Call.attempt (w.block.commitGuard c.segment c.rows c.dma c.publication) w fun _ =>
  Call.attempt (w.block.revalidate c.validatedThisRound env.bound) w fun _ =>
  Call.attempt (RetainedGDNBlock.commitMesh c.dma c.synchronize env.mesh) w fun _ =>
  ((w.decide c.segment.toNat c.rows.toNat).publish ⟨c.segment.toNat, c.rows.toNat⟩ env.effect).bind fun w _ =>
  w.settle c.synchronize env.sync

/-- `note_round_fence`: a completed fence pays the owed one, unless a decision came after the token. -/
def noteRoundFence (w : World) (token : Nat) : World × Bool :=
  if w.block.roundFences = true ∧ w.block.fenceOwed = true ∧ token = w.block.commitSerial ∧ w.block.closed = false ∧
      w.block.poisoned = false ∧ w.block.selectedPrefix.isSome = true ∧ w.block.records = 48 then
    ({ w with block := { w.block with fenceOwed := false, replayReady := true, replayFence := some .f9 } }, true)
  else (w, false)

/-- `note_deferred_publications`: the fence is owed again, past every token. -/
def noteDeferredPublications (w : World) : Call World Unit :=
  if w.block.roundFences = false then Call.throw w (.valueError "Deferred publications need the round fences")
  else Call.ret { w with
    block := { w.block with
      commitSerial := w.block.commitSerial + 1
      replayReady := false
      fenceOwed := w.block.selectedPrefix.isSome } } ()

/-- `PackedVerifierEngine.flush_commits`: the deferred publications are enqueued and noted, or dropped by a block that
is poisoned or closed or whose engine failed. -/
def flushCommits (w : World) (failed : Bool) : Call World Unit :=
  if w.deferred = [] then Call.ret w ()
  else if failed = true ∨ w.block.poisoned = true ∨ w.block.closed = true then Call.ret { w with deferred := [] } ()
  else noteDeferredPublications { w with line := w.line.enqueue w.deferred, deferred := [] }

/-- `fence_at_replay`: the owed fence, paid here. -/
def fenceAtReplay (w : World) (mesh : Bool) (sync : Option PyError) : Call World Unit :=
  if w.block.fenceOwed = true ∧ w.block.closed = false ∧ w.block.poisoned = false ∧
      w.block.selectedPrefix.isSome = true ∧ w.block.records = 48 then
    Call.attempt (RetainedGDNBlock.boundMesh mesh) w fun _ =>
    (w.synchronizeDevice sync).bind fun w _ =>
    Call.ret { w with
      block := { w.block with fenceOwed := false, replayReady := true, replayFence := some .replay } } ()
  else Call.ret w ()

/-- A replay that is not ready pays the owed fence under round fences. -/
def armReplay (w : World) (env : ReplayEnv) : Call World Unit :=
  if w.block.roundFences = true ∧ w.block.replayReady = false then w.fenceAtReplay env.owedMesh env.owedSync
  else Call.ret w ()

/-- The operation of a replay, called on what the observer records. -/
def operate (w : World) (operation : Operation) : Call World Unit :=
  let w := { w with ran := w.ran ++ [⟨w.decided, w.line.queue, w.raised⟩] }
  match operation with
  | .uncallable => Call.throw w .typeError
  | .raised e => Call.throw w e
  | .returned =>
    Call.throw w (.runtimeError "Replay operation must return None after enqueueing the bound trace")
  | .enqueued => Call.ret w ()

/-- The end of a replay: without round fences a fence and a check, then the next epoch. -/
def endReplay (w : World) (env : ReplayEnv) : Call World Unit :=
  (if w.block.roundFences = true then Call.ret w ()
    else (w.synchronizeDevice env.sync).bind fun w _ =>
      Call.attempt (RetainedGDNBlock.validateBindings env.boundAfter) w fun _ => Call.ret w ()).bind fun w _ =>
  Call.ret { w with
    block := { w.block with
      selectedPrefix := none
      decisions := Dict.empty
      replayEpoch := w.block.replayEpoch + 1 }
    decided := []
    raised := false } ()

/-- `replay`. -/
def replay (w : World) (env : ReplayEnv) : Call World Unit :=
  (w.armReplay env).bind fun w _ =>
  Call.attempt (w.block.replayGuard (env.operation != .uncallable)) w fun _ =>
  let w := { w with block := { w.block with replayReady := false } }
  Call.attempt (RetainedGDNBlock.validateBindings env.bound) w fun _ =>
  Call.attempt (RetainedGDNBlock.boundMesh env.mesh) w fun _ =>
  (w.operate env.operation).bind fun w _ =>
  w.endReplay env

/-- `close`; `release` is the exception of `release_owned`, if any. -/
def close (w : World) (release : Option PyError) : Call World Unit :=
  if w.block.closed = true then Call.ret w ()
  else match release with
    | some e => Call.throw w e
    | none => Call.ret { w with
        block := { w.block with
          records := 0
          decisions := Dict.empty
          replayReady := false
          fenceOwed := false
          closed := true } } ()

end World

end BlackholeQwen.Gdn
