import BlackholeQwen.Packed.Guard
import BlackholeQwen.Packed.Protocol
import BlackholeQwen.Lib.Writes

/-!
# Staging a packed round (`packed_verifier.py`, `verify_prestage.py`)

Before each verify the inputs of a block's captured trace are written into the fixture's buffers. A buffer is its
address, and the memory holds what was last written to each.

- `PackedUser`, `packedHostInputs`, `packedValues`: the host half of `stage_packed`, every check and every value. The
  rotary tables are a parameter, by position.
- `Staging`: the write epoch, the memory, the host page tables and the blocks; `writePacked` and `stagePacked` are the
  device half.
- `prestage`, `usable`, `stage`, `auditRound`: the methods of `BlockPrestage`; `verifyStage` is what `verify` does with
  them.
-/

namespace BlackholeQwen.Packed

open Lib

/-! ## The values of a round -/

/-- `dtype`. -/
inductive Dtype
  | uint32 | int32 | bfloat16
  deriving DecidableEq, Repr

/-- `layout`. -/
inductive Layout
  | rowMajor | tile
  deriving DecidableEq, Repr

/-- The entries of a tensor: integers, or rows of a rotary table. -/
inductive Entries (ρ : Type)
  | ints (values : List Int)
  | rotary (rows : List ρ)
  deriving DecidableEq, Repr

/-- A host tensor with the signature that it is staged under. -/
structure HostValue (ρ : Type) where
  dtype : Dtype
  layout : Layout
  shape : List Nat
  entries : Entries ρ
  deriving DecidableEq, Repr

namespace HostValue

variable {ρ : Type}

/-- A row-major tensor of integers. -/
def words (dtype : Dtype) (shape : List Nat) (values : List Int) : HostValue ρ :=
  ⟨dtype, .rowMajor, shape, .ints values⟩

/-- Rows of page tables. -/
def pageRows (rows : List (List Int)) : HostValue ρ :=
  words .int32 [rows.length, (rows.head?.map List.length).getD 0] rows.flatten

/-- A vector of integers. -/
def vector (values : List Nat) : HostValue ρ := words .int32 [values.length] (values.map Int.ofNat)

end HostValue

/-- A user of a round: `(tokens, start, pages)`. -/
structure PackedUser where
  tokens : List Nat
  start : Nat
  pages : Table
  deriving DecidableEq, Repr

/-- A user's part of the host inputs. -/
structure HostInputs where
  tokens : List Nat
  positions : List Nat
  pages : List (List Int)
  deriving DecidableEq, Repr

/-- `validate_tokens`. -/
def validateTokens (tokens : List Nat) (rows start vocabSize capacity : Nat) : Except PyError Unit := do
  raiseIf (rows ∉ [1, 2, 4, 8, 16, 32] ∨ tokens.length ≠ rows)
    (.valueError "Ticket must match the captured verifier bucket")
  raiseIf (capacity < start + rows) (.valueError "Ticket positions exceed the captured page-table capacity")
  raiseIf (∃ token ∈ tokens, vocabSize ≤ token) (.valueError "Token outside target vocabulary")

/-- A user's host inputs: its rows, and its table once for each of them. -/
def userInputs (shape : PackedShape) (vocabSize : Nat) (user : PackedUser) : Except PyError HostInputs := do
  validateTokens user.tokens shape.rowsPerUser user.start vocabSize shape.capacity
  match user.pages with
  | some [row] =>
    raiseIf (row.length ≠ shape.pageWidth)
      (.valueError "Each packed user stages its own (1, page_width) int32 page table")
    return ⟨user.tokens, List.range' user.start shape.rowsPerUser, List.replicate shape.rowsPerUser row⟩
  | _ => .error (.valueError "Each packed user stages its own (1, page_width) int32 page table")

/-- `packed_host_inputs`: the users' inputs, segment by segment. -/
def packedHostInputs (shape : PackedShape) (vocabSize : Nat) (users : List (Option PackedUser)) :
    Except PyError (List HostInputs) := do
  raiseIf (users.length ≠ shape.users ∨ none ∈ users)
    (.valueError "One (tokens, start, pages) per segment required")
  (users.filterMap id).mapM (userInputs shape vocabSize)

/-- A user's replay reader. `metadata` is the size of each bundle of rows, with its page tables; `curPos` is an extent
reader's. -/
structure ReplayReader where
  extent : Bool
  rows : Nat
  capacity : Nat
  pageWidth : Nat
  positions : Nat
  metadata : List (Nat × Nat)
  curPos : List Nat
  start : Option Nat
  closed : Bool
  failed : Bool
  deriving DecidableEq, Repr

/-- A 32-row tile of the cache write. -/
structure CacheTile where
  first : Nat
  last : Nat
  positions : Nat
  pages : Nat
  deriving DecidableEq, Repr

/-- The captured fixture: the addresses of its buffers, the signatures that they were captured with, and its readers. -/
structure Fixture where
  rows : Nat
  tokens : Nat
  positions : Nat
  cos : Nat
  sin : Nat
  pages : Nat
  singletonPositions : List Nat
  rowPages : List Nat
  cacheTiles : List CacheTile
  kvChains : Bool
  readers : Option (List ReplayReader)
  signature : Nat → Dtype × Layout × List Nat

namespace ReplayReader

variable {ρ : Type}

/-- `validate`; `ladder` as in `validateTicket`. -/
def validate (r : ReplayReader) (ladder : Option Bool) (start : Nat) : Except PyError Unit := do
  raiseIf (r.closed = true) (.runtimeError "Replay reader is closed")
  raiseIf (r.failed = true) (.runtimeError "Replay reader is poisoned after a failed operation")
  if r.extent then
    raiseIf (r.capacity < start + r.rows) (.valueError "Extent ticket must fit its full-width table")
  else Attention.validateTicket ladder start r.rows r.capacity false

/-- The first entries of a user's table, once for each row of a bundle. -/
def bundlePages (row : List Int) (width count : Nat) : HostValue ρ :=
  HostValue.pageRows (List.replicate count (row.take width))

/-- `stage_values` of an extent reader: its word, and the last key and the table of each bundle. -/
def extentStage (r : ReplayReader) (start : Nat) (row : List Int) : Except PyError (List (Nat × HostValue ρ)) := do
  raiseIf (row.length < r.pageWidth) (.valueError "One complete host page table required")
  raiseIf (r.metadata.length ≠ r.curPos.length) (.valueError "zip() argument lengths differ")
  return (r.positions, HostValue.vector ((Attention.extentValues start).1 :: List.replicate 7 0)) ::
    (r.metadata.zip r.curPos).flatMap fun bundle =>
      [(bundle.2, HostValue.vector (List.replicate bundle.1.1 (Attention.extentValues start).2)),
        (bundle.1.2, bundlePages row r.pageWidth bundle.1.1)]

/-- A user's values in its reader, once the reader takes its start. -/
def stageValues (r : ReplayReader) (ladder : Option Bool) (start : Nat) (row : List Int) :
    Except PyError (List (Nat × HostValue ρ)) := do
  r.validate ladder start
  if r.extent then r.extentStage start row
  else return (r.positions, HostValue.vector (start :: List.replicate 7 0)) ::
    r.metadata.map fun bundle => (bundle.2, bundlePages row (r.capacity / BLOCK_SIZE) bundle.1)

end ReplayReader

/-- The values that depend on the positions and the tables alone: each row's, and each tile's. -/
def rowValues {ρ : Type} (f : Fixture) (positions : List Nat) (pages : List (List Int)) : List (Nat × HostValue ρ) :=
  (f.singletonPositions.zipIdx.map fun d => (d.1, HostValue.vector ((positions.drop d.2).take 1))) ++
  (f.rowPages.zipIdx.map fun d => (d.1, HostValue.pageRows ((pages.drop d.2).take 1))) ++
  f.cacheTiles.flatMap fun t =>
    [(t.positions, HostValue.vector ((positions.drop t.first).take (t.last - t.first))),
      (t.pages, HostValue.pageRows ((pages.drop t.first).take (t.last - t.first)))]

/-- The checks of the fixture against the shape. -/
def fixtureCheck (f : Fixture) (shape : PackedShape) : Except PyError Unit := do
  raiseIf (f.rows ≠ shape.blockRows ∨ f.singletonPositions.length ≠ shape.blockRows ∨
      f.rowPages.length ≠ shape.blockRows)
    (.valueError "Every per-row attention position and page table of the block must be retained")
  raiseIf (f.readers.any (fun readers => readers.length ≠ shape.users))
    (.valueError "One replay reader per packed user required")
  raiseIf (f.cacheTiles ≠ [] ∧ (shape.blockRows ≤ TILE_HEIGHT ∨ shape.blockRows % TILE_HEIGHT ≠ 0 ∨
      f.cacheTiles.map (fun t => (t.first, t.last)) ≠
        (List.range (shape.blockRows / TILE_HEIGHT)).map fun i => (i * TILE_HEIGHT, (i + 1) * TILE_HEIGHT)))
    (.valueError "The cache tiles must cover the block in 32-row tiles")

/-- The guard of the chained K/V write. -/
def chainGuard (inputs : List HostInputs) : Except PyError Unit := do
  let conflict ← kvConflict (inputs.map fun i => (i.positions, i.pages.headD []))
  raiseIf (conflict ≠ none) (.valueError "The chained K/V write needs disjoint cache tile rows")

/-- The guard, where it is asked for and the write is chained. -/
def guardCheck (guard : Bool) (f : Fixture) (inputs : List HostInputs) : Except PyError Unit :=
  if guard ∧ f.kvChains then chainGuard inputs else .ok ()

/-- The model's rotary tables by position, their width, and its vocabulary. -/
structure StagingModel (ρ : Type) where
  cos : Nat → ρ
  sin : Nat → ρ
  ropeDim : Nat
  vocabSize : Nat

/-- The values of the whole block. -/
def blockValues {ρ : Type} (m : StagingModel ρ) (f : Fixture) (inputs : List HostInputs) : List (Nat × HostValue ρ) :=
  [(f.tokens, HostValue.words .uint32 [(inputs.flatMap HostInputs.tokens).length, 1]
      ((inputs.flatMap HostInputs.tokens).map Int.ofNat)),
    (f.positions, HostValue.vector (inputs.flatMap HostInputs.positions)),
    (f.cos, ⟨.bfloat16, .tile, [1, (inputs.flatMap HostInputs.positions).length, 1, m.ropeDim],
      .rotary ((inputs.flatMap HostInputs.positions).map m.cos)⟩),
    (f.sin, ⟨.bfloat16, .tile, [1, (inputs.flatMap HostInputs.positions).length, 1, m.ropeDim],
      .rotary ((inputs.flatMap HostInputs.positions).map m.sin)⟩),
    (f.pages, HostValue.pageRows (inputs.flatMap HostInputs.pages))] ++
  rowValues f (inputs.flatMap HostInputs.positions) (inputs.flatMap HostInputs.pages)

/-- The values of the readers, each with its user's. -/
def readerValues {ρ : Type} (ladder : Option Bool) (readers : List ReplayReader) (users : List PackedUser) :
    Except PyError (List (Nat × HostValue ρ)) := do
  raiseIf (readers.length ≠ users.length) (.valueError "zip() argument lengths differ")
  let values ← (readers.zip users).mapM fun p =>
    firstRow p.2.pages >>= fun row => p.1.stageValues ladder p.2.start row
  return values.flatten

/-- `packed_values`: every destination of the round with its value, in the order of the writes. -/
def packedValues {ρ : Type} (m : StagingModel ρ) (ladder : Option Bool) (f : Fixture) (shape : PackedShape)
    (users : List (Option PackedUser)) (guard : Bool) : Except PyError (List (Nat × HostValue ρ)) := do
  fixtureCheck f shape
  let inputs ← packedHostInputs shape m.vocabSize users
  guardCheck guard f inputs
  let values ← readerValues ladder (f.readers.getD []) (users.filterMap id)
  raiseIf (∃ p ∈ blockValues m f inputs ++ values, (p.2.dtype, p.2.layout, p.2.shape) ≠ f.signature p.1)
    (.valueError "Staged packed inputs must preserve every captured tensor signature")
  return blockValues m f inputs ++ values

/-! ## The process -/

/-- `Snapshot`: what a pre-stage wrote, for every destination in order; nothing for the tokens. -/
structure Snapshot (ρ : Type) where
  epoch : Nat
  destinations : List Nat
  values : List (Option (HostValue ρ))

/-- A packed block with its fixture and its `BlockPrestage`. -/
structure StagedBlock (ρ : Type) where
  block : PackedBlock
  ladder : Option Bool
  fixture : Fixture
  phase : BlockPhase
  snapshot : Option (Snapshot ρ)
  dropped : Option String
  audit : Bool
  cursor : Nat

/-- The write epoch, the buffers, the host page tables by number, and the blocks; `served` is the observer's: the epochs
of the snapshots that a stage has used. -/
structure Staging (ρ : Type) where
  epoch : Nat
  lastBump : String
  memory : Nat → HostValue ρ
  tables : Nat → Table
  blocks : Nat → StagedBlock ρ
  served : List Nat

/-- An entry of a round: the carry of its request's engine, the number of its page table, and its ticket. -/
structure StageEntry where
  carry : Option Nat
  table : Nat
  tokens : List Nat
  position : Nat
  deriving DecidableEq, Repr

/-- How the copies of a write end: all of them made, or raised after some, with the next buffer torn. -/
inductive Copies (ρ : Type)
  | complete
  | raised (count : Nat) (torn : HostValue ρ) (e : PyError)

/-- The device's answers to a `write_packed`: the staging of the host tensors, the copies, the fence, and whether a
buffer moved. -/
structure WriteEnv (ρ : Type) where
  hosted : Except PyError Unit
  copies : Copies ρ
  fence : Except PyError Unit
  moved : Bool

/-- The answers to a `stage`: the diff's write, the full write, the audit's readback and its restage. -/
structure StageEnv (ρ : Type) where
  diff : WriteEnv ρ
  full : WriteEnv ρ
  readback : Except PyError Unit
  restage : WriteEnv ρ

namespace Fixture

/-- The readers, each changed with its place. -/
def mapReaders (f : Fixture) (g : Nat → ReplayReader → ReplayReader) : Fixture :=
  { f with readers := f.readers.map fun readers => readers.zipIdx.map fun r => g r.2 r.1 }

/-- A half-staged word or table poisons the readers. -/
def poison (f : Fixture) : Fixture := f.mapReaders fun _ r => { r with failed := true }

/-- Each reader takes its user's start. -/
def setStarts (f : Fixture) (users : List PackedUser) : Fixture :=
  f.mapReaders fun i r => { r with start := (users[i]?.map PackedUser.start).or r.start }

end Fixture

namespace Staging

variable {ρ : Type}

/-- A block changes. -/
def modify (w : Staging ρ) (b : Nat) (g : StagedBlock ρ → StagedBlock ρ) : Staging ρ :=
  { w with blocks := Function.update w.blocks b (g (w.blocks b)) }

/-- A block's fixture changes. -/
def modifyFixture (w : Staging ρ) (b : Nat) (g : Fixture → Fixture) : Staging ρ :=
  w.modify b fun s => { s with fixture := g s.fixture }

/-- `bump`. -/
def bump (w : Staging ρ) (reason : String) : Staging ρ := { w with epoch := w.epoch + 1, lastBump := reason }

/-- The snapshot of a block goes, for a reason. -/
def forget (w : Staging ρ) (b : Nat) (reason : String) : Staging ρ :=
  w.modify b fun s => { s with snapshot := none, dropped := some reason }

/-- `packed_values` of a block. -/
def values (m : StagingModel ρ) (w : Staging ρ) (b : Nat) (users : List (Option PackedUser)) (guard : Bool) :
    Except PyError (List (Nat × HostValue ρ)) :=
  packedValues m (w.blocks b).ladder (w.blocks b).fixture (w.blocks b).block.shape users guard

/-- What the copies leave in the buffers, and how they end. -/
def copied (memory : Nat → HostValue ρ) (chosen : List (Nat × HostValue ρ)) : Copies ρ → Call (Nat → HostValue ρ) Unit
  | .complete => Call.ret (store memory chosen) ()
  | .raised count torn e =>
    Call.throw (store (store memory (chosen.take count)) ((chosen.drop count).head?.toList.map fun p => (p.1, torn))) e

/-- The fence of a write, where it has one, and the check of the addresses. -/
def fenced (fence : Bool) (env : WriteEnv ρ) : Except PyError Unit := do
  if fence then env.fence else .ok ()
  raiseIf (env.moved = true) (.assertionError "Packed input staging replaced a captured buffer")

/-- The copies of a write, its fence and its check. -/
def writeBuffers (memory : Nat → HostValue ρ) (chosen : List (Nat × HostValue ρ)) (fence : Bool) (env : WriteEnv ρ) :
    Call (Nat → HostValue ρ) Unit :=
  (copied memory chosen env.copies).bind fun memory _ =>
  Call.attempt (fenced fence env) memory fun _ => Call.ret memory ()

/-- `write_packed`, of the chosen values. -/
def writePacked (w : Staging ρ) (b : Nat) (chosen : List (Nat × HostValue ρ)) (fence poison : Bool) (env : WriteEnv ρ) :
    Call (Staging ρ) Unit :=
  Call.attempt (do
      raiseIf (¬(chosen.map Prod.fst).Nodup)
        (.valueError "Two independent chip-local buffers per packed input required")
      env.hosted) w fun _ =>
  match (writeBuffers w.memory chosen fence env).result with
  | .ok () => Call.ret { w with memory := (writeBuffers w.memory chosen fence env).obj } ()
  | .error e =>
    Call.throw (if poison then
        ({ w with memory := (writeBuffers w.memory chosen fence env).obj } : Staging ρ).modifyFixture b Fixture.poison
      else { w with memory := (writeBuffers w.memory chosen fence env).obj }) e

/-- `stage_packed`. -/
def stagePacked (m : StagingModel ρ) (w : Staging ρ) (b : Nat) (users : List (Option PackedUser)) (env : WriteEnv ρ) :
    Call (Staging ρ) Nat :=
  Call.attempt (w.values m b users true) (w.bump "stage_packed") fun values =>
  ((w.bump "stage_packed").writePacked b values true true env).bind fun w _ =>
  Call.ret (w.modifyFixture b fun f => f.setStarts (users.filterMap id)) values.length

/-! ## The pre-stage -/

/-- A live request, as the window sees it: the carry of its engine, the number of its table, and its frontier. -/
structure LiveRequest where
  finished : Bool
  carry : Option Nat
  table : Nat
  position : Nat
  deriving DecidableEq, Repr

/-- The users of the live requests, each at the segment of its engine. -/
def liveUsers (w : Staging ρ) (b : PackedBlock) : List LiveRequest → List (Option PackedUser) →
    Except PyError (List (Option PackedUser))
  | [], users => .ok users
  | request :: requests, users =>
    b.segmentOf ⟨request.carry, w.tables request.table⟩ >>= fun segment =>
    match users[segment]? with
    | some (some _) => .error (.valueError ("two live requests through segment " ++ toString segment))
    | _ => liveUsers w b requests
        (users.set segment (some ⟨List.replicate b.shape.rowsPerUser 0, request.position, w.tables request.table⟩))

/-- `padded_users`: the idle segments filled. -/
def paddedUsers (b : PackedBlock) (users : List (Option PackedUser)) (live : List Nat) :
    Except PyError (List (Option PackedUser)) :=
  (b.idleInputs live).map fun fills =>
    fills.foldl (fun users fill => users.set fill.1 (some ⟨fill.2.tokens, fill.2.start, fill.2.pages⟩)) users

/-- `users_for`: the next round's users, from the live requests. -/
def usersFor (w : Staging ρ) (b : PackedBlock) (requests : List LiveRequest) :
    Except PyError (List (Option PackedUser)) := do
  let users ← w.liveUsers b (requests.filter fun r => r.finished = false) (List.replicate b.shape.users none)
  if (PackedBlock.liveSegments users).length ≠ b.shape.users then
    raiseIf (b.pads (PackedBlock.liveSegments users).length = false)
      (.valueError (toString (PackedBlock.liveSegments users).length ++ " live requests is not a round of this block"))
    paddedUsers b users (PackedBlock.liveSegments users)
  else return users

/-- `prestage`; `bound` is the block's `validate_bindings`. -/
def prestage (m : StagingModel ρ) (w : Staging ρ) (b : Nat) (users : List (Option PackedUser))
    (bound : Except PyError Unit) (env : WriteEnv ρ) : Call (Staging ρ) Unit :=
  Call.attempt (raiseIf ((w.blocks b).phase ≠ .idle) (.valueError "the block is not idle"))
    (w.forget b "prestage-incomplete") fun _ =>
  Call.attempt (bound >>= fun _ => w.values m b users false) ((w.forget b "prestage-incomplete").bump "prestage")
    fun values =>
  (((w.forget b "prestage-incomplete").bump "prestage").writePacked b
      (values.filter fun v => v.1 ≠ (w.blocks b).fixture.tokens) false false env).bind fun w' _ =>
  Call.ret (w'.modify b fun s => { s with
    snapshot := some ⟨w'.epoch, values.map Prod.fst,
      values.map fun v => if v.1 = (w.blocks b).fixture.tokens then none else some v.2⟩
    dropped := none }) ()

/-- `prestage_requests`. -/
def prestageRequests (m : StagingModel ρ) (w : Staging ρ) (b : Nat) (requests : List LiveRequest)
    (bound : Except PyError Unit) (env : WriteEnv ρ) : Call (Staging ρ) Unit :=
  Call.attempt (w.usersFor (w.blocks b).block requests) w fun users => w.prestage m b users bound env

/-! ## The verify -/

/-- `usable`: the snapshot that can serve this verify, or why there is none. -/
def usable (w : Staging ρ) (b : Nat) : Snapshot ρ ⊕ String :=
  match (w.blocks b).snapshot with
  | none => .inr ((w.blocks b).dropped.getD "no-snapshot")
  | some s => if s.epoch ≠ w.epoch then .inr ("epoch:" ++ w.lastBump) else .inl s

/-- `segment_users`: each entry's user at its segment. -/
def segmentUsers (w : Staging ρ) (b : PackedBlock) (entries : List StageEntry) (segments : List Nat) :
    List (Option PackedUser) :=
  (entries.zip segments).foldl (fun users p => users.set p.2 (some ⟨p.1.tokens, p.1.position, w.tables p.1.table⟩))
    (List.replicate b.shape.users none)

/-- The users of a round: the entries', at their segments, with the idle ones. -/
def roundUsers (w : Staging ρ) (b : PackedBlock) (entries : List StageEntry) (segments : List Nat) :
    Except PyError (List (Option PackedUser)) :=
  if segments.length < b.shape.users then paddedUsers b (w.segmentUsers b entries segments) segments
  else .ok (w.segmentUsers b entries segments)

/-- The values that a snapshot does not vouch for: the tokens, and those that differ. -/
def changed [DecidableEq ρ] (values : List (Nat × HostValue ρ)) (kept : List (Option (HostValue ρ))) :
    List (Nat × HostValue ρ) :=
  ((values.zip kept).filter fun p => p.2 ≠ some p.1.2).map Prod.fst

/-- The diff of a `stage`: only the changed values are written, with no fence. -/
def stageDiff (w : Staging ρ) (b : Nat) (users : List (Option PackedUser)) (chosen : List (Nat × HostValue ρ))
    (env : WriteEnv ρ) : Call (Staging ρ) Nat :=
  match (w.writePacked b chosen false true env).result with
  | .ok () =>
    Call.ret (((w.writePacked b chosen false true env).obj.modifyFixture b fun f =>
      f.setStarts (users.filterMap id)).bump "verify") chosen.length
  | .error e => Call.throw ((w.writePacked b chosen false true env).obj.bump "verify-failed") e

/-- The destinations that an audit reads back: eight in rotation. -/
def auditIndices (cursor count : Nat) : List Nat :=
  (List.range (min 8 count)).map fun offset => (cursor + offset) % count

/-- The next audit starts past this one. -/
def rotate (w : Staging ρ) (b count : Nat) : Staging ρ :=
  w.modify b fun s => { s with cursor := (s.cursor + 8) % count }

/-- `audit_round`: a mismatch restages the round. -/
def auditRound (m : StagingModel ρ) [DecidableEq ρ] (w : Staging ρ) (b : Nat) (users : List (Option PackedUser))
    (env : StageEnv ρ) : Call (Staging ρ) Unit :=
  Call.attempt (w.values m b users false) w fun values =>
  Call.attempt env.readback (w.rotate b values.length) fun _ =>
  if ∃ i ∈ auditIndices (w.blocks b).cursor values.length, ∃ p ∈ values[i]?, w.memory p.1 ≠ p.2 then
    ((w.rotate b values.length).stagePacked m b users env.restage).map fun _ => ()
  else Call.ret (w.rotate b values.length) ()

/-- The write of a `stage`: the diff against a snapshot of the same destinations, or everything. -/
def stageWrite (m : StagingModel ρ) [DecidableEq ρ] (w : Staging ρ) (b : Nat) (users : List (Option PackedUser))
    (snapshot : Option (Snapshot ρ)) (env : StageEnv ρ) : Call (Staging ρ) Nat :=
  match snapshot with
  | none => w.stagePacked m b users env.full
  | some s =>
    Call.attempt (w.values m b users true) w fun values =>
    if values.map Prod.fst ≠ s.destinations then w.stagePacked m b users env.full
    else ({ w with served := s.epoch :: w.served } : Staging ρ).stageDiff b users (changed values s.values) env.diff

/-- `stage`; the full write computes the same users again. -/
def stage (m : StagingModel ρ) [DecidableEq ρ] (w : Staging ρ) (b : Nat) (entries : List StageEntry)
    (segments : List Nat) (snapshot : Option (Snapshot ρ)) (env : StageEnv ρ) : Call (Staging ρ) Nat :=
  Call.attempt (w.roundUsers (w.blocks b).block entries segments) w fun users =>
  ((w.forget b "no-snapshot").stageWrite m b users snapshot env).bind fun w' written =>
  if (w.blocks b).audit then (w'.auditRound m b users env).map fun _ => written
  else Call.ret w' written

/-- The owners of a round's entries. -/
def owners (w : Staging ρ) (entries : List StageEntry) : List (Engine × Nat) :=
  entries.map fun e => (⟨e.carry, w.tables e.table⟩, e.position)

/-- What `verify` does before its trace: a usable snapshot skips the check of the bindings. -/
def verifyStage (m : StagingModel ρ) [DecidableEq ρ] (w : Staging ρ) (b : Nat) (entries : List StageEntry)
    (bound : Except PyError Unit) (env : StageEnv ρ) : Call (Staging ρ) Nat :=
  Call.attempt ((w.blocks b).block.roundSegments (w.owners entries)) w fun segments =>
  match w.usable b with
  | .inl s => w.stage m b entries segments (some s) env
  | .inr _ => Call.attempt bound w fun _ => w.stage m b entries segments none env

/-! ## Runs -/

/-- What happens to the process. A `write` is another writer's: it bumps the epoch, whatever it does to the buffers. -/
inductive Op (ρ : Type)
  | prestage (b : Nat) (users : List (Option PackedUser)) (bound : Except PyError Unit) (env : WriteEnv ρ)
  | prestageRequests (b : Nat) (requests : List LiveRequest) (bound : Except PyError Unit) (env : WriteEnv ρ)
  | drop (b : Nat) (reason : String)
  | write (reason : String) (memory : Nat → HostValue ρ)
  | setReaders (g : Nat → Nat → ReplayReader → ReplayReader)
  | setTable (table : Nat) (pages : Table)
  | setPhase (b : Nat) (phase : BlockPhase)
  | verify (b : Nat) (entries : List StageEntry) (bound : Except PyError Unit) (env : StageEnv ρ)

/-- The process after an event, raised or not. -/
def apply (m : StagingModel ρ) [DecidableEq ρ] (w : Staging ρ) : Op ρ → Staging ρ
  | .prestage b users bound env => (w.prestage m b users bound env).obj
  | .prestageRequests b requests bound env => (w.prestageRequests m b requests bound env).obj
  | .drop b reason => w.forget b reason
  | .write reason memory => { w with memory := memory }.bump reason
  | .setReaders g => { w with blocks := fun b => { w.blocks b with fixture := (w.blocks b).fixture.mapReaders (g b) } }
  | .setTable table pages => { w with tables := Function.update w.tables table pages }
  | .setPhase b phase => w.modify b fun s => { s with phase }
  | .verify b entries bound env => (w.verifyStage m b entries bound env).obj

/-- One event. -/
def Step (m : StagingModel ρ) [DecidableEq ρ] (w : Staging ρ) (op : Op ρ) (w' : Staging ρ) : Prop := w' = w.apply m op

end Staging

end BlackholeQwen.Packed
