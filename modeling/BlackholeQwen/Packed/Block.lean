import BlackholeQwen.Attention.Extent
import BlackholeQwen.Packed.TileRows

/-!
# The packed block, as its guards see it (`packed_shapes.py`, `packed_verifier.py`)

- `PackedBlock`: the shape, the carries that its segments restore, and how it pads a round.
- `segmentOf`, `pads`, `admits`, `idleInputs`: the segment of an engine, the counts and positions served, and what an
  idle segment is staged with: the zero table, at tile row `j % 2` of page 0 for the `j`-th one.
- `pageZeroIndex`, `paddedRefusal`: the rule that keeps physical page 0 out of the live tables of a padded round.
-/

namespace BlackholeQwen.Packed

open Lib

/-- A packed geometry. -/
structure PackedShape where
  users : Nat
  rowsPerUser : Nat
  blockRows : Nat
  pageWidth : Nat
  capacity : Nat
  deriving DecidableEq, Repr

/-- An engine's page table: rows of page numbers, `none` for an engine without one. -/
abbrev Table : Type := Option (List (List Int))

/-- `table[0]`. -/
def firstRow : Table → Except PyError (List Int)
  | none => .error .typeError
  | some [] => .error .indexError
  | some (row :: _) => .ok row

/-- A request's engine: the carry that it borrowed, by identity, and its page table. -/
structure Engine where
  carry : Option Nat
  pages : Table
  deriving DecidableEq, Repr

/-- What an idle segment is staged with. -/
structure Idle where
  tokens : List Nat
  start : Nat
  pages : Table
  deriving DecidableEq, Repr

/-- A packed block. `carries` are the identities of its segments' carries; `lent` says that a request holds a segment's
pool slot; the captured family is one of 256 keys, unless the block is the extent one. -/
structure PackedBlock where
  shape : PackedShape
  carries : List Nat
  paddedMinUsers : Option Nat
  extent : Bool
  replayCapacity : Nat
  carriesInPlace : Bool
  lent : Nat → Bool
  carries_length : carries.length = shape.users
  family : extent = false → replayCapacity % 256 = 0

/-- Why a padded round is refused. -/
inductive Refusal
  | twoLive (segment : Nat)
  | count (live : Nat)
  | idleLent (segment : Nat)
  | pageZeroUnmapped (segment start : Nat) (error : PyError)
  | pageZero (segment start index : Nat)
  deriving DecidableEq, Repr

/-- A tuple of integers, as Python prints it. -/
def pyTuple (xs : List Nat) : String :=
  "(" ++ ", ".intercalate (xs.map toString) ++ (if xs.length = 1 then ",)" else ")")

/-- The positions that a user at `start` reads or writes in a round: to the end of its rows, and on the extent path to
the end of its family. -/
def usedLimit (start rows : Nat) (extent : Bool) : Nat :=
  if extent then max (start + rows) ((start / 256 + 1) * 256) else start + rows

/-- `page_zero_index`: the first page of the range that a user reads or writes that is physical page 0. -/
def pageZeroIndex (table : Table) (start rows : Nat) (extent : Bool) : Except PyError (Option Nat) :=
  firstRow table >>= fun row =>
  if (row.take ((usedLimit start rows extent + 63) / 64)).length < (usedLimit start rows extent + 63) / 64 then
    .error (.valueError ("a " ++ toString (row.take ((usedLimit start rows extent + 63) / 64)).length ++
      "-entry page table cannot map positions [0, " ++ toString (usedLimit start rows extent) ++ ")"))
  else .ok ((row.take ((usedLimit start rows extent + 63) / 64)).findIdx? (· = 0))

namespace PackedBlock

/-- At most two idle segments fit page 0. -/
abbrev MAX_IDLE_SEGMENTS : Nat := 2

/-- `segment_of`: the segment whose carry the engine borrowed. -/
def segmentOf (b : PackedBlock) (engine : Engine) : Except PyError Nat :=
  match b.carries.findIdx? (fun own => engine.carry = some own) with
  | some segment => .ok segment
  | none => .error (.valueError ("The request engine borrows no carry this block restores: it was not admitted " ++
      "through a pool slot the block was captured against"))

/-- `pads`: whether a round of `count` live users is served padded. -/
def pads (b : PackedBlock) (count : Nat) : Bool :=
  match b.paddedMinUsers with
  | none => false
  | some least => least ≤ count && count < b.shape.users

/-- `admits`: whether the block serves a live ticket at a position. -/
def admits (b : PackedBlock) (ladder : Option Bool) (position : Nat) : Bool :=
  if b.extent then Attention.admits position b.shape.rowsPerUser b.replayCapacity
  else (Attention.validateTicket ladder position b.shape.rowsPerUser b.replayCapacity false).isOk

/-- The segments that are not live. -/
def idleSegments (b : PackedBlock) (live : List Nat) : List Nat :=
  (List.range b.shape.users).filter (fun segment => segment ∉ live)

/-- The first position of the idle segments. -/
def idleFirst (b : PackedBlock) : Nat := if b.extent then 0 else b.replayCapacity - 256

/-- `idle_inputs`: what each idle segment is staged with. -/
def idleInputs (b : PackedBlock) (live : List Nat) : Except PyError (List (Nat × Idle)) :=
  if ¬live.Nodup ∨ ¬∀ segment ∈ live, segment < b.shape.users then
    .error (.valueError ("Live segments must be distinct segments of this " ++ toString b.shape.users ++
      "-user block: " ++ pyTuple live))
  else if (b.idleSegments live).length > MAX_IDLE_SEGMENTS then
    .error (.valueError ("At most " ++ toString MAX_IDLE_SEGMENTS ++ " idle segments: page 0 holds two 32-row tile " ++
      "rows, so idle segments " ++ toString (b.idleSegments live) ++ " would share one"))
  else .ok ((b.idleSegments live).zipIdx.map fun p =>
    (p.1, ⟨List.replicate b.shape.rowsPerUser 1, b.idleFirst + 32 * (p.2 % 2),
      some [List.replicate b.shape.pageWidth 0]⟩))

/-- The segments of a round that a user holds. -/
def liveSegments {α : Type} (users : List (Option α)) : List Nat :=
  (users.zipIdx.filter (·.1.isSome)).map (·.2)

/-- The idle slot rule: without carries read in place, no idle segment's slot is lent. -/
def idleRefusal (b : PackedBlock) (users : List (Option (Nat × Table))) : Option Refusal :=
  if b.carriesInPlace then none
  else users.zipIdx.findSome? fun p =>
    if p.1 = none ∧ b.lent p.2 = true then some (.idleLent p.2) else none

/-- The page rule: no live table holds physical page 0 in its used range. -/
def pageRefusal (b : PackedBlock) (users : List (Option (Nat × Table))) : Option Refusal :=
  users.zipIdx.findSome? fun p =>
    p.1.bind fun user =>
      match pageZeroIndex user.2 user.1 b.shape.rowsPerUser b.extent with
      | .error e => some (.pageZeroUnmapped p.2 user.1 e)
      | .ok (some index) => some (.pageZero p.2 user.1 index)
      | .ok none => none

/-- `PackedVerifierEngine.padded_refusal`: over each segment's start and table. -/
def paddedRefusal (b : PackedBlock) (users : List (Option (Nat × Table))) : Option Refusal :=
  if users.length ≠ b.shape.users ∨ b.pads (liveSegments users).length = false then
    some (.count (liveSegments users).length)
  else (b.idleRefusal users).or (b.pageRefusal users)

/-- The users of a round for `padded_refusal`, each at the segment of its engine. -/
def refusalUsers (b : PackedBlock) : List (Engine × Nat) → List (Option (Nat × Table)) →
    Except PyError (List (Option (Nat × Table)) ⊕ Refusal)
  | [], users => .ok (.inl users)
  | (engine, position) :: owners, users =>
    b.segmentOf engine >>= fun segment =>
    match users[segment]? with
    | some (some _) => .ok (.inr (.twoLive segment))
    | _ => refusalUsers b owners (users.set segment (some (position, engine.pages)))

/-- `serving_packed_step.padded_refusal`: why the owners cannot be served as one padded round. -/
def roundRefusal (b : PackedBlock) (owners : List (Engine × Nat)) : Except PyError (Option Refusal) :=
  (b.refusalUsers owners (List.replicate b.shape.users none)).map fun users =>
    match users with
    | .inl users => b.paddedRefusal users
    | .inr refusal => some refusal

/-! ## Segments -/

theorem segmentOf_lt {b : PackedBlock} {engine : Engine} {segment : Nat} (h : b.segmentOf engine = .ok segment) :
    segment < b.shape.users := by
  unfold segmentOf at h
  split at h
  · rename_i s hs
    cases h
    rw [← b.carries_length]
    exact (List.findIdx?_eq_some_iff_getElem.mp hs).1
  · cases h

theorem pads_lt {b : PackedBlock} {count : Nat} (h : b.pads count = true) : count < b.shape.users := by
  unfold pads at h
  split at h
  · cases h
  · simp only [Bool.and_eq_true, decide_eq_true_eq] at h
    exact h.2

theorem mem_liveSegments {α : Type} {users : List (Option α)} {i : Nat} :
    i ∈ liveSegments users ↔ ∃ u, users[i]? = some (some u) := by
  unfold liveSegments
  simp only [List.mem_map, List.mem_filter, List.mem_zipIdx_iff_getElem?, Prod.exists]
  constructor
  · rintro ⟨user, i, ⟨hget, hsome⟩, rfl⟩
    obtain ⟨u, rfl⟩ := Option.isSome_iff_exists.mp hsome
    exact ⟨u, hget⟩
  · rintro ⟨u, hget⟩
    exact ⟨some u, i, ⟨hget, rfl⟩, rfl⟩

theorem mem_idleSegments {b : PackedBlock} {live : List Nat} {i : Nat} :
    i ∈ b.idleSegments live ↔ i < b.shape.users ∧ i ∉ live := by
  simp [idleSegments]

/-! ## Idle segments -/

/-- What `idle_inputs` gives an idle segment, and to which. -/
theorem idleInputs_ok {b : PackedBlock} {live : List Nat} {fills : List (Nat × Idle)}
    (h : b.idleInputs live = .ok fills) :
    fills.map Prod.fst = b.idleSegments live ∧ ∀ (j : Nat) (f : Nat × Idle), fills[j]? = some f →
      j < 2 ∧ f.2 = ⟨List.replicate b.shape.rowsPerUser 1, b.idleFirst + 32 * (j % 2),
        some [List.replicate b.shape.pageWidth 0]⟩ := by
  unfold idleInputs at h
  split at h
  · cases h
  split at h
  · cases h
  rename_i hfew
  cases h
  have hmax : MAX_IDLE_SEGMENTS = 2 := rfl
  refine ⟨?_, fun j f hf => ?_⟩
  · rw [List.map_map]
    exact List.zipIdx_map_fst 0 _
  · rw [List.getElem?_map, List.getElem?_zipIdx, Option.map_map, Option.map_eq_some_iff] at hf
    obtain ⟨segment, hs, rfl⟩ := hf
    have hlt := (List.getElem?_eq_some_iff.mp hs).1
    refine ⟨by omega, ?_⟩
    simp only [Function.comp_apply, Nat.zero_add]

/-! ## Page 0 -/

end PackedBlock

end BlackholeQwen.Packed
