import BlackholeQwen.Lib.Indices
import BlackholeQwen.Packed.Block

/-!
# The guard of a packed round (`scripts/ci/serving_packed_step.py`)

- `padSentinelTable`: a table with its pad read as a page of the segment's own; `kvGuard`: why the block's chains cannot
  serve the owners of a round, over their tables and, in a padded round, the idle segments' zero tables.
- `stagedUsers`: what the round writes, each live segment through its engine's own table and each idle one through the
  zero table (`packed_verifier.py`, `stage_packed_inputs`).
- `guardUsers_none_iff`: the guard accepts full users exactly when every row is mapped and no two users write one pair
  (`Clear`).
-/

namespace BlackholeQwen.Packed

open Lib

/-! ## The guard -/

/-- A user of a round: its positions and its table. -/
abbrev User : Type := List Nat × Table

/-- Where the pad of a table starts: at the first repeat of its first entry. -/
def padBound : List Int → Nat
  | [] => 0
  | first :: rest => rest.findIdx (· = first) + 1

/-- `pad_sentinel_table`: the entries from the pad on are read as a page that no table names. -/
def padSentinelTable (table : Table) (segment : Nat) : Table :=
  match firstRow table with
  | .error _ => table
  | .ok [] => table
  | .ok (first :: rest) =>
    some [(first :: rest).take (padBound (first :: rest)) ++
      List.replicate ((first :: rest).length - padBound (first :: rest)) (-((segment : Int) + 1))]

/-- Why the guard refuses a round. -/
inductive KvReason
  | sharedSegment
  | idleRefused (error : PyError)
  | unmapped (error : PyError)
  | conflict (c : Conflict)
  deriving DecidableEq, Repr

/-- The users' positions with the first rows of their tables. -/
def firstRows (users : List User) : Except PyError (List (List Nat × List Int)) :=
  users.mapM fun u => (firstRow u.2).map fun row => (u.1, row)

/-- The reason that a result of `kv_conflict` gives. -/
def conflictReason : Except PyError (Option Conflict) → Option KvReason
  | .error e => some (.unmapped e)
  | .ok none => none
  | .ok (some c) => some (.conflict c)

/-- `kv_conflict` over users that are all there, each through the first row of its table; a segment without a user is
left to the block's own checks. -/
def guardUsers (users : List (Option User)) : Option KvReason :=
  if users.any Option.isNone then none else conflictReason (firstRows (users.filterMap id) >>= kvConflict)

namespace PackedBlock

/-- A live owner at its segment, its table read with sentinels under sticky sessions. -/
def ownerUser (b : PackedBlock) (sentinels : Bool) (owner : Engine × Nat) (segment : Nat) : User :=
  (List.range' owner.2 b.shape.rowsPerUser,
    if sentinels then padSentinelTable owner.1.pages segment else owner.1.pages)

/-- The users of the owners, each at the segment of its engine. -/
def kvUsers (b : PackedBlock) (sentinels : Bool) : List (Engine × Nat) → List (Option User) →
    Except PyError (List (Option User))
  | [], users => .ok users
  | owner :: owners, users =>
    b.segmentOf owner.1 >>= fun segment =>
    kvUsers b sentinels owners (users.set segment (some (b.ownerUser sentinels owner segment)))

/-- An idle segment as a user. -/
def idleUser (b : PackedBlock) (idle : Idle) : User := (List.range' idle.start b.shape.rowsPerUser, idle.pages)

/-- The users with the idle segments filled. -/
def fillIdle (b : PackedBlock) (users : List (Option User)) (fills : List (Nat × Idle)) : List (Option User) :=
  fills.foldl (fun users fill => users.set fill.1 (some (b.idleUser fill.2))) users

/-- The guard over the users of `count` owners: a padded round is checked with its idle segments. -/
def guardRound (b : PackedBlock) (count : Nat) (users : List (Option User)) : Option KvReason :=
  if users.any Option.isNone = true ∧ b.pads count = true then
    if (liveSegments users).length ≠ count then some .sharedSegment
    else match b.idleInputs (liveSegments users) with
      | .error e => some (.idleRefused e)
      | .ok fills => guardUsers (b.fillIdle users fills)
  else guardUsers users

/-- `kv_guard`: over the owners and their frontier positions. -/
def kvGuard (b : PackedBlock) (sentinels : Bool) (owners : List (Engine × Nat)) : Except PyError (Option KvReason) :=
  (b.kvUsers sentinels owners (List.replicate b.shape.users none)).map (b.guardRound owners.length)

/-- `segments`: the segments of a round's owners, distinct, in a count that the block serves. -/
def roundSegments (b : PackedBlock) (owners : List (Engine × Nat)) : Except PyError (List Nat) :=
  if owners.length ≠ b.shape.users ∧ b.pads owners.length = false then
    .error (.valueError (match b.paddedMinUsers with
      | some least => "The padded packed block serves " ++ toString least ++ " to " ++ toString b.shape.users ++
          " users; " ++ toString owners.length ++ " entries given"
      | none => "The packed block serves exactly " ++ toString b.shape.users ++ " users; " ++
          toString owners.length ++ " entries given"))
  else owners.mapM (fun owner => b.segmentOf owner.1) >>= fun segments =>
    if (owners.length = b.shape.users ∧ segments.insertionSort (· ≤ ·) ≠ List.range b.shape.users) ∨
        (owners.length ≠ b.shape.users ∧ ¬segments.Nodup) then
      .error (.valueError "Two packed entries were admitted through the same pool slot")
    else .ok segments

/-- `stage_packed_inputs`: the users that a round writes, each through its own table. -/
def stagedUsers (b : PackedBlock) (owners : List (Engine × Nat)) : Except PyError (List (Option User)) :=
  b.roundSegments owners >>= fun _ =>
  b.kvUsers false owners (List.replicate b.shape.users none) >>= fun users =>
  if owners.length < b.shape.users then (b.idleInputs (liveSegments users)).map (b.fillIdle users) else .ok users

end PackedBlock

/-! ## What the guard accepts -/

/-- The pair that a position of a user writes. -/
def userKey (u : User) (p : Nat) : Except PyError Key := firstRow u.2 >>= fun row => tileRow row p

/-- Every row is mapped, and no two users write one pair. -/
def Clear (users : List (Option User)) : Prop :=
  (∀ u, some u ∈ users → (∃ row, firstRow u.2 = .ok row) ∧ ∀ p ∈ u.1, ∃ key, userKey u p = .ok key) ∧
    ∀ (i j : Nat) (u v : User), i ≠ j → users[i]? = some (some u) → users[j]? = some (some v) →
      ∀ p ∈ u.1, ∀ q ∈ v.1, userKey u p ≠ userKey v q

theorem any_isNone {users : List (Option User)} : users.any Option.isNone = true ↔ none ∈ users := by
  rw [List.any_eq_true]
  constructor
  · rintro ⟨x, hx, hn⟩
    rw [Option.isNone_iff_eq_none] at hn
    exact hn ▸ hx
  · intro h
    exact ⟨none, h, rfl⟩

/-- Users that are all there. -/
theorem exists_map_some {users : List (Option User)} (h : none ∉ users) : ∃ us : List User, users = us.map some := by
  induction users with
  | nil => exact ⟨[], rfl⟩
  | cons x xs ih =>
    simp only [List.mem_cons, not_or] at h
    obtain ⟨us, rfl⟩ := ih h.2
    cases x with
    | none => exact absurd rfl h.1
    | some u => exact ⟨u :: us, rfl⟩

/-- A user among the first rows. -/
theorem firstRows_get {us : List User} {rows : List (List Nat × List Int)} (h : firstRows us = .ok rows) {i : Nat}
    {u : User} (hu : us[i]? = some u) : ∃ row, rows[i]? = some (u.1, row) ∧ firstRow u.2 = .ok row := by
  obtain ⟨y, hy, hf⟩ := (mapM_get h).2 i u hu
  cases hrow : firstRow u.2 with
  | error e => rw [hrow] at hf; cases hf
  | ok row => rw [hrow] at hf; cases hf; exact ⟨row, hy, rfl⟩

/-- The user of a first row. -/
theorem firstRows_user {us : List User} {rows : List (List Nat × List Int)} (h : firstRows us = .ok rows) {i : Nat}
    {x : List Nat × List Int} (hx : rows[i]? = some x) :
    ∃ u, us[i]? = some u ∧ x.1 = u.1 ∧ firstRow u.2 = .ok x.2 := by
  have hlt := (List.getElem?_eq_some_iff.mp hx).1
  rw [(mapM_get h).1] at hlt
  have hu : us[i]? = some us[i] := List.getElem?_eq_getElem hlt
  obtain ⟨row, hrow, hfirst⟩ := firstRows_get h hu
  rw [hx, Option.some.injEq] at hrow
  subst hrow
  exact ⟨_, hu, rfl, hfirst⟩

theorem userKey_of_row {u : User} {row : List Int} (h : firstRow u.2 = .ok row) (p : Nat) :
    userKey u p = tileRow row p := by
  unfold userKey
  rw [h]
  rfl

theorem conflictReason_none {r : Except PyError (Option Conflict)} : conflictReason r = none ↔ r = .ok none := by
  unfold conflictReason
  split
  · exact ⟨fun h => (by cases h), fun h => (by cases h)⟩
  · exact ⟨fun _ => rfl, fun _ => rfl⟩
  · exact ⟨fun h => (by cases h), fun h => (by cases h)⟩

/-- The conflicts among first rows are those among the users. -/
theorem firstRows_clear {us : List User} {rows : List (List Nat × List Int)} (h : firstRows us = .ok rows) :
    kvConflict rows = .ok none ↔ Clear (us.map some) := by
  rw [kvConflict_none_iff]
  constructor
  · rintro ⟨hmapped, hsep⟩
    refine ⟨fun u hu => ?_, ?_⟩
    · obtain ⟨w, hw, heq⟩ := List.mem_map.mp hu
      cases heq
      obtain ⟨i, hi⟩ := List.mem_iff_getElem?.mp hw
      obtain ⟨row, hget, hrow⟩ := firstRows_get h hi
      refine ⟨⟨row, hrow⟩, fun p hp => ?_⟩
      obtain ⟨key, hk⟩ := hmapped _ (List.mem_of_getElem? hget) p hp
      exact ⟨key, (userKey_of_row hrow p).trans hk⟩
    · intro i j u v hne hu hv p hp q hq
      rw [List.getElem?_map, Option.map_eq_some_iff] at hu hv
      obtain ⟨u', hu, heq⟩ := hu
      cases heq
      obtain ⟨v', hv, heq⟩ := hv
      cases heq
      obtain ⟨row, hget, hrow⟩ := firstRows_get h hu
      obtain ⟨row', hget', hrow'⟩ := firstRows_get h hv
      rw [userKey_of_row hrow, userKey_of_row hrow']
      exact hsep i j _ _ hne hget hget' p hp q hq
  · rintro ⟨hmapped, hsep⟩
    refine ⟨fun x hx p hp => ?_, ?_⟩
    · obtain ⟨i, hi⟩ := List.mem_iff_getElem?.mp hx
      obtain ⟨u, hu, hpos, hrow⟩ := firstRows_user h hi
      obtain ⟨-, hall⟩ := hmapped u (List.mem_map.mpr ⟨u, List.mem_of_getElem? hu, rfl⟩)
      obtain ⟨key, hk⟩ := hall p (hpos ▸ hp)
      exact ⟨key, (userKey_of_row hrow p).symm.trans hk⟩
    · intro i j x y hne hx hy p hp q hq
      obtain ⟨u, hu, hpos, hrow⟩ := firstRows_user h hx
      obtain ⟨v, hv, hpos', hrow'⟩ := firstRows_user h hy
      rw [← userKey_of_row hrow, ← userKey_of_row hrow']
      exact hsep i j u v hne (by rw [List.getElem?_map, hu]; rfl) (by rw [List.getElem?_map, hv]; rfl) p
        (hpos ▸ hp) q (hpos' ▸ hq)

/-- **The guard accepts full users exactly when they are clear.** -/
theorem guardUsers_none_iff {users : List (Option User)} (h : none ∉ users) :
    guardUsers users = none ↔ Clear users := by
  obtain ⟨us, rfl⟩ := exists_map_some h
  have hany : (us.map some).any Option.isNone ≠ true := fun hc => h (any_isNone.mp hc)
  have hid : (us.map some).filterMap id = us := by rw [List.filterMap_map]; exact List.filterMap_some
  unfold guardUsers
  rw [if_neg hany, hid, conflictReason_none]
  cases hm : firstRows us with
  | ok rows => exact firstRows_clear hm
  | error e =>
    constructor
    · intro hc; cases hc
    · rintro ⟨hmapped, -⟩
      have htotal : ∃ rows, firstRows us = .ok rows := by
        refine mapM_total.mpr fun u hu => ?_
        obtain ⟨⟨row, hrow⟩, -⟩ := hmapped u (List.mem_map.mpr ⟨u, hu, rfl⟩)
        exact ⟨(u.1, row), by rw [hrow]; rfl⟩
      obtain ⟨rows, hrows⟩ := htotal
      rw [hm] at hrows
      cases hrows

end BlackholeQwen.Packed
