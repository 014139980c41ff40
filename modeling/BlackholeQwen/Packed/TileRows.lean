import BlackholeQwen.Lib.Call
import BlackholeQwen.Lib.Owners
import Mathlib.Data.List.Dedup
import Mathlib.Data.List.Sort

/-!
# Tile rows of the key and value caches (`scripts/ci/verify_trace_t2.py`)

- `kvTileRows`: the (physical page, tile row) pairs that a user's positions write through its page-table row.
- `kvConflict`: the first pair that two users write. `kvConflict_none_iff` says when there is none, in terms of the
  positions; `kvConflict_some` that a pair reported is written by both.
-/

namespace BlackholeQwen.Packed

open Lib

/-- Tokens in a page. -/
abbrev BLOCK_SIZE : Nat := 64

/-- Tokens in a tile row. -/
abbrev TILE_HEIGHT : Nat := 32

/-- A physical page and a tile row of it. -/
abbrev Key : Type := Int × Nat

/-- The pair that a position writes through a page-table row. -/
def tileRow (row : List Int) (position : Nat) : Except PyError Key :=
  match row[position / BLOCK_SIZE]? with
  | none => .error .indexError
  | some page => .ok (page, position % BLOCK_SIZE / TILE_HEIGHT)

/-- `kv_tile_rows`: the set of pairs that the positions write. -/
def kvTileRows (positions : List Nat) (row : List Int) : Except PyError (List Key) :=
  (positions.mapM (tileRow row)).map List.dedup

/-- Pairs in the order of tuples. -/
def keyLe (a b : Key) : Prop := a.1 < b.1 ∨ a.1 = b.1 ∧ a.2 ≤ b.2

instance (a b : Key) : Decidable (keyLe a b) := inferInstanceAs (Decidable (_ ∨ _ ∧ _))

/-- A user's pairs, sorted. -/
def sortedTileRows (user : List Nat × List Int) : Except PyError (List Key) :=
  (kvTileRows user.1 user.2).map (List.insertionSort keyLe)

/-- The first pair that two users write. -/
abbrev Conflict : Type := Owners.Shared Key

/-- `kv_conflict`: over the users' positions and page-table rows, in segment order. -/
def kvConflict (users : List (List Nat × List Int)) : Except PyError (Option Conflict) :=
  Owners.scan sortedTileRows 0 users Dict.empty

/-! ## The pairs of a user -/

theorem kvTileRows_total {positions : List Nat} {row : List Int} :
    (∃ keys, kvTileRows positions row = .ok keys) ↔ ∀ p ∈ positions, ∃ key, tileRow row p = .ok key := by
  rw [← mapM_total]
  constructor
  · rintro ⟨keys, h⟩
    cases hm : positions.mapM (tileRow row) with
    | error e => rw [kvTileRows, hm] at h; cases h
    | ok ks => exact ⟨ks, rfl⟩
  · rintro ⟨keys, h⟩
    exact ⟨keys.dedup, by rw [kvTileRows, h]; rfl⟩

theorem mem_kvTileRows {positions : List Nat} {row : List Int} {keys : List Key}
    (h : kvTileRows positions row = .ok keys) {key : Key} : key ∈ keys ↔ ∃ p ∈ positions, tileRow row p = .ok key := by
  cases hm : positions.mapM (tileRow row) with
  | error e => rw [kvTileRows, hm] at h; cases h
  | ok ks =>
    rw [kvTileRows, hm] at h
    cases h
    rw [List.mem_dedup, mem_mapM hm]

/-- Sorting keeps the pairs. -/
theorem sortedTileRows_ok {user : List Nat × List Int} {keys : List Key} (h : sortedTileRows user = .ok keys) :
    ∃ ks, kvTileRows user.1 user.2 = .ok ks ∧ ∀ key, key ∈ keys ↔ key ∈ ks := by
  cases hk : kvTileRows user.1 user.2 with
  | error e => rw [sortedTileRows, hk] at h; cases h
  | ok ks =>
    rw [sortedTileRows, hk] at h
    cases h
    exact ⟨ks, rfl, fun key => List.mem_insertionSort keyLe⟩

theorem sortedTileRows_total {user : List Nat × List Int} :
    (∃ keys, sortedTileRows user = .ok keys) ↔ ∀ p ∈ user.1, ∃ key, tileRow user.2 p = .ok key := by
  rw [← kvTileRows_total]
  constructor
  · rintro ⟨keys, h⟩
    obtain ⟨ks, hks, -⟩ := sortedTileRows_ok h
    exact ⟨ks, hks⟩
  · rintro ⟨keys, h⟩
    exact ⟨keys.insertionSort keyLe, by rw [sortedTileRows, h]; rfl⟩

/-! ## Conflicts -/

/-- Every position of a user is mapped by its page-table row. -/
def Mapped (user : List Nat × List Int) : Prop := ∀ p ∈ user.1, ∃ key, tileRow user.2 p = .ok key

/-- No position of one user writes a pair that a position of the other does. -/
def Separate (u v : List Nat × List Int) : Prop := ∀ p ∈ u.1, ∀ q ∈ v.1, tileRow u.2 p ≠ tileRow v.2 q

/-- **There is no conflict exactly when every position is mapped and no two users write one pair.** -/
theorem kvConflict_none_iff {users : List (List Nat × List Int)} :
    kvConflict users = .ok none ↔
      (∀ u ∈ users, Mapped u) ∧
        ∀ (i j : Nat) (u v : List Nat × List Int), i ≠ j → users[i]? = some u → users[j]? = some v → Separate u v := by
  unfold kvConflict
  rw [Owners.scan_none_iff]
  constructor
  · rintro ⟨hmapped, hapart⟩
    have hall : ∀ u ∈ users, Mapped u := fun u hu => sortedTileRows_total.mp (hmapped u hu)
    refine ⟨hall, ?_⟩
    intro i j u v hne hu hv p hp q hq heq
    obtain ⟨ks, hks⟩ := hmapped u (List.mem_of_getElem? hu)
    obtain ⟨ls, hls⟩ := hmapped v (List.mem_of_getElem? hv)
    obtain ⟨key, hkey⟩ := hall u (List.mem_of_getElem? hu) p hp
    obtain ⟨ks', hks', hmem⟩ := sortedTileRows_ok hks
    obtain ⟨ls', hls', hmem'⟩ := sortedTileRows_ok hls
    have hk : key ∈ ks := (hmem key).mpr ((mem_kvTileRows hks').mpr ⟨p, hp, hkey⟩)
    have hl : key ∈ ls := (hmem' key).mpr ((mem_kvTileRows hls').mpr ⟨q, hq, heq ▸ hkey⟩)
    exact hapart hne hu hv hks hls key hk hl
  · rintro ⟨hmapped, hsep⟩
    refine ⟨fun u hu => sortedTileRows_total.mpr (hmapped u hu), ?_⟩
    intro i j u v ks ls hne hu hv hks hls key hk hl
    obtain ⟨ks', hks', hmem⟩ := sortedTileRows_ok hks
    obtain ⟨ls', hls', hmem'⟩ := sortedTileRows_ok hls
    obtain ⟨p, hp, hpk⟩ := (mem_kvTileRows hks').mp ((hmem key).mp hk)
    obtain ⟨q, hq, hqk⟩ := (mem_kvTileRows hls').mp ((hmem' key).mp hl)
    exact hsep i j u v hne hu hv p hp q hq (hpk.trans hqk.symm)

/-- **A conflict reported is one**: two users write the pair it names. -/
theorem kvConflict_some {users : List (List Nat × List Int)} {c : Conflict} (h : kvConflict users = .ok (some c)) :
    c.first < c.second ∧ ∃ u v ks ls, users[c.first]? = some u ∧ users[c.second]? = some v ∧
      kvTileRows u.1 u.2 = .ok ks ∧ kvTileRows v.1 v.2 = .ok ls ∧ c.key ∈ ks ∧ c.key ∈ ls := by
  obtain ⟨hlt, u, v, ks, ls, hu, hv, hks, hls, hk, hl⟩ := Owners.scan_some h
  obtain ⟨ks', hks', hmem⟩ := sortedTileRows_ok hks
  obtain ⟨ls', hls', hmem'⟩ := sortedTileRows_ok hls
  exact ⟨hlt, u, v, ks', ls', hu, hv, hks', hls', (hmem _).mp hk, (hmem' _).mp hl⟩

end BlackholeQwen.Packed
