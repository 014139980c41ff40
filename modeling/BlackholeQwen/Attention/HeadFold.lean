import BlackholeQwen.Lib.Call
import BlackholeQwen.Lib.Spans
import Mathlib.Data.List.Induction
import Mathlib.Algebra.Group.Nat.Defs

/-!
# Row groups and folded heads (`scripts/ci/attention_head_fold.py`, `attention_fold_dma.py`)

- `chunkGroups`, `parallelGroups`: consecutive rows of one native chunk workload form a group, consecutive groups of
  one shape a bundle. The groups lie end to end (`chunkGroups_spans`), the bundles keep their order
  (`parallelGroups_ok`).
- `sourceRow`: where the tile permutation takes a row of the folded query from, and back. A head of a row goes to the
  folded row that brings it back (`sourceRow_fold`).
-/

namespace BlackholeQwen.Attention

open Lib

/-! ## Groups -/

/-- A group of rows: its first row, their number, and its chunk size and capacity. -/
structure Group where
  offset : Nat
  rows : Nat
  signature : Nat × Nat
  deriving DecidableEq, Repr

/-- `int.bit_length`. -/
def bitLength (n : Nat) : Nat := if n = 0 then 0 else n.log2 + 1

/-- The chunk size and the capacity at a position. -/
def chunkSignature (position maxChunkTiles : Nat) : Nat × Nat :=
  let tiles := position / 32 + 1
  let chunkSize := min maxChunkTiles (2 ^ bitLength (tiles - 1)) * 32
  (chunkSize, (position + 1 + chunkSize - 1) / chunkSize * chunkSize)

/-- One more row: into the last group if it has its signature and room, else into a new one. -/
def addRow (start maxChunkTiles maxGroupRows : Nat) (groups : List Group) (offset : Nat) : List Group :=
  let signature := chunkSignature (start + offset) maxChunkTiles
  match groups.getLast? with
  | some g =>
    if g.signature = signature ∧ g.rows < maxGroupRows then groups.dropLast ++ [{ g with rows := g.rows + 1 }]
    else groups ++ [⟨offset, 1, signature⟩]
  | none => [⟨offset, 1, signature⟩]

/-- `chunk_groups`. -/
def chunkGroups (start rows maxChunkTiles maxGroupRows : Nat) : Except PyError (List Group) :=
  if ¬(1 ≤ rows ∧ rows ≤ 32) ∨ ¬(maxChunkTiles = 4 ∨ maxChunkTiles = 8) ∨
      ¬(1 ≤ maxGroupRows ∧ maxGroupRows ≤ 32) then
    .error (.valueError "Bounded native SDPA geometry required")
  else .ok ((List.range rows).foldl (addRow start maxChunkTiles maxGroupRows) [])

/-- One more group: into the last bundle if it has its shape and room, else into a new one. -/
def addGroup (maxBatches : Nat) (bundles : List (List Group)) (g : Group) : List (List Group) :=
  match bundles.getLast? with
  | some bundle =>
    if bundle.length < maxBatches ∧ bundle.head?.map (fun f => (f.rows, f.signature)) = some (g.rows, g.signature) then
      bundles.dropLast ++ [bundle ++ [g]]
    else bundles ++ [[g]]
  | none => [[g]]

/-- `parallel_groups`. -/
def parallelGroups (start rows maxBatches maxGroupRows : Nat) : Except PyError (List (List Group)) := do
  raiseIf (¬(1 ≤ maxBatches ∧ maxBatches ≤ 3))
    (.valueError "At most three TP2 groups preserve sixteen workers per KV head on110 cores")
  raiseIf (¬(maxGroupRows = 4 ∨ maxGroupRows = 8)) (.valueError "Parallel groups require a four or eight row limit")
  let groups ← chunkGroups start rows 8 maxGroupRows
  .ok (groups.foldl (addGroup maxBatches) [])

/-! ## The groups lie end to end -/

/-- Groups that lie end to end from row 0, none larger than the limit. -/
structure Grouped (limit : Nat) (groups : List Group) (rows : Nat) : Prop where
  spans : Spans Group.offset Group.rows 0 groups rows
  small : ∀ g ∈ groups, g.rows ≤ limit

/-- One more row keeps the groups end to end. -/
theorem Grouped.addRow {start maxChunkTiles limit rows : Nat} {groups : List Group} (h : Grouped limit groups rows)
    (hlimit : 0 < limit) : Grouped limit (addRow start maxChunkTiles limit groups rows) (rows + 1) := by
  unfold Attention.addRow
  have hnew : Grouped limit (groups ++ [⟨rows, 1, chunkSignature (start + rows) maxChunkTiles⟩]) (rows + 1) := by
    refine ⟨h.spans.snoc rfl Nat.one_pos, fun g hg => ?_⟩
    rcases List.mem_append.mp hg with hg | hg
    · exact h.small g hg
    · rw [List.mem_singleton] at hg; subst hg; exact hlimit
  simp only
  cases hl : groups.getLast? with
  | none =>
    rw [List.getLast?_eq_none_iff] at hl
    subst hl
    exact hnew
  | some g =>
    simp only
    split
    · rename_i hg
      obtain ⟨hne, hlast⟩ := List.getLast?_eq_some_iff.mp hl
      subst hlast
      rw [List.dropLast_concat]
      obtain ⟨mid, h1, h2⟩ := Spans.append_iff.mp h.spans
      cases h2 with
      | cons hstart hpos h3 =>
        cases h3 with
        | nil =>
          refine ⟨?_, fun g' hg' => ?_⟩
          · have hs : Group.offset { g with rows := g.rows + 1 } = mid := hstart
            have := h1.snoc hs (Nat.succ_pos g.rows)
            simpa only [Nat.add_assoc] using this
          · rcases List.mem_append.mp hg' with hg' | hg'
            · exact h.small g' (List.mem_append_left _ hg')
            · rw [List.mem_singleton] at hg'; subst hg'; exact hg.2
    · exact hnew

/-- **The groups of `chunk_groups` lie end to end over the rows**, none larger than the limit. -/
theorem chunkGroups_ok {start rows maxChunkTiles limit : Nat} {groups : List Group}
    (h : chunkGroups start rows maxChunkTiles limit = .ok groups) : Grouped limit groups rows := by
  unfold chunkGroups at h
  split at h
  · cases h
  rename_i hgeom
  cases h
  have hlimit : 0 < limit := by
    by_contra hc
    exact hgeom (Or.inr (Or.inr (by omega)))
  clear hgeom
  induction rows with
  | zero => exact ⟨.nil 0, fun g hg => by cases hg⟩
  | succ rows ih =>
    rw [List.range_succ, List.foldl_append]
    exact ih.addRow hlimit

/-! ## The bundles -/

/-- Bundles of the given groups in order, each of at most `maxBatches` groups of one size. -/
structure Bundled (maxBatches : Nat) (bundles : List (List Group)) (groups : List Group) : Prop where
  flatten : bundles.flatten = groups
  short : ∀ b ∈ bundles, b.length ≤ maxBatches
  shape : ∀ b ∈ bundles, ∃ f ∈ b.head?, ∀ g ∈ b, g.rows = f.rows

/-- One more group keeps the bundles. -/
theorem Bundled.addGroup {maxBatches : Nat} {bundles : List (List Group)} {groups : List Group}
    (h : Bundled maxBatches bundles groups) (hmax : 1 ≤ maxBatches) (g : Group) :
    Bundled maxBatches (addGroup maxBatches bundles g) (groups ++ [g]) := by
  have hnew : Bundled maxBatches (bundles ++ [[g]]) (groups ++ [g]) := by
    refine ⟨by rw [List.flatten_append, h.flatten]; rfl, fun b hb => ?_, fun b hb => ?_⟩
    · rcases List.mem_append.mp hb with hb | hb
      · exact h.short b hb
      · rw [List.mem_singleton] at hb; subst hb; exact hmax
    · rcases List.mem_append.mp hb with hb | hb
      · exact h.shape b hb
      · rw [List.mem_singleton] at hb
        subst hb
        exact ⟨g, rfl, fun g' hg' => by rw [List.mem_singleton] at hg'; rw [hg']⟩
  unfold Attention.addGroup
  cases hl : bundles.getLast? with
  | none =>
    rw [List.getLast?_eq_none_iff] at hl
    subst hl
    exact hnew
  | some bundle =>
    simp only
    split
    · rename_i hg
      obtain ⟨hlen, hshape⟩ := hg
      obtain ⟨front, hlast⟩ := List.getLast?_eq_some_iff.mp hl
      subst hlast
      rw [List.dropLast_concat]
      refine ⟨?_, fun b hb => ?_, fun b hb => ?_⟩
      · rw [← h.flatten]
        simp
      · rcases List.mem_append.mp hb with hb | hb
        · exact h.short b (List.mem_append_left _ hb)
        · rw [List.mem_singleton] at hb
          subst hb
          rw [List.length_append, List.length_singleton]
          omega
      · rcases List.mem_append.mp hb with hb | hb
        · exact h.shape b (List.mem_append_left _ hb)
        · rw [List.mem_singleton] at hb
          subst hb
          obtain ⟨f, hf, hall⟩ := h.shape bundle (by simp)
          rw [Option.mem_def] at hf
          rw [hf] at hshape
          simp only [Option.map_some, Option.some.injEq, Prod.mk.injEq] at hshape
          refine ⟨f, ?_, fun g' hg' => ?_⟩
          · rw [Option.mem_def, List.head?_append, hf]; rfl
          · rcases List.mem_append.mp hg' with hg' | hg'
            · exact hall g' hg'
            · rw [List.mem_singleton] at hg'; rw [hg', hshape.1]
    · exact hnew

/-- The groups, added in order, make the bundles. -/
theorem Bundled.fold {maxBatches : Nat} (hmax : 1 ≤ maxBatches) (groups : List Group) :
    Bundled maxBatches (groups.foldl (Attention.addGroup maxBatches) []) groups := by
  induction groups using List.reverseRecOn with
  | nil => exact ⟨rfl, fun b hb => (by cases hb), fun b hb => (by cases hb)⟩
  | append_singleton groups g ih =>
    rw [List.foldl_append]
    exact ih.addGroup hmax g

/-- **The bundles of `parallel_groups`** are the groups of the rows in order. -/
theorem parallelGroups_ok {start rows maxBatches limit : Nat} {bundles : List (List Group)}
    (h : parallelGroups start rows maxBatches limit = .ok bundles) :
    ∃ groups, Grouped limit groups rows ∧ Bundled maxBatches bundles groups := by
  unfold parallelGroups at h
  obtain ⟨_, hmax, h⟩ := bind_ok h
  obtain ⟨_, -, h⟩ := bind_ok h
  obtain ⟨groups, hgroups, h⟩ := bind_ok h
  cases h
  rw [raiseIf_ok, not_not] at hmax
  exact ⟨groups, chunkGroups_ok hgroups, Bundled.fold hmax.1 groups⟩

/-- `parallel_groups` serves every bounded geometry. -/
theorem parallelGroups_total (start : Nat) {rows maxBatches limit : Nat} (hrows : 1 ≤ rows ∧ rows ≤ 32)
    (hmax : 1 ≤ maxBatches ∧ maxBatches ≤ 3) (hlimit : limit = 4 ∨ limit = 8) :
    ∃ bundles, parallelGroups start rows maxBatches limit = .ok bundles := by
  have hgeom : ¬(¬(1 ≤ rows ∧ rows ≤ 32) ∨ ¬((8 : Nat) = 4 ∨ (8 : Nat) = 8) ∨ ¬(1 ≤ limit ∧ limit ≤ 32)) := by omega
  unfold parallelGroups chunkGroups raiseIf
  rw [if_neg (not_not.mpr hmax), if_neg (not_not.mpr hlimit), if_neg hgeom]
  exact ⟨_, rfl⟩

/-! ## Folded heads -/

/-- `source_row`: the row of the query that row `index` of the folded query holds, and with `inverse` the folded row
that row `index` of the output holds. -/
def sourceRow (rows index : Nat) (inverse : Bool) : Nat :=
  if inverse then
    let token := index / 12
    let head := index % 12
    head / 6 * rows * 6 + token * 6 + head % 6
  else
    let keyHead := index / (rows * 6)
    let remainder := index % (rows * 6)
    let token := remainder / 6
    let head := remainder % 6
    token * 12 + keyHead * 6 + head

/-- The folded row of a head of a token. -/
def foldedRow (rows token head : Nat) : Nat := sourceRow rows (token * 12 + head) true

theorem foldedRow_eq {rows token head : Nat} (hhead : head < 12) :
    foldedRow rows token head = head / 6 * (rows * 6) + (token * 6 + head % 6) := by
  have h1 : (token * 12 + head) / 12 = token := by omega
  have h2 : (token * 12 + head) % 12 = head := by omega
  simp only [foldedRow, sourceRow, h1, h2, if_true, Nat.mul_assoc, Nat.add_assoc]

theorem foldedRow_lt {rows token head : Nat} (htoken : token < rows) (hhead : head < 12) :
    foldedRow rows token head < rows * 12 := by
  rw [foldedRow_eq hhead]
  have : head / 6 ≤ 1 := by omega
  rcases Nat.le_one_iff_eq_zero_or_eq_one.mp this with h | h <;> rw [h] <;> omega

/-- The token of a folded row. -/
theorem foldedRow_token {rows token head : Nat} (htoken : token < rows) (hhead : head < 12) :
    foldedRow rows token head % (rows * 6) / 6 = token := by
  rw [foldedRow_eq hhead, Nat.mul_comm, Nat.mul_add_mod, Nat.mod_eq_of_lt (by omega)]
  omega

/-- **Folding takes each head of each token to the row that unfolding takes it from.** -/
theorem sourceRow_fold {rows token head : Nat} (htoken : token < rows) (hhead : head < 12) :
    sourceRow rows (foldedRow rows token head) false = token * 12 + head := by
  have hdiv : foldedRow rows token head / (rows * 6) = head / 6 := by
    rw [foldedRow_eq hhead, Nat.mul_comm, Nat.mul_add_div (by omega),
      Nat.div_eq_of_lt (show token * 6 + head % 6 < rows * 6 by omega), Nat.add_zero]
  have hmod : foldedRow rows token head % (rows * 6) = token * 6 + head % 6 := by
    rw [foldedRow_eq hhead, Nat.mul_comm, Nat.mul_add_mod, Nat.mod_eq_of_lt (by omega)]
  simp only [sourceRow, Bool.false_eq_true, if_false, hdiv, hmod]
  omega

end BlackholeQwen.Attention
