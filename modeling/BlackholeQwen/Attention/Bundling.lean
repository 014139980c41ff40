import BlackholeQwen.Attention.Extent
import Mathlib.Data.List.Chain

/-!
# Row bundling (`attention_head_fold.py`, `attention_mask_replay.py`)

`chunk_groups` and `parallel_groups` are greedy: a row joins the last group, and a group the last bundle, if it has its
shape and there is room. So neighbours of one shape are full (`chunkGroups_tight`, `parallelGroups_tight`), all rows of
a group have its native workload (`chunkGroups_native`), and the groups of a bundle lie where `mask_position` looks for
them (`row_bundles_exact`).
-/

namespace BlackholeQwen.Attention

open Lib

/-- `mask_position`. -/
def maskPosition (start rows batch head offset : Nat) : Except PyError Nat := do
  raiseIf (¬(1 ≤ rows ∧ rows ≤ 8) ∨ ¬batch < 3 ∨ ¬head < rows * 12) (.valueError "Bounded folded query head required")
  return start + offset + batch * rows + head % (rows * 6) / 6

/-! ## Native workloads -/

theorem le_roundUp {n c : Nat} (hc : 0 < c) : n ≤ (n + c - 1) / c * c := by
  have h := Nat.lt_div_mul_add (a := n + c - 1) hc
  omega

/-- A position lies below its native capacity. -/
theorem lt_capacity (position : Nat) {maxChunkTiles : Nat} (h : 0 < maxChunkTiles) :
    position + 1 ≤ (chunkSignature position maxChunkTiles).2 := by
  have hpos : 0 < min maxChunkTiles (2 ^ bitLength (position / 32 + 1 - 1)) * 32 :=
    Nat.mul_pos (lt_min h (Nat.two_pow_pos _)) (by omega)
  exact le_roundUp hpos

/-! ## Groups -/

/-- The groups' rows have their native workloads, and neighbours of one workload are full. -/
structure Native (start maxChunkTiles limit : Nat) (groups : List Group) : Prop where
  rows : ∀ g ∈ groups, ∀ t < g.rows, chunkSignature (start + (g.offset + t)) maxChunkTiles = g.signature
  tight : groups.IsChain fun a b => a.signature = b.signature → a.rows = limit

/-- One more row keeps them so. -/
theorem Native.addRow {start maxChunkTiles limit rows : Nat} {groups : List Group}
    (hg : Grouped limit groups rows) (h : Native start maxChunkTiles limit groups) :
    Native start maxChunkTiles limit (addRow start maxChunkTiles limit groups rows) := by
  unfold Attention.addRow
  dsimp only
  -- a new group of the one row
  have hrow : ∀ g ∈ groups ++ [(⟨rows, 1, chunkSignature (start + rows) maxChunkTiles⟩ : Group)], ∀ t < g.rows,
      chunkSignature (start + (g.offset + t)) maxChunkTiles = g.signature := by
    intro g hmem t ht
    rcases List.mem_append.mp hmem with hmem | hmem
    · exact h.rows g hmem t ht
    · cases List.mem_singleton.mp hmem
      rw [Nat.lt_one_iff.mp ht]
      rfl
  cases hl : groups.getLast? with
  | none =>
    cases List.getLast?_eq_none_iff.mp hl
    exact ⟨hrow, .singleton _⟩
  | some g =>
    dsimp only
    obtain ⟨front, hfront⟩ := List.getLast?_eq_some_iff.mp hl
    split
    · rename_i hjoin
      subst hfront
      rw [List.dropLast_concat]
      -- the joined group starts where the last group did and ends with the new row
      have hend : g.offset + g.rows = rows := by
        obtain ⟨mid, -, h2⟩ := Spans.append_iff.mp hg.spans
        cases h2 with
        | cons hstart hpos h3 =>
          cases h3 with
          | nil => rw [hstart]
      refine ⟨fun g' hmem t ht => ?_, ?_⟩
      · rcases List.mem_append.mp hmem with hmem | hmem
        · exact h.rows g' (List.mem_append_left _ hmem) t ht
        · cases List.mem_singleton.mp hmem
          rcases Nat.lt_succ_iff_lt_or_eq.mp ht with ht | rfl
          · exact h.rows g (by simp) t ht
          · rw [hjoin.1, show g.offset + g.rows = rows from hend]
      · obtain ⟨hchain, -, hlast⟩ := List.isChain_append.mp h.tight
        exact hchain.append (.singleton _) fun x hx y hy => by
          cases hy
          exact hlast x hx g rfl
    · rename_i hsplit
      refine ⟨hrow, h.tight.append (.singleton _) fun x hx y hy hsame => ?_⟩
      rw [hl] at hx
      cases hx
      cases hy
      have hsmall := hg.small g (List.mem_of_getLast? hl)
      by_contra hne
      exact hsplit ⟨hsame, by omega⟩

theorem Native.fold {start maxChunkTiles limit : Nat} (hlimit : 0 < limit) (rows : Nat) :
    Native start maxChunkTiles limit ((List.range rows).foldl (Attention.addRow start maxChunkTiles limit) []) ∧
    Grouped limit ((List.range rows).foldl (Attention.addRow start maxChunkTiles limit) []) rows := by
  induction rows with
  | zero => exact ⟨⟨fun g hg => (by cases hg), .nil⟩, .nil 0, fun g hg => by cases hg⟩
  | succ rows ih =>
    rw [List.range_succ, List.foldl_append]
    exact ⟨ih.1.addRow ih.2, ih.2.addRow hlimit⟩

/-- **The groups of `chunk_groups`.** Each row is in one group, in order; the rows of a group have its native workload
and lie below its capacity; and neighbours of one workload could not have been one group. -/
structure GroupsExact (start rows maxChunkTiles limit : Nat) (groups : List Group) : Prop where
  cover : groups.flatMap (fun g => List.range' g.offset g.rows) = List.range rows
  size : ∀ g ∈ groups, 1 ≤ g.rows ∧ g.rows ≤ limit
  native : ∀ g ∈ groups, ∀ t < g.rows, chunkSignature (start + (g.offset + t)) maxChunkTiles = g.signature
  capacity : ∀ g ∈ groups, start + g.offset + g.rows ≤ g.signature.2
  tight : groups.IsChain fun a b => a.signature = b.signature → limit < a.rows + b.rows

/-- A group has a row. -/
theorem Grouped.pos {limit rows : Nat} {groups : List Group} (h : Grouped limit groups rows) {g : Group}
    (hg : g ∈ groups) : 1 ≤ g.rows := by
  obtain ⟨front, back, rfl⟩ := List.append_of_mem hg
  obtain ⟨mid, -, h2⟩ := Spans.append_iff.mp h.spans
  cases h2 with
  | cons hstart hpos h3 => exact hpos

theorem GroupsExact.of {start rows maxChunkTiles limit : Nat} {groups : List Group} (htiles : 0 < maxChunkTiles)
    (hn : Native start maxChunkTiles limit groups) (hg : Grouped limit groups rows) :
    GroupsExact start rows maxChunkTiles limit groups := by
  refine ⟨?_, fun g hmem => ⟨hg.pos hmem, hg.small g hmem⟩, hn.rows, fun g hmem => ?_, ?_⟩
  · rw [hg.spans.flatMap_range, List.range_eq_range', Nat.sub_zero]
  · have hpos := hg.pos hmem
    have hlast := hn.rows g hmem (g.rows - 1) (by omega)
    have hlt := lt_capacity (start + (g.offset + (g.rows - 1))) htiles
    rw [hlast] at hlt
    omega
  · refine List.IsChain.imp_of_mem_imp (fun a b ha hb hab hsame => ?_) hn.tight
    have := hab hsame
    have := hg.pos hb
    omega

/-! ## Bundles -/

/-- What the groups of a bundle share. -/
def Group.shape (g : Group) : Nat × (Nat × Nat) := (g.rows, g.signature)

/-- The groups of a bundle have one shape, and neighbours of one shape are full. -/
structure Shaped (maxBatches : Nat) (bundles : List (List Group)) : Prop where
  same : ∀ b ∈ bundles, ∀ f ∈ b.head?, ∀ g ∈ b, g.shape = f.shape
  tight : bundles.IsChain fun a b => a.head?.map Group.shape = b.head?.map Group.shape → a.length = maxBatches

/-- One more group keeps them so. -/
theorem Shaped.addGroup {maxBatches : Nat} {bundles : List (List Group)} {groups : List Group}
    (hb : Bundled maxBatches bundles groups) (h : Shaped maxBatches bundles) (g : Group) :
    Shaped maxBatches (addGroup maxBatches bundles g) := by
  unfold Attention.addGroup
  have hsame : ∀ b ∈ bundles ++ [[g]], ∀ f ∈ b.head?, ∀ g' ∈ b, g'.shape = f.shape := by
    intro b hmem f hf g' hg'
    rcases List.mem_append.mp hmem with hmem | hmem
    · exact h.same b hmem f hf g' hg'
    · cases List.mem_singleton.mp hmem
      cases List.mem_singleton.mp hg'
      cases hf
      rfl
  cases hl : bundles.getLast? with
  | none =>
    cases List.getLast?_eq_none_iff.mp hl
    exact ⟨hsame, .singleton _⟩
  | some bundle =>
    dsimp only
    obtain ⟨front, hfront⟩ := List.getLast?_eq_some_iff.mp hl
    split
    · rename_i hjoin
      subst hfront
      rw [List.dropLast_concat]
      obtain ⟨f, hf, -⟩ := hb.shape bundle (by simp)
      rw [Option.mem_def] at hf
      have hhead : (bundle ++ [g]).head? = some f := by rw [List.head?_append, hf]; rfl
      have hshape : g.shape = f.shape := by
        have hsig := hjoin.2
        rw [hf] at hsig
        exact (Option.some.inj hsig).symm
      refine ⟨fun b hmem f' hf' g' hg' => ?_, ?_⟩
      · rcases List.mem_append.mp hmem with hmem | hmem
        · exact h.same b (List.mem_append_left _ hmem) f' hf' g' hg'
        · cases List.mem_singleton.mp hmem
          rw [hhead] at hf'
          cases hf'
          rcases List.mem_append.mp hg' with hg' | hg'
          · exact h.same bundle (by simp) f hf g' hg'
          · cases List.mem_singleton.mp hg'
            exact hshape
      · obtain ⟨hchain, -, hlast⟩ := List.isChain_append.mp h.tight
        refine hchain.append (.singleton _) fun x hx y hy => ?_
        cases hy
        rw [hhead, ← hf]
        exact hlast x hx bundle rfl
    · rename_i hsplit
      refine ⟨hsame, h.tight.append (.singleton _) fun x hx y hy heq => ?_⟩
      rw [hl] at hx
      cases hx
      cases hy
      have hshort := hb.short bundle (List.mem_of_getLast? hl)
      by_contra hne
      exact hsplit ⟨by omega, heq⟩

theorem Shaped.fold {maxBatches : Nat} (hmax : 1 ≤ maxBatches) (groups : List Group) :
    Shaped maxBatches (groups.foldl (Attention.addGroup maxBatches) []) := by
  induction groups using List.reverseRecOn with
  | nil => exact ⟨fun b hb => (by cases hb), .nil⟩
  | append_singleton groups g ih =>
    rw [List.foldl_append]
    exact ih.addGroup (.fold hmax groups) g

/-- **A bundle of `parallel_groups`.** At most `maxBatches` groups of one shape, the `i`-th where `mask_position` looks
for it. -/
structure BundleExact (start rows maxBatches : Nat) (b : List Group) : Prop where
  size : 1 ≤ b.length ∧ b.length ≤ maxBatches
  within : bundleOffset b + bundleRows b * b.length ≤ rows
  same : ∀ g ∈ b, ∀ f ∈ b, g.rows = f.rows ∧ g.signature = f.signature
  offset : ∀ i g, b[i]? = some g → g.offset = bundleOffset b + i * bundleRows b
  position : ∀ i g, b[i]? = some g → ∀ head < g.rows * 12,
    maskPosition start g.rows i head (bundleOffset b) = .ok (start + g.offset + head % (g.rows * 6) / 6)

/-- Neighbouring bundles of one shape could not have been one bundle. -/
def Apart (maxBatches : Nat) (a b : List Group) : Prop :=
  (∀ g ∈ a, ∀ f ∈ b, g.rows = f.rows ∧ g.signature = f.signature) → maxBatches < a.length + b.length

/-- The bundles of groups that lie end to end. -/
theorem BundleExact.of {start rows maxBatches limit : Nat} {bundles : List (List Group)} {groups : List Group}
    (hg : Grouped limit groups rows) (hb : Bundled maxBatches bundles groups) (hs : Shaped maxBatches bundles)
    (hmax : maxBatches ≤ 3) (hlimit : limit ≤ 8) {b : List Group} (hmem : b ∈ bundles) :
    BundleExact start rows maxBatches b := by
  have hspans := hg.spans
  rw [← hb.flatten] at hspans
  obtain ⟨lo, hi, hbs⟩ := hspans.of_mem_flatten hmem
  obtain ⟨f, hf, hall⟩ := hb.shape b hmem
  have hshape : ∀ g ∈ b, g.rows = f.rows ∧ g.signature = f.signature := fun g hgb =>
    Prod.mk.inj (hs.same b hmem f hf g hgb)
  rw [Option.mem_def] at hf
  have hrows : bundleRows b = f.rows := by rw [bundleRows, hf]; rfl
  have hoffset : bundleOffset b = f.offset := by rw [bundleOffset, hf]; rfl
  have hfirst : b[0]? = some f := by rw [← List.head?_eq_getElem?]; exact hf
  have h0 : f.offset = lo + 0 * f.rows := hbs.start_eq hall hfirst
  have hat : ∀ i g, b[i]? = some g → g.offset = bundleOffset b + i * bundleRows b := by
    intro i g hi
    have := hbs.start_eq hall hi
    rw [hoffset, hrows]
    omega
  have hpos : 1 ≤ b.length := List.length_pos_of_mem (List.mem_of_getElem? hfirst)
  have hshort := hb.short b hmem
  have hin : ∀ g ∈ b, g ∈ groups := fun g hgb => by
    rw [← hb.flatten]
    exact List.mem_flatten.mpr ⟨b, hmem, hgb⟩
  refine ⟨⟨hpos, hshort⟩, ?_, fun g hgb f' hfb => ?_, hat, fun i g hi head hhead => ?_⟩
  · -- the last group ends within the rows
    obtain ⟨g, hlast⟩ : ∃ g, b[b.length - 1]? = some g := ⟨_, List.getElem?_eq_getElem (by omega)⟩
    have hgb := List.mem_of_getElem? hlast
    have hend := (hg.spans.bounds (hin g hgb)).2
    rw [hat _ g hlast, (hshape g hgb).1, ← hrows] at hend
    calc bundleOffset b + bundleRows b * b.length
        = bundleOffset b + (b.length - 1) * bundleRows b + bundleRows b := by
          obtain ⟨n, hn⟩ := Nat.exists_eq_add_of_le hpos
          rw [hn, Nat.add_sub_cancel_left, Nat.mul_add, Nat.mul_one, Nat.mul_comm n]
          omega
      _ ≤ rows := hend
  · exact ⟨(hshape g hgb).1.trans (hshape f' hfb).1.symm, (hshape g hgb).2.trans (hshape f' hfb).2.symm⟩
  · have hgb := List.mem_of_getElem? hi
    have hi' : i < b.length := (List.getElem?_eq_some_iff.mp hi).1
    have hgpos := hg.pos (hin g hgb)
    have hgsmall := hg.small g (hin g hgb)
    have hguard : raiseIf (¬(1 ≤ g.rows ∧ g.rows ≤ 8) ∨ ¬i < 3 ∨ ¬head < g.rows * 12)
        (.valueError "Bounded folded query head required") = .ok () := by
      rw [raiseIf_ok]
      omega
    rw [maskPosition, hguard]
    show Except.ok (start + bundleOffset b + i * g.rows + head % (g.rows * 6) / 6) = _
    rw [hat i g hi, (hshape g hgb).1, hrows, Nat.add_assoc start]

/-- **Row bundling is an exact cover that the mask kernel can address.** -/
theorem row_bundles_exact (start : Nat) {rows : Nat} (hrows : 1 ≤ rows ∧ rows ≤ 32) :
    (∀ maxChunkTiles limit, maxChunkTiles = 4 ∨ maxChunkTiles = 8 → 1 ≤ limit ∧ limit ≤ 32 →
      ∃ groups, chunkGroups start rows maxChunkTiles limit = .ok groups ∧
        GroupsExact start rows maxChunkTiles limit groups) ∧
    ∀ maxBatches limit, 1 ≤ maxBatches ∧ maxBatches ≤ 3 → limit = 4 ∨ limit = 8 →
      ∃ bundles, parallelGroups start rows maxBatches limit = .ok bundles ∧
        GroupsExact start rows 8 limit bundles.flatten ∧
        (∀ b ∈ bundles, BundleExact start rows maxBatches b) ∧ bundles.IsChain (Apart maxBatches) := by
  have hchunks : ∀ maxChunkTiles limit, maxChunkTiles = 4 ∨ maxChunkTiles = 8 → 1 ≤ limit ∧ limit ≤ 32 →
      chunkGroups start rows maxChunkTiles limit =
        .ok ((List.range rows).foldl (addRow start maxChunkTiles limit) []) := by
    intro maxChunkTiles limit htiles hlimit
    unfold chunkGroups
    rw [if_neg (by omega)]
  refine ⟨fun maxChunkTiles limit htiles hlimit => ?_, fun maxBatches limit hmax hlimit => ?_⟩
  · obtain ⟨hn, hg⟩ := Native.fold hlimit.1 rows
    exact ⟨_, hchunks maxChunkTiles limit htiles hlimit, .of (by omega) hn hg⟩
  · obtain ⟨hn, hg⟩ := Native.fold (by omega : 0 < limit) rows
    have hb := Bundled.fold hmax.1 ((List.range rows).foldl (addRow start 8 limit) [])
    have hs := Shaped.fold hmax.1 ((List.range rows).foldl (addRow start 8 limit) [])
    refine ⟨_, ?_, ?_, fun b hmem => .of hg hb hs hmax.2 (by omega) hmem, ?_⟩
    · unfold parallelGroups raiseIf
      rw [if_neg (not_not.mpr hmax), if_neg (not_not.mpr hlimit), hchunks 8 limit (Or.inr rfl) (by omega)]
      rfl
    · rw [hb.flatten]
      exact .of (by omega) hn hg
    · refine hs.tight.imp_of_mem_imp fun a b ha hb' hab hshape => ?_
      obtain ⟨f, hf, -⟩ := hb.shape a ha
      obtain ⟨g, hgb, -⟩ := hb.shape b hb'
      rw [Option.mem_def] at hf hgb
      have heq := hshape f (List.mem_of_head? hf) g (List.mem_of_head? hgb)
      have hfull := hab (by rw [hf, hgb, Option.map_some, Option.map_some, Group.shape, Group.shape, heq.1, heq.2])
      have hpos := List.length_pos_of_mem (List.mem_of_head? hgb)
      omega

/-- Sixteen rows from 250: six end the family, in two groups, and ten begin the next. -/
theorem row_bundles_exact_sample :
    ∃ bundles, parallelGroups 250 16 3 4 = .ok bundles ∧ GroupsExact 250 16 8 4 bundles.flatten ∧
      (∀ b ∈ bundles, BundleExact 250 16 3 b) ∧ bundles.IsChain (Apart 3) :=
  (row_bundles_exact 250 (by decide)).2 3 4 (by decide) (Or.inl rfl)

end BlackholeQwen.Attention
