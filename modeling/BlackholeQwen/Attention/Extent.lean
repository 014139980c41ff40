import BlackholeQwen.Attention.HeadFold
import BlackholeQwen.Attention.MaskReplay
import Mathlib.Data.Nat.Bitwise

/-!
# The extent path (`scripts/ci/extent_attention_replay.py`)

- `extent`, `extentValues`, `acceptLimit`, `layout`: the family of 256 keys that a start reads, the relative word and
  the position from it, the commit cap and the bundles.
- `visible_iff`: what a head of a row sees, through the narrow mask on the family's last chunk and unmasked before it:
  the keys up to the row's own, cut at the family's end.
- `extent_attention_exact`: below the cap that is exactly the causal set, and no row at or past the cap is below the
  family's end.
-/

namespace BlackholeQwen.Attention

open Lib

/-- `extent`: the end of the family of keys that a row at `start` reads. -/
def extent (start : Nat) : Nat := (start / K + 1) * K

/-- `extent_values`: the word relative to the family's last chunk, and the family's last position. -/
def extentValues (start : Nat) : Nat × Nat := (start &&& (K - 1), extent start - 1)

/-- `accept_limit`: how many of a ticket's rows may commit. -/
def acceptLimit (start rows : Nat) : Except PyError Nat :=
  integer "rows" rows 1 >>= fun _ => .ok (min rows (extent start - start))

/-- The first position that the extent path serves. -/
abbrev MIN_LIVE_START : Nat := 128

/-- `admits`: a live ticket that the extent path serves. -/
def admits (start rows capacity : Nat) : Bool :=
  1 ≤ rows ∧ MIN_LIVE_START ≤ start ∧ start + rows ≤ capacity

/-- `LAYOUT`: the bundles of the extent readers. -/
def layout (rows groupRows : Nat) : Except PyError (List (List Group)) := parallelGroups K rows 3 groupRows

/-- The rows of a bundle's groups. -/
def bundleRows (bundle : List Group) : Nat := (bundle.head?.map Group.rows).getD 0

/-- The first row of a bundle. -/
def bundleOffset (bundle : List Group) : Nat := (bundle.head?.map Group.offset).getD 0

/-- A place (bundle, group of the bundle, row of the group) produces row `r` of the segment. -/
def Produces (bundles : List (List Group)) (p : Nat × Nat × Nat) (r : Nat) : Prop :=
  ∃ bundle group, bundles[p.1]? = some bundle ∧ bundle[p.2.1]? = some group ∧ p.2.2 < group.rows ∧
    group.offset + p.2.2 = r

/-- The keys that a folded row sees at a position: unmasked before the final chunk, through its mask in it. -/
def Visible (curPos : Nat) (maskRow : Nat → Nat) (key : Nat) : Prop :=
  key < curPos + 1 - K ∨ key ≤ curPos ∧ maskRow (key - (curPos + 1 - K)) = 0

/-! ## The family -/

theorem extent_eq (start : Nat) : extent start = start - start % 256 + 256 := by
  have h : extent start = (start / 256 + 1) * 256 := rfl
  omega

theorem word_eq (start : Nat) : (extentValues start).1 = start % 256 := Nat.and_two_pow_sub_one_eq_mod start 8

theorem curPos_eq (start : Nat) : (extentValues start).2 + 1 = extent start := by
  have h : (extentValues start).2 = extent start - 1 := rfl
  rw [h, extent_eq]
  omega

/-- A group of a bundle of the layout: its bundle's shape, and its distance from the bundle's first row. -/
theorem layout_group {rows groupRows : Nat} {bundles : List (List Group)} (h : layout rows groupRows = .ok bundles)
    {b i : Nat} {bundle : List Group} {group : Group} (hb : bundles[b]? = some bundle)
    (hg : bundle[i]? = some group) :
    group.rows = bundleRows bundle ∧ group.offset = bundleOffset bundle + i * bundleRows bundle ∧
      bundleRows bundle ≤ groupRows ∧ 1 ≤ bundle.length ∧ bundle.length ≤ 3 := by
  obtain ⟨groups, hgrouped, hbundled⟩ := parallelGroups_ok h
  have hmem : bundle ∈ bundles := List.mem_of_getElem? hb
  obtain ⟨f, hf, hall⟩ := hbundled.shape bundle hmem
  rw [Option.mem_def] at hf
  have hrows : bundleRows bundle = f.rows := by rw [bundleRows, hf]; rfl
  have hoffset : bundleOffset bundle = f.offset := by rw [bundleOffset, hf]; rfl
  have hspans := hgrouped.spans
  rw [← hbundled.flatten] at hspans
  obtain ⟨lo, hi, hs⟩ := hspans.of_mem_flatten hmem
  have hfirst : bundle[0]? = some f := by rw [← List.head?_eq_getElem?]; exact hf
  have h0 : f.offset = lo + 0 * f.rows := hs.start_eq hall hfirst
  have hi' : group.offset = lo + i * f.rows := hs.start_eq hall hg
  have hf_mem : f ∈ bundle := List.mem_of_getElem? hfirst
  refine ⟨by rw [hrows]; exact hall group (List.mem_of_getElem? hg), ?_, ?_, ?_, hbundled.short bundle hmem⟩
  · rw [hoffset, hrows]; omega
  · rw [hrows]
    refine hgrouped.small f ?_
    rw [← hbundled.flatten]
    exact List.mem_flatten.mpr ⟨bundle, hmem, hf_mem⟩
  · exact List.length_pos_of_mem hf_mem

/-- Each row of the segment is produced in one place. -/
theorem layout_produces {rows groupRows : Nat} {bundles : List (List Group)}
    (h : layout rows groupRows = .ok bundles) {r : Nat} (hr : r < rows) : ∃! p, Produces bundles p r := by
  obtain ⟨groups, hgrouped, hbundled⟩ := parallelGroups_ok h
  have hspans := hgrouped.spans
  rw [← hbundled.flatten] at hspans
  exact hspans.locate (Nat.zero_le r) hr

/-! ## What a head sees -/

/-- **A head of a row sees the keys up to the row's own position, cut at the family's end.** -/
theorem visible_iff (start : Nat) {rows r : Nat} {bundles : List (List Group)} (h : layout rows 8 = .ok bundles)
    {p : Nat × Nat × Nat} (hp : Produces bundles p r) :
    ∃ bundle mask, bundles[p.1]? = some bundle ∧
      narrowMaskHost (extentValues start).1 (bundleRows bundle) bundle.length (bundleOffset bundle) = .ok mask ∧
      ∀ head < 12, ∀ key,
        Visible (extentValues start).2 (mask p.2.1 (foldedRow (bundleRows bundle) p.2.2 head)) key ↔
          key ≤ start + r ∧ key < extent start := by
  obtain ⟨bundle, group, hb, hg, ht, hr⟩ := hp
  obtain ⟨hrows, hoffset, hsmall, hone, hshort⟩ := layout_group h hb hg
  have hword := word_eq start
  obtain ⟨mask, hmask⟩ := narrowMask_total (bundleOffset bundle)
    (show (extentValues start).1 < 2 ^ 32 by omega) ⟨by omega, hsmall⟩ ⟨hone, hshort⟩
  refine ⟨bundle, mask, hb, hmask, fun head hhead key => ?_⟩
  have hi : p.2.1 < bundle.length := (List.getElem?_eq_some_iff.mp hg).1
  have htoken : p.2.2 < bundleRows bundle := by omega
  have hext := extent_eq start
  have hcur := curPos_eq start
  have hfinal : (extentValues start).2 + 1 - K = start - start % 256 := by
    have hK : K = 256 := rfl
    omega
  -- the mask of the folded row, at a column of the final chunk
  have happly : ∀ column < 256,
      mask p.2.1 (foldedRow (bundleRows bundle) p.2.2 head) column = 0 ↔ column ≤ start % 256 + r := by
    intro column hcolumn
    rw [narrowMask_apply hmask hi (foldedRow_lt htoken hhead) hcolumn, foldedRow_token htoken hhead, hword]
    omega
  unfold Visible
  rw [hfinal]
  constructor
  · rintro (hkey | ⟨hkey, hzero⟩)
    · omega
    · by_cases hlow : key < start - start % 256
      · omega
      · rw [happly _ (by omega)] at hzero
        omega
  · rintro ⟨hcausal, hfamily⟩
    by_cases hlow : key < start - start % 256
    · exact Or.inl hlow
    · refine Or.inr ⟨by omega, ?_⟩
      rw [happly _ (by omega)]
      omega

/-- **Attention on the extent path is exact below the cap.** Each row below `acceptLimit` is produced in one place, and
on each of its heads sees exactly the keys up to its own position; the cap is the largest such prefix of the segment. -/
theorem extent_attention_exact (start : Nat) {rows : Nat} (hrows : 1 ≤ rows ∧ rows ≤ 32) :
    ∃ bundles limit, layout rows 8 = .ok bundles ∧ acceptLimit start rows = .ok limit ∧
      (∀ r < limit, (∃! p, Produces bundles p r) ∧
        ∀ p, Produces bundles p r → ∃ bundle mask, bundles[p.1]? = some bundle ∧
          narrowMaskHost (extentValues start).1 (bundleRows bundle) bundle.length (bundleOffset bundle) = .ok mask ∧
          ∀ head < 12, ∀ key,
            Visible (extentValues start).2 (mask p.2.1 (foldedRow (bundleRows bundle) p.2.2 head)) key ↔
              key ≤ start + r) ∧
      limit ≤ rows ∧ (∀ r < limit, start + r < extent start) ∧
      ∀ r < rows, limit ≤ r → ¬start + r < extent start := by
  obtain ⟨bundles, hlayout⟩ := parallelGroups_total K hrows (by omega : 1 ≤ 3 ∧ 3 ≤ 3) (Or.inr rfl : (8 = 4 ∨ 8 = 8))
  have hlimit : acceptLimit start rows = .ok (min rows (extent start - start)) := by
    unfold acceptLimit integer raiseIf
    rw [if_neg (by omega)]
    rfl
  refine ⟨bundles, _, hlayout, hlimit, fun r hr => ?_, Nat.min_le_left _ _, fun r hr => ?_, fun r hr hcap => ?_⟩
  · refine ⟨layout_produces hlayout (by omega), fun p hp => ?_⟩
    obtain ⟨bundle, mask, hb, hmask, hvisible⟩ := visible_iff start hlayout hp
    refine ⟨bundle, mask, hb, hmask, fun head hhead key => ?_⟩
    rw [hvisible head hhead key]
    omega
  · omega
  · omega

/-- The last sixteen rows of a family, cut at its end: six of them commit. -/
theorem extent_attention_exact_sample :
    ∃ bundles limit, layout 16 8 = .ok bundles ∧ acceptLimit 250 16 = .ok limit ∧
      (∀ r < limit, (∃! p, Produces bundles p r) ∧
        ∀ p, Produces bundles p r → ∃ bundle mask, bundles[p.1]? = some bundle ∧
          narrowMaskHost (extentValues 250).1 (bundleRows bundle) bundle.length (bundleOffset bundle) = .ok mask ∧
          ∀ head < 12, ∀ key,
            Visible (extentValues 250).2 (mask p.2.1 (foldedRow (bundleRows bundle) p.2.2 head)) key ↔
              key ≤ 250 + r) ∧
      limit ≤ 16 ∧ (∀ r < limit, 250 + r < extent 250) ∧ ∀ r < 16, limit ≤ r → ¬250 + r < extent 250 :=
  extent_attention_exact 250 (by decide)

end BlackholeQwen.Attention
