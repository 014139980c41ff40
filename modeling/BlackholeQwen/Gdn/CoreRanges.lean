import BlackholeQwen.Lib.Groups
import BlackholeQwen.Lib.Rects
import Mathlib.Data.List.Sort

/-!
# Rectangle core ranges (`verify_trace_t1.py`)

`rectangles` covers a set of worker cores with disjoint rectangles: it cuts each column into runs of consecutive cores,
and then gives each run to the first rectangle that ends in the column before and spans the same rows.

- `runsOf_cells`: the runs have the cells of the points.
- `mergeRun_cells`: giving a run to a rectangle keeps all cells.
- `rectangles_exact`: so the rectangles are disjoint and cover exactly the points, and the check never fails.
-/

namespace BlackholeQwen.Gdn

open Lib

/-- A core, by its horizontal and vertical position. -/
abbrev Point : Type := Int × Int

/-- A run of a column: its horizontal position, and its first and last vertical one. -/
abbrev ColumnRun : Type := Int × Int × Int

/-- The order of tuples. -/
def tupleLe (p q : Point) : Prop := p.1 < q.1 ∨ p.1 = q.1 ∧ p.2 ≤ q.2

instance : DecidableRel tupleLe := fun p q => by unfold tupleLe; infer_instance

/-- `sorted` of points. -/
def sorted (points : List Point) : List Point := points.insertionSort tupleLe

/-- `columns`: the points of each horizontal position. -/
def columnsOf (points : List Point) : Dict Int (List Point) := (groupBy (fun p => some p.1) points).1

/-- `sorted(columns[horizontal])`. -/
def verticalsOf (points : List Point) (horizontal : Int) : List Int :=
  ((((columnsOf points).get? horizontal).getD []).map Prod.snd).insertionSort (· ≤ ·)

/-- The loop over a column's verticals, from the run `first .. previous` on. -/
def columnRuns (horizontal first previous : Int) : List Int → List ColumnRun
  | [] => [(horizontal, first, previous)]
  | vertical :: verticals =>
    if vertical ≠ previous + 1 then
      (horizontal, first, previous) :: columnRuns horizontal vertical vertical verticals
    else columnRuns horizontal first vertical verticals

/-- The runs of a column. -/
def runsOfColumn (horizontal : Int) : List Int → List ColumnRun
  | [] => []
  | first :: verticals => columnRuns horizontal first first verticals

/-- `runs`. -/
def runsOf (points : List Point) : List ColumnRun :=
  ((columnsOf points).keys.insertionSort (· ≤ ·)).flatMap fun horizontal =>
    runsOfColumn horizontal (verticalsOf points horizontal)

/-- A run joins the first rectangle beside it that spans the same rows, or is a rectangle of its own. -/
def mergeRun (run : ColumnRun) : List Rect → List Rect
  | [] => [Rect.column run.1 run.2.1 run.2.2]
  | r :: merged =>
    if r.x1 = run.1 - 1 ∧ (r.y0, r.y1) = run.2 then { r with x1 := run.1 } :: merged else r :: mergeRun run merged

/-- `rectangles`. -/
def rectangles (points : List Point) : Except PyError (List Rect) := do
  raiseIf (points = [] ∨ ¬points.Nodup) (.valueError "Distinct worker cores required")
  let merged := (runsOf points).foldl (fun merged run => mergeRun run merged) []
  raiseIf (sorted (merged.flatMap Rect.cells) ≠ sorted points)
    (.assertionError "Rectangles must cover exactly the worker cores")
  return merged

/-! ## Sorting -/

instance : Std.Total tupleLe := ⟨fun p q => by unfold tupleLe; omega⟩

instance : IsTrans Point tupleLe := ⟨fun p q r hpq hqr => by unfold tupleLe at *; omega⟩

instance : Std.Antisymm tupleLe := ⟨fun p q hpq hqr => by
  unfold tupleLe at hpq hqr
  exact Prod.ext (by omega) (by omega)⟩

/-- Two listings of the same points sort alike. -/
theorem sorted_eq {ps qs : List Point} (h : ps.Perm qs) : sorted ps = sorted qs :=
  List.Perm.eq_of_pairwise' (List.pairwise_insertionSort tupleLe ps) (List.pairwise_insertionSort tupleLe qs)
    (((List.perm_insertionSort tupleLe ps).trans h).trans (List.perm_insertionSort tupleLe qs).symm)

/-! ## Runs -/

/-- The cells of a run. -/
def runCells (run : ColumnRun) : List Point := (Rect.column run.1 run.2.1 run.2.2).cells

theorem runCells_eq (horizontal first last : Int) :
    runCells (horizontal, first, last) = (Int.range first (last + 1)).map (Prod.mk horizontal) :=
  Rect.cells_column horizontal first last

/-- The runs of a column have its cells. -/
theorem columnRuns_cells (horizontal : Int) (verticals : List Int) : ∀ first previous : Int, first ≤ previous →
    (columnRuns horizontal first previous verticals).flatMap runCells =
      (Int.range first (previous + 1) ++ verticals).map (Prod.mk horizontal) := by
  induction verticals with
  | nil =>
    intro first previous _
    rw [columnRuns, List.flatMap_singleton, runCells_eq, List.append_nil]
  | cons vertical verticals ih =>
    intro first previous hle
    rw [columnRuns]
    split
    · rw [List.flatMap_cons, runCells_eq, ih vertical vertical (Int.le_refl _), range_single, List.singleton_append,
        List.map_append]
    · rename_i hnext
      have hnext : vertical = previous + 1 := not_not.mp hnext
      rw [ih first vertical (by omega), range_succ (show first ≤ vertical by omega), hnext, List.append_assoc]
      rfl

theorem runsOfColumn_cells (horizontal : Int) (verticals : List Int) :
    (runsOfColumn horizontal verticals).flatMap runCells = verticals.map (Prod.mk horizontal) := by
  cases verticals with
  | nil => rfl
  | cons first verticals =>
    rw [runsOfColumn, columnRuns_cells horizontal verticals first first (Int.le_refl _), range_single]
    rfl

/-- A column holds the points of its horizontal position. -/
theorem column_points (points : List Point) (horizontal : Int) :
    (((columnsOf points).get? horizontal).getD []) = points.filter fun p => some p.1 = some horizontal := by
  rw [columnsOf, groupBy_get?]
  split
  · rename_i hnone
    rw [hnone]
    rfl
  · rfl

theorem verticals_cells (points : List Point) (horizontal : Int) :
    ((verticalsOf points horizontal).map (Prod.mk horizontal)).Perm
      (points.filter fun p => some p.1 = some horizontal) := by
  have hsame : ((points.filter fun p => some p.1 = some horizontal).map Prod.snd).map (Prod.mk horizontal) =
      points.filter fun p => some p.1 = some horizontal := by
    rw [List.map_map]
    refine (List.map_congr_left fun p hp => ?_).trans (List.map_id _)
    have hp : some p.1 = some horizontal := by simpa using (List.mem_filter.mp hp).2
    exact Prod.ext (Option.some.inj hp).symm rfl
  rw [verticalsOf, column_points]
  exact ((List.perm_insertionSort _ _).map _).trans (List.Perm.of_eq hsame)

/-- **The runs have the cells of the points.** -/
theorem runsOf_cells (points : List Point) : ((runsOf points).flatMap runCells).Perm points := by
  have hcolumns : ((columnsOf points).keys.flatMap fun horizontal =>
      points.filter fun p => some p.1 = some horizontal).Perm points := by
    have hcover : ∀ p ∈ points, ∀ k : Int, some p.1 = some k → k ∈ (columnsOf points).keys := by
      intro p hp k hk
      rw [← Dict.isSome_get?, columnsOf, groupBy_get?, if_neg]
      · rfl
      · exact List.ne_nil_of_mem (List.mem_filter.mpr ⟨hp, by simpa using hk⟩)
    have hperm := perm_groups (fun p : Point => some p.1) (columnsOf points).nodup hcover
    rw [List.filter_eq_nil_iff.mpr (fun _ _ => by simp), List.nil_append] at hperm
    exact hperm
  have hruns : (runsOf points).flatMap runCells =
      ((columnsOf points).keys.insertionSort (· ≤ ·)).flatMap fun horizontal =>
        (verticalsOf points horizontal).map (Prod.mk horizontal) := by
    rw [runsOf, List.flatMap_assoc]
    exact List.flatMap_congr fun horizontal _ => runsOfColumn_cells horizontal _
  rw [hruns]
  refine List.Perm.trans ?_ hcolumns
  exact List.Perm.flatMap (List.perm_insertionSort _ _) fun horizontal _ => verticals_cells points horizontal

/-! ## Merging -/

/-- Every rectangle has a column. -/
def Wide (merged : List Rect) : Prop := ∀ r ∈ merged, r.x0 ≤ r.x1

theorem mergeRun_wide (run : ColumnRun) {merged : List Rect} (h : Wide merged) : Wide (mergeRun run merged) := by
  induction merged with
  | nil =>
    intro r hr
    rw [List.mem_singleton.mp hr]
    exact Int.le_refl _
  | cons r merged ih =>
    rw [mergeRun]
    split
    · rename_i hfits
      intro s hs
      rcases List.mem_cons.mp hs with rfl | hs
      · have hr := h r List.mem_cons_self
        show r.x0 ≤ run.1
        omega
      · exact h s (List.mem_cons_of_mem _ hs)
    · intro s hs
      rcases List.mem_cons.mp hs with rfl | hs
      · exact h _ List.mem_cons_self
      · exact ih (fun t ht => h t (List.mem_cons_of_mem _ ht)) s hs

/-- **Merging keeps all cells.** -/
theorem mergeRun_cells (run : ColumnRun) {merged : List Rect} (h : Wide merged) :
    ((mergeRun run merged).flatMap Rect.cells).Perm (merged.flatMap Rect.cells ++ runCells run) := by
  induction merged with
  | nil =>
    rw [mergeRun, List.flatMap_singleton]
    exact List.Perm.refl _
  | cons r merged ih =>
    rw [mergeRun]
    split
    · rename_i hfits
      have hrun : runCells run = (Rect.column run.1 r.y0 r.y1).cells := by
        obtain ⟨horizontal, first, last⟩ := run
        obtain ⟨-, hspan⟩ := hfits
        obtain ⟨rfl, rfl⟩ := Prod.mk.inj hspan
        rfl
      rw [List.flatMap_cons, List.flatMap_cons, Rect.cells_widen (h r List.mem_cons_self) hfits.1, ← hrun,
        List.append_assoc, List.append_assoc]
      exact (List.perm_append_comm).append_left _
    · rw [List.flatMap_cons, List.flatMap_cons, List.append_assoc]
      exact (ih fun t ht => h t (List.mem_cons_of_mem _ ht)).append_left _

theorem mergeRuns_cells (runs : List ColumnRun) : ∀ merged : List Rect, Wide merged →
    ((runs.foldl (fun merged run => mergeRun run merged) merged).flatMap Rect.cells).Perm
      (merged.flatMap Rect.cells ++ runs.flatMap runCells) := by
  induction runs with
  | nil =>
    intro merged _
    rw [List.flatMap_nil, List.append_nil]
    exact List.Perm.refl _
  | cons run runs ih =>
    intro merged h
    rw [List.foldl_cons, List.flatMap_cons, ← List.append_assoc]
    exact (ih _ (mergeRun_wide run h)).trans ((mergeRun_cells run h).append_right _)

/-- **Exact cover.** The rectangles of distinct points are disjoint, and their cells are the points. -/
theorem rectangles_exact {points : List Point} (hsome : points ≠ []) (hnd : points.Nodup) :
    ∃ merged, rectangles points = .ok merged ∧
      merged.Pairwise (fun r s => ∀ p ∈ r.cells, p ∉ s.cells) ∧ ∀ p, (∃ r ∈ merged, p ∈ r.cells) ↔ p ∈ points := by
  have hperm := (mergeRuns_cells (runsOf points) [] fun _ hr => (by cases hr)).trans (runsOf_cells points)
  refine ⟨_, ?_, Rect.disjoint_of_nodup (hperm.nodup_iff.mpr hnd), fun p => ?_⟩
  · unfold rectangles
    rw [raiseIf_bind (by simp [hsome, hnd])]
    show (raiseIf _ _ >>= _) = _
    rw [raiseIf_bind (not_not.mpr (sorted_eq hperm))]
    rfl
  · rw [← hperm.mem_iff, List.mem_flatMap]

end BlackholeQwen.Gdn
