import Mathlib.Data.Int.Range
import Mathlib.Data.List.Nodup

/-!
# Rectangles of integer cells

A `Rect` is given by its corners, both inclusive; `Rect.cells` lists its cells.

- `Rect.mem_cells`: which cells they are.
- `Rect.cells_widen`: a rectangle and the column beside it are the wider rectangle.
- `Rect.disjoint_of_nodup`: rectangles whose cells are listed once are disjoint.
-/

namespace Lib

/-- A rectangle, from one corner to the other. -/
structure Rect where
  x0 : Int
  y0 : Int
  x1 : Int
  y1 : Int
  deriving DecidableEq, Repr

/-- One integer more. -/
theorem range_succ {a b : Int} (h : a ≤ b) : Int.range a (b + 1) = Int.range a b ++ [b] := by
  have hlength : (b + 1 - a).toNat = (b - a).toNat + 1 := by omega
  unfold Int.range
  rw [hlength, List.range_succ, List.map_append, List.map_singleton]
  have hlast : a + ((b - a).toNat : Int) = b := by omega
  rw [hlast]

theorem range_single (a : Int) : Int.range a (a + 1) = [a] := by
  have hnone : Int.range a a = [] := by
    unfold Int.range
    rw [Int.sub_self]
    rfl
  rw [range_succ (Int.le_refl a), hnone, List.nil_append]

namespace Rect

/-- The cells, column by column. -/
def cells (r : Rect) : List (Int × Int) :=
  (Int.range r.x0 (r.x1 + 1)).flatMap fun x => (Int.range r.y0 (r.y1 + 1)).map (Prod.mk x)

/-- A rectangle one column wide. -/
def column (x y0 y1 : Int) : Rect := ⟨x, y0, x, y1⟩

theorem mem_cells {r : Rect} {p : Int × Int} :
    p ∈ r.cells ↔ (r.x0 ≤ p.1 ∧ p.1 ≤ r.x1) ∧ r.y0 ≤ p.2 ∧ p.2 ≤ r.y1 := by
  obtain ⟨x, y⟩ := p
  unfold cells
  simp only [List.mem_flatMap, List.mem_map, Int.mem_range_iff, Prod.mk.injEq]
  constructor
  · rintro ⟨x', hx, y', hy, rfl, rfl⟩
    exact ⟨⟨hx.1, by omega⟩, hy.1, by omega⟩
  · rintro ⟨hx, hy⟩
    exact ⟨x, ⟨hx.1, by omega⟩, y, ⟨hy.1, by omega⟩, rfl, rfl⟩

theorem cells_column (x y0 y1 : Int) : (column x y0 y1).cells = (Int.range y0 (y1 + 1)).map (Prod.mk x) := by
  show (Int.range x (x + 1)).flatMap _ = _
  rw [range_single, List.flatMap_singleton]
  rfl

/-- **A rectangle and the column beside it.** -/
theorem cells_widen {r : Rect} {x : Int} (h : r.x0 ≤ r.x1) (hx : r.x1 = x - 1) :
    cells { r with x1 := x } = r.cells ++ (column x r.y0 r.y1).cells := by
  have hnext : r.x1 + 1 = x := by omega
  show (Int.range r.x0 (x + 1)).flatMap _ = _
  rw [range_succ (show r.x0 ≤ x by omega), List.flatMap_append, List.flatMap_singleton, cells_column, cells, hnext]

/-- Rectangles whose cells are listed once are disjoint. -/
theorem disjoint_of_nodup {rs : List Rect} (h : (rs.flatMap cells).Nodup) :
    rs.Pairwise fun r s => ∀ p ∈ r.cells, p ∉ s.cells :=
  (List.nodup_flatMap.mp h).2.imp fun hdisjoint _ hr hs => hdisjoint hr hs

end Rect

end Lib
