import BlackholeQwen.Lib.Writes

/-!
# Tiles in face order

A tile has 32 rows of 32 elements and is stored as four faces of 16 by 16: the two faces of its upper rows, then the two
of its lower rows. `place` is where an element is stored, and `rowAt` and `columnAt` say which element is stored at a
place. Copying a row between tiles copies its two faces (`faces_eq`).
-/

namespace Lib.Tiles

/-- Where row `row` starts in the left or the right one of its faces. -/
def faceStart (row face : Nat) : Nat := row / 16 * 512 + face * 256 + row % 16 * 16

/-- Where a row and a column are in their tile. -/
def place (row column : Nat) : Nat := faceStart row (column / 16) + column % 16

/-- The row of a place of a tile. -/
def rowAt (i : Nat) : Nat := i / 512 * 16 + i % 256 / 16

/-- The column of a place of a tile. -/
def columnAt (i : Nat) : Nat := i % 512 / 256 * 16 + i % 16

/-- The place of another row in the same column. -/
def moveTo (row i : Nat) : Nat := faceStart row (i % 512 / 256) + i % 16

section

variable {row row' column i : Nat}

theorem place_lt (hrow : row < 32) (hcolumn : column < 32) : place row column < 1024 := by
  simp only [place, faceStart]
  omega

theorem rowAt_lt (hi : i < 1024) : rowAt i < 32 := by
  simp only [rowAt]
  omega

theorem columnAt_lt (i : Nat) : columnAt i < 32 := by
  simp only [columnAt]
  omega

theorem rowAt_place (hcolumn : column < 32) : rowAt (place row column) = row := by
  simp only [rowAt, place, faceStart]
  omega

theorem columnAt_place (hcolumn : column < 32) : columnAt (place row column) = column := by
  simp only [columnAt, place, faceStart]
  omega

/-- Every place has its row and its column. -/
theorem place_rowAt (i : Nat) : place (rowAt i) (columnAt i) = i := by
  simp only [place, rowAt, columnAt, faceStart]
  omega

theorem moveTo_eq (row i : Nat) : moveTo row i = place row (columnAt i) := by
  simp only [moveTo, place, columnAt, faceStart]
  omega

theorem moveTo_lt (hrow : row < 32) (i : Nat) : moveTo row i < 1024 := by
  rw [moveTo_eq]
  exact place_lt hrow (columnAt_lt i)

theorem moveTo_place (hcolumn : column < 32) : moveTo row' (place row column) = place row' column := by
  rw [moveTo_eq, columnAt_place hcolumn]

end

/-- The two faces of a row, from one source. -/
theorem faces_eq {ν : Type} {row i : Nat} {page source : Nat → ν} {start : Nat → Nat} :
    (List.range 2).foldl (fun page face => splice page source (faceStart row face) (start face) 16) page i =
      if rowAt i = row then source (start (i % 512 / 256) + i % 16) else page i := by
  have hplace : ∀ face < 2, (faceStart row face ≤ i ∧ i < faceStart row face + 16) ↔
      rowAt i = row ∧ i % 512 / 256 = face := by
    intro face hface
    simp only [faceStart, rowAt] at *
    constructor
    · intro h
      constructor <;> omega
    · intro h
      constructor <;> omega
  split_ifs with h
  · have hface : i % 512 / 256 < 2 := by omega
    have hmod : i - faceStart row (i % 512 / 256) = i % 16 := by
      simp only [faceStart, rowAt] at *
      omega
    have hwrite : ∀ page : Nat → ν, splice page source (faceStart row (i % 512 / 256)) (start (i % 512 / 256)) 16 i =
        source (start (i % 512 / 256) + i % 16) := fun page => by
      rw [splice_inside ((hplace _ hface).mpr ⟨h, rfl⟩), hmod]
    refine foldl_written (List.mem_range.mpr hface) hwrite (fun face hface' page => ?_) _
    by_cases heq : face = i % 512 / 256
    · subst heq
      exact Or.inr (hwrite page)
    · exact Or.inl (splice_outside fun hin => heq ((hplace face (List.mem_range.mp hface')).mp hin).2.symm)
  · exact foldl_kept (fun face hface page =>
      splice_outside fun hin => h ((hplace face (List.mem_range.mp hface)).mp hin).1) _

end Lib.Tiles
