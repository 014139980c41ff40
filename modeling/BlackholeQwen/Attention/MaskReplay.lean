import BlackholeQwen.Lib.Call
import BlackholeQwen.Lib.Spans
import Mathlib.Data.List.Nodup
import Mathlib.Algebra.Group.Nat.Defs
import Mathlib.Data.List.Range

/-!
# The mask kernel (`attention_mask_replay.cpp`, `extent_attention_replay.py`)

- `maskTiles`: the pages and tiles that the kernel's tasks write; `replayMaskHost`: the folded mask that a refresh of a
  zero upload leaves.
- `narrowMask_apply`: at capacity 256 the mask of a folded row hides exactly the columns past the row's position.
-/

namespace BlackholeQwen.Attention

open Lib

/-- One native chunk of keys: the width of a narrow mask, and the step of a family. -/
abbrev K : Nat := 256

/-- Folded query rows for each token. -/
abbrev MASK_HEAD_ROWS : Nat := 12

/-- The word of a masked key. -/
def BF16_NEG_INF : Nat := 0xff80

/-- `_integer`: a value of at least `minimum`. -/
def integer (name : String) (value minimum : Nat) : Except PyError Unit :=
  raiseIf (value < minimum)
    (.valueError (name ++ " must be an integer >= " ++ toString minimum ++ ", got " ++ toString value))

/-- Tiles of 32 folded rows for each batch. -/
def headTiles (rows : Nat) : Nat := (rows * MASK_HEAD_ROWS + 31) / 32

/-- A tile of words, by row and column. -/
abbrev Tile : Type := Nat → Nat → Nat

/-- The page that a task writes. -/
def taskPage (rows capacity task : Nat) : Nat :=
  (task / (headTiles rows * 8) * headTiles rows + task / 8 % headTiles rows) * (capacity / 32) + capacity / 32 - 8 +
    task % 8

/-- The tile that a task writes. -/
def taskTile (word rows offset capacity task : Nat) : Tile := fun row column =>
  let head := task / 8 % headTiles rows * 32 + row
  let position := word + offset + task / (headTiles rows * 8) * rows + head % (rows * 6) / 6
  let cachePosition := capacity - K + task % 8 * 32 + column
  if head ≥ rows * MASK_HEAD_ROWS ∨ cachePosition > position then BF16_NEG_INF else 0

/-- The geometry that `mask_tiles` serves. -/
def maskGeometry (word rows batches capacity : Nat) : Except PyError Unit := do
  integer "rows" rows 1
  integer "batches" batches 1
  integer "capacity" capacity K
  raiseIf (word ≥ 2 ^ 32 ∨ rows > 8 ∨ batches > 3 ∨ capacity % K ≠ 0)
    (.valueError "Bounded mask geometry required: word < 2**32, rows <= 8, batches <= 3, capacity % 256 == 0")

/-- `mask_tiles`: each task's page and tile, in task order. -/
def maskTiles (word rows batches offset capacity : Nat) : Except PyError (List (Nat × Tile)) :=
  maskGeometry word rows batches capacity >>= fun _ =>
  .ok ((List.range (batches * headTiles rows * 8)).map fun task =>
    (taskPage rows capacity task, taskTile word rows offset capacity task))

/-- `replay_mask_host`: the word at a batch, a folded row and a column, over a zero upload. -/
def replayMaskHost (word rows batches offset capacity : Nat) : Except PyError (Nat → Nat → Nat → Nat) :=
  maskTiles word rows batches offset capacity >>= fun tiles =>
  .ok fun batch head column =>
    scatter tiles (fun _ _ _ => 0) ((batch * headTiles rows + head / 32) * (capacity / 32) + column / 32) (head % 32)
      (column % 32)

/-- `narrow_mask_host`. -/
def narrowMaskHost (word rows batches offset : Nat) : Except PyError (Nat → Nat → Nat → Nat) :=
  replayMaskHost word rows batches offset K

/-- The capacities that a ticket is checked against: of the short context, of the serving families, of the ladder. -/
def capacityBounds (shortContext ladder : Bool) : Nat × Nat :=
  if ladder then (2304, 262400) else if shortContext then (256, 768) else (4096, 16640)

/-- `validate_ticket`; `ladder` is `QWEN_CONTEXT_LADDER_SIM`, with whether the process is a simulator's. -/
def validateTicket (ladder : Option Bool) (start rows capacity : Nat) (shortContext : Bool) : Except PyError Unit := do
  raiseIf (ladder = some false ∨ ladder = some true ∧ shortContext = true)
    (.valueError "Experimental context ladder is simulator-only")
  raiseIf (ladder.isSome = true ∧
      capacity ∉ [2048, 4096, 8192, 16384, 32768, 65536, 131072, 262144].map (· + 256))
    (.valueError "Explicit context-ladder capacity required")
  raiseIf (¬(1 ≤ rows ∧ rows ≤ 32) ∨ capacity < (capacityBounds shortContext ladder.isSome).1 ∨
      (capacityBounds shortContext ladder.isSome).2 < capacity ∨ capacity % 256 ≠ 0)
    (.valueError "Bounded long-context native chunk family required")
  raiseIf (shortContext = true ∧ rows ≠ 8) (.valueError "Short-context qualification is limited to T8")
  raiseIf (start < (if shortContext then max 128 (capacity - 256) else capacity - 256) ∨ capacity < start + rows)
    (.valueError "Ticket crosses the captured native chunk family")

/-! ## The narrow mask -/

/-- At capacity 256 a task writes the page of its own number. -/
theorem taskPage_narrow {rows task : Nat} : taskPage rows K task = task := by
  have hK : K / 32 = 8 := rfl
  have hsum : task / (headTiles rows * 8) * headTiles rows + task / 8 % headTiles rows = task / 8 := by
    rw [Nat.mul_comm (headTiles rows) 8, ← Nat.div_div_eq_div_mul, Nat.mul_comm]
    exact Nat.div_add_mod _ _
  rw [taskPage, hK, hsum]
  omega

/-- A narrow mask exists in every bounded geometry. -/
theorem narrowMask_total {word rows batches : Nat} (offset : Nat) (hword : word < 2 ^ 32) (hrows : 1 ≤ rows ∧ rows ≤ 8)
    (hbatches : 1 ≤ batches ∧ batches ≤ 3) : ∃ mask, narrowMaskHost word rows batches offset = .ok mask := by
  have hgeom : maskGeometry word rows batches K = .ok () := by
    unfold maskGeometry integer raiseIf
    have hK : K % K = 0 := Nat.mod_self K
    rw [if_neg (by omega), if_neg (by omega), if_neg (by decide), if_neg (by omega)]
    rfl
  unfold narrowMaskHost replayMaskHost maskTiles
  rw [hgeom]
  exact ⟨_, rfl⟩

/-- **The narrow mask hides exactly the columns past a folded row's position.** -/
theorem narrowMask_apply {word rows batches offset : Nat} {mask : Nat → Nat → Nat → Nat}
    (h : narrowMaskHost word rows batches offset = .ok mask) {batch head column : Nat} (hbatch : batch < batches)
    (hhead : head < rows * MASK_HEAD_ROWS) (hcolumn : column < K) :
    mask batch head column = 0 ↔ column ≤ word + offset + batch * rows + head % (rows * 6) / 6 := by
  obtain ⟨tiles, htiles, h⟩ := bind_ok h
  obtain ⟨_, -, htiles⟩ := bind_ok htiles
  cases htiles
  cases h
  have hht : head / 32 < headTiles rows := by unfold headTiles; omega
  have hcol : column / 32 < 8 := Nat.div_lt_of_lt_mul hcolumn
  -- the task of the tile of this row and column
  generalize htask : (batch * headTiles rows + head / 32) * 8 + column / 32 = task
  have hdiv8 : task / 8 = batch * headTiles rows + head / 32 := by omega
  have hmod8 : task % 8 = column / 32 := by omega
  have hbatch' : task / (headTiles rows * 8) = batch := by
    rw [Nat.mul_comm (headTiles rows) 8, ← Nat.div_div_eq_div_mul, hdiv8, Nat.mul_comm batch,
      Nat.mul_add_div (by omega), Nat.div_eq_of_lt hht, Nat.add_zero]
  have hhead' : task / 8 % headTiles rows = head / 32 := by
    rw [hdiv8, Nat.mul_comm, Nat.mul_add_mod, Nat.mod_eq_of_lt hht]
  have hlt : task < batches * headTiles rows * 8 := by
    have hle : (batch + 1) * headTiles rows ≤ batches * headTiles rows := Nat.mul_le_mul_right _ hbatch
    rw [Nat.succ_mul] at hle
    omega
  have hread : scatter ((List.range (batches * headTiles rows * 8)).map fun task =>
      (taskPage rows K task, taskTile word rows offset K task)) (fun _ _ _ => 0) task =
      taskTile word rows offset K task := by
    refine scatter_apply ?_ (List.mem_map.mpr ⟨task, List.mem_range.mpr hlt, ?_⟩)
    · have hpages : List.map (Prod.fst ∘ fun task => (taskPage rows K task, taskTile word rows offset K task))
          (List.range (batches * headTiles rows * 8)) = List.range (batches * headTiles rows * 8) := by
        conv_rhs => rw [← List.map_id (List.range (batches * headTiles rows * 8))]
        exact List.map_congr_left fun task _ => taskPage_narrow
      rw [List.map_map, hpages]
      exact List.nodup_range
    · rw [taskPage_narrow]
  have hK : K / 32 = 8 := rfl
  change (scatter _ _ ((batch * headTiles rows + head / 32) * (K / 32) + column / 32) : Tile) (head % 32)
    (column % 32) = 0 ↔ _
  rw [hK, htask, hread]
  have hrow : head / 32 * 32 + head % 32 = head := by omega
  have hcache : K - K + column / 32 * 32 + column % 32 = column := by omega
  simp only [taskTile, hbatch', hhead', hmod8, hrow, hcache]
  split
  · rename_i hmasked
    rcases hmasked with hmasked | hmasked
    · omega
    · refine ⟨fun h => ?_, fun h => ?_⟩
      · exact absurd h (by decide)
      · omega
  · rename_i hvisible
    refine ⟨fun _ => ?_, fun _ => rfl⟩
    by_contra hc
    exact hvisible (Or.inr (by omega))

end BlackholeQwen.Attention
