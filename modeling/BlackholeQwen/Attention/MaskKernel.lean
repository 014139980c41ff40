import BlackholeQwen.Attention.MaskReplay
import BlackholeQwen.Lib.Pages
import BlackholeQwen.Lib.Tiles

/-!
# Running the mask kernel (`attention_mask_replay.cpp`, `attention_mask_replay.py`)

A worker for every tile that a refresh of the mask writes: it reads the position of the block from the metadata, builds
its tile with 32-bit arithmetic, and writes it. `MaskLaunch.refresh_exact`: whatever the schedule, a refresh leaves the
mask that `replay_mask_host` says, as long as the positions fit 32 bits.
-/

namespace BlackholeQwen.Attention.MaskKernel

open Lib Lib.Movers Lib.Pages Lib.Tiles

/-- Half-words of a page. -/
abbrev PAGE : Nat := 1024

/-! ## The kernel -/

/-- The word at the start of a page, low half first. -/
def startWord (page : Nat → UInt16) : Nat := (page 0).toNat + 2 ^ 16 * (page 1).toNat

/-- A word of a task's tile; positions are of 32 bits. -/
def maskWord (start rows capacity offset task row column : Nat) : UInt16 :=
  let head := task / 8 % headTiles rows * 32 + row
  let position := (start + offset + task / (headTiles rows * 8) * rows + head % (rows * 6) / 6) % 2 ^ 32
  let cachePosition := capacity - 256 + task % 8 * 32 + column
  if rows * 12 ≤ head ∨ position < cachePosition then 0xff80 else 0

/-- The tile of a task, word by word. -/
def maskPage (start rows capacity offset task : Nat) (page : Nat → UInt16) : Nat → UInt16 :=
  (List.range 32).foldl (fun page row => (List.range 32).foldl (fun page column =>
    Function.update page (place row column) (maskWord start rows capacity offset task row column)) page) page

/-- A task: slot 0 is staged, and slot 1 is the output. -/
def maskTask (positions mask rows capacity offset task : Nat) : PageTask UInt16 where
  reads := [⟨positions, 0, 0, 0, 16⟩]
  builds := [⟨1, fun slots => maskPage (startWord (slots 0)) rows capacity offset task (slots 1)⟩]
  writes := [⟨1, mask, taskPage rows capacity task, 0, PAGE⟩]

/-- `prepare`: the checks of the geometry, of the grid and of the addresses, and how many tasks there are. -/
def prepare (gridX gridY rows batches offset capacity : Nat) (shortContext : Bool) (ladder : Option Bool)
    (positions mask : Nat) : Except PyError Nat := do
  raiseIf (¬(1 ≤ rows ∧ rows ≤ 8) ∨ ¬(1 ≤ batches ∧ batches ≤ 3) ∨ 32 < offset + rows * batches)
    (.valueError "At most three bounded contiguous query groups required")
  validateTicket ladder (if shortContext then max 128 (capacity - 256) else capacity - 256) (offset + rows * batches)
    capacity shortContext
  raiseIf (gridX < 8 ∨ gridY < batches * headTiles rows * 8 / 8)
    (.valueError "Bounded eight-column mask worker grid required")
  raiseIf (positions = mask) (.valueError "Mask and position input must not alias")
  pure (batches * headTiles rows * 8)

/-- A launch that passed the checks. -/
structure MaskLaunch where
  gridX : Nat
  gridY : Nat
  rows : Nat
  batches : Nat
  offset : Nat
  capacity : Nat
  shortContext : Bool
  ladder : Option Bool
  positions : Nat
  mask : Nat
  tasks : Nat
  made : prepare gridX gridY rows batches offset capacity shortContext ladder positions mask = .ok tasks

/-! ## A task -/

section

variable {start rows capacity offset task batches i : Nat} {page : Nat → UInt16}

theorem maskPage_eq (hi : i < PAGE) :
    maskPage start rows capacity offset task page i =
      maskWord start rows capacity offset task (rowAt i) (columnAt i) := by
  have hrow : rowAt i < 32 := rowAt_lt hi
  have hcolumn : columnAt i < 32 := columnAt_lt i
  have hcell : ∀ row < 32, ∀ column < 32, ∀ page : Nat → UInt16,
      Function.update page (place row column) (maskWord start rows capacity offset task row column) i = page i ∨
      Function.update page (place row column) (maskWord start rows capacity offset task row column) i =
        maskWord start rows capacity offset task (rowAt i) (columnAt i) := by
    intro row hrow' column hcolumn' page
    by_cases heq : place row column = i
    · subst heq
      rw [Function.update_self, rowAt_place hcolumn', columnAt_place hcolumn']
      exact Or.inr rfl
    · exact Or.inl (Function.update_of_ne (Ne.symm heq) _ _)
  have hwrite : ∀ page : Nat → UInt16, Function.update page (place (rowAt i) (columnAt i))
      (maskWord start rows capacity offset task (rowAt i) (columnAt i)) i =
        maskWord start rows capacity offset task (rowAt i) (columnAt i) := fun page => by
    rw [place_rowAt, Function.update_self]
  have hinner : ∀ row < 32, ∀ page : Nat → UInt16,
      (List.range 32).foldl (fun page column => Function.update page (place row column)
        (maskWord start rows capacity offset task row column)) page i = page i ∨
      (List.range 32).foldl (fun page column => Function.update page (place row column)
        (maskWord start rows capacity offset task row column)) page i =
          maskWord start rows capacity offset task (rowAt i) (columnAt i) := by
    intro row hrow' page
    by_cases heq : row = rowAt i
    · subst heq
      exact Or.inr (foldl_written (List.mem_range.mpr hcolumn) hwrite
        (fun column hcolumn' page => hcell _ hrow column (List.mem_range.mp hcolumn') page) page)
    · refine Or.inl (foldl_kept (fun column hcolumn' page => Function.update_of_ne (fun hplace => heq ?_) _ _) page)
      rw [hplace, rowAt_place (List.mem_range.mp hcolumn')]
  refine foldl_written (List.mem_range.mpr hrow) (fun page => ?_)
    (fun row hrow' page => hinner row (List.mem_range.mp hrow') page) page
  exact foldl_written (List.mem_range.mpr hcolumn) hwrite
    (fun column hcolumn' page => hcell _ hrow column (List.mem_range.mp hcolumn') page) page

/-- Where positions fit 32 bits, a word of the tile is the host's. -/
theorem maskWord_tile (htask : task < batches * headTiles rows * 8) (hrows : 0 < rows)
    (hbound : offset + rows * batches ≤ 32) (hstart : start + 32 ≤ 2 ^ 32) (row column : Nat) :
    maskWord start rows capacity offset task row column =
      UInt16.ofNat (taskTile start rows offset capacity task row column) := by
  have hbatch : task / (headTiles rows * 8) < batches := by
    refine Nat.div_lt_of_lt_mul ?_
    rwa [Nat.mul_comm, ← Nat.mul_assoc]
  have hgroup : task / (headTiles rows * 8) * rows + rows ≤ rows * batches := by
    rw [← Nat.succ_mul, Nat.mul_comm]
    exact Nat.mul_le_mul_left rows hbatch
  have hhead : (task / 8 % headTiles rows * 32 + row) % (rows * 6) / 6 < rows := by
    have hmod := Nat.mod_lt (task / 8 % headTiles rows * 32 + row) (Nat.mul_pos hrows (by decide : 0 < 6))
    omega
  have hposition : start + offset + task / (headTiles rows * 8) * rows +
      (task / 8 % headTiles rows * 32 + row) % (rows * 6) / 6 < 2 ^ 32 := by
    omega
  simp only [maskWord, taskTile, Nat.mod_eq_of_lt hposition, MASK_HEAD_ROWS, K, GE.ge, GT.gt]
  split_ifs <;> rfl

/-- Tasks write pages of their own. -/
theorem taskPage_inj {task' : Nat} (hcapacity : 256 ≤ capacity)
    (h : taskPage rows capacity task = taskPage rows capacity task') : task = task' := by
  have hsum : ∀ task, task / (headTiles rows * 8) * headTiles rows + task / 8 % headTiles rows = task / 8 := by
    intro task
    rw [Nat.mul_comm (headTiles rows) 8, ← Nat.div_div_eq_div_mul, Nat.mul_comm]
    exact Nat.div_add_mod _ _
  have hwide : 8 ≤ capacity / 32 := by omega
  rw [taskPage, taskPage, hsum, hsum] at h
  generalize capacity / 32 = width at h hwide
  have hpage : ∀ task, task / 8 * width + width - 8 + task % 8 = width * (task / 8) + (width - 8 + task % 8) := by
    intro task
    rw [Nat.mul_comm]
    omega
  rw [hpage, hpage] at h
  have hdiv : ∀ task, (width * (task / 8) + (width - 8 + task % 8)) / width = task / 8 := by
    intro task
    have hlow : width - 8 + task % 8 < width := by omega
    rw [Nat.mul_add_div (by omega), Nat.div_eq_of_lt hlow, Nat.add_zero]
  have hquotient : task / 8 = task' / 8 := by
    rw [← hdiv task, h, hdiv task']
  rw [hquotient] at h
  omega

end

/-! ## The launch -/

namespace MaskLaunch

variable (launch : MaskLaunch)

/-- What the checks leave. -/
theorem made_ok : 1 ≤ launch.rows ∧ launch.rows ≤ 8 ∧ 1 ≤ launch.batches ∧ launch.batches ≤ 3 ∧
    launch.offset + launch.rows * launch.batches ≤ 32 ∧ 256 ≤ launch.capacity ∧ launch.capacity % 256 = 0 ∧
    launch.positions ≠ launch.mask ∧ launch.tasks = launch.batches * headTiles launch.rows * 8 := by
  obtain ⟨_, hgeometry, h⟩ := bind_ok launch.made
  obtain ⟨_, hticket, h⟩ := bind_ok h
  obtain ⟨_, -, h⟩ := bind_ok h
  obtain ⟨_, halias, h⟩ := bind_ok h
  have htasks := (Except.ok.inj h).symm
  obtain ⟨_, -, hticket⟩ := bind_ok hticket
  obtain ⟨_, -, hticket⟩ := bind_ok hticket
  obtain ⟨_, hfamily, -⟩ := bind_ok hticket
  have hgeometry := raiseIf_ok.mp hgeometry
  have hfamily := raiseIf_ok.mp hfamily
  have hlow : 256 ≤ (capacityBounds launch.shortContext launch.ladder.isSome).1 := by
    cases launch.shortContext <;> cases launch.ladder.isSome <;> decide
  have halias : launch.positions ≠ launch.mask := raiseIf_ok.mp halias
  omega

/-- The launch, as pages that are moved. -/
def pages : Launch UInt16 where
  size := PAGE
  cores := launch.tasks
  prelude := fun _ => []
  tasks := fun core =>
    [maskTask launch.positions launch.mask launch.rows launch.capacity launch.offset core]
  own := fun core address page => address = launch.mask ∧ page = taskPage launch.rows launch.capacity core
  input := fun address _ => address = launch.positions
  fits := fun core _ t ht => by
    obtain rfl := List.mem_singleton.mp ht
    refine ⟨fun r hr => ?_, List.pairwise_singleton _ _, fun w hw => ?_, List.pairwise_singleton _ _⟩
    · obtain rfl := List.mem_singleton.mp hr
      exact Or.inr rfl
    · obtain rfl := List.mem_singleton.mp hw
      exact ⟨rfl, rfl⟩
  apart := fun core _ core' _ address page => by
    rintro ⟨-, rfl⟩ ⟨-, heq⟩
    exact taskPage_inj launch.made_ok.2.2.2.2.2.1 heq
  inputs := fun core _ address page => by
    rintro ⟨rfl, -⟩ heq
    exact launch.made_ok.2.2.2.2.2.2.2.1 heq.symm

variable {launch} {m : Cell → UInt16} {s : State Nat Cell UInt16 Empty Empty} {ls : List (Act Nat Cell)}

/-- The position of the block, as the metadata has it. -/
def word (launch : MaskLaunch) (m : Cell → UInt16) : Nat := startWord fun i => m (.dram launch.positions 0 i)

/-- The tile of a task, after a run that has ended. -/
theorem ended_tile (hrun : Run (Steps step) (initial launch.pages.programs (fun _ => []) m) ls s) (hend : s.Ended)
    (hword : launch.word m + 32 ≤ 2 ^ 32) {task row column : Nat} (htask : task < launch.tasks) (hrow : row < 32)
    (hcolumn : column < 32) :
    s.mem (.dram launch.mask (taskPage launch.rows launch.capacity task) (place row column)) =
      UInt16.ofNat (taskTile (launch.word m) launch.rows launch.offset launch.capacity task row column) := by
  obtain ⟨hrows, -, -, -, hbound, -, -, -, htasks⟩ := launch.made_ok
  have hplace : place row column < PAGE := place_lt hrow hcolumn
  have hleft := (launch.pages.finished hrun hend).1 task htask _ _ ⟨rfl, rfl⟩ (place row column)
  have hvalue : (launch.pages.left task m).1 launch.mask (taskPage launch.rows launch.capacity task)
      (place row column) =
      maskPage (launch.word m) launch.rows launch.capacity launch.offset task
        (Read.run (buffersOf m) (slotsOf task m) ⟨launch.positions, 0, 0, 0, 16⟩ 1) (place row column) := by
    simp [Launch.left, pages, PageTask.run, PageTask.slots, maskTask, Write.run, Build.run, Read.run, hplace, word,
      startWord, buffersOf]
  rw [hleft, hvalue, maskPage_eq hplace, rowAt_place hcolumn, columnAt_place hcolumn,
    maskWord_tile (htasks ▸ htask) hrows hbound hword]

/-- The host's tiles, one for each task. -/
def hostTiles (launch : MaskLaunch) (m : Cell → UInt16) : List (Nat × Tile) :=
  (List.range launch.tasks).map fun task => (taskPage launch.rows launch.capacity task,
    taskTile (launch.word m) launch.rows launch.offset launch.capacity task)

theorem maskTiles_ok (hword : launch.word m < 2 ^ 32) :
    maskTiles (launch.word m) launch.rows launch.batches launch.offset launch.capacity = .ok (launch.hostTiles m) := by
  obtain ⟨hrows, hrows', hbatches, hbatches', -, hcapacity, hmod, -, htasks⟩ := launch.made_ok
  have hgeom : maskGeometry (launch.word m) launch.rows launch.batches launch.capacity = .ok () := by
    unfold maskGeometry integer raiseIf
    rw [if_neg (by omega), if_neg (by omega), if_neg (Nat.not_lt.mpr hcapacity), if_neg (by simp only [K]; omega)]
    rfl
  rw [maskTiles, hgeom, hostTiles, htasks]
  rfl

theorem mem_hostTiles {page : Nat} : page ∈ (launch.hostTiles m).map Prod.fst ↔
    ∃ task < launch.tasks, taskPage launch.rows launch.capacity task = page := by
  simp only [hostTiles, List.map_map, List.mem_map, List.mem_range, Function.comp_apply]

/-- The pages of the tiles are pages of their own. -/
theorem hostTiles_nodup : ((launch.hostTiles m).map Prod.fst).Nodup := by
  rw [hostTiles, List.map_map]
  exact List.nodup_range.map fun _ _ h => taskPage_inj launch.made_ok.2.2.2.2.2.1 h

/-- The mask after a run that has ended: the host's tiles over what it was. -/
theorem ended_scatter (hrun : Run (Steps step) (initial launch.pages.programs (fun _ => []) m) ls s) (hend : s.Ended)
    (hword : launch.word m + 32 ≤ 2 ^ 32) {page row column : Nat} (hrow : row < 32) (hcolumn : column < 32) :
    s.mem (.dram launch.mask page (place row column)) = UInt16.ofNat (scatter (launch.hostTiles m)
      (fun page row column => (m (.dram launch.mask page (place row column))).toNat) page row column) := by
  by_cases howned : page ∈ (launch.hostTiles m).map Prod.fst
  · obtain ⟨task, htask, rfl⟩ := mem_hostTiles.mp howned
    have hread : ∀ g, scatter (launch.hostTiles m) g (taskPage launch.rows launch.capacity task) =
        taskTile (launch.word m) launch.rows launch.offset launch.capacity task := fun g =>
      scatter_apply hostTiles_nodup (List.mem_map_of_mem (List.mem_range.mpr htask))
    rw [hread, ended_tile hrun hend hword htask hrow hcolumn]
  · rw [scatter_of_not_mem howned, UInt16.ofNat_toNat]
    refine (launch.pages.finished hrun hend).2 _ _ (fun core hcore hown => howned ?_) _
    exact mem_hostTiles.mpr ⟨core, hcore, hown.2.symm⟩

/-- **Main result: a refresh is exact under every schedule.** No run is stuck before all workers have ended; one that
has ended has written the host's tiles over what the mask was, so over zeros it leaves the host's mask, and it has left
every other buffer as it was. -/
theorem refresh_exact (launch : MaskLaunch) (hword : launch.word m + 32 ≤ 2 ^ 32)
    (hrun : Run (Steps step) (initial launch.pages.programs (fun _ => []) m) ls s) :
    ∃ tiles mask, maskTiles (launch.word m) launch.rows launch.batches launch.offset launch.capacity = .ok tiles ∧
      replayMaskHost (launch.word m) launch.rows launch.batches launch.offset launch.capacity = .ok mask ∧
      (¬s.Ended → ∃ l s', step s l = some s') ∧
      (s.Ended →
        (∀ page, ∀ row < 32, ∀ column < 32, s.mem (.dram launch.mask page (place row column)) =
          UInt16.ofNat (scatter tiles (fun page row column => (m (.dram launch.mask page (place row column))).toNat)
            page row column)) ∧
        ((∀ page i, m (.dram launch.mask page i) = 0) → ∀ batch head column,
          s.mem (.dram launch.mask ((batch * headTiles launch.rows + head / 32) * (launch.capacity / 32) + column / 32)
            (place (head % 32) (column % 32))) = UInt16.ofNat (mask batch head column)) ∧
        ∀ address, address ≠ launch.mask → ∀ page i, s.mem (.dram address page i) = m (.dram address page i)) := by
  have htiles : maskTiles (launch.word m) launch.rows launch.batches launch.offset launch.capacity =
      .ok (launch.hostTiles m) := maskTiles_ok (by omega)
  refine ⟨launch.hostTiles m, _, htiles, by rw [replayMaskHost, htiles]; rfl, launch.pages.live hrun, fun hend =>
    ⟨fun page row hrow column hcolumn => ?_, fun hzero batch head column => ?_, fun address hne page i => ?_⟩⟩
  · exact ended_scatter hrun hend hword hrow hcolumn
  · rw [ended_scatter hrun hend hword (Nat.mod_lt _ (by decide)) (Nat.mod_lt _ (by decide))]
    simp only [hzero]
    rfl
  · exact (launch.pages.finished hrun hend).2 _ _ (fun core _ hown => hne hown.1) _

end MaskLaunch

/-- Two rows of one batch, at the start of a family of 4096. -/
def sampleMask : MaskLaunch where
  gridX := 8
  gridY := 8
  rows := 2
  batches := 1
  offset := 0
  capacity := 4096
  shortContext := false
  ladder := none
  positions := 1
  mask := 2
  tasks := 8
  made := rfl

/-- Metadata with position 3840, and a mask of zeros. -/
def sampleMem : Cell → UInt16
  | .dram 1 0 0 => 3840
  | _ => 0

/-- The last column is masked. -/
theorem sampleMask_refreshed : ∃ s ls mask,
    Run (Steps step) (initial sampleMask.pages.programs (fun _ => []) sampleMem) ls s ∧ s.Ended ∧
    replayMaskHost 3840 2 1 0 4096 = .ok mask ∧ s.mem (.dram 2 127 (place 0 31)) = UInt16.ofNat (mask 0 0 4095) := by
  obtain ⟨s, ls, hrun, hend⟩ := sampleMask.pages.exists_run sampleMem
  obtain ⟨tiles, mask, -, hmask, -, hended⟩ := sampleMask.refresh_exact (m := sampleMem) (by decide) hrun
  exact ⟨s, ls, mask, hrun, hend, hmask, (hended hend).2.1 (fun page i => rfl) 0 0 4095⟩

end BlackholeQwen.Attention.MaskKernel
