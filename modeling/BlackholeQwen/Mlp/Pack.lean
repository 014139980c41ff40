import BlackholeQwen.Lib.Call
import BlackholeQwen.Lib.Indices
import BlackholeQwen.Lib.Interleave
import Mathlib.Data.List.Nodup
import Mathlib.Tactic.Ring

/-!
# The gate and up weights, packed (`graft/mlp_c1e_pack.py`, `graft/mlp_c1e_pack.cpp`)

One launch rewrites a scratch tensor as the tile-pair interleave of a layer's `w1` and `w3`. Here: the planner's index
maps and the ranges it deals out, and the copy kernel of every worker as a program of transfers of whole pages.

- `packedPage` and `separatePage` are inverse to each other (`IndexMaps.holds`), and the workers' ranges partition the
  pairs (`workerLayout_partition`).
- Whatever the schedule of the workers and of their transfers, they end, with the interleave in the scratch tensor and
  the weights as they were, and no staging page is written before its write has left it (`rebuilds`).
- `staging_fits`: the staging pages of a batch lie within what the planner reserves.

The kernel's page ids and loop variables are words of 32 bits (`word32`); `Fits` says that none of them wraps. Where one
does, a page is left unwritten (`wide_page_unwritten`).
-/

namespace BlackholeQwen.Mlp

open Lib Lib.Movers

/-! ## The planner -/

/-- Rows and columns of a tile. -/
abbrev TILE : Nat := 32

/-- Bytes of a page. -/
abbrev PAGE : Nat := 576

/-- What the kernel may lose when it aligns its staging. -/
abbrev ALIGN_SLACK : Nat := 64

/-- Bytes of a page of the reservation. -/
abbrev CB_PAGE : Nat := 2048

/-- The data movers of a core. -/
abbrev PROCESSORS : Nat := 2

/-- A shape as it is printed. -/
def reprShape (shape : List Int) : String :=
  "(" ++ ", ".intercalate (shape.map toString) ++ if shape.length = 1 then ",)" else ")"

/-- `_rank2`: the shape without leading ones, down to two axes. -/
def rank2 : List Int → List Int
  | a :: b :: c :: shape => if a = 1 then rank2 (b :: c :: shape) else a :: b :: c :: shape
  | shape => shape

/-- `geometry`: (k_tiles, columns, pairs) of a projection shard [K, N], and of its packed [K, 2N] where that is
given. -/
def geometry (separateShape : List Int) (packedShape : Option (List Int)) : Except PyError (Nat × Nat × Nat) :=
  let unaligned := PyError.valueError
    ("a tile-aligned [K, N] projection shard is required, got " ++ reprShape separateShape)
  match rank2 separateShape with
  | [k, n] => do
    raiseIf (∃ value ∈ [k, n], value ≤ 0 ∨ value % (TILE : Int) ≠ 0) unaligned
    packedShape.elim (pure ()) fun packed => raiseIf (rank2 packed ≠ [k, 2 * n]) (.valueError
      ("packed " ++ reprShape packed ++ " is not [K, 2N] of " ++ reprShape separateShape))
    let kTiles := k.toNat / TILE
    let columns := n.toNat / TILE
    pure (kTiles, columns, kTiles * columns)
  | _ => .error unaligned

/-- `packed_page`: where page `pair` of `w1` (offset 0) or `w3` (offset 1) lands. -/
def packedPage (pair columns offset : Nat) : Except PyError Nat := do
  raiseIf (offset ≠ 0 ∧ offset ≠ 1) (.valueError "offset 0 (gate / w1) or 1 (up / w3)")
  pure (pair / columns * columns * 2 + pair % columns * 2 + offset)

/-- The packed page of a pair's gate page. -/
def pairPage (columns pair : Nat) : Nat := pair / columns * (2 * columns) + pair % columns * 2

/-- `separate_page`: the (offset, pair) that a packed page comes from. -/
def separatePage (page columns : Nat) : Nat × Nat :=
  let row := page / (2 * columns)
  let within := page % (2 * columns)
  (within % 2, row * columns + within / 2)

/-- `split`: balanced ranges (start, count) of the pairs. -/
def split (pairs workers : Nat) : Except PyError (List (Nat × Nat)) := do
  raiseIf (workers = 0) (.valueError "at least one worker and a non-negative pair count")
  pure ((List.range workers).map fun w =>
    (pairs * w / workers, pairs * (w + 1) / workers - pairs * w / workers))

/-- `core_coordinates`: the cores of a grid, row by row. -/
def coreCoordinates (gridX gridY : Nat) : List (Nat × Nat) :=
  (List.range (gridX * gridY)).map fun core => (core % gridX, core / gridX)

/-- A core and one of its processors. -/
structure Worker where
  core : Nat × Nat
  processor : Nat
  deriving DecidableEq, Repr

/-- `worker_layout`: the range of every worker, processor by processor. -/
def workerLayout (gridX gridY pairs : Nat) : Except PyError (List (Worker × (Nat × Nat))) := do
  let cores := coreCoordinates gridX gridY
  let ranges ← split pairs (cores.length * PROCESSORS)
  pure ((List.range PROCESSORS).flatMap fun processor => cores.zipIdx.map fun e =>
    (⟨e.1, processor⟩, ranges.getD (PROCESSORS * e.2 + processor) (0, 0)))

/-- `cb_bytes`: what is reserved for the staging of one processor. -/
def cbBytes (batch : Nat) : Nat :=
  let need := 2 * batch * PAGE + ALIGN_SLACK
  (need + CB_PAGE - 1) / CB_PAGE * CB_PAGE

/-! ## The kernel -/

/-- A page: its 144 words. -/
abbrev Page : Type := Fin 144 → UInt32

/-- The pages of the three tensors of a chip, and of the staging of every worker. -/
inductive Cell
  | gate (page : Nat)
  | up (page : Nat)
  | packed (page : Nat)
  | staging (worker : Worker) (slot : Nat)
  deriving DecidableEq, Repr

/-- An instruction of the kernel; nothing is handed over between workers. -/
abbrev PackInstr : Type := Instr Cell Page Empty Empty

/-- A value as a `uint32_t` holds it. -/
def word32 (n : Nat) : Nat := n % 2 ^ 32

/-- The values of a `uint32_t` loop variable from `x` on, by `step` and while it is below `stop`, in so many turns at
most. -/
def forWords (stop step : Nat) : Nat → Nat → List Nat
  | 0, _ => []
  | turns + 1, x => if x < stop then x :: forWords stop step turns (word32 (x + step)) else []

/-- A loop over a word that takes more turns than there are words never ends. -/
abbrev TURNS : Nat := 2 ^ 32

/-- The reads of a batch of `n` pairs. -/
def readBatch (w : Worker) (pair n : Nat) : List (Op Cell) :=
  (List.range n).flatMap fun i =>
    [⟨.load, .gate (word32 (pair + i)), .staging w (2 * i)⟩, ⟨.load, .up (word32 (pair + i)), .staging w (2 * i + 1)⟩]

/-- Where the kernel writes the gate page of a pair. -/
def target (columns source : Nat) : Nat := word32 (source / columns * (2 * columns) + source % columns * 2)

/-- The writes of a batch. -/
def writeBatch (columns : Nat) (w : Worker) (pair n : Nat) : List (Op Cell) :=
  (List.range n).flatMap fun i =>
    [⟨.store, .staging w (2 * i), .packed (target columns (word32 (pair + i)))⟩,
      ⟨.store, .staging w (2 * i + 1), .packed (word32 (target columns (word32 (pair + i)) + 1))⟩]

/-- The instructions of a batch of `n` pairs. -/
def batchOf (columns : Nat) (w : Worker) (pair n : Nat) : List PackInstr :=
  (readBatch w pair n).map .copy ++ .settle .load :: ((writeBatch columns w pair n).map .copy ++ [.settle .store])

/-- The kernel's loop over the batches from `pair` to `stop`. -/
def packLoop (columns batch : Nat) (w : Worker) (stop pair : Nat) : List PackInstr :=
  (forWords stop batch TURNS pair).flatMap fun pair =>
    batchOf columns w pair (if stop - pair < batch then stop - pair else batch)

/-- `kernel_main` of one worker, with its range. -/
def kernelMain (columns batch : Nat) (w : Worker) (start count : Nat) : List PackInstr :=
  packLoop columns batch w (word32 (start + count)) start ++ [.settle .store]

/-- What each worker of a layout runs. -/
def programs (columns batch : Nat) (layout : List (Worker × (Nat × Nat))) (w : Worker) : List PackInstr :=
  (layout.lookup w).elim [] fun range => kernelMain columns batch w range.1 range.2

/-! ## The index maps -/

section

variable {columns : Nat}

theorem packedPage_eq (pair columns : Nat) {offset : Nat} (ho : offset < 2) :
    packedPage pair columns offset = .ok (pairPage columns pair + offset) := by
  have hcheck : ¬(offset ≠ 0 ∧ offset ≠ 1) := by omega
  show (raiseIf _ _ >>= _) = _
  rw [raiseIf_bind hcheck]
  show Except.ok _ = Except.ok _
  rw [pairPage, Nat.mul_assoc, Nat.mul_comm columns 2]

/-- A packed page comes from the pair that it was written for. -/
theorem separatePage_pairPage (hc : 0 < columns) (pair : Nat) {offset : Nat} (ho : offset < 2) :
    separatePage (pairPage columns pair + offset) columns = (offset, pair) := by
  have hmod : pair % columns < columns := Nat.mod_lt pair hc
  have hwithin : pair % columns * 2 + offset < 2 * columns := by omega
  have hsplit : pairPage columns pair + offset = pair % columns * 2 + offset + 2 * columns * (pair / columns) := by
    rw [pairPage, Nat.mul_comm (2 * columns)]
    omega
  have hrow : (pairPage columns pair + offset) / (2 * columns) = pair / columns := by
    rw [hsplit, Nat.add_mul_div_left _ _ (by omega), Nat.div_eq_of_lt hwithin, Nat.zero_add]
  have hrest : (pairPage columns pair + offset) % (2 * columns) = pair % columns * 2 + offset := by
    rw [hsplit, Nat.add_mul_mod_self_left, Nat.mod_eq_of_lt hwithin]
  have hpair : pair / columns * columns + pair % columns = pair := Nat.div_add_mod' pair columns
  simp only [separatePage, hrow, hrest]
  rw [show (pair % columns * 2 + offset) % 2 = offset by omega,
    show (pair % columns * 2 + offset) / 2 = pair % columns by omega, hpair]

/-- And is where that pair is written. -/
theorem pairPage_separatePage (hc : 0 < columns) (page : Nat) :
    pairPage columns (separatePage page columns).2 + (separatePage page columns).1 = page := by
  have hmod : page % (2 * columns) < 2 * columns := Nat.mod_lt page (by omega)
  have hhalf : page % (2 * columns) / 2 < columns := by omega
  simp only [separatePage, pairPage]
  rw [Nat.add_comm (_ * columns), Nat.add_mul_div_right _ _ hc, Nat.div_eq_of_lt hhalf, Nat.zero_add,
    Nat.add_mul_mod_self_right, Nat.mod_eq_of_lt hhalf]
  have hpage := Nat.div_add_mod' page (2 * columns)
  omega

theorem separatePage_lt (page columns : Nat) : (separatePage page columns).1 < 2 := Nat.mod_lt _ (by omega)

/-- Targets are as far apart as their pairs. -/
theorem pairPage_inj (hc : 0 < columns) {p p' g g' : Nat} (hg : g < 2) (hg' : g' < 2)
    (h : pairPage columns p + g = pairPage columns p' + g') : p = p' ∧ g = g' := by
  have := separatePage_pairPage hc p hg
  rw [h, separatePage_pairPage hc p' hg'] at this
  exact ⟨(congrArg Prod.snd this).symm, (congrArg Prod.fst this).symm⟩

/-- A pair is one of the weights exactly when its packed pages are pages of the packed tensor. -/
theorem separatePage_pair_lt (hc : 0 < columns) (page kTiles : Nat) :
    (separatePage page columns).2 < kTiles * columns ↔ page < 2 * (kTiles * columns) := by
  have hmod : page % (2 * columns) < 2 * columns := Nat.mod_lt page (by omega)
  have hpair : (separatePage page columns).2 < kTiles * columns ↔ page / (2 * columns) < kTiles := by
    simp only [separatePage]
    constructor
    · intro h
      by_contra hge
      have := Nat.mul_le_mul_right columns (Nat.le_of_not_lt hge)
      omega
    · intro h
      have := Nat.mul_le_mul_right columns (Nat.succ_le_of_lt h)
      rw [Nat.succ_mul] at this
      omega
  rw [hpair, Nat.div_lt_iff_lt_mul (by omega), Nat.mul_left_comm]

end

/-- The planner's two index maps are inverse to each other, between the pages of `w1` and `w3` and those of the packed
tensor. -/
structure IndexMaps (columns pairs : Nat) : Prop where
  toPacked : ∀ pair < pairs, ∀ offset < 2, ∃ page < 2 * pairs, packedPage pair columns offset = .ok page ∧
    separatePage page columns = (offset, pair)
  toSeparate : ∀ page < 2 * pairs, (separatePage page columns).1 < 2 ∧ (separatePage page columns).2 < pairs ∧
    packedPage (separatePage page columns).2 columns (separatePage page columns).1 = .ok page

/-- **The index maps are mutually inverse bijections.** -/
theorem IndexMaps.holds {kTiles columns : Nat} (hc : 0 < columns) : IndexMaps columns (kTiles * columns) where
  toPacked pair hpair offset ho := by
    have hback := separatePage_pairPage hc pair ho
    refine ⟨_, ?_, packedPage_eq pair columns ho, hback⟩
    rw [← separatePage_pair_lt hc, hback]
    exact hpair
  toSeparate page hpage := by
    refine ⟨separatePage_lt page columns, (separatePage_pair_lt hc page kTiles).mpr hpage, ?_⟩
    rw [packedPage_eq _ _ (separatePage_lt page columns), pairPage_separatePage hc]

/-- What `geometry` accepts. -/
theorem geometry_ok {shape : List Int} {packed : Option (List Int)} {kTiles columns pairs : Nat}
    (h : geometry shape packed = .ok (kTiles, columns, pairs)) :
      0 < kTiles ∧ 0 < columns ∧ pairs = kTiles * columns := by
  unfold geometry at h
  split at h
  case h_2 => cases h
  rename_i k n heq
  obtain ⟨_, hcheck, h⟩ := bind_ok h
  obtain ⟨_, -, h⟩ := bind_ok h
  cases h
  have hvalues := raiseIf_ok.mp hcheck
  push Not at hvalues
  have hk := hvalues k (by simp)
  have hn := hvalues n (by simp)
  simp only [TILE] at hk hn
  refine ⟨?_, ?_, rfl⟩
  · simp only [TILE]
    omega
  · simp only [TILE]
    omega

/-! ## The ranges -/

/-- The layout, worker by worker. -/
theorem workerLayout_eq {gridX gridY pairs : Nat} (hx : 0 < gridX) (hy : 0 < gridY) :
    workerLayout gridX gridY pairs = .ok ((List.range PROCESSORS).flatMap fun processor =>
      (List.range (gridX * gridY)).map fun core => (⟨(core % gridX, core / gridX), processor⟩,
        (pairs * (PROCESSORS * core + processor) / (gridX * gridY * PROCESSORS),
          pairs * (PROCESSORS * core + processor + 1) / (gridX * gridY * PROCESSORS) -
            pairs * (PROCESSORS * core + processor) / (gridX * gridY * PROCESSORS)))) := by
  have hworkers : ¬(coreCoordinates gridX gridY).length * PROCESSORS = 0 := by
    simp only [coreCoordinates, List.length_map, List.length_range]
    exact Nat.mul_ne_zero (Nat.mul_ne_zero (by omega) (by omega)) (by decide)
  show (split _ _ >>= _) = _
  unfold split
  rw [raiseIf_bind hworkers]
  refine congrArg Except.ok (List.flatMap_congr fun processor hprocessor => ?_)
  rw [List.mem_range] at hprocessor
  refine List.ext_getElem (by simp [coreCoordinates]) fun core h₁ h₂ => ?_
  have hcore : core < gridX * gridY := by simpa using h₂
  have hget : PROCESSORS * core + processor < gridX * gridY * PROCESSORS := by
    unfold PROCESSORS at hprocessor ⊢
    omega
  simp [coreCoordinates, List.getD_eq_getElem?_getD, hget]

/-- The workers' numbers, processor by processor, are all numbers. -/
theorem processors_perm (cores : Nat) :
    ((List.range PROCESSORS).flatMap fun processor => (List.range cores).map fun core =>
    PROCESSORS * core + processor).Perm (List.range (cores * PROCESSORS)) := by
  refine (List.perm_ext_iff_of_nodup ?_ List.nodup_range).mpr fun n => ?_
  · rw [List.nodup_flatMap]
    refine ⟨fun processor _ => List.Nodup.map (fun a b h => ?_) List.nodup_range,
      List.Pairwise.imp_of_mem (fun {a b} ha hb hne => ?_) List.nodup_range⟩
    · simp only [PROCESSORS] at h
      omega
    · refine List.disjoint_left.mpr ?_
      intro n hn hn'
      simp only [List.mem_map, List.mem_range, PROCESSORS] at hn hn' ha hb
      omega
  · simp only [List.mem_flatMap, List.mem_map, List.mem_range, PROCESSORS]
    constructor
    · rintro ⟨processor, hprocessor, core, hcore, rfl⟩
      omega
    · intro hn
      exact ⟨n % 2, by omega, n / 2, by omega, by omega⟩

/-- Each worker of the grid has one range, and the ranges partition the pairs. -/
structure Partition (gridX gridY pairs : Nat) (layout : List (Worker × (Nat × Nat))) : Prop where
  workers : ∀ w, w ∈ layout.map Prod.fst ↔ w.core.1 < gridX ∧ w.core.2 < gridY ∧ w.processor < PROCESSORS
  once : (layout.map Prod.fst).Nodup
  within : ∀ e ∈ layout, e.2.1 + e.2.2 ≤ pairs
  pairs : (layout.flatMap fun e => List.range' e.2.1 e.2.2).Perm (List.range pairs)

/-- **The ranges of all cores and both processors partition the pairs.** -/
theorem workerLayout_partition {gridX gridY : Nat} (pairs : Nat) (hx : 0 < gridX) (hy : 0 < gridY) :
    ∃ layout, workerLayout gridX gridY pairs = .ok layout ∧ Partition gridX gridY pairs layout := by
  have hpos : 0 < gridX * gridY * PROCESSORS := Nat.mul_pos (Nat.mul_pos hx hy) (by decide)
  refine ⟨_, workerLayout_eq hx hy, fun w => ?_, ?_, ?_, ?_⟩
  · simp only [List.map_flatMap, List.map_map, List.mem_flatMap, List.mem_map, List.mem_range, Function.comp_apply]
    constructor
    · rintro ⟨processor, hprocessor, core, hcore, rfl⟩
      exact ⟨Nat.mod_lt _ hx, Nat.div_lt_of_lt_mul hcore, hprocessor⟩
    · rintro ⟨hcx, hcy, hprocessor⟩
      refine ⟨w.processor, hprocessor, w.core.1 + gridX * w.core.2, ?_, ?_⟩
      · have := Nat.mul_le_mul_left gridX (Nat.succ_le_of_lt hcy)
        rw [Nat.mul_succ] at this
        omega
      · rw [Nat.add_mul_mod_self_left, Nat.mod_eq_of_lt hcx, Nat.add_mul_div_left _ _ hx, Nat.div_eq_of_lt hcx,
          Nat.zero_add]
  · rw [List.map_flatMap, List.nodup_flatMap]
    refine ⟨fun processor _ => ?_, ?_⟩
    · rw [List.map_map]
      refine List.Nodup.map_on (fun core _ core' _ heq => ?_) List.nodup_range
      simp only [Function.comp_apply, Worker.mk.injEq, Prod.mk.injEq, and_true] at heq
      rw [← Nat.div_add_mod core gridX, ← Nat.div_add_mod core' gridX, heq.1, heq.2]
    · refine List.Pairwise.imp (fun {a b} hne => ?_) List.nodup_range
      refine List.disjoint_left.mpr ?_
      intro w hw hw'
      simp only [List.map_map, List.mem_map, Function.comp_apply] at hw hw'
      obtain ⟨_, -, rfl⟩ := hw
      obtain ⟨_, -, heq⟩ := hw'
      exact hne (congrArg Worker.processor heq).symm
  · intro e he
    simp only [List.mem_flatMap, List.mem_map, List.mem_range] at he
    obtain ⟨processor, hprocessor, core, hcore, rfl⟩ := he
    have hlast : PROCESSORS * core + processor + 1 ≤ gridX * gridY * PROCESSORS := by
      simp only [PROCESSORS] at hprocessor ⊢
      omega
    have hle : pairs * (PROCESSORS * core + processor + 1) / (gridX * gridY * PROCESSORS) ≤ pairs :=
      Nat.div_le_of_le_mul (by rw [Nat.mul_comm _ pairs]; exact Nat.mul_le_mul_left pairs hlast)
    have hmono : pairs * (PROCESSORS * core + processor) / (gridX * gridY * PROCESSORS) ≤
        pairs * (PROCESSORS * core + processor + 1) / (gridX * gridY * PROCESSORS) :=
      Nat.div_le_div_right (Nat.mul_le_mul_left pairs (Nat.le_succ _))
    exact (Nat.add_sub_of_le hmono).trans_le hle
  · -- the workers in the order of their ranges
    have horder : ((List.range PROCESSORS).flatMap fun processor => (List.range (gridX * gridY)).map fun core =>
        PROCESSORS * core + processor).Perm (List.range (gridX * gridY * PROCESSORS)) :=
      processors_perm (gridX * gridY)
    have hmono : Monotone fun w => pairs * w / (gridX * gridY * PROCESSORS) := fun a b hab =>
      Nat.div_le_div_right (Nat.mul_le_mul_left pairs hab)
    have hall := Lib.Indices.ranges_append hmono (by simp) (gridX * gridY * PROCESSORS)
    rw [Nat.mul_div_cancel _ hpos] at hall
    rw [← hall]
    have := horder.flatMap_right fun w => List.range' (pairs * w / (gridX * gridY * PROCESSORS))
      (pairs * (w + 1) / (gridX * gridY * PROCESSORS) - pairs * w / (gridX * gridY * PROCESSORS))
    rw [List.flatMap_assoc] at this ⊢
    simpa only [List.flatMap_map] using this

/-! ## Words -/

/-- Neither the page ids of `stop` pairs nor a loop by `batch` over them wrap. -/
structure Fits (batch stop : Nat) : Prop where
  pages : 2 * stop < 2 ^ 32
  turns : stop + batch ≤ 2 ^ 32

theorem word32_of_lt {n : Nat} (h : n < 2 ^ 32) : word32 n = n := Nat.mod_eq_of_lt h

/-- The gate page of a pair is at twice its number. -/
theorem pairPage_double (columns pair : Nat) : pairPage columns pair = 2 * pair := by
  have := Nat.div_add_mod' pair columns
  rw [pairPage, Nat.mul_left_comm]
  omega

/-- The kernel writes where the planner says. -/
theorem target_word {columns pair : Nat} (h : 2 * pair < 2 ^ 32) :
    target columns (word32 pair) = pairPage columns pair := by
  have hpage : pairPage columns pair < 2 ^ 32 := by rwa [pairPage_double]
  rw [word32_of_lt (by omega)]
  exact word32_of_lt hpage

theorem target_next {columns pair : Nat} (h : 2 * pair + 1 < 2 ^ 32) :
    word32 (target columns (word32 pair) + 1) = pairPage columns pair + 1 := by
  rw [target_word (by omega)]
  exact word32_of_lt (by rwa [pairPage_double])

/-- `range(x, stop, step)`. -/
def strided (stop step x : Nat) : List Nat :=
  if x < stop ∧ 0 < step then x :: strided stop step (x + step) else []
termination_by stop - x

/-- **A loop whose variable does not wrap** takes the values of a range, and ends. -/
theorem forWords_eq {stop step turns : Nat} (hstep : 0 < step) (hfit : stop + step ≤ 2 ^ 32) {x : Nat}
    (hturns : stop ≤ x + turns) : forWords stop step turns x = strided stop step x := by
  induction turns generalizing x with
  | zero => rw [strided, if_neg (by omega)]; rfl
  | succ turns ih =>
    rw [strided, forWords]
    by_cases hx : x < stop
    · rw [if_pos hx, if_pos ⟨hx, hstep⟩, word32_of_lt (by omega), ih (by omega)]
    · rw [if_neg hx, if_neg (fun h => hx h.1)]

/-! ## One batch -/

/-- A page of `w1` (offset 0) or of `w3`. -/
def weight (offset pair : Nat) : Cell := if offset = 0 then .gate pair else .up pair

/-- The weights are constant; nothing is handed over. -/
def discipline : Discipline Worker Cell Empty Empty where
  constant := {c | ∃ offset pair, c = weight offset pair}
  cells := Empty.elim
  producer := Empty.elim
  consumer := Empty.elim

section

variable {columns : Nat} {w : Worker} {pair n : Nat} {held : Set Cell} {m : Cell → Page}

theorem mem_readBatch (hfit : 2 * (pair + n) < 2 ^ 32) {op : Op Cell} : op ∈ readBatch w pair n ↔
    ∃ i < n, ∃ offset < 2, op = ⟨.load, weight offset (pair + i), .staging w (2 * i + offset)⟩ := by
  have hword : ∀ i < n, word32 (pair + i) = pair + i := fun i hi => word32_of_lt (by omega)
  simp only [readBatch, List.mem_flatMap, List.mem_range, List.mem_cons, List.not_mem_nil, or_false]
  constructor
  · rintro ⟨i, hi, rfl | rfl⟩
    · exact ⟨i, hi, 0, by omega, by rw [hword i hi]; rfl⟩
    · exact ⟨i, hi, 1, by omega, by rw [hword i hi]; rfl⟩
  · rintro ⟨i, hi, offset, ho, rfl⟩
    refine ⟨i, hi, ?_⟩
    rw [hword i hi]
    obtain rfl | rfl : offset = 0 ∨ offset = 1 := by omega
    · exact Or.inl rfl
    · exact Or.inr rfl

theorem mem_writeBatch (hfit : 2 * (pair + n) < 2 ^ 32) {op : Op Cell} : op ∈ writeBatch columns w pair n ↔
    ∃ i < n, ∃ offset < 2, op =
      ⟨.store, .staging w (2 * i + offset), .packed (pairPage columns (pair + i) + offset)⟩ := by
  have hpage : ∀ i < n, target columns (word32 (pair + i)) = pairPage columns (pair + i) ∧
      word32 (target columns (word32 (pair + i)) + 1) = pairPage columns (pair + i) + 1 :=
    fun i hi => ⟨target_word (by omega), target_next (by omega)⟩
  simp only [writeBatch, List.mem_flatMap, List.mem_range, List.mem_cons, List.not_mem_nil, or_false]
  constructor
  · rintro ⟨i, hi, rfl | rfl⟩
    · exact ⟨i, hi, 0, by omega, by rw [(hpage i hi).1]; rfl⟩
    · exact ⟨i, hi, 1, by omega, by rw [(hpage i hi).2]⟩
  · rintro ⟨i, hi, offset, ho, rfl⟩
    refine ⟨i, hi, ?_⟩
    rw [(hpage i hi).2, (hpage i hi).1]
    obtain rfl | rfl : offset = 0 ∨ offset = 1 := by omega
    · exact Or.inl rfl
    · exact Or.inr rfl

/-- The reads of a batch go to staging pages of their own. -/
theorem readBatch_underWay (w : Worker) (hfit : 2 * (pair + n) < 2 ^ 32) (hstaging : ∀ slot, .staging w slot ∈ held) :
    UnderWay discipline held (readBatch w pair n) where
  within op hop := by
    obtain ⟨i, -, offset, -, rfl⟩ := (mem_readBatch hfit).mp hop
    exact ⟨Or.inr ⟨offset, pair + i, rfl⟩, hstaging _⟩
  apart := by
    refine List.pairwise_flatMap.mpr ⟨fun i _ => ?_, List.pairwise_lt_range.imp fun {i j} hij x hx y hy => ?_⟩
    · simp
    · simp only [List.mem_cons, List.not_mem_nil, or_false] at hx hy
      rcases hx with rfl | rfl <;> rcases hy with rfl | rfl <;> simp <;> omega

/-- The writes of a batch go to packed pages of their own. -/
theorem writeBatch_underWay (w : Worker) (hfit : 2 * (pair + n) < 2 ^ 32) (hc : 0 < columns)
    (hstaging : ∀ slot, .staging w slot ∈ held)
    (hpacked : ∀ i < n, ∀ offset < 2, .packed (pairPage columns (pair + i) + offset) ∈ held) :
    UnderWay discipline held (writeBatch columns w pair n) where
  within op hop := by
    obtain ⟨i, hi, offset, ho, rfl⟩ := (mem_writeBatch hfit).mp hop
    exact ⟨Or.inl (hstaging _), hpacked i hi offset ho⟩
  apart := by
    refine List.pairwise_flatMap.mpr ⟨fun i hi => ?_,
      List.pairwise_lt_range.imp_of_mem fun {i j} hi hj hij x hx y hy => ?_⟩
    · rw [List.mem_range] at hi
      rw [target_next (by omega), target_word (by omega)]
      simp
    · rw [List.mem_range] at hi hj
      rw [target_next (by omega), target_word (by omega)] at hx hy
      have hne : ∀ g < 2, ∀ g' < 2, pairPage columns (pair + i) + g ≠ pairPage columns (pair + j) + g' :=
        fun g hg g' hg' heq => by
          have := (pairPage_inj hc hg hg' heq).1
          omega
      have h00 := hne 0 (by omega) 0 (by omega)
      have h01 := hne 0 (by omega) 1 (by omega)
      have h10 := hne 1 (by omega) 0 (by omega)
      have h11 := hne 1 (by omega) 1 (by omega)
      simp only [List.mem_cons, List.not_mem_nil, or_false] at hx hy
      rcases hx with rfl | rfl <;> rcases hy with rfl | rfl <;> simpa using by assumption

/-- A batch is typed from what its worker holds. -/
theorem batch_typed (hfit : 2 * (pair + n) < 2 ^ 32) (hc : 0 < columns) (hstaging : ∀ slot, .staging w slot ∈ held)
    (hpacked : ∀ i < n, ∀ offset < 2, .packed (pairPage columns (pair + i) + offset) ∈ held) {rest : List PackInstr}
    (hrest : Typed discipline w held [] rest) : Typed discipline w held [] (batchOf columns w pair n ++ rest) := by
  have hwrites : Typed discipline w held [] ((writeBatch columns w pair n).map .copy ++ .settle .store :: rest) :=
    .phase (fun op hop => by obtain ⟨_, -, _, -, rfl⟩ := (mem_writeBatch hfit).mp hop; rfl)
      (writeBatch_underWay w hfit hc hstaging hpacked) hrest
  have hreads := Typed.phase (fun op hop => by obtain ⟨_, -, _, -, rfl⟩ := (mem_readBatch hfit).mp hop; rfl)
    (readBatch_underWay w hfit hstaging) hwrites
  simpa only [batchOf, List.append_assoc, List.cons_append, List.nil_append] using hreads

/-- A batch reads, then writes. -/
theorem batch_serial : serial (batchOf columns w pair n) m =
    serial ((writeBatch columns w pair n).map (.copy : Op Cell → PackInstr))
      (serial ((readBatch w pair n).map (.copy : Op Cell → PackInstr)) m) := by
  rw [batchOf, serial_append, serial_cons, serial_append]
  rfl

theorem staging_ne_weight (slot offset p : Nat) : Cell.staging w slot ≠ weight offset p := by
  unfold weight
  split <;> simp

theorem packed_ne_weight (page offset p : Nat) : Cell.packed page ≠ weight offset p := by
  unfold weight
  split <;> simp

/-- A batch leaves the weights alone. -/
theorem batch_weight (hfit : 2 * (pair + n) < 2 ^ 32) (offset p : Nat) :
    serial (batchOf columns w pair n) m (weight offset p) = m (weight offset p) := by
  rw [batch_serial, serial_copies_kept, serial_copies_kept]
  · intro op hop
    obtain ⟨_, -, _, -, rfl⟩ := (mem_readBatch hfit).mp hop
    exact staging_ne_weight _ _ _
  · intro op hop
    obtain ⟨_, -, _, -, rfl⟩ := (mem_writeBatch hfit).mp hop
    exact packed_ne_weight _ _ _

/-- A batch brings the weights of its pairs into its staging. -/
theorem readBatch_serial (hfit : 2 * (pair + n) < 2 ^ 32) {i offset : Nat} (hi : i < n) (ho : offset < 2) :
    serial ((readBatch w pair n).map (.copy : Op Cell → PackInstr)) m (.staging w (2 * i + offset)) =
      m (weight offset (pair + i)) :=
  have hreads : UnderWay discipline Set.univ (readBatch w pair n) := readBatch_underWay w hfit fun _ => Set.mem_univ _
  serial_copies (hreads.apart.imp fun h => ⟨h.1, h.2.1⟩) ((mem_readBatch hfit).mpr ⟨i, hi, offset, ho, rfl⟩)

/-- A batch writes the pages of its pairs, and no others. -/
theorem batch_packed (hfit : 2 * (pair + n) < 2 ^ 32) (hc : 0 < columns) (page : Nat) :
    serial (batchOf columns w pair n) m (.packed page) =
    if pair ≤ (separatePage page columns).2 ∧ (separatePage page columns).2 < pair + n then
      m (weight (separatePage page columns).1 (separatePage page columns).2)
    else m (.packed page) := by
  have hpage := pairPage_separatePage hc page
  have ho := separatePage_lt page columns
  rw [batch_serial]
  split_ifs with hrange
  · obtain ⟨i, hi⟩ : ∃ i, (separatePage page columns).2 = pair + i := Nat.exists_eq_add_of_le hrange.1
    have hin : i < n := by omega
    have hwrites : UnderWay discipline Set.univ (writeBatch columns w pair n) :=
      writeBatch_underWay w hfit hc (fun _ => Set.mem_univ _) fun _ _ _ _ => Set.mem_univ _
    have hwrite := serial_copies (ρ := Empty) (τ := Empty)
      (m := serial ((readBatch w pair n).map (.copy : Op Cell → PackInstr)) m)
      (hwrites.apart.imp fun h => ⟨h.1, h.2.1⟩) ((mem_writeBatch hfit).mpr ⟨i, hin, _, ho, rfl⟩)
    rw [← hi, hpage] at hwrite
    rw [hwrite, readBatch_serial hfit hin ho, hi]
  · rw [serial_copies_kept, serial_copies_kept]
    · intro op hop
      obtain ⟨_, -, _, -, rfl⟩ := (mem_readBatch hfit).mp hop
      simp
    · intro op hop heq
      obtain ⟨i, hi, offset, ho', rfl⟩ := (mem_writeBatch hfit).mp hop
      rw [← hpage] at heq
      have := (pairPage_inj hc ho' ho (Cell.packed.inj heq)).1
      omega

end

/-! ## One worker -/

section

variable {columns batch : Nat} {w : Worker} {stop : Nat} {held : Set Cell}

/-- The loop is a batch and the loop from there. -/
theorem packLoop_batch (columns : Nat) (w : Worker) (hfit : Fits batch stop) {pair : Nat} (hbatch : 0 < batch)
    (hpair : pair < stop) : ∃ n, (n = batch ∨ n < batch ∧ pair + n = stop) ∧ pair + n ≤ stop ∧
    packLoop columns batch w stop pair = batchOf columns w pair n ++ packLoop columns batch w stop (pair + batch) := by
  refine ⟨if stop - pair < batch then stop - pair else batch, ?_, ?_, ?_⟩
  · split_ifs with h
    · exact Or.inr ⟨h, by omega⟩
    · exact Or.inl rfl
  · split_ifs <;> omega
  · have hturns := hfit.turns
    have hwords : ∀ x, forWords stop batch TURNS x = strided stop batch x := fun x =>
      forWords_eq hbatch hturns (by simp only [TURNS]; omega)
    rw [packLoop, packLoop, hwords, hwords, strided, if_pos ⟨hpair, hbatch⟩, List.flatMap_cons]

/-- The loop is over when the range is. -/
theorem packLoop_over {pair : Nat} (h : stop ≤ pair) : packLoop columns batch w stop pair = [] := by
  rw [packLoop, show TURNS = TURNS - 1 + 1 from rfl, forWords, if_neg (by omega), List.flatMap_nil]

/-- The loop is typed from what its worker holds. -/
theorem packLoop_typed (hfit : Fits batch stop) {pair : Nat} (hc : 0 < columns) (hbatch : 0 < batch)
    (hstaging : ∀ slot, .staging w slot ∈ held)
    (hpacked : ∀ p, pair ≤ p → p < stop → ∀ offset < 2, .packed (pairPage columns p + offset) ∈ held)
    {rest : List PackInstr} (hrest : Typed discipline w held [] rest) :
    Typed discipline w held [] (packLoop columns batch w stop pair ++ rest) := by
  have hpages := hfit.pages
  by_cases hpair : pair < stop
  · obtain ⟨n, -, hle, heq⟩ := packLoop_batch columns w hfit hbatch hpair
    rw [heq, List.append_assoc]
    exact batch_typed (by omega) hc hstaging (fun i hi => hpacked _ (by omega) (by omega))
      (packLoop_typed hfit hc hbatch hstaging (fun p hp => hpacked p (by omega)) hrest)
  · rw [packLoop_over (by omega)]
    exact hrest
termination_by stop - pair

/-- The loop leaves the weights alone. -/
theorem packLoop_weight (hfit : Fits batch stop) {pair : Nat} {m : Cell → Page} (hbatch : 0 < batch) (offset p : Nat) :
    serial (packLoop columns batch w stop pair) m (weight offset p) = m (weight offset p) := by
  have hpages := hfit.pages
  by_cases hpair : pair < stop
  · obtain ⟨n, -, hle, heq⟩ := packLoop_batch columns w hfit hbatch hpair
    rw [heq, serial_append, packLoop_weight hfit hbatch, batch_weight (by omega)]
  · rw [packLoop_over (by omega), serial_nil]
termination_by stop - pair

/-- The loop writes the pages of its pairs, and no others. -/
theorem packLoop_packed (hfit : Fits batch stop) {pair : Nat} {m : Cell → Page} (hc : 0 < columns) (hbatch : 0 < batch)
    (page : Nat) : serial (packLoop columns batch w stop pair) m (.packed page) =
      if pair ≤ (separatePage page columns).2 ∧ (separatePage page columns).2 < stop then
        m (weight (separatePage page columns).1 (separatePage page columns).2)
      else m (.packed page) := by
  have hpages := hfit.pages
  by_cases hpair : pair < stop
  · obtain ⟨n, hn, hle, heq⟩ := packLoop_batch columns w hfit hbatch hpair
    rw [heq, serial_append, packLoop_packed hfit hc hbatch, batch_weight (by omega), batch_packed (by omega) hc]
    split_ifs <;> first | rfl | omega
  · rw [packLoop_over (by omega), serial_nil, if_neg (by omega)]
termination_by stop - pair

end

/-! ## All workers -/

/-- A key of an association list without a second entry. -/
theorem lookup_of_mem {κ β : Type} [DecidableEq κ] {l : List (κ × β)} (hnodup : (l.map Prod.fst).Nodup) {k : κ} {b : β}
    (h : (k, b) ∈ l) : l.lookup k = some b := by
  induction l with
  | nil => cases h
  | cons e l ih =>
    obtain ⟨hout, hnodup⟩ := List.nodup_cons.mp hnodup
    rw [List.lookup_cons]
    rcases List.mem_cons.mp h with rfl | hl
    · simp
    · have hne : k ≠ e.1 := fun heq => hout (heq ▸ List.mem_map_of_mem hl)
      rw [beq_false_of_ne hne]
      exact ih hnodup hl

theorem mem_of_lookup {κ β : Type} [DecidableEq κ] {l : List (κ × β)} {k : κ} {b : β} (h : l.lookup k = some b) :
    (k, b) ∈ l := by
  induction l with
  | nil => cases h
  | cons e l ih =>
    rw [List.lookup_cons] at h
    by_cases hk : k = e.1
    · subst hk
      simp only [beq_self_eq_true] at h
      cases h
      exact List.mem_cons_self
    · rw [beq_false_of_ne hk] at h
      exact List.mem_cons_of_mem _ (ih h)

/-- A pair that is dealt to a worker. -/
def Dealt (layout : List (Worker × (Nat × Nat))) (w : Worker) (p : Nat) : Prop :=
  ∃ range, (w, range) ∈ layout ∧ range.1 ≤ p ∧ p < range.1 + range.2

/-- What a worker holds: its staging, and the packed pages of its pairs. -/
def holds (columns : Nat) (layout : List (Worker × (Nat × Nat))) (w : Worker) : Set Cell :=
  {c | (∃ slot, c = .staging w slot) ∨ ∃ page, c = .packed page ∧ Dealt layout w (separatePage page columns).2}

section

variable {gridX gridY pairs columns batch : Nat} {layout : List (Worker × (Nat × Nat))}

/-- A pair is dealt to one worker. -/
theorem Partition.dealt_unique (h : Partition gridX gridY pairs layout) {w w' : Worker} {p : Nat}
    (hw : Dealt layout w p)
    (hw' : Dealt layout w' p) : w = w' := by
  obtain ⟨range, hmem, hin⟩ := hw
  obtain ⟨range', hmem', hin'⟩ := hw'
  by_contra hne
  have hnodup : (layout.flatMap fun e => List.range' e.2.1 e.2.2).Nodup := h.pairs.nodup_iff.mpr List.nodup_range
  have hdisjoint := (List.nodup_flatMap.mp hnodup).2
  have : Std.Symm (Function.onFun List.Disjoint fun e : Worker × (Nat × Nat) => List.range' e.2.1 e.2.2) :=
    ⟨fun _ _ h => fun p hp hp' => h hp' hp⟩
  exact hdisjoint.forall hmem hmem' (fun heq => hne (congrArg Prod.fst heq)) (List.mem_range'_1.mpr hin)
    (List.mem_range'_1.mpr hin')

/-- And every pair is dealt. -/
theorem Partition.dealt (h : Partition gridX gridY pairs layout) {p : Nat} : (∃ w, Dealt layout w p) ↔ p < pairs := by
  rw [← List.mem_range, ← h.pairs.mem_iff, List.mem_flatMap]
  constructor
  · rintro ⟨w, range, hmem, hin⟩
    exact ⟨(w, range), hmem, List.mem_range'_1.mpr hin⟩
  · rintro ⟨⟨w, range⟩, hmem, hin⟩
    exact ⟨w, range, hmem, List.mem_range'_1.mp hin⟩

end

section

variable {gridX gridY pairs kTiles columns batch : Nat} {layout : List (Worker × (Nat × Nat))}

theorem Fits.mono {stop : Nat} (h : Fits batch pairs) (hstop : stop ≤ pairs) : Fits batch stop := by
  obtain ⟨hpages, hturns⟩ := h
  exact ⟨by omega, by omega⟩

variable (columns) in
/-- What a worker with a range runs; its range fits. -/
theorem programs_of_mem (hfit : Fits batch pairs) (h : Partition gridX gridY pairs layout) {w : Worker}
    {range : Nat × Nat} (hmem : (w, range) ∈ layout) :
    Fits batch (range.1 + range.2) ∧
    programs columns batch layout w = packLoop columns batch w (range.1 + range.2) range.1 ++ [.settle .store] := by
  have hwithin := h.within _ hmem
  have hpages := hfit.pages
  refine ⟨hfit.mono hwithin, ?_⟩
  rw [programs, lookup_of_mem h.once hmem]
  show kernelMain columns batch w range.1 range.2 = _
  rw [kernelMain, word32_of_lt (lt_of_le_of_lt hwithin (by omega))]

/-- A worker without a range has nothing to do. -/
theorem programs_of_not_mem {w : Worker} (hout : w ∉ layout.map Prod.fst) : programs columns batch layout w = [] := by
  rw [programs]
  cases hlookup : layout.lookup w with
  | none => rfl
  | some range => exact absurd (List.mem_map_of_mem (mem_of_lookup hlookup)) hout

/-- Every worker's program is typed from what it holds. -/
theorem programs_typed (hfit : Fits batch pairs) (hc : 0 < columns) (hbatch : 0 < batch)
    (h : Partition gridX gridY pairs layout) (w : Worker) :
    Typed discipline w (holds columns layout w) [] (programs columns batch layout w) := by
  by_cases hin : w ∈ layout.map Prod.fst
  · obtain ⟨⟨w, range⟩, hmem, rfl⟩ := List.mem_map.mp hin
    obtain ⟨hrange, hprogram⟩ := programs_of_mem columns hfit h hmem
    rw [hprogram]
    refine packLoop_typed hrange hc hbatch (fun slot => Or.inl ⟨slot, rfl⟩)
      (fun p hp hp' offset ho => Or.inr ⟨_, rfl, ?_⟩)
      (.settle .nil)
    rw [separatePage_pairPage hc p ho]
    exact ⟨range, hmem, hp, hp'⟩
  · rw [programs_of_not_mem hin]
    exact .nil

/-- The workers hold different cells. -/
theorem owned (hfit : Fits batch pairs) (hc : 0 < columns) (hbatch : 0 < batch)
    (h : Partition gridX gridY pairs layout) :
    Owned discipline Empty.elim (holds columns layout)
      (⟨fun w => ⟨programs columns batch layout w, []⟩, Empty.elim⟩ : Control Worker Cell Page Empty Empty) where
  typed := programs_typed hfit hc hbatch h
  underWay _ := ⟨fun _ hop => absurd hop List.not_mem_nil, .nil⟩
  balance r := r.elim
  apart w w' hne := by
    refine Set.disjoint_left.mpr ?_
    rintro c (⟨slot, rfl⟩ | ⟨page, rfl, hdealt⟩) (⟨slot', heq⟩ | ⟨page', heq, hdealt'⟩)
    · exact hne (Cell.staging.inj heq).1
    · cases heq
    · cases heq
    · cases heq
      exact hne (h.dealt_unique hdealt hdealt')
  constant w := by
    refine Set.disjoint_left.mpr ?_
    rintro c (⟨slot, rfl⟩ | ⟨page, rfl, -⟩) ⟨offset, pair, heq⟩
    · exact staging_ne_weight _ _ _ heq
    · exact packed_ne_weight _ _ _ heq
  queued r := r.elim
  within r := r.elim
  across r := r.elim

/-- Without rings nothing waits. -/
theorem ringsAfter_empty (p : List PackInstr) : ringsAfter p Empty.elim = some Empty.elim := by
  induction p with
  | nil => rfl
  | cons x p ih =>
    have hx : x.rings Empty.elim = some Empty.elim := by
      cases x with
      | compute | copy | settle => rfl
      | acquire r | release r => exact r.elim
    exact (congrArg (fun q => q >>= _) hx).trans ih

/-- The workers one after the other. -/
def inOrder (hfit : Fits batch pairs) (hc : 0 < columns) (hbatch : 0 < batch)
    (h : Partition gridX gridY pairs layout) :
    Interleaving discipline (programs columns batch layout) Empty.elim where
  order := inTurn (programs columns batch layout) (layout.map Prod.fst)
  ends := Empty.elim
  left := Empty.elim
  held := holds columns layout
  shares w := by
    rw [share_inTurn h.once]
    split_ifs with hin
    · rfl
    · exact (programs_of_not_mem hin).symm
  rings := ringsAfter_empty _
  owned := owned hfit hc hbatch h

/-- A worker leaves the weights alone. -/
theorem programs_weight (hfit : Fits batch pairs) (hbatch : 0 < batch) (h : Partition gridX gridY pairs layout)
    (w : Worker) (m : Cell → Page) (offset p : Nat) :
    serial (programs columns batch layout w) m (weight offset p) = m (weight offset p) := by
  by_cases hin : w ∈ layout.map Prod.fst
  · obtain ⟨⟨w, range⟩, hmem, rfl⟩ := List.mem_map.mp hin
    obtain ⟨hrange, hprogram⟩ := programs_of_mem columns hfit h hmem
    rw [hprogram, serial_append]
    exact packLoop_weight hrange hbatch offset p
  · rw [programs_of_not_mem hin, serial_nil]

/-- It writes the pages of its pairs. -/
theorem programs_packed (hfit : Fits batch pairs) (hc : 0 < columns) (hbatch : 0 < batch)
    (h : Partition gridX gridY pairs layout) {w : Worker}
    (m : Cell → Page) {page : Nat} (hdealt : Dealt layout w (separatePage page columns).2) :
    serial (programs columns batch layout w) m (.packed page) =
      m (weight (separatePage page columns).1 (separatePage page columns).2) := by
  obtain ⟨range, hmem, hin⟩ := hdealt
  obtain ⟨hrange, hprogram⟩ := programs_of_mem columns hfit h hmem
  rw [hprogram, serial_append]
  exact (packLoop_packed hrange hc hbatch page).trans (if_pos hin)

/-- And no others. -/
theorem programs_other (hfit : Fits batch pairs) (hc : 0 < columns) (hbatch : 0 < batch)
    (h : Partition gridX gridY pairs layout) {w : Worker}
    (m : Cell → Page) {page : Nat} (hdealt : ¬Dealt layout w (separatePage page columns).2) :
    serial (programs columns batch layout w) m (.packed page) = m (.packed page) := by
  by_cases hin : w ∈ layout.map Prod.fst
  · obtain ⟨⟨w, range⟩, hmem, rfl⟩ := List.mem_map.mp hin
    obtain ⟨hrange, hprogram⟩ := programs_of_mem columns hfit h hmem
    rw [hprogram, serial_append]
    exact (packLoop_packed hrange hc hbatch page).trans (if_neg fun hin => hdealt ⟨range, hmem, hin⟩)
  · rw [programs_of_not_mem hin, serial_nil]

/-- Several workers leave the weights alone. -/
theorem workers_weight (hfit : Fits batch pairs) (hbatch : 0 < batch) (h : Partition gridX gridY pairs layout)
    (ws : List Worker) (m : Cell → Page) (offset p : Nat) :
    serial (ws.flatMap (programs columns batch layout)) m (weight offset p) =
      m (weight offset p) := by
  induction ws generalizing m with
  | nil => rfl
  | cons w ws ih => rw [List.flatMap_cons, serial_append, ih, programs_weight hfit hbatch h]

/-- They write no pages of other pairs. -/
theorem workers_other (hfit : Fits batch pairs) (hc : 0 < columns) (hbatch : 0 < batch)
    (h : Partition gridX gridY pairs layout)
    {ws : List Worker} {m : Cell → Page} {page : Nat}
    (hdealt : ∀ w ∈ ws, ¬Dealt layout w (separatePage page columns).2) :
    serial (ws.flatMap (programs columns batch layout)) m (.packed page) = m (.packed page) := by
  induction ws generalizing m with
  | nil => rfl
  | cons w ws ih =>
    rw [List.flatMap_cons, serial_append, ih fun w' hw' => hdealt w' (List.mem_cons_of_mem _ hw'),
      programs_other hfit hc hbatch h m (hdealt w List.mem_cons_self)]

/-- They write the pages of their pairs. -/
theorem workers_packed (hfit : Fits batch pairs) (hc : 0 < columns) (hbatch : 0 < batch)
    (h : Partition gridX gridY pairs layout)
    (ws : List Worker) (m : Cell → Page) {page : Nat} {w : Worker} (hw : w ∈ ws)
    (hdealt : Dealt layout w (separatePage page columns).2) :
    serial (ws.flatMap (programs columns batch layout)) m (.packed page) =
      m (weight (separatePage page columns).1 (separatePage page columns).2) := by
  induction ws generalizing m with
  | nil => cases hw
  | cons w' ws ih =>
    rw [List.flatMap_cons, serial_append]
    by_cases hin : w ∈ ws
    · rw [ih _ hin, programs_weight hfit hbatch h]
    · obtain rfl : w = w' := by simpa [hin] using hw
      rw [workers_other hfit hc hbatch h, programs_packed hfit hc hbatch h m hdealt]
      exact fun w' hw' hdealt' => hin (h.dealt_unique hdealt hdealt' ▸ hw')

/-- What the workers of a layout do, whatever is in the tensors before and in whatever order they run: every run can go
on to where all workers have ended; then every packed page is the page of `w1` or `w3` that `separatePage` names, and
those are as they were; and while a staging page waits for its write to leave, no other transfer has it as its target
and no step changes it. -/
structure Rebuilds (columns batch pairs : Nat) (layout : List (Worker × (Nat × Nat))) (m : Cell → Page) : Prop where
  ends : ∀ ls s, Run (Steps step) (initial (programs columns batch layout) Empty.elim m) ls s →
    ∃ ls' t, Run (Steps step) s ls' t ∧ t.Ended
  exact : ∀ ls s, Run (Steps step) (initial (programs columns batch layout) Empty.elim m) ls s → s.Ended →
    (∀ page < 2 * pairs,
      s.mem (.packed page) = m (weight (separatePage page columns).1 (separatePage page columns).2)) ∧
      ∀ offset pair, s.mem (weight offset pair) = m (weight offset pair)
  staged : ∀ ls s, Run (Steps step) (initial (programs columns batch layout) Empty.elim m) ls s →
    ∀ w, ∀ op ∈ (s.control.proc w).pending, op.kind = .store →
      (∀ w', ∀ op' ∈ (s.control.proc w').pending, (w = w' → op ≠ op') → op'.dst ≠ op.src) ∧
        ∀ l t, step s l = some t → l ≠ .perform w op → t.mem op.src = s.mem op.src

/-- **The repack is the exact interleave**, under every schedule. -/
theorem rebuilds (hfit : Fits batch (kTiles * columns)) (hbatch : 0 < batch) (hc : 0 < columns)
    (h : Partition gridX gridY (kTiles * columns) layout)
    (m : Cell → Page) : Rebuilds columns batch (kTiles * columns) layout m where
  ends ls s hrun := by
    obtain ⟨ls', hrest, -⟩ := (inOrder hfit hc hbatch h).joins hrun
    exact ⟨ls', _, hrest, fun _ => rfl⟩
  exact ls s hrun hend := by
    have hmem : s.mem = serial ((layout.map Prod.fst).flatMap (programs columns batch layout)) m := by
      rw [((inOrder hfit hc hbatch h).finished hrun hend).1]
      exact congrArg (fun p => serial p m) (inTurn_snd _ _)
    rw [hmem]
    refine ⟨fun page hpage => ?_, workers_weight hfit hbatch h _ m⟩
    obtain ⟨w, hdealt⟩ := h.dealt.mpr ((separatePage_pair_lt hc page kTiles).mpr hpage)
    have hw : w ∈ layout.map Prod.fst := by
      obtain ⟨range, hmem, -⟩ := hdealt
      exact List.mem_map_of_mem hmem
    exact workers_packed hfit hc hbatch h _ m hw hdealt
  staged ls s hrun w op hop _ := ⟨fun w' op' hop' hne => (inOrder hfit hc hbatch h).target_apart hrun hop hop' hne,
    fun l t hstep hne => (inOrder hfit hc hbatch h).source_kept hrun hstep hop hne⟩

end

/-! ## Page ids that wrap -/

section

variable {columns batch : Nat} {layout : List (Worker × (Nat × Nat))}

/-- Whatever the range, an instruction of the kernel writes a staging page, or a packed page that a word can name. -/
theorem programs_writes {w : Worker} {x : PackInstr} (hx : x ∈ programs columns batch layout w) :
    (∃ kind, x = .settle kind) ∨
      ∃ op, x = .copy op ∧ ((∃ slot, op.dst = .staging w slot) ∨ ∃ page < 2 ^ 32, op.dst = .packed page) := by
  have hword : ∀ n, word32 n < 2 ^ 32 := fun n => Nat.mod_lt n (by decide)
  unfold programs at hx
  cases hrange : layout.lookup w with
  | none => rw [hrange] at hx; cases hx
  | some range =>
    rw [hrange] at hx
    rcases List.mem_append.mp hx with hx | hx
    · obtain ⟨pair, -, hx⟩ := List.mem_flatMap.mp hx
      rcases List.mem_append.mp hx with hread | hx
      · obtain ⟨op, hop, rfl⟩ := List.mem_map.mp hread
        obtain ⟨i, -, hop⟩ := List.mem_flatMap.mp hop
        refine Or.inr ⟨op, rfl, Or.inl ?_⟩
        rcases List.mem_pair.mp hop with rfl | rfl <;> exact ⟨_, rfl⟩
      · rcases List.mem_cons.mp hx with rfl | hx
        · exact Or.inl ⟨_, rfl⟩
        rcases List.mem_append.mp hx with hwrite | hx
        · obtain ⟨op, hop, rfl⟩ := List.mem_map.mp hwrite
          obtain ⟨i, -, hop⟩ := List.mem_flatMap.mp hop
          refine Or.inr ⟨op, rfl, Or.inr ?_⟩
          rcases List.mem_pair.mp hop with rfl | rfl
          · exact ⟨_, hword _, rfl⟩
          · exact ⟨_, hword _, rfl⟩
        · exact Or.inl ⟨_, List.mem_singleton.mp hx⟩
    · exact Or.inl ⟨_, List.mem_singleton.mp hx⟩

/-- The workers one after the other are a run, whatever the words do. -/
theorem inTurn_run (columns batch : Nat) (hnodup : (layout.map Prod.fst).Nodup) (m : Cell → Page) :
    ∃ ls s, Run (Steps step) (initial (programs columns batch layout) Empty.elim m) ls s ∧ s.Ended ∧
      s.mem = serial ((layout.map Prod.fst).flatMap (programs columns batch layout)) m := by
  have hrun := order_runs (m := m) (inTurn (programs columns batch layout) (layout.map Prod.fst)) (fun _ => [])
    (ringsAfter_empty _)
  have hstart : (fun w => (⟨share (inTurn (programs columns batch layout) (layout.map Prod.fst)) w ++ [], []⟩ :
      Proc Cell Page Empty Empty)) = fun w => ⟨programs columns batch layout w, []⟩ := by
    funext w
    rw [share_inTurn hnodup, List.append_nil]
    split_ifs with hin
    · rfl
    · rw [programs_of_not_mem hin]
  rw [hstart] at hrun
  exact ⟨_, _, hrun, fun _ => rfl, by rw [← inTurn_snd]⟩

end

/-- **Page ids that wrap**: the workers, one after the other, leave a packed page that no word can name as it was, and
the weights. -/
theorem wide_page_unwritten {layout : List (Worker × (Nat × Nat))} (hnodup : (layout.map Prod.fst).Nodup)
    (columns batch : Nat) {page : Nat} (hpage : 2 ^ 32 ≤ page) (m : Cell → Page) :
    ∃ ls s, Run (Steps step) (initial (programs columns batch layout) Empty.elim m) ls s ∧ s.Ended ∧
      s.mem (.packed page) = m (.packed page) ∧ ∀ offset pair, s.mem (weight offset pair) = m (weight offset pair) := by
  obtain ⟨ls, s, hrun, hend, hmem⟩ := inTurn_run columns batch hnodup m
  have hkept : ∀ c : Cell, (∀ w slot, c ≠ .staging w slot) → (∀ p < 2 ^ 32, c ≠ .packed p) → s.mem c = m c := by
    intro c hstaging hpacked
    rw [hmem]
    refine serial_kept fun x hx m' => ?_
    obtain ⟨w, -, hx⟩ := List.mem_flatMap.mp hx
    obtain ⟨kind, rfl⟩ | ⟨op, rfl, hdst⟩ := programs_writes hx
    · rfl
    · refine Function.update_of_ne ?_ _ _
      obtain ⟨slot, hdst⟩ | ⟨p, hp, hdst⟩ := hdst
      · exact fun heq => hstaging w slot (heq.trans hdst)
      · exact fun heq => hpacked p hp (heq.trans hdst)
  refine ⟨ls, s, hrun, hend, hkept _ (fun _ _ => Cell.noConfusion) fun p hp heq => ?_, fun offset pair => ?_⟩
  · cases heq
    omega
  · exact hkept _ (fun w slot => (staging_ne_weight slot offset pair).symm)
      fun p _ => (packed_ne_weight p offset pair).symm

/-! ## The staging -/

/-- The staging pages of a batch are within the reservation, from wherever it starts. -/
theorem staging_fits (writePtr batch : Nat) {slot : Nat} (hslot : slot < 2 * batch) :
    writePtr ≤ (writePtr + 63) / 64 * 64 + slot * PAGE ∧
      (writePtr + 63) / 64 * 64 + slot * PAGE + PAGE ≤ writePtr + cbBytes batch := by
  have halign : writePtr ≤ (writePtr + 63) / 64 * 64 ∧ (writePtr + 63) / 64 * 64 ≤ writePtr + 63 := by omega
  have hneed : 2 * batch * PAGE + ALIGN_SLACK ≤ cbBytes batch := by
    simp only [cbBytes, CB_PAGE]
    omega
  have hpages := Nat.mul_le_mul_right PAGE (Nat.succ_le_of_lt hslot)
  rw [Nat.succ_mul] at hpages
  simp only [ALIGN_SLACK] at hneed
  omega

end BlackholeQwen.Mlp
