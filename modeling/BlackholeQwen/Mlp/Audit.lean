import BlackholeQwen.Mlp.Pack
import Mathlib.Algebra.GroupWithZero.Nat
import Mathlib.Algebra.Order.BigOperators.Group.List
import Mathlib.Data.Prod.Lex

/-!
# The audit of the packed weights (`graft/mlp_c1e_pack.py`, `scripts/ci/packed_weight_check.cpp`)

Two launches compare the packed tensor with `w1` and with `w3`, word for word; each worker goes over every 64th page at
most and leaves a page of counters, which the host reads back and sums.

- `checkKernel_logged`: a worker's counters are those of the differing words of its pages.
- `readCheck_eq`: read back, they give the number of differing words and the first of them.
- `gateUp_pack_exact`: the index maps, the ranges, the repack and its audit, for every shape, grid and batch.
-/

namespace BlackholeQwen.Mlp

open Lib Lib.Movers

/-! ## The comparison kernel -/

/-- The kernel's coverage word. -/
abbrev CHECK_SENTINEL : Nat := 0x514B5631

/-- The comparison's workers at most. -/
abbrev CHECK_MAX_WORKERS : Nat := 64

/-- A page of the result: 1024 words of 32 bits. -/
abbrev Words : Type := Fin 1024 → Nat

/-- One word of a page compared. -/
def compareWord (first second : Page) (page : Nat) (result : Words) (word : Fin 144) : Words :=
  if first word ≠ second word then
    let result := Function.update result 0 (word32 (result 0 + 1))
    if result 2 = 0 then
      Function.update (Function.update result 2 (word32 (page + 1))) 3 (word32 (word + 1))
    else result
  else result

/-- One page compared with the packed page it should be at. -/
def comparePage (packed separate : Nat → Page) (columns offset : Nat) (result : Words) (page : Nat) : Words :=
  let pairedPage := word32 (page / columns * columns * 2 + page % columns * 2 + offset)
  let result := (List.finRange 144).foldl (compareWord (packed pairedPage) (separate page) page) result
  Function.update result 1 (word32 (result 1 + 1))

/-- `kernel_main` of the comparison: what it leaves in the worker's page of the result. -/
def checkKernel (packed separate : Nat → Page) (worker workers columns pages offset : Nat) : Words :=
  let result := Function.update (fun _ => 0) 4 CHECK_SENTINEL
  let result := (forWords pages workers TURNS worker).foldl (comparePage packed separate columns offset) result
  Function.update result 5 (result 0 ^^^ 0xFFFFFFFF)

/-! ## The host -/

/-- A tensor of the model: its shape on a chip, whether it is interleaved tiled bfloat4_b in DRAM, and its pages chip by
chip. -/
structure Tensor where
  shape : List Int
  plainDramBf4 : Bool
  shards : List (Nat → Page)

/-- A mesh of chips, with the compute grid of each. -/
structure Mesh where
  rows : Nat
  cols : Nat
  gridX : Nat
  gridY : Nat
  rows_pos : 0 < rows
  cols_pos : 0 < cols
  gridX_pos : 0 < gridX
  gridY_pos : 0 < gridY

/-- `check_geometry`: (workers, pages) of the comparison. -/
def checkGeometry (pages : Nat) : Except PyError (Nat × Nat) := do
  raiseIf (pages = 0) (.valueError "at least one page to compare")
  pure (min CHECK_MAX_WORKERS pages, pages)

/-- `check_pairs`: the result pages of every chip, worker by worker. -/
def checkPairs (mesh : Mesh) (packed separate : Tensor) (offset : Nat) : Except PyError (List (Nat → Words)) := do
  raiseIf (packed.plainDramBf4 = false ∨ separate.plainDramBf4 = false)
    (.valueError "interleaved tiled bfloat4_b weights required")
  let g ← geometry separate.shape (some packed.shape)
  let c ← checkGeometry g.2.2
  let width := min mesh.gridX c.1
  raiseIf (mesh.gridY < (c.1 + width - 1) / width) (.valueError "the comparison workers exceed the grid")
  raiseIf (packed.shards.length ≠ mesh.rows * mesh.cols ∨ separate.shards.length ≠ mesh.rows * mesh.cols)
    (.valueError "every tensor needs one shard per mesh device")
  pure (packed.shards.zipWith (fun packed separate worker =>
    checkKernel packed separate worker c.1 g.2.1 g.2.2 offset) separate.shards)

/-- What `read_check` says of one chip. -/
structure Check where
  chip : Nat
  pages : Nat
  mismatchedWords : Nat
  firstPage : Option Nat
  firstWord : Option Nat
  exact : Bool
  deriving DecidableEq, Repr

/-- The word of a tile at a row and a column: a tile is four faces of 16 x 16. -/
def tileIndex (row col : Fin 32) : Fin 1024 :=
  ⟨(row / 16 * 2 + col / 16) * 256 + row % 16 * 16 + col % 16, by omega⟩

/-- The counter `k` of a worker. -/
def counts (shard : Nat → Words) (worker : Nat) (k : Fin 6) : Nat :=
  shard worker (tileIndex 0 ⟨k, by omega⟩) &&& 0xFFFFFFFF

/-- The first differing (page, word) that the workers found. -/
def firsts (shard : Nat → Words) (workers : Nat) : List (Nat × Nat) :=
  (List.range workers).filterMap fun w =>
    if counts shard w 2 ≠ 0 then some (counts shard w 2 - 1, counts shard w 3 - 1) else none

/-- The coverage and integrity checks of one worker's counters. -/
def checkCounters (pages workers chip : Nat) (shard : Nat → Words) (worker : Nat) : Except PyError Unit := do
  raiseIf (counts shard worker 1 ≠ (strided pages workers worker).length ∨ counts shard worker 4 ≠ CHECK_SENTINEL)
    (.assertionError ("incomplete device comparison coverage (chip " ++ toString chip ++ " worker " ++
      toString worker ++ ")"))
  raiseIf (counts shard worker 5 ≠ counts shard worker 0 ^^^ 0xFFFFFFFF)
    (.assertionError ("comparison counter readback integrity failed (chip " ++ toString chip ++ " worker " ++
      toString worker ++ ")"))

/-- `read_check` of one chip. -/
def readShard (pages workers chip : Nat) (shard : Nat → Words) : Except PyError Check := do
  let _ ← (List.range workers).mapM (checkCounters pages workers chip shard)
  raiseIf (∃ worker ∈ List.range workers, ∃ row col : Fin 32, ¬(row = 0 ∧ col < 6) ∧
      shard worker (tileIndex row col) &&& 0xFFFFFFFF ≠ 0)
    (.assertionError ("comparison output canary changed (chip " ++ toString chip ++ ")"))
  let mismatches := ((List.range workers).map fun w => counts shard w 0).sum
  let first := ((firsts shard workers).map toLex).min?.map ofLex
  pure { chip := chip, pages := ((List.range workers).map fun w => counts shard w 1).sum, mismatchedWords := mismatches,
         firstPage := first.map Prod.fst, firstWord := first.map Prod.snd, exact := decide (mismatches = 0) }

/-- `read_check`: chip by chip. -/
def readCheck (result : List (Nat → Words)) (pages : Nat) : Except PyError (List Check) := do
  let c ← checkGeometry pages
  result.zipIdx.mapM fun e => readShard pages c.1 e.2 e.1

/-- What `audit_pairs` reports. -/
structure Report where
  pages : Nat
  gate : List Check
  up : List Check
  mismatchedWords : Nat
  exact : Bool
  deriving DecidableEq, Repr

/-- `audit_pairs`: the gate pages against `w1`, the up pages against `w3`. -/
def auditPairs (mesh : Mesh) (packed w1 w3 : Tensor) : Except PyError Report := do
  let g ← geometry w1.shape (some packed.shape)
  let gate ← checkPairs mesh packed w1 0 >>= fun result => readCheck result g.2.2
  let up ← checkPairs mesh packed w3 1 >>= fun result => readCheck result g.2.2
  let checks := gate ++ up
  pure { pages := g.2.2, gate := gate, up := up, mismatchedWords := (checks.map Check.mismatchedWords).sum,
         exact := !checks.isEmpty && checks.all Check.exact }

/-! ## What a worker logs -/

/-- The words in which a packed page and its separate page differ. -/
def pageDiffs (packed separate : Nat → Page) (columns offset page : Nat) : List (Nat × Nat) :=
  ((List.finRange 144).filter fun word => packed (pairPage columns page + offset) word ≠ separate page word).map
    fun word => (page, word.val)

/-- The differing words of several pages, in order. -/
def differing (packed separate : Nat → Page) (columns offset : Nat) (pages : List Nat) : List (Nat × Nat) :=
  pages.flatMap (pageDiffs packed separate columns offset)

/-- The first of them as the kernel stores it. -/
def firstWords (diffs : List (Nat × Nat)) : Nat × Nat := diffs.head?.elim (0, 0) fun d => (d.1 + 1, d.2 + 1)

/-- The counters after `count` pages with the differing words `diffs`. -/
structure Logged (result : Words) (diffs : List (Nat × Nat)) (count : Nat) : Prop where
  mismatches : result 0 = word32 diffs.length
  pages : result 1 = word32 count
  firstPage : result 2 = (firstWords diffs).1
  firstWord : result 3 = (firstWords diffs).2
  sentinel : result 4 = CHECK_SENTINEL
  rest : ∀ i, 4 < i → result i = 0

section

variable {first second : Page} {page count : Nat} {result : Words} {diffs : List (Nat × Nat)}

theorem firstWords_append (h : diffs ≠ []) (more : List (Nat × Nat)) :
    firstWords (diffs ++ more) = firstWords diffs := by
  cases diffs with
  | nil => exact absurd rfl h
  | cons d diffs => rfl

theorem word32_succ (n : Nat) : word32 (word32 n + 1) = word32 (n + 1) := by simp only [word32, Nat.mod_add_mod]

theorem below_ne {i : Fin 1024} (hi : 4 < i) : i ≠ 0 ∧ i ≠ 1 ∧ i ≠ 2 ∧ i ≠ 3 ∧ i ≠ 4 := by
  refine ⟨?_, ?_, ?_, ?_, ?_⟩ <;> rintro rfl <;> exact absurd hi (by decide)

/-- A word that differs is counted, and noted when it is the first. -/
theorem compareWord_logged (h : Logged result diffs count) (hpage : page + 1 < 2 ^ 32) (word : Fin 144) :
    Logged (compareWord first second page result word)
      (diffs ++ if first word ≠ second word then [(page, word.val)] else []) count := by
  by_cases hdiffers : first word ≠ second word
  · have hzero : (2 : Fin 1024) ≠ 0 := by decide
    rw [if_pos hdiffers]
    by_cases hnone : diffs = []
    · subst hnone
      have hword : word.val + 1 < 2 ^ 32 := by omega
      have hfirst : Function.update result 0 (word32 (result 0 + 1)) 2 = 0 := by
        rw [Function.update_of_ne hzero, h.firstPage]
        rfl
      simp only [compareWord, if_pos hdiffers, if_pos hfirst, word32_of_lt hpage, word32_of_lt hword]
      refine ⟨?_, ?_, ?_, ?_, ?_, fun i hi => ?_⟩
      · simp [h.mismatches, word32_succ]
      · simp [h.pages]
      · simp [firstWords]
      · simp [firstWords]
      · simp [h.sentinel]
      · simp [below_ne hi, h.rest i hi]
    · have hfirst : Function.update result 0 (word32 (result 0 + 1)) 2 ≠ 0 := by
        rw [Function.update_of_ne hzero, h.firstPage]
        cases diffs with
        | nil => exact absurd rfl hnone
        | cons d diffs => exact Nat.succ_ne_zero d.1
      simp only [compareWord, if_pos hdiffers, if_neg hfirst]
      refine ⟨?_, ?_, ?_, ?_, ?_, fun i hi => ?_⟩
      · rw [Function.update_self, h.mismatches, word32_succ, List.length_append]
        rfl
      · simp [h.pages]
      · simp [h.firstPage, firstWords_append hnone]
      · simp [h.firstWord, firstWords_append hnone]
      · simp [h.sentinel]
      · simp [below_ne hi, h.rest i hi]
  · rw [if_neg hdiffers, List.append_nil, compareWord, if_neg hdiffers]
    exact h

/-- The words of a page are compared one after the other. -/
theorem compareWords_logged (h : Logged result diffs count) (hpage : page + 1 < 2 ^ 32) (words : List (Fin 144)) :
    Logged (words.foldl (compareWord first second page) result)
      (diffs ++ (words.filter fun word => first word ≠ second word).map fun word => (page, word.val)) count := by
  induction words generalizing result diffs with
  | nil => simpa using h
  | cons word words ih =>
    have hfirst : Logged (compareWord first second page result word) _ _ := compareWord_logged h hpage word
    have hrest := ih hfirst
    rw [List.append_assoc] at hrest
    by_cases hdiffers : first word ≠ second word
    · rw [if_pos hdiffers] at hrest
      rw [List.filter_cons_of_pos (by simpa using hdiffers)]
      exact hrest
    · rw [if_neg hdiffers] at hrest
      rw [List.filter_cons_of_neg (by simpa using hdiffers)]
      exact hrest

variable {packed separate : Nat → Page} {columns offset : Nat}

/-- A page's differing words are logged. -/
theorem comparePage_logged (h : Logged result diffs count) (hoffset : offset < 2) (hfit : 2 * (page + 1) < 2 ^ 32) :
    Logged (comparePage packed separate columns offset result page)
      (diffs ++ pageDiffs packed separate columns offset page) (count + 1) := by
  have hpaired : page / columns * columns * 2 + page % columns * 2 + offset = pairPage columns page + offset := by
    rw [pairPage, Nat.mul_assoc, Nat.mul_comm columns 2]
  have hlt : pairPage columns page + offset < 2 ^ 32 := by
    rw [pairPage_double]
    omega
  have hwords : Logged ((List.finRange 144).foldl
      (compareWord (packed (pairPage columns page + offset)) (separate page) page) result) _ _ :=
    compareWords_logged h (by omega) (List.finRange 144)
  obtain ⟨h0, h1, h2, h3, h4, hrest⟩ := hwords
  simp only [comparePage, hpaired, word32_of_lt hlt]
  refine ⟨?_, ?_, ?_, ?_, ?_, fun i hi => ?_⟩
  · simpa [pageDiffs] using h0
  · rw [Function.update_self, h1, word32_succ]
  · simpa [pageDiffs] using h2
  · simpa [pageDiffs] using h3
  · simpa using h4
  · rw [Function.update_of_ne (below_ne hi).2.1, hrest i hi]

/-- So are those of several pages. -/
theorem comparePages_logged (h : Logged result diffs count) (hoffset : offset < 2) {pages : List Nat}
    (hpages : ∀ page ∈ pages, 2 * (page + 1) < 2 ^ 32) :
    Logged (pages.foldl (comparePage packed separate columns offset) result)
      (diffs ++ differing packed separate columns offset pages) (count + pages.length) := by
  induction pages generalizing result diffs count with
  | nil => simpa [differing] using h
  | cons page pages ih =>
    have hfirst : Logged (comparePage packed separate columns offset result page) _ _ :=
      comparePage_logged h hoffset (hpages page List.mem_cons_self)
    have hrest := ih hfirst fun p hp => hpages p (List.mem_cons_of_mem _ hp)
    rw [List.append_assoc, Nat.add_assoc, Nat.add_comm 1] at hrest
    exact hrest

/-! ## What the workers cover -/

theorem mem_strided {pages workers p : Nat} (hworkers : 0 < workers) {page : Nat} :
    p ∈ strided pages workers page ↔ page ≤ p ∧ p < pages ∧ p % workers = page % workers := by
  rw [strided]
  split_ifs with h
  · rw [List.mem_cons, mem_strided hworkers, Nat.add_mod_right]
    constructor
    · rintro (rfl | ⟨hle, hlt, hmod⟩)
      · exact ⟨Nat.le_refl _, h.1, rfl⟩
      · exact ⟨by omega, hlt, hmod⟩
    · rintro ⟨hle, hlt, hmod⟩
      rcases Nat.eq_or_lt_of_le hle with heq | hlt'
      · exact Or.inl heq.symm
      · refine Or.inr ⟨?_, hlt, hmod⟩
        have hdvd : workers ∣ p - page := Nat.dvd_of_mod_eq_zero (Nat.sub_mod_eq_zero_of_mod_eq hmod)
        have := Nat.le_of_dvd (by omega) hdvd
        omega
  · simp only [List.not_mem_nil, false_iff]
    omega
termination_by pages - page

/-- A worker's pages rise. -/
theorem strided_pairwise {pages workers : Nat} (hworkers : 0 < workers) (page : Nat) :
    (strided pages workers page).Pairwise (· < ·) := by
  rw [strided]
  split_ifs with h
  · refine List.pairwise_cons.mpr ⟨fun p hp => ?_, strided_pairwise hworkers _⟩
    have := ((mem_strided hworkers).mp hp).1
    omega
  · exact .nil
termination_by pages - page

/-- **Every page is some worker's, once.** -/
theorem strided_perm (pages : Nat) {workers : Nat} (hworkers : 0 < workers) :
    ((List.range workers).flatMap (strided pages workers)).Perm (List.range pages) := by
  have hmod : ∀ w ∈ List.range workers, w % workers = w := fun w hw => Nat.mod_eq_of_lt (List.mem_range.mp hw)
  refine (List.perm_ext_iff_of_nodup ?_ List.nodup_range).mpr fun p => ?_
  · rw [List.nodup_flatMap]
    refine ⟨fun w _ => (strided_pairwise hworkers w).imp Nat.ne_of_lt,
      List.Pairwise.imp_of_mem (fun {a b} ha hb hne => ?_) List.nodup_range⟩
    refine List.disjoint_left.mpr ?_
    intro p hp hp'
    have hpa := ((mem_strided hworkers).mp hp).2.2
    have hpb := ((mem_strided hworkers).mp hp').2.2
    rw [hmod a ha] at hpa
    rw [hmod b hb] at hpb
    exact hne (hpa.symm.trans hpb)
  · simp only [List.mem_flatMap, mem_strided hworkers, List.mem_range]
    constructor
    · rintro ⟨w, -, -, hp, -⟩
      exact hp
    · exact fun hp => ⟨p % workers, Nat.mod_lt _ hworkers, Nat.mod_le _ _, hp, (Nat.mod_mod _ _).symm⟩

end

/-! ## What is read back -/

section

variable {packed separate : Nat → Page} {columns offset pages workers : Nat}

/-- The differing words of a worker's pages. -/
def found (packed separate : Nat → Page) (columns offset pages workers worker : Nat) : List (Nat × Nat) :=
  differing packed separate columns offset (strided pages workers worker)

/-- **A worker's page of the result**: the counters of its pages, with the complement of the first. -/
theorem checkKernel_logged (packed separate : Nat → Page) (columns : Nat) (hoffset : offset < 2)
    (hwords : Fits workers pages) (hworkers : 0 < workers) (worker : Nat) :
    ∃ result, Logged result (found packed separate columns offset pages workers worker)
        (strided pages workers worker).length ∧
      checkKernel packed separate worker workers columns pages offset =
        Function.update result 5 (result 0 ^^^ 0xFFFFFFFF) := by
  have hstart : Logged (Function.update (fun _ => 0) 4 CHECK_SENTINEL) [] 0 := by
    refine ⟨rfl, rfl, rfl, rfl, rfl, fun i hi => ?_⟩
    rw [Function.update_of_ne (below_ne hi).2.2.2.2]
  have hlogged : Logged ((strided pages workers worker).foldl (comparePage packed separate columns offset) _) _ _ :=
    comparePages_logged hstart hoffset fun p hp => by
      have := ((mem_strided hworkers).mp hp).2.1
      have := hwords.pages
      omega
  have hloop : forWords pages workers TURNS worker = strided pages workers worker :=
    forWords_eq hworkers hwords.turns (by have := hwords.pages; simp only [TURNS]; omega)
  rw [List.nil_append, Nat.zero_add] at hlogged
  exact ⟨_, hlogged, by rw [checkKernel, hloop]⟩

theorem mem_pageDiffs {page : Nat} {d : Nat × Nat} (h : d ∈ pageDiffs packed separate columns offset page) :
    d.1 = page ∧ d.2 < 144 := by
  obtain ⟨word, -, rfl⟩ := List.mem_map.mp h
  exact ⟨rfl, word.isLt⟩

/-- The differing words of rising pages rise. -/
theorem differing_sorted {ps : List Nat} (h : ps.Pairwise (· < ·)) :
    ((differing packed separate columns offset ps).map toLex).Pairwise (· ≤ ·) := by
  rw [List.pairwise_map, differing, List.pairwise_flatMap]
  refine ⟨fun page _ => ?_, h.imp fun {a b} hab x hx y hy => ?_⟩
  · rw [pageDiffs, List.pairwise_map]
    refine ((List.pairwise_lt_finRange 144).sublist List.filter_sublist).imp fun {v w} hvw => ?_
    exact Prod.Lex.toLex_le_toLex.mpr (Or.inr ⟨rfl, Nat.le_of_lt hvw⟩)
  · rw [Prod.Lex.toLex_le_toLex, (mem_pageDiffs hx).1, (mem_pageDiffs hy).1]
    exact Or.inl hab

/-- The first of rising words is the least. -/
theorem head_le {l : List (Nat × Nat)} (h : (l.map toLex).Pairwise (· ≤ ·)) {d : Nat × Nat} (hd : l.head? = some d) :
    ∀ e ∈ l, toLex d ≤ toLex e := by
  cases l with
  | nil => cases hd
  | cons x l =>
    cases hd
    intro e he
    rcases List.mem_cons.mp he with rfl | he
    · exact le_refl _
    · exact (List.pairwise_cons.mp h).1 _ (List.mem_map_of_mem he)

/-- The workers' differing words are all of them. -/
theorem found_perm (packed separate : Nat → Page) (columns offset pages : Nat) (hworkers : 0 < workers) :
    ((List.range workers).flatMap fun worker =>
    found packed separate columns offset pages workers worker).Perm
      (differing packed separate columns offset (List.range pages)) := by
  have := (strided_perm pages hworkers).flatMap_right (pageDiffs packed separate columns offset)
  rw [List.flatMap_assoc] at this
  exact this

/-- **The least of the workers' first words is the first of all.** -/
theorem min_firsts (hworkers : 0 < workers) : (((List.range workers).filterMap fun worker =>
      (found packed separate columns offset pages workers worker).head?).map toLex).min?.map ofLex =
    (differing packed separate columns offset (List.range pages)).head? := by
  have hperm := found_perm packed separate columns offset pages hworkers
  have hsorted : ∀ worker, ((found packed separate columns offset pages workers worker).map toLex).Pairwise (· ≤ ·) :=
    fun worker => differing_sorted (strided_pairwise hworkers worker)
  have hall : ((differing packed separate columns offset (List.range pages)).map toLex).Pairwise (· ≤ ·) :=
    differing_sorted List.pairwise_lt_range
  cases hhead : (differing packed separate columns offset (List.range pages)).head? with
  | none =>
    have hnil := List.head?_eq_none_iff.mp hhead
    rw [hnil, List.perm_nil, List.flatMap_eq_nil_iff] at hperm
    have hnone : ((List.range workers).filterMap fun worker =>
        (found packed separate columns offset pages workers worker).head?) = [] :=
      List.filterMap_eq_nil_iff.mpr fun worker hworker => by rw [hperm worker hworker]; rfl
    rw [hnone]
    rfl
  | some d =>
    have hleast := head_le hall hhead
    obtain ⟨worker, hworker, hd⟩ := List.mem_flatMap.mp (hperm.mem_iff.mpr (List.mem_of_mem_head? hhead))
    cases hfirst : (found packed separate columns offset pages workers worker).head? with
    | none => rw [List.head?_eq_none_iff.mp hfirst] at hd; cases hd
    | some e =>
      have he := hperm.mem_iff.mp (List.mem_flatMap.mpr ⟨worker, hworker, List.mem_of_mem_head? hfirst⟩)
      obtain rfl : d = e := toLex.injective (le_antisymm (hleast e he) (head_le (hsorted worker) hfirst d hd))
      have hmin : (((List.range workers).filterMap fun worker =>
          (found packed separate columns offset pages workers worker).head?).map toLex).min? = some (toLex d) := by
        refine List.min?_eq_some_iff.mpr ⟨?_, fun e he => ?_⟩
        · exact List.mem_map_of_mem (List.mem_filterMap.mpr ⟨worker, hworker, hfirst⟩)
        · obtain ⟨e', he', rfl⟩ := List.mem_map.mp he
          obtain ⟨worker', hworker', hhead'⟩ := List.mem_filterMap.mp he'
          exact hleast e' (hperm.mem_iff.mp (List.mem_flatMap.mpr ⟨worker', hworker', List.mem_of_mem_head? hhead'⟩))
      rw [hmin]
      rfl

/-- A word that fits is read back as it is. -/
theorem and_mask {n : Nat} (h : n < 2 ^ 32) : n &&& 0xFFFFFFFF = n := by
  have := Nat.and_two_pow_sub_one_eq_mod n 32
  rw [Nat.mod_eq_of_lt h] at this
  exact this

/-- The counters as they are read back. -/
structure ReadBack (shard : Nat → Words) (worker : Nat) (diffs : List (Nat × Nat)) (count : Nat) : Prop where
  mismatches : counts shard worker 0 = diffs.length
  pages : counts shard worker 1 = count
  firstPage : counts shard worker 2 = (firstWords diffs).1
  firstWord : counts shard worker 3 = (firstWords diffs).2
  sentinel : counts shard worker 4 = CHECK_SENTINEL
  complement : counts shard worker 5 = diffs.length ^^^ 0xFFFFFFFF
  rest : ∀ row col : Fin 32, ¬(row = 0 ∧ col < 6) → shard worker (tileIndex row col) &&& 0xFFFFFFFF = 0

/-- The counters are in the first row of the first face. -/
theorem tileIndex_counter (k : Fin 6) (h : k.val < 32) : tileIndex 0 ⟨k, h⟩ = ⟨k, by omega⟩ := by
  refine Fin.ext ?_
  simp only [tileIndex, Fin.val_zero]
  omega

/-- Counters that fit are read back as they are. -/
theorem checkKernel_readBack (hoffset : offset < 2) (hwords : Fits workers pages) (hworkers : 0 < workers)
    {worker : Nat}
    (hfit : (found packed separate columns offset pages workers worker).length < 2 ^ 32) :
    ReadBack (fun worker => checkKernel packed separate worker workers columns pages offset) worker
      (found packed separate columns offset pages workers worker) (strided pages workers worker).length := by
  have hpages := hwords.pages
  obtain ⟨result, h, heq⟩ := checkKernel_logged packed separate columns hoffset hwords hworkers worker
  have hcount : (strided pages workers worker).length < 2 ^ 32 := by
    have hsub : (strided pages workers worker).Subperm (List.range pages) :=
      List.subperm_of_subset ((strided_pairwise hworkers worker).imp Nat.ne_of_lt)
        fun p hp => List.mem_range.mpr ((mem_strided hworkers).mp hp).2.1
    have := hsub.length_le
    rw [List.length_range] at this
    omega
  have hfirst : (firstWords (found packed separate columns offset pages workers worker)).1 < 2 ^ 32 ∧
      (firstWords (found packed separate columns offset pages workers worker)).2 < 2 ^ 32 := by
    unfold firstWords
    cases hhead : (found packed separate columns offset pages workers worker).head? with
    | none => exact ⟨by decide, by decide⟩
    | some d =>
      obtain ⟨page, hpage, hd⟩ := List.mem_flatMap.mp (List.mem_of_mem_head? hhead)
      have hlt := ((mem_strided hworkers).mp hpage).2.1
      obtain ⟨hd₁, hd₂⟩ := mem_pageDiffs hd
      simp only [Option.elim_some]
      omega
  have hzero : result 0 = (found packed separate columns offset pages workers worker).length :=
    h.mismatches.trans (word32_of_lt hfit)
  have hxor : result 0 ^^^ 0xFFFFFFFF < 2 ^ 32 := Nat.xor_lt_two_pow (by rw [hzero]; exact hfit) (by decide)
  have hcounts : ∀ k : Fin 6, k ≠ 5 → result ⟨k, by omega⟩ < 2 ^ 32 →
      counts (fun worker => checkKernel packed separate worker workers columns pages offset) worker k =
        result ⟨k, by omega⟩ := by
    intro k hk hlt
    have hne : (⟨k, by omega⟩ : Fin 1024) ≠ 5 := fun heq => hk (Fin.ext (Fin.mk.inj heq))
    rw [counts, heq, tileIndex_counter, Function.update_of_ne hne, and_mask hlt]
  refine ⟨?_, ?_, ?_, ?_, ?_, ?_, fun row col hout => ?_⟩
  · exact (hcounts 0 (by decide) (hzero ▸ hfit)).trans hzero
  · exact (hcounts 1 (by decide) (h.pages.trans_lt (Nat.mod_lt _ (by decide)))).trans
      (h.pages.trans (word32_of_lt hcount))
  · exact (hcounts 2 (by decide) (h.firstPage ▸ hfirst.1)).trans h.firstPage
  · exact (hcounts 3 (by decide) (h.firstWord ▸ hfirst.2)).trans h.firstWord
  · exact (hcounts 4 (by decide) (h.sentinel.trans_lt (by decide))).trans h.sentinel
  · rw [counts, heq, tileIndex_counter]
    refine (congrArg (· &&& 0xFFFFFFFF) (Function.update_self (5 : Fin 1024) _ result)).trans ?_
    rw [and_mask hxor, hzero]
  · have hlow : 5 < (tileIndex row col).val := by
      have hcell : ¬(row.val = 0 ∧ col.val < 6) := fun hc => hout ⟨Fin.ext hc.1, hc.2⟩
      simp only [tileIndex]
      omega
    have hne : tileIndex row col ≠ 5 := fun hc => by rw [hc] at hlow; exact absurd hlow (by decide)
    have hrest : 4 < tileIndex row col := Fin.lt_def.mpr (by show 4 < (tileIndex row col).val; omega)
    rw [heq, Function.update_of_ne hne, h.rest _ hrest]
    rfl

/-- Counters read back pass their checks. -/
theorem ReadBack.checked {shard : Nat → Words} {worker chip : Nat} {diffs : List (Nat × Nat)}
    (h : ReadBack shard worker diffs (strided pages workers worker).length) :
    checkCounters pages workers chip shard worker = .ok () := by
  have hcoverage : ¬(counts shard worker 1 ≠ (strided pages workers worker).length ∨
      counts shard worker 4 ≠ CHECK_SENTINEL) := by
    rintro (hne | hne)
    · exact hne h.pages
    · exact hne h.sentinel
  show (raiseIf _ _ >>= _) = _
  rw [raiseIf_bind hcoverage]
  refine raiseIf_ok.mpr fun hne => hne ?_
  rw [h.complement, h.mismatches]

/-- The first words read back are those that were found. -/
theorem first_readBack {shard : Nat → Words} {worker count : Nat} {diffs : List (Nat × Nat)}
    (h : ReadBack shard worker diffs count) : (if counts shard worker 2 ≠ 0 then
      some (counts shard worker 2 - 1, counts shard worker 3 - 1) else none) = diffs.head? := by
  rw [h.firstPage, h.firstWord]
  unfold firstWords
  cases diffs.head? with
  | none => rfl
  | some d => exact if_pos (Nat.succ_ne_zero d.1)

/-- **What is read back of a chip**: how many words differ, and the first of them. -/
theorem readShard_eq (hoffset : offset < 2) (hwords : Fits workers pages) (hworkers : 0 < workers) (chip : Nat)
    (hfit : (differing packed separate columns offset (List.range pages)).length < 2 ^ 32) :
    readShard pages workers chip (fun worker => checkKernel packed separate worker workers columns pages offset) =
      .ok { chip := chip, pages := pages,
            mismatchedWords := (differing packed separate columns offset (List.range pages)).length,
            firstPage := (differing packed separate columns offset (List.range pages)).head?.map Prod.fst,
            firstWord := (differing packed separate columns offset (List.range pages)).head?.map Prod.snd,
            exact := decide ((differing packed separate columns offset (List.range pages)).length = 0) } := by
  have hperm := found_perm packed separate columns offset pages hworkers
  have hread : ∀ worker ∈ List.range workers, ReadBack
      (fun worker => checkKernel packed separate worker workers columns pages offset) worker
      (found packed separate columns offset pages workers worker) (strided pages workers worker).length :=
    fun worker hworker => by
      refine checkKernel_readBack hoffset hwords hworkers (lt_of_le_of_lt ?_ hfit)
      rw [← hperm.length_eq]
      exact (List.sublist_flatten_of_mem (List.mem_map_of_mem hworker)).length_le
  have hmismatches : ((List.range workers).map fun w =>
      counts (fun worker => checkKernel packed separate worker workers columns pages offset) w 0).sum =
        (differing packed separate columns offset (List.range pages)).length := by
    rw [← hperm.length_eq, List.length_flatMap]
    exact congrArg List.sum (List.map_congr_left fun w hw => (hread w hw).mismatches)
  have hcovered : ((List.range workers).map fun w =>
      counts (fun worker => checkKernel packed separate worker workers columns pages offset) w 1).sum = pages := by
    have hlength := (strided_perm pages hworkers).length_eq
    rw [List.length_flatMap, List.length_range] at hlength
    exact (congrArg List.sum (List.map_congr_left fun w hw => (hread w hw).pages)).trans hlength
  have hfirsts : firsts (fun worker => checkKernel packed separate worker workers columns pages offset) workers =
      (List.range workers).filterMap fun worker => (found packed separate columns offset pages workers worker).head? :=
    List.filterMap_congr fun w hw => first_readBack (hread w hw)
  have hchecks : (List.range workers).mapM (checkCounters pages workers chip
      fun worker => checkKernel packed separate worker workers columns pages offset) = .ok _ :=
    mapM_eq_ok (g := fun _ => ()) fun worker hworker => (hread worker hworker).checked
  have hcanary : ¬∃ worker ∈ List.range workers, ∃ row col : Fin 32, ¬(row = 0 ∧ col < 6) ∧
      checkKernel packed separate worker workers columns pages offset (tileIndex row col) &&& 0xFFFFFFFF ≠ 0 := by
    rintro ⟨worker, hworker, row, col, hout, hne⟩
    exact hne ((hread worker hworker).rest row col hout)
  unfold readShard
  rw [hchecks]
  show (raiseIf _ _ >>= _) = _
  rw [raiseIf_bind hcanary]
  simp only [hmismatches, hcovered, hfirsts, min_firsts hworkers]
  rfl

end

/-! ## The audit -/

/-- The pages of a tensor on a chip. -/
def Tensor.shard (t : Tensor) (chip : Nat) : Nat → Page := t.shards.getD chip fun _ _ => 0

/-- How many chips there are. -/
def Mesh.chips (mesh : Mesh) : Nat := mesh.rows * mesh.cols

/-- What `check_pairs` requires of its tensors; their page ids are words of 32 bits. -/
structure Comparable (mesh : Mesh) (packed separate : Tensor) (kTiles columns pairs : Nat) : Prop where
  plain : packed.plainDramBf4 = true ∧ separate.plainDramBf4 = true
  geometry : geometry separate.shape (some packed.shape) = .ok (kTiles, columns, pairs)
  shards : packed.shards.length = mesh.chips ∧ separate.shards.length = mesh.chips
  pages : 2 * pairs < 2 ^ 32

/-- What it requires of the grid: the comparison's workers fit, in rows of at most its width. -/
def Room (mesh : Mesh) (pairs : Nat) : Prop :=
  (min CHECK_MAX_WORKERS pairs + min mesh.gridX (min CHECK_MAX_WORKERS pairs) - 1) /
    min mesh.gridX (min CHECK_MAX_WORKERS pairs) ≤ mesh.gridY

instance (mesh : Mesh) (pairs : Nat) : Decidable (Room mesh pairs) := inferInstanceAs (Decidable (_ ≤ _))

/-- The words of a projection that differ on a chip, page by page. -/
def differs (packed separate : Tensor) (columns offset pairs chip : Nat) : List (Nat × Nat) :=
  differing (packed.shard chip) (separate.shard chip) columns offset (List.range pairs)

/-- What the comparison of a projection says of a chip. -/
def checkOf (packed separate : Tensor) (columns offset pairs chip : Nat) : Check :=
  { chip := chip, pages := pairs, mismatchedWords := (differs packed separate columns offset pairs chip).length,
    firstPage := (differs packed separate columns offset pairs chip).head?.map Prod.fst,
    firstWord := (differs packed separate columns offset pairs chip).head?.map Prod.snd,
    exact := decide ((differs packed separate columns offset pairs chip).length = 0) }

section

variable {mesh : Mesh} {packed separate : Tensor} {kTiles columns pairs offset : Nat}

/-- A comparison whose workers exceed the grid is refused. -/
theorem checkPairs_refused (h : Comparable mesh packed separate kTiles columns pairs) (hroom : ¬Room mesh pairs) :
    checkPairs mesh packed separate offset = .error (.valueError "the comparison workers exceed the grid") := by
  obtain ⟨hk, hc, hpairs⟩ := geometry_ok h.geometry
  have hplain : ¬(packed.plainDramBf4 = false ∨ separate.plainDramBf4 = false) := by simp [h.plain]
  have hpos : ¬pairs = 0 := by rw [hpairs]; exact Nat.mul_ne_zero (by omega) (by omega)
  unfold checkPairs checkGeometry
  rw [raiseIf_bind hplain, h.geometry]
  show (raiseIf _ _ >>= _) >>= _ = _
  rw [raiseIf_bind hpos]
  show (raiseIf _ _ >>= _) = _
  rw [raiseIf, if_pos (Nat.not_le.mp hroom)]
  rfl

/-- The comparison runs on every chip. -/
theorem checkPairs_eq (h : Comparable mesh packed separate kTiles columns pairs) (hroom : Room mesh pairs) :
    checkPairs mesh packed separate offset = .ok ((List.range mesh.chips).map fun chip worker =>
      checkKernel (packed.shard chip)
        (separate.shard chip) worker (min CHECK_MAX_WORKERS pairs) columns pairs offset) := by
  obtain ⟨hk, hc, hpairs⟩ := geometry_ok h.geometry
  have hplain : ¬(packed.plainDramBf4 = false ∨ separate.plainDramBf4 = false) := by simp [h.plain]
  have hpos : ¬pairs = 0 := by rw [hpairs]; exact Nat.mul_ne_zero (by omega) (by omega)
  have hshards : ¬(packed.shards.length ≠ mesh.rows * mesh.cols ∨ separate.shards.length ≠ mesh.rows * mesh.cols) := by
    rintro (hne | hne)
    · exact hne h.shards.1
    · exact hne h.shards.2
  unfold checkPairs checkGeometry
  rw [raiseIf_bind hplain, h.geometry]
  show (raiseIf _ _ >>= _) >>= _ = _
  rw [raiseIf_bind hpos]
  show (raiseIf _ _ >>= _) = _
  rw [raiseIf_bind (Nat.not_lt.mpr hroom), raiseIf_bind hshards]
  refine congrArg Except.ok (List.ext_getElem (by simp [h.shards]) fun chip h₁ h₂ => ?_)
  have hp : chip < packed.shards.length := by
    rw [h.shards.1]
    simpa using h₂
  have hs : chip < separate.shards.length := by
    rw [h.shards.2]
    simpa using h₂
  simp [Tensor.shard, List.getD_eq_getElem?_getD, hp, hs]

/-- **The comparison of a projection**, read back. -/
theorem readCheck_eq (h : Comparable mesh packed separate kTiles columns pairs) (hroom : Room mesh pairs)
    (hoffset : offset < 2)
    (hfit : ∀ chip < mesh.chips, (differs packed separate columns offset pairs chip).length < 2 ^ 32) :
    (checkPairs mesh packed separate offset >>= fun result => readCheck result pairs) =
      .ok ((List.range mesh.chips).map (checkOf packed separate columns offset pairs)) := by
  obtain ⟨hk, hc, hpairs⟩ := geometry_ok h.geometry
  have hpos : ¬pairs = 0 := by rw [hpairs]; exact Nat.mul_ne_zero (by omega) (by omega)
  have hworkers : 0 < min CHECK_MAX_WORKERS pairs := by
    simp only [CHECK_MAX_WORKERS]
    omega
  have hwords : Fits (min CHECK_MAX_WORKERS pairs) pairs := ⟨h.pages, by have := h.pages; omega⟩
  rw [checkPairs_eq h hroom]
  show readCheck _ pairs = _
  unfold readCheck checkGeometry
  rw [raiseIf_bind hpos]
  have hzip : ∀ f : Nat → Nat → Words, ((List.range mesh.chips).map f).zipIdx =
      (List.range mesh.chips).map fun chip => (f chip, chip) := fun f =>
    List.ext_getElem (by simp) (by simp)
  show List.mapM _ _ = _
  rw [hzip]
  refine (mapM_eq_ok (g := fun e => checkOf packed separate columns offset pairs e.2) fun e he => ?_).trans ?_
  · obtain ⟨chip, hchip, rfl⟩ := List.mem_map.mp he
    exact readShard_eq hoffset hwords hworkers chip (hfit chip (List.mem_range.mp hchip))
  · rw [List.map_map]
    rfl

end

/-! ## The whole -/

/-- A page of the interleave: the page of `w1` or `w3` that `separatePage` names. -/
def interleaved (w1 w3 : Tensor) (columns chip page : Nat) : Page :=
  (if (separatePage page columns).1 = 0 then w1 else w3).shard chip (separatePage page columns).2

/-- What a check says: how many words differ, and the least page that does with its first word. -/
structure Tells (check : Check) (packed separate : Tensor) (columns offset pairs chip : Nat) : Prop where
  ofChip : check.chip = chip
  covers : check.pages = pairs
  mismatched : check.mismatchedWords = ((List.range pairs).map fun page => ((List.finRange 144).filter fun word =>
    packed.shard chip (pairPage columns page + offset) word ≠ separate.shard chip page word).length).sum
  paired : check.firstPage = none ↔ check.firstWord = none
  none : (check.firstPage = none ∧ check.firstWord = none) ↔ ∀ page < pairs,
    packed.shard chip (pairPage columns page + offset) = separate.shard chip page
  some : ∀ page word, check.firstPage = some page → check.firstWord = some word →
    (page < pairs ∧ ∃ h : word < 144, packed.shard chip (pairPage columns page + offset) ⟨word, h⟩ ≠
      separate.shard chip page ⟨word, h⟩) ∧
    (∀ page' < page, packed.shard chip (pairPage columns page' + offset) = separate.shard chip page') ∧
    ∀ word' : Fin 144, word' < word →
      packed.shard chip (pairPage columns page + offset) word' = separate.shard chip page word'

/-- What the audit reports: it is exact exactly when every word of every chip is the interleave's; and each entry tells
what differs. -/
structure Audited (mesh : Mesh) (packed w1 w3 : Tensor) (columns pairs : Nat) (report : Report) : Prop where
  exact : report.exact = true ↔ ∀ chip < mesh.chips, ∀ page < 2 * pairs,
    packed.shard chip page = interleaved w1 w3 columns chip page
  gate : report.gate.length = mesh.chips ∧
    ∀ chip check, report.gate[chip]? = some check → Tells check packed w1 columns 0 pairs chip
  up : report.up.length = mesh.chips ∧
    ∀ chip check, report.up[chip]? = some check → Tells check packed w3 columns 1 pairs chip

section

variable {packed separate : Tensor} {columns offset pairs chip : Nat}

theorem mem_differs {d : Nat × Nat} : d ∈ differs packed separate columns offset pairs chip ↔ d.1 < pairs ∧
    ∃ h : d.2 < 144, packed.shard chip (pairPage columns d.1 + offset) ⟨d.2, h⟩ ≠ separate.shard chip d.1 ⟨d.2, h⟩ := by
  obtain ⟨page, word⟩ := d
  simp only [differs, differing, List.mem_flatMap, List.mem_range, pageDiffs, List.mem_map, List.mem_filter,
    List.mem_finRange, true_and, decide_eq_true_eq, Prod.mk.injEq]
  constructor
  · rintro ⟨page, hpage, word, hne, rfl, rfl⟩
    exact ⟨hpage, word.isLt, hne⟩
  · rintro ⟨hpage, hword, hne⟩
    exact ⟨page, hpage, ⟨word, hword⟩, hne, rfl, rfl⟩

/-- Nothing differs exactly when all pages are the same. -/
theorem differs_nil : differs packed separate columns offset pairs chip = [] ↔ ∀ page < pairs,
    packed.shard chip (pairPage columns page + offset) = separate.shard chip page := by
  rw [List.eq_nil_iff_forall_not_mem]
  constructor
  · intro h page hpage
    funext word
    by_contra hne
    exact h (page, word) (mem_differs.mpr ⟨hpage, word.isLt, hne⟩)
  · intro h d hd
    obtain ⟨hpage, hword, hne⟩ := mem_differs.mp hd
    exact hne (congrFun (h d.1 hpage) _)

/-- No more words differ than there are. -/
theorem differs_length_le : (differs packed separate columns offset pairs chip).length ≤ 144 * pairs := by
  have hpage : ∀ x ∈ (List.range pairs).map fun page =>
      (pageDiffs (packed.shard chip) (separate.shard chip) columns offset page).length, x ≤ 144 := by
    intro x hx
    obtain ⟨page, -, rfl⟩ := List.mem_map.mp hx
    rw [pageDiffs, List.length_map]
    exact (List.length_filter_le _ _).trans_eq List.length_finRange
  rw [differs, differing, List.length_flatMap]
  have hsum := List.sum_le_card_nsmul _ 144 hpage
  rw [List.length_map, List.length_range] at hsum
  exact hsum.trans_eq (Nat.mul_comm pairs 144)

/-- The comparison tells what differs. -/
theorem checkOf_tells :
    Tells (checkOf packed separate columns offset pairs chip) packed separate columns offset pairs chip where
  ofChip := rfl
  covers := rfl
  mismatched := by
    simp only [checkOf, differs, differing, List.length_flatMap, pageDiffs, List.length_map]
  none := by
    rw [← differs_nil]
    simp only [checkOf, Option.map_eq_none_iff, List.head?_eq_none_iff, and_self]
  paired := by simp only [checkOf, Option.map_eq_none_iff]
  some page word hpage hword := by
    obtain ⟨d, hd, rfl⟩ := Option.map_eq_some_iff.mp hpage
    obtain ⟨d', hd', rfl⟩ := Option.map_eq_some_iff.mp hword
    cases Option.some.inj (hd.symm.trans hd')
    have hleast := head_le (differing_sorted List.pairwise_lt_range) hd
    obtain ⟨hlt, hword, hne⟩ := mem_differs.mp (List.mem_of_mem_head? hd)
    refine ⟨⟨hlt, hword, hne⟩, fun page' hpage' => ?_, fun word' hword' => ?_⟩
    · funext word'
      by_contra hne'
      have := hleast (page', word') (mem_differs.mpr ⟨Nat.lt_trans hpage' hlt, word'.isLt, hne'⟩)
      rw [Prod.Lex.toLex_le_toLex] at this
      omega
    · by_contra hne'
      have := hleast (d.1, word') (mem_differs.mpr ⟨hlt, word'.isLt, hne'⟩)
      rw [Prod.Lex.toLex_le_toLex] at this
      omega

end

/-- The audit is exact exactly when nothing differs. -/
theorem interleaved_iff {packed w1 w3 : Tensor} {kTiles columns pairs chip : Nat} (hc : 0 < columns)
    (hpairs : pairs = kTiles * columns) :
    (∀ page < 2 * pairs, packed.shard chip page = interleaved w1 w3 columns chip page) ↔
      differs packed w1 columns 0 pairs chip = [] ∧ differs packed w3 columns 1 pairs chip = [] := by
  rw [differs_nil, differs_nil]
  constructor
  · intro h
    have hpair : ∀ offset < 2, ∀ pair < pairs, packed.shard chip (pairPage columns pair + offset) =
        (if offset = 0 then w1 else w3).shard chip pair := fun offset ho pair hpair => by
      have hback := separatePage_pairPage hc pair ho
      have hlt : pairPage columns pair + offset < 2 * pairs := by
        rw [hpairs, ← separatePage_pair_lt hc, hback, ← hpairs]
        exact hpair
      rw [h _ hlt, interleaved, hback]
    exact ⟨fun pair hlt => hpair 0 (by decide) pair hlt, fun pair hlt => hpair 1 (by decide) pair hlt⟩
  · rintro ⟨hgate, hup⟩ page hpage
    have hback := pairPage_separatePage hc page
    have hpair : (separatePage page columns).2 < pairs := by
      rw [hpairs] at hpage ⊢
      exact (separatePage_pair_lt hc page kTiles).mpr hpage
    have ho := separatePage_lt page columns
    rw [interleaved]
    obtain hzero | hone : (separatePage page columns).1 = 0 ∨ (separatePage page columns).1 = 1 := by omega
    · rw [hzero] at hback
      rw [if_pos hzero, ← hgate _ hpair, hback]
    · rw [hone] at hback
      rw [if_neg (by omega), ← hup _ hpair, hback]

/-- The report of an audit. -/
def reportOf (mesh : Mesh) (packed w1 w3 : Tensor) (columns pairs : Nat) : Report :=
  let gate := (List.range mesh.chips).map (checkOf packed w1 columns 0 pairs)
  let up := (List.range mesh.chips).map (checkOf packed w3 columns 1 pairs)
  { pages := pairs, gate := gate, up := up, mismatchedWords := ((gate ++ up).map Check.mismatchedWords).sum,
    exact := !(gate ++ up).isEmpty && (gate ++ up).all Check.exact }

/-- The audit reports. -/
theorem auditPairs_eq {mesh : Mesh} {packed w1 w3 : Tensor} {kTiles columns pairs : Nat} (hroom : Room mesh pairs)
    (hgate : Comparable mesh packed w1 kTiles columns pairs) (hup : Comparable mesh packed w3 kTiles columns pairs)
    (hgateFit : ∀ chip < mesh.chips, (differs packed w1 columns 0 pairs chip).length < 2 ^ 32)
    (hupFit : ∀ chip < mesh.chips, (differs packed w3 columns 1 pairs chip).length < 2 ^ 32) :
    auditPairs mesh packed w1 w3 = .ok (reportOf mesh packed w1 w3 columns pairs) := by
  unfold auditPairs
  rw [hgate.geometry]
  show (checkPairs mesh packed w1 0 >>= fun result => readCheck result pairs) >>= _ = _
  rw [readCheck_eq hgate hroom (by decide) hgateFit]
  show (checkPairs mesh packed w3 1 >>= fun result => readCheck result pairs) >>= _ = _
  rw [readCheck_eq hup hroom (by decide) hupFit]
  rfl

/-- An audit whose workers exceed the grid is refused. -/
theorem auditPairs_refused {mesh : Mesh} {packed w1 w3 : Tensor} {kTiles columns pairs : Nat} (hroom : ¬Room mesh pairs)
    (hgate : Comparable mesh packed w1 kTiles columns pairs) :
    auditPairs mesh packed w1 w3 = .error (.valueError "the comparison workers exceed the grid") := by
  unfold auditPairs
  rw [hgate.geometry]
  show (checkPairs mesh packed w1 0 >>= fun result => readCheck result pairs) >>= _ = _
  rw [checkPairs_refused hgate hroom]
  rfl

/-- The entries of a comparison tell what differs, chip by chip. -/
theorem checks_tell (packed separate : Tensor) (columns offset pairs chips : Nat) :
    ((List.range chips).map (checkOf packed separate columns offset pairs)).length = chips ∧
      ∀ chip check, ((List.range chips).map (checkOf packed separate columns offset pairs))[chip]? = some check →
        Tells check packed separate columns offset pairs chip := by
  refine ⟨by simp, fun chip check hcheck => ?_⟩
  rw [List.getElem?_map] at hcheck
  obtain ⟨chip', hchip, rfl⟩ := Option.map_eq_some_iff.mp hcheck
  obtain ⟨_, rfl⟩ := List.getElem?_eq_some_iff.mp hchip
  rw [List.getElem_range]
  exact checkOf_tells

/-- **The audit is sound and complete**, and tells what differs. -/
theorem reportOf_audited (mesh : Mesh) (packed w1 w3 : Tensor) {kTiles columns pairs : Nat} (hc : 0 < columns)
    (hpairs : pairs = kTiles * columns) :
    Audited mesh packed w1 w3 columns pairs (reportOf mesh packed w1 w3 columns pairs) where
  exact := by
    have hchips : 0 < mesh.chips := Nat.mul_pos mesh.rows_pos mesh.cols_pos
    have hsome : (List.range mesh.chips).map (checkOf packed w1 columns 0 pairs) ≠ [] := by
      simp only [ne_eq, List.map_eq_nil_iff, List.range_eq_nil]
      omega
    have hexact : ∀ (separate : Tensor) (offset : Nat),
        ((List.range mesh.chips).map (checkOf packed separate columns offset pairs)).all Check.exact = true ↔
          ∀ chip < mesh.chips, differs packed separate columns offset pairs chip = [] := fun separate offset => by
      simp only [List.all_map, List.all_eq_true, List.mem_range, Function.comp_apply, checkOf, decide_eq_true_eq,
        List.length_eq_zero_iff]
    simp only [interleaved_iff hc hpairs, reportOf, List.all_append, Bool.and_eq_true, hexact, Bool.not_eq_true',
      List.isEmpty_eq_false_iff, ne_eq, List.append_eq_nil_iff, hsome, false_and, not_false_eq_true, true_and]
    exact ⟨fun h chip hchip => ⟨h.1 chip hchip, h.2 chip hchip⟩,
      fun h => ⟨fun chip hchip => (h chip hchip).1, fun chip hchip => (h chip hchip).2⟩⟩
  gate := checks_tell packed w1 columns 0 pairs mesh.chips
  up := checks_tell packed w3 columns 1 pairs mesh.chips

/-- **The gate/up repack is an exact interleave, and its audit is sound and complete.** For every shape that `geometry`
accepts, every grid and every batch: the index maps are inverse to each other, the workers' ranges partition the pairs,
and while no 32-bit word wraps the workers rebuild the interleave whatever the tensors held and whatever their schedule;
and the audit of any packed contents is exact exactly when they are the interleave, as long as fewer than 2^32 words of
a projection differ, on a grid that holds its workers, and is refused on any other. -/
theorem gateUp_pack_exact {separateShape packedShape : List Int} {kTiles columns pairs : Nat}
    (hgeometry : geometry separateShape (some packedShape) = .ok (kTiles, columns, pairs)) {gridX gridY batch : Nat}
    (hx : 0 < gridX) (hy : 0 < gridY) (hbatch : 1 ≤ batch) :
    IndexMaps columns pairs ∧
    (∃ layout, workerLayout gridX gridY pairs = .ok layout ∧ Partition gridX gridY pairs layout ∧
      (Fits batch pairs → ∀ m : Cell → Page, Rebuilds columns batch pairs layout m)) ∧
    ∀ (mesh : Mesh) (packed w1 w3 : Tensor), Comparable mesh packed w1 kTiles columns pairs →
      Comparable mesh packed w3 kTiles columns pairs →
      (∀ chip < mesh.chips, (differs packed w1 columns 0 pairs chip).length < 2 ^ 32 ∧
        (differs packed w3 columns 1 pairs chip).length < 2 ^ 32) →
      (Room mesh pairs →
        ∃ report, auditPairs mesh packed w1 w3 = .ok report ∧ Audited mesh packed w1 w3 columns pairs report) ∧
      (¬Room mesh pairs →
        auditPairs mesh packed w1 w3 = .error (.valueError "the comparison workers exceed the grid")) := by
  obtain ⟨-, hc, hpairs⟩ := geometry_ok hgeometry
  subst hpairs
  obtain ⟨layout, hlayout, hpartition⟩ := workerLayout_partition (kTiles * columns) hx hy
  refine ⟨.holds hc, ⟨layout, hlayout, hpartition, fun hfit => rebuilds hfit hbatch hc hpartition⟩,
    fun mesh packed w1 w3 hgate hup hdiffers => ⟨fun hroom => ?_, fun hroom => auditPairs_refused hroom hgate⟩⟩
  exact ⟨_, auditPairs_eq hroom hgate hup (fun chip hchip => (hdiffers chip hchip).1)
    fun chip hchip => (hdiffers chip hchip).2, reportOf_audited mesh packed w1 w3 hc rfl⟩

/-- A mesh of one chip with a grid of this size. -/
def oneChip (side : Nat) (h : 0 < side) : Mesh := ⟨1, 1, side, side, by decide, by decide, h, h⟩

/-- A tensor of one chip. -/
def oneShard (shape : List Int) (page : Nat → Page) : Tensor := ⟨shape, true, [page]⟩

/-- **Two things that are not so.** On a grid that is too small for the comparison's workers the audit says nothing: two
pairs, packed as their interleave, on one core. And page ids are words: of 2^32 pairs the packed page 2^32 is left as it
was. -/
theorem repack_disagrees :
    ((∀ page < 4, (oneShard [32, 128] fun page _ => .ofNat page).shard 0 page =
      interleaved (oneShard [32, 64] fun page _ => .ofNat (2 * page))
        (oneShard [32, 64] fun page _ => .ofNat (2 * page + 1)) 2 0 page) ∧
    auditPairs (oneChip 1 (by decide)) (oneShard [32, 128] fun page _ => .ofNat page)
        (oneShard [32, 64] fun page _ => .ofNat (2 * page)) (oneShard [32, 64] fun page _ => .ofNat (2 * page + 1)) =
      .error (.valueError "the comparison workers exceed the grid")) ∧
    geometry [2097152, 2097152] (some [2097152, 4194304]) = .ok (65536, 65536, 2 ^ 32) ∧
    ∃ layout ls s, workerLayout 1 1 (2 ^ 32) = .ok layout ∧
      Run (Steps step) (initial (programs 65536 1 layout) Empty.elim fun c _ =>
        if c = .packed (2 ^ 32) then .ofNat 1 else .ofNat 0) ls s ∧ s.Ended ∧
      s.mem (.packed (2 ^ 32)) = (fun _ => .ofNat 1) ∧
      s.mem (weight (separatePage (2 ^ 32) 65536).1 (separatePage (2 ^ 32) 65536).2) = fun _ => .ofNat 0 := by
  refine ⟨⟨fun page hpage => ?_, rfl⟩, by decide, ?_⟩
  · obtain rfl | rfl | rfl | rfl : page = 0 ∨ page = 1 ∨ page = 2 ∨ page = 3 := by omega
    all_goals rfl
  · obtain ⟨layout, hlayout, hpartition⟩ := workerLayout_partition (2 ^ 32) Nat.one_pos Nat.one_pos
    obtain ⟨ls, s, hrun, hend, hpage, hweight⟩ := wide_page_unwritten hpartition.once 65536 1 (Nat.le_refl (2 ^ 32))
      fun c _ => if c = .packed (2 ^ 32) then .ofNat 1 else .ofNat 0
    refine ⟨layout, ls, s, hlayout, hrun, hend, hpage.trans (funext fun _ => if_pos rfl), ?_⟩
    exact (hweight _ _).trans (funext fun _ => if_neg (packed_ne_weight _ _ _).symm)

/-- The pages of the sample's gate and up projections, 16 by 24 tiles. -/
def sampleGate : Tensor := oneShard [512, 768] fun page _ => .ofNat (2 * page)
def sampleUp : Tensor := oneShard [512, 768] fun page _ => .ofNat (2 * page + 1)

/-- Their interleave, but for one word of the up projection's page 3. -/
def samplePacked : Tensor :=
  oneShard [512, 1536] fun page word => if page = 7 ∧ word = 5 then 0 else .ofNat page

theorem sample_differs {page : Nat} {word : Fin 144} : samplePacked.shard 0 (pairPage 24 page + 1) word ≠
    sampleUp.shard 0 page word ↔ page = 3 ∧ word = 5 := by
  show (if pairPage 24 page + 1 = 7 ∧ word = 5 then 0 else UInt32.ofNat (pairPage 24 page + 1)) ≠
    UInt32.ofNat (2 * page + 1) ↔ _
  rw [pairPage_double]
  split_ifs with hseven
  · obtain rfl : page = 3 := by omega
    exact ⟨fun _ => ⟨rfl, hseven.2⟩, fun _ => by decide⟩
  · refine ⟨fun hne => absurd rfl hne, fun hword => absurd ⟨by omega, hword.2⟩ hseven⟩

/-- 384 pairs on 128 workers, three each, by two: the last batch is a tail. The audit finds the word. -/
theorem gateUp_pack_exact_sample :
    (∃ layout, workerLayout 8 8 384 = .ok layout ∧ layout[0]? = some (⟨(0, 0), 0⟩, (0, 3)) ∧
      Partition 8 8 384 layout ∧ ∀ m : Cell → Page, Rebuilds 24 2 384 layout m) ∧
    ∃ report, auditPairs (oneChip 8 (by decide)) samplePacked sampleGate sampleUp = .ok report ∧
      Audited (oneChip 8 (by decide)) samplePacked sampleGate sampleUp 24 384 report ∧ report.exact = false ∧
      ∀ check, report.up[0]? = some check →
        check.mismatchedWords = 1 ∧ check.firstPage = some 3 ∧ check.firstWord = some 5 := by
  have hgeometry : geometry [512, 768] (some [512, 1536]) = .ok (16, 24, 384) := rfl
  obtain ⟨-, ⟨layout, hlayout, hpartition, hrebuilds⟩, haudit⟩ :=
    @gateUp_pack_exact [512, 768] [512, 1536] 16 24 384 hgeometry 8 8 2 (by decide) (by decide) (by decide)
  have hcomparable : ∀ page, Comparable (oneChip 8 (by decide)) samplePacked (oneShard [512, 768] page) 16 24 384 :=
    fun page => ⟨⟨rfl, rfl⟩, rfl, ⟨rfl, rfl⟩, by decide⟩
  obtain ⟨report, hreport, haudited⟩ := (haudit (oneChip 8 (by decide)) samplePacked sampleGate sampleUp
    (hcomparable _) (hcomparable _) fun chip _ => ⟨lt_of_le_of_lt differs_length_le (by decide),
      lt_of_le_of_lt differs_length_le (by decide)⟩).1 (by decide)
  have hseven : samplePacked.shard 0 7 ≠ interleaved sampleGate sampleUp 24 0 7 := fun heq =>
    absurd (congrFun heq 5) (by decide)
  refine ⟨⟨layout, hlayout, ?_, hpartition, hrebuilds ⟨by decide, by decide⟩⟩, report, hreport, haudited, ?_,
    fun check hcheck => ?_⟩
  · have hfirst : (workerLayout 8 8 384).map (fun layout => layout[0]?) = .ok (some (⟨(0, 0), 0⟩, (0, 3))) := by
      decide +kernel
    rw [hlayout] at hfirst
    exact Except.ok.inj hfirst
  · rw [Bool.eq_false_iff]
    exact fun hexact => hseven (haudited.exact.mp hexact 0 (by decide) 7 (by decide))
  · have htells := haudited.up.2 0 check hcheck
    have hcount : ∀ page ∈ List.range 384, ((List.finRange 144).filter fun word =>
        samplePacked.shard 0 (pairPage 24 page + 1) word ≠ sampleUp.shard 0 page word).length =
          if page = 3 then 1 else 0 := by
      intro page _
      simp only [sample_differs]
      split_ifs with hthree
      · simp only [hthree, true_and]
        decide +kernel
      · simp [hthree]
    refine ⟨htells.mismatched.trans ?_, ?_⟩
    · rw [List.map_congr_left hcount]
      decide +kernel
    cases hpage : check.firstPage with
    | none =>
      have hall := htells.none.mp ⟨hpage, htells.paired.mp hpage⟩ 3 (by decide)
      exact absurd (congrFun hall 5) (sample_differs.mpr ⟨rfl, rfl⟩)
    | some page =>
      cases hword : check.firstWord with
      | none => rw [htells.paired.mpr hword] at hpage; cases hpage
      | some word =>
        obtain ⟨⟨hlt, hword', hne⟩, -, -⟩ := htells.some page word hpage hword
        obtain ⟨rfl, hfive⟩ := sample_differs.mp hne
        exact ⟨rfl, congrArg some (Fin.mk.inj hfive)⟩

end BlackholeQwen.Mlp
