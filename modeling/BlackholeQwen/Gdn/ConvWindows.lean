import BlackholeQwen.Lib.Call
import BlackholeQwen.Lib.Indices
import BlackholeQwen.Lib.Interleave
import BlackholeQwen.Lib.Writes
import Mathlib.Order.Monotone.Basic

/-!
# The packed convolution windows (`scripts/ci/gdn_conv_windows_packed.py`, `scripts/ci/gdn_conv_windows_packed.cpp`)

One launch builds the four causal-convolution windows of every packed user. The trimmed kernel runs a reader and a
writer on each core, joined by a ring of two groups of five pages; the port and the served kernel
(`gdn_conv_windows.cpp`) run one program on each core. A page is 1024 half-words in face order, and every half-word is
moved by a transfer of its own.

`references_agree`: up to sixteen rows, and no further, the host's references say what the served kernel builds.
-/

namespace BlackholeQwen.Gdn.ConvWindows

open Lib Lib.Movers

/-! ## The plan -/

/-- Channel pages of a window. -/
abbrev PAGES : Nat := 160

/-- Rows of a window. -/
abbrev ROWS : Nat := 16

/-- Windows of a user. -/
abbrev SLOTS : Nat := 4

/-- Histories of a user. -/
abbrev HISTORY : Nat := 4

/-- Pages that a task reads. -/
abbrev TILES_IN : Nat := 1 + HISTORY

/-- Tasks that the input ring holds. -/
abbrev NBUF_IN : Nat := 2

/-- Half-words of a page. -/
abbrev PAGE : Nat := 1024

/-- Half-words of a face. -/
abbrev FACE : Nat := 256

/-- Half-words of a row of a face. -/
abbrev ROW : Nat := 16

/-- `plan`: the tasks, and the range (start, count) of every core. -/
def plan (users cores : Nat) : Except PyError (Nat × List (Nat × Nat)) := do
  raiseIf (users < 1 ∨ cores < 1) (.valueError "positive users and cores required")
  let tasks := users * PAGES
  let base := tasks / cores
  let extra := tasks % cores
  let dealt := (List.range cores).foldl (fun (acc : List (Nat × Nat) × Nat) worker =>
    let count := base + if worker < extra then 1 else 0
    (acc.1 ++ [(acc.2, count)], acc.2 + count)) ([], 0)
  pure (tasks, dealt.1)

/-- `common_args`: the addresses of the pieces, then of the histories, then of the outputs, user by user. -/
def commonArgs (pieces : List Nat) (histories outputs : List (List Nat)) : Except PyError (List Nat) := do
  raiseIf (pieces.length < 1 ∨ histories.length ≠ pieces.length ∨ outputs.length ≠ pieces.length ∨
      (∃ row ∈ histories, row.length ≠ HISTORY) ∨ ∃ row ∈ outputs, row.length ≠ SLOTS)
    (.valueError "one piece, four histories and four outputs per user required")
  pure (pieces ++ histories.flatten ++ outputs.flatten)

/-- `check_aliases`: a user's nine addresses are distinct, and the outputs of all users are distinct and no inputs. -/
def checkAliases (pieces : List Nat) (histories outputs : List (List Nat)) : Except PyError Unit := do
  let message := "Immutable input and mutable windows must not alias"
  (pieces.zip (histories.zip outputs)).forM fun user =>
    raiseIf (¬(user.1 :: (user.2.1 ++ user.2.2)).Nodup) (.valueError message)
  raiseIf (¬outputs.flatten.Nodup ∨ ∃ value ∈ outputs.flatten, value ∈ pieces ++ histories.flatten)
    (.valueError message)

/-- What a launch chooses: the port, or how much of the histories is read, how windows are copied, and how many sets of
scratch pages there are. -/
structure Settings where
  port : Bool
  histRow : Bool
  copyNoc : Bool
  nbuf : Nat
  one_or_two : nbuf = 1 ∨ nbuf = 2

/-- What a launch on a chip is given: addresses that passed the checks, and the plan. -/
structure Launch where
  pieces : List Nat
  histories : List (List Nat)
  outputs : List (List Nat)
  args : List Nat
  cores : Nat
  tasks : Nat
  ranges : List (Nat × Nat)
  settings : Settings
  aliases : checkAliases pieces histories outputs = .ok ()
  common : commonArgs pieces histories outputs = .ok args
  planned : plan pieces.length cores = .ok (tasks, ranges)

/-! ## The machine -/

/-- Half-words of the pages of a buffer, and of a core's input pages and scratch pages. -/
inductive Cell
  | dram (address page i : Nat)
  | input (core tile i : Nat)
  | scratch (core tile i : Nat)
  deriving DecidableEq, Repr

/-- The data-movement processors of a core: `RISCV_1` and `RISCV_0`. -/
inductive Role
  | reader
  | writer
  deriving DecidableEq, Repr

/-- A program. -/
structure Mover where
  core : Nat
  role : Role
  deriving DecidableEq, Repr

/-- The input ring of a core: its free groups, and its full ones. -/
inductive Ring
  | free (core : Nat)
  | full (core : Nat)
  deriving DecidableEq, Repr

/-- A group of five pages of the input ring. -/
structure Group where
  core : Nat
  half : Nat
  deriving DecidableEq, Repr

/-- An instruction. -/
abbrev WindowInstr : Type := Instr Cell UInt16 Ring Group

/-- A read of `count` half-words from `start` on, to the same place in a page of the core. -/
def readSpan (source destination : Nat → Cell) (start count : Nat) : List (Op Cell) :=
  (List.range' start count).map fun i => ⟨.load, source i, destination i⟩

/-- A write of a page. -/
def writeTile (source destination : Nat → Cell) : List (Op Cell) :=
  (List.range PAGE).map fun i => ⟨.store, source i, destination i⟩

/-- The runtime argument `index`. -/
def arg (args : List Nat) (index : Nat) : Nat := args.getD index 0

/-! ## The reader and the writer -/

/-- The input `tile` of a user: its piece, then its histories. -/
def inputArg (args : List Nat) (users user tile : Nat) : Nat :=
  match tile with
  | 0 => arg args user
  | h + 1 => arg args (users + HISTORY * user + h)

/-- Window `slot` of a user. -/
def outputArg (args : List Nat) (users user slot : Nat) : Nat :=
  arg args (users + HISTORY * users + SLOTS * user + slot)

/-- The reads of a task: the piece, and the histories, whole or only the two spans that the windows use. -/
def taskReads (args : List Nat) (users : Nat) (histRow : Bool) (user p : Nat) (staged : Nat → Nat → Cell) :
    List (Op Cell) :=
  readSpan (.dram (inputArg args users user 0) p) (staged 0) 0 PAGE ++ (List.range HISTORY).flatMap fun h =>
    let source := Cell.dram (inputArg args users user (h + 1)) p
    if histRow then readSpan source (staged (h + 1)) 0 32 ++ readSpan source (staged (h + 1)) FACE 32
    else readSpan source (staged (h + 1)) 0 PAGE

/-- The pages of a group. -/
def stagedAt (core half tile : Nat) : Nat → Cell := .input core (TILES_IN * half + tile)

/-- The reader's task: `l` groups were pushed before. -/
def readerTask (args : List Nat) (users : Nat) (settings : Settings) (core l t : Nat) : List WindowInstr :=
  .acquire (.free core) [⟨core, l % NBUF_IN⟩] ::
    ((taskReads args users settings.histRow (t / PAGES) (t % PAGES) (stagedAt core (l % NBUF_IN))).map .copy ++
      [.settle .load, .release (.full core) [⟨core, l % NBUF_IN⟩]])

/-- `copy_bytes`: half-words of a page of the core to another. -/
def copySpan (source destination : Nat → Cell) (sourceStart start count : Nat) : List (Op Cell) :=
  (List.range count).map fun k => ⟨.load, source (sourceStart + k), destination (start + k)⟩

/-- `build_window`: its copies, one after the other. -/
def buildWindow (staged : Nat → Nat → Cell) (destination : Nat → Cell) (slot : Nat) : List (List (Op Cell)) :=
  (List.range 2).flatMap fun f =>
    ((List.range (HISTORY - slot)).map fun r =>
      copySpan (staged (1 + (r + slot))) destination (f * FACE) (f * FACE + r * ROW) ROW) ++
    [copySpan (staged 0) destination (f * FACE) (f * FACE + (HISTORY - slot) * ROW) ((ROWS - HISTORY + slot) * ROW)]

/-- A copy by words at once, or by transfers. -/
def copyBytes (noc : Bool) (ops : List (Op Cell)) : List WindowInstr :=
  if noc then ops.map .copy else [.compute (moved ops)]

/-- The writes of a task. -/
def taskWrites (args : List Nat) (users user p : Nat) (scratch : Nat → Nat → Cell) : List (Op Cell) :=
  (List.range SLOTS).flatMap fun s => writeTile (scratch s) (.dram (outputArg args users user s) p)

/-- The scratch pages of a set. -/
def scratchAt (core set s : Nat) : Nat → Cell := .scratch core (set * SLOTS + s)

/-- The set that the writer's task `l` uses. -/
def setOf (settings : Settings) (l : Nat) : Nat := if settings.nbuf = 2 then l % 2 else 0

/-- The copies of a task's windows. -/
def taskBuilds (settings : Settings) (core l : Nat) : List WindowInstr :=
  (List.range SLOTS).flatMap fun s =>
    (buildWindow (stagedAt core (l % NBUF_IN)) (scratchAt core (setOf settings l) s) s).flatMap
      (copyBytes settings.copyNoc)

/-- The writer's task: `l` groups were popped before. A flush is a settlement of the writes: they have left the scratch
pages. -/
def writerTask (args : List Nat) (users : Nat) (settings : Settings) (core l t : Nat) : List WindowInstr :=
  (if settings.nbuf = 2 ∧ 2 ≤ l then [.settle .store] else []) ++
  .acquire (.full core) [⟨core, l % NBUF_IN⟩] ::
    (taskBuilds settings core l ++
      ((if settings.copyNoc then [.settle .load] else []) ++
        .release (.free core) [⟨core, l % NBUF_IN⟩] ::
          ((taskWrites args users (t / PAGES) (t % PAGES) (scratchAt core (setOf settings l))).map .copy ++
            if settings.nbuf = 1 then [.settle .store] else [])))

/-- The reader of a core. -/
def reader (args : List Nat) (users : Nat) (settings : Settings) (core start count : Nat) : List WindowInstr :=
  (List.range count).flatMap fun l => readerTask args users settings core l (start + l)

/-- Faces 2 and 3 of every scratch page, zeroed. -/
def zeroed (settings : Settings) (core : Nat) : List WindowInstr :=
  (List.range (SLOTS * settings.nbuf)).map fun index =>
    .compute (filled ((List.range' (2 * FACE) (2 * FACE)).map (.scratch core index)) 0)

/-- The writer of a core. -/
def writer (args : List Nat) (users : Nat) (settings : Settings) (core start count : Nat) : List WindowInstr :=
  zeroed settings core ++ (((List.range count).flatMap fun l => writerTask args users settings core l (start + l)) ++
    [.settle .store])

/-! ## The served kernel and its port -/

/-- The served kernel's copies of a window, row by row. -/
def windowCopies (staged : Nat → Nat → Cell) (scratch : Nat → Cell) (slot rows : Nat) : List (Op Cell) :=
  (List.range rows).flatMap fun token =>
    let index := token + slot
    let sourceRow := if index < HISTORY then 0 else index - HISTORY
    let sourceOffset := sourceRow / 16 * 512 + sourceRow % 16 * 16
    let destinationRow := token / 16 * 512 + token % 16 * 16
    (List.range 2).flatMap fun f =>
      let tile := if index < HISTORY then index + 1 else 0
      (List.range ROW).map fun k =>
        ⟨.load, staged tile (sourceOffset + f * FACE + k), scratch (destinationRow + f * FACE + k)⟩

/-- `window`: a window built in the zeroed scratch page, and written. -/
def servedWindow (core p rows slot output : Nat) : List WindowInstr :=
  .compute (filled ((List.range PAGE).map (.input core TILES_IN)) 0) ::
    .compute (moved (windowCopies (.input core) (.input core TILES_IN) slot rows)) ::
      ((writeTile (.input core TILES_IN) (.dram output p)).map .copy ++ [.settle .store])

/-- A page of the served kernel: the piece and the histories read, the four windows built and written. -/
def servedTask (input output : Nat → Nat) (rows core p : Nat) : List WindowInstr :=
  ((List.range TILES_IN).flatMap fun tile => readSpan (.dram (input tile) p) (.input core tile) 0 PAGE).map .copy ++
    .settle .load :: (List.range SLOTS).flatMap fun slot => servedWindow core p rows slot (output slot)

/-- `kernel_main` of `gdn_conv_windows.cpp`: its arguments are the piece, the histories and the outputs, and then the
rows and the worker, which takes every 48th page. -/
def served (addresses : List Nat) (rows worker : Nat) : List WindowInstr :=
  (List.range' worker ((PAGES - worker + 47) / 48) 48).flatMap
    (servedTask (arg addresses) (fun slot => arg addresses (TILES_IN + slot)) rows worker)

/-- The port of a core. -/
def port (args : List Nat) (users core start count : Nat) : List WindowInstr :=
  (List.range' start count).flatMap fun t =>
    servedTask (inputArg args users (t / PAGES)) (outputArg args users (t / PAGES)) ROWS core (t % PAGES)

namespace Launch

/-- The users of a launch. -/
def users (launch : Launch) : Nat := launch.pieces.length

/-- What every program of a launch runs. -/
def programs (launch : Launch) (w : Mover) : List WindowInstr :=
  launch.ranges[w.core]?.elim [] fun range => match w.role with
    | .reader => if launch.settings.port then [] else
        reader launch.args launch.users launch.settings w.core range.1 range.2
    | .writer => if launch.settings.port then port launch.args launch.users w.core range.1 range.2 else
        writer launch.args launch.users launch.settings w.core range.1 range.2

/-- The rings at the start: both groups of every core are free. The port has none. -/
def rings (launch : Launch) (ring : Ring) : List Group :=
  match ring with
  | .free core => if launch.settings.port then [] else (List.range NBUF_IN).map fun half => ⟨core, half⟩
  | .full _ => []

end Launch

/-! ## The plan deals out the tasks -/

/-- Where the range of a worker starts. -/
def startOf (tasks cores worker : Nat) : Nat := worker * (tasks / cores) + min worker (tasks % cores)

theorem startOf_succ (tasks cores worker : Nat) : startOf tasks cores (worker + 1) =
    startOf tasks cores worker + (tasks / cores + if worker < tasks % cores then 1 else 0) := by
  unfold startOf
  rw [Nat.succ_mul]
  split_ifs <;> omega

/-- **The plan**, worker by worker. -/
theorem plan_eq {users cores tasks : Nat} {ranges : List (Nat × Nat)} (h : plan users cores = .ok (tasks, ranges)) :
    0 < users ∧ 0 < cores ∧ tasks = users * PAGES ∧ ranges = (List.range cores).map fun worker =>
      (startOf tasks cores worker, startOf tasks cores (worker + 1) - startOf tasks cores worker) := by
  obtain ⟨_, hcheck, h⟩ := bind_ok h
  have hpos := raiseIf_ok.mp hcheck
  cases h
  refine ⟨by omega, by omega, rfl, ?_⟩
  have hfold : ∀ n, ((List.range n).foldl (fun (acc : List (Nat × Nat) × Nat) worker =>
      let count := users * PAGES / cores + if worker < users * PAGES % cores then 1 else 0
      (acc.1 ++ [(acc.2, count)], acc.2 + count)) ([], 0)) =
      ((List.range n).map fun worker => (startOf (users * PAGES) cores worker,
        startOf (users * PAGES) cores (worker + 1) - startOf (users * PAGES) cores worker),
        startOf (users * PAGES) cores n) := by
    intro n
    induction n with
    | zero => simp [startOf]
    | succ n ih =>
      rw [List.range_succ, List.foldl_append, ih, List.map_append]
      simp only [List.foldl_cons, List.foldl_nil, List.map_cons, List.map_nil, startOf_succ, Nat.add_sub_cancel_left]
  exact congrArg Prod.fst (hfold cores)

theorem startOf_mono (tasks cores : Nat) : Monotone (startOf tasks cores) :=
  monotone_nat_of_le_succ fun worker => (startOf_succ tasks cores worker).symm ▸ Nat.le_add_right _ _

/-- The ranges start at no task and end at the last one. -/
theorem startOf_ends {tasks cores : Nat} (hcores : 0 < cores) :
    startOf tasks cores 0 = 0 ∧ startOf tasks cores cores = tasks := by
  have hlt := Nat.mod_lt tasks hcores
  have hdiv := Nat.div_add_mod tasks cores
  unfold startOf
  constructor
  · simp
  · rw [Nat.min_eq_right (Nat.le_of_lt hlt)]
    exact hdiv

/-! ## The addresses -/

namespace Launch

variable (launch : Launch)

theorem args_eq : launch.args = launch.pieces ++ launch.histories.flatten ++ launch.outputs.flatten ∧
    launch.histories.flatten.length = launch.users * HISTORY ∧ launch.outputs.flatten.length = launch.users * SLOTS ∧
    (∀ row ∈ launch.histories, row.length = HISTORY) ∧ ∀ row ∈ launch.outputs, row.length = SLOTS := by
  obtain ⟨_, hcheck, heq⟩ := bind_ok launch.common
  have h := raiseIf_ok.mp hcheck
  simp only [not_or, not_exists, not_and, not_not, not_lt] at h
  obtain ⟨_, hhistories, houtputs, hhistory, houtput⟩ := h
  exact ⟨(Except.ok.inj heq).symm, by rw [Indices.flatten_length hhistory, hhistories, users],
    by rw [Indices.flatten_length houtput, houtputs, users], hhistory, houtput⟩

/-- The inputs: what is not an output. -/
theorem inputArg_mem {user tile : Nat} (hu : user < launch.users) (htile : tile < TILES_IN) :
    inputArg launch.args launch.users user tile ∈ launch.pieces ++ launch.histories.flatten := by
  obtain ⟨hargs, hhistories, -, -, -⟩ := launch.args_eq
  have hlength : launch.pieces.length = launch.users := rfl
  have hindex : ∀ index < launch.users + launch.users * HISTORY,
      arg launch.args index ∈ launch.pieces ++ launch.histories.flatten := fun index hindex => by
    have hlt : index < (launch.pieces ++ launch.histories.flatten).length := by
      rw [List.length_append, hhistories, hlength]
      exact hindex
    rw [arg, hargs, List.getD_eq_getElem?_getD, List.getElem?_append_left hlt, List.getElem?_eq_getElem hlt]
    exact List.getElem_mem hlt
  cases tile with
  | zero => exact hindex user (by omega)
  | succ h =>
    refine hindex _ ?_
    simp only [TILES_IN, HISTORY] at htile ⊢
    omega

/-- An output, among all outputs. -/
theorem outputArg_get {user slot : Nat} (hu : user < launch.users) (hslot : slot < SLOTS) :
    launch.outputs.flatten[SLOTS * user + slot]? = some (outputArg launch.args launch.users user slot) := by
  obtain ⟨hargs, hhistories, houtputs, -, -⟩ := launch.args_eq
  have hlength : (launch.pieces ++ launch.histories.flatten).length = launch.users + HISTORY * launch.users := by
    rw [List.length_append, hhistories, Nat.mul_comm]
    rfl
  have hlt : SLOTS * user + slot < launch.outputs.flatten.length := by
    rw [houtputs]
    simp only [SLOTS] at hslot ⊢
    omega
  rw [outputArg, arg, hargs, List.getD_eq_getElem?_getD, Nat.add_assoc, ← hlength,
    List.getElem?_append_right (Nat.le_add_right _ _), Nat.add_sub_cancel_left, List.getElem?_eq_getElem hlt]
  rfl

/-- **The outputs are all different.** -/
theorem outputArg_inj {user user' slot slot' : Nat} (hu : user < launch.users) (hu' : user' < launch.users)
    (hslot : slot < SLOTS) (hslot' : slot' < SLOTS)
    (heq : outputArg launch.args launch.users user slot = outputArg launch.args launch.users user' slot') :
    user = user' ∧ slot = slot' := by
  obtain ⟨_, _, hcheck⟩ := bind_ok launch.aliases
  have hnodup : launch.outputs.flatten.Nodup := by
    have := raiseIf_ok.mp hcheck
    tauto
  have h := launch.outputArg_get hu hslot
  have hlt : SLOTS * user + slot < launch.outputs.flatten.length := (List.getElem?_eq_some_iff.mp h).1
  have hindex := (List.getElem?_inj hlt hnodup).mp
    (h.trans ((congrArg some heq).trans (launch.outputArg_get hu' hslot').symm))
  simp only [SLOTS] at hslot hslot' hindex
  omega

/-- **No input is an output.** -/
theorem inputArg_ne {user user' tile slot : Nat} (hu : user < launch.users) (htile : tile < TILES_IN)
    (hu' : user' < launch.users) (hslot : slot < SLOTS) :
    inputArg launch.args launch.users user tile ≠ outputArg launch.args launch.users user' slot := by
  intro heq
  obtain ⟨_, _, hcheck⟩ := bind_ok launch.aliases
  refine raiseIf_ok.mp hcheck (Or.inr ⟨_, List.mem_of_getElem? (launch.outputArg_get hu' hslot), ?_⟩)
  exact heq ▸ launch.inputArg_mem hu htile

end Launch

/-! ## What a task moves -/

section

variable {args : List Nat} {users user p : Nat} {histRow : Bool} {staged : Nat → Nat → Cell} {op : Op Cell}

/-- A half-word of an input that the windows use, or that a task reads with the rest of its page. -/
def Staged (histRow : Bool) (tile i : Nat) : Prop := tile = 0 ∨ histRow = false ∨ i < 32 ∨ FACE ≤ i ∧ i < FACE + 32

theorem mem_taskReads : op ∈ taskReads args users histRow user p staged ↔ ∃ tile < TILES_IN, ∃ i < PAGE,
    Staged histRow tile i ∧ op = ⟨.load, .dram (inputArg args users user tile) p i, staged tile i⟩ := by
  have hspan : ∀ (source destination : Nat → Cell) (start count : Nat), op ∈ readSpan source destination start count ↔
      ∃ i, start ≤ i ∧ i < start + count ∧ op = ⟨.load, source i, destination i⟩ := by
    intro source destination start count
    simp only [readSpan, List.mem_map, List.mem_range'_1]
    grind
  simp only [taskReads, List.mem_append, List.mem_flatMap, List.mem_range, hspan, Staged, TILES_IN]
  constructor
  · rintro (⟨i, -, hi, rfl⟩ | ⟨h, hh, hop⟩)
    · exact ⟨0, by omega, i, by omega, Or.inl rfl, rfl⟩
    · cases histRow with
      | true =>
        rw [if_pos rfl, List.mem_append, hspan, hspan] at hop
        rcases hop with ⟨i, -, hi, rfl⟩ | ⟨i, hi, hi', rfl⟩
        · exact ⟨h + 1, by omega, i, by simp only [PAGE]; omega, Or.inr (Or.inr (Or.inl (by omega))), rfl⟩
        · exact ⟨h + 1, by omega, i, by simp only [PAGE, FACE] at *; omega, Or.inr (Or.inr (Or.inr ⟨hi, hi'⟩)), rfl⟩
      | false =>
        rw [if_neg (by decide), hspan] at hop
        obtain ⟨i, -, hi, rfl⟩ := hop
        exact ⟨h + 1, by omega, i, by omega, Or.inr (Or.inl rfl), rfl⟩
  · rintro ⟨tile, htile, i, hi, hstaged, rfl⟩
    cases tile with
    | zero => exact Or.inl ⟨i, Nat.zero_le _, by omega, rfl⟩
    | succ h =>
      refine Or.inr ⟨h, by omega, ?_⟩
      cases histRow with
      | true =>
        rw [if_pos rfl, List.mem_append, hspan, hspan]
        rcases hstaged with h0 | h0 | h0 | h0
        · omega
        · cases h0
        · exact Or.inl ⟨i, Nat.zero_le _, by omega, rfl⟩
        · exact Or.inr ⟨i, h0.1, h0.2, rfl⟩
      | false =>
        rw [if_neg (by decide), hspan]
        exact ⟨i, Nat.zero_le _, by omega, rfl⟩

/-- No half-word is read twice to one place. -/
theorem taskReads_nodup (hinj : ∀ tile tile' i i', staged tile i = staged tile' i' → tile = tile' ∧ i = i') :
    ((taskReads args users histRow user p staged).map Op.dst).Nodup := by
  have hspan : ∀ (source destination : Nat → Cell) (start count : Nat),
      (readSpan source destination start count).map Op.dst = (List.range' start count).map destination := by
    intro source destination start count
    rw [readSpan, List.map_map]
    rfl
  have hplaces : (taskReads args users histRow user p staged).map Op.dst = (List.range' 0 PAGE).map (staged 0) ++
      (List.range HISTORY).flatMap fun h => (if histRow then List.range' 0 32 ++ List.range' FACE 32 else
        List.range' 0 PAGE).map (staged (h + 1)) := by
    rw [taskReads, List.map_append, hspan, List.map_flatMap]
    refine congrArg _ (List.flatMap_congr fun h _ => ?_)
    cases histRow with
    | true => simp only [if_true, List.map_append, hspan]
    | false => simp only [Bool.false_eq_true, if_false, hspan]
  have hnodup : (if histRow then List.range' 0 32 ++ List.range' FACE 32 else List.range' 0 PAGE).Nodup := by
    cases histRow with
    | true =>
      refine List.nodup_append'.mpr ⟨List.nodup_range', List.nodup_range', List.disjoint_left.mpr fun i hi hi' => ?_⟩
      rw [List.mem_range'_1] at hi hi'
      simp only [FACE] at hi'
      omega
    | false => exact List.nodup_range'
  have hmap : ∀ tile (places : List Nat), places.Nodup → (places.map (staged tile)).Nodup := fun tile places h =>
    h.map_on fun i _ i' _ heq => (hinj tile tile i i' heq).2
  rw [hplaces]
  refine List.nodup_append'.mpr ⟨hmap _ _ List.nodup_range', List.nodup_flatMap.mpr ⟨fun h _ => hmap _ _ hnodup,
    List.nodup_range.imp fun {h h'} hne => List.disjoint_left.mpr fun c hc hc' => ?_⟩,
      List.disjoint_left.mpr fun c hc hc' => ?_⟩
  · obtain ⟨i, -, rfl⟩ := List.mem_map.mp hc
    obtain ⟨i', -, heq⟩ := List.mem_map.mp hc'
    exact hne (by have := (hinj _ _ _ _ heq).1; omega)
  · obtain ⟨i, -, rfl⟩ := List.mem_map.mp hc
    obtain ⟨h, -, hc'⟩ := List.mem_flatMap.mp hc'
    obtain ⟨i', -, heq⟩ := List.mem_map.mp hc'
    exact absurd (hinj _ _ _ _ heq).1 (Nat.succ_ne_zero h)

/-- The half-word that goes to place `i` of window `slot`. -/
def sourceOf (staged : Nat → Nat → Cell) (slot i : Nat) : Cell :=
  if i % FACE / ROW + slot < HISTORY then staged (1 + (i % FACE / ROW + slot)) (i / FACE * FACE + i % ROW)
  else staged 0 (i / FACE * FACE + (i % FACE / ROW + slot - HISTORY) * ROW + i % ROW)

/-- Copies that follow one rule. -/
theorem copySpan_eq {source destination : Nat → Cell} {sourceStart start count : Nat} {g : Nat → Op Cell}
    (h : ∀ k < count, g (start + k) = ⟨.load, source (sourceStart + k), destination (start + k)⟩) :
    copySpan source destination sourceStart start count = (List.range' start count).map g := by
  rw [List.range'_eq_map_range, List.map_map]
  exact List.map_congr_left fun k hk => (h k (List.mem_range.mp hk)).symm

/-- **A window is built half-word by half-word, each once**, in the order of the page. -/
theorem buildWindow_flatten (staged : Nat → Nat → Cell) (destination : Nat → Cell) {slot : Nat} (hslot : slot < SLOTS) :
    (buildWindow staged destination slot).flatten =
      (List.range (2 * FACE)).map fun i => ⟨.load, sourceOf staged slot i, destination i⟩ := by
  have hface : ∀ f < 2, (((List.range (HISTORY - slot)).map fun r =>
      copySpan (staged (1 + (r + slot))) destination (f * FACE) (f * FACE + r * ROW) ROW) ++
      [copySpan (staged 0) destination (f * FACE) (f * FACE + (HISTORY - slot) * ROW)
        ((ROWS - HISTORY + slot) * ROW)]).flatten =
      (List.range' (0 + f * FACE) FACE).map fun i => ⟨.load, sourceOf staged slot i, destination i⟩ := by
    intro f hf
    have hhistory : ∀ r ∈ List.range (HISTORY - slot),
        copySpan (staged (1 + (r + slot))) destination (f * FACE) (f * FACE + r * ROW) ROW =
        (List.range' (f * FACE + r * ROW) ROW).map fun i => ⟨.load, sourceOf staged slot i, destination i⟩ := by
      intro r hr
      rw [List.mem_range] at hr
      refine copySpan_eq fun k hk => ?_
      simp only [FACE, ROW, HISTORY, SLOTS] at *
      have hrow : (f * 256 + r * 16 + k) % 256 / 16 = r := by omega
      have hdiv : (f * 256 + r * 16 + k) / 256 = f := by omega
      have hmod : (f * 256 + r * 16 + k) % 16 = k := by omega
      simp only [sourceOf, FACE, ROW, HISTORY, hrow, hdiv, hmod, if_pos (show r + slot < 4 by omega)]
    have hpiece : copySpan (staged 0) destination (f * FACE) (f * FACE + (HISTORY - slot) * ROW)
        ((ROWS - HISTORY + slot) * ROW) = (List.range' (f * FACE + (HISTORY - slot) * ROW)
          ((ROWS - HISTORY + slot) * ROW)).map fun i => ⟨.load, sourceOf staged slot i, destination i⟩ := by
      refine copySpan_eq fun k hk => ?_
      simp only [FACE, ROW, HISTORY, SLOTS, ROWS] at *
      have hrow : (f * 256 + (4 - slot) * 16 + k) % 256 / 16 = 4 - slot + k / 16 := by omega
      have hdiv : (f * 256 + (4 - slot) * 16 + k) / 256 = f := by omega
      have hmod : (f * 256 + (4 - slot) * 16 + k) % 16 = k % 16 := by omega
      have hsource : f * 256 + (4 - slot + k / 16 + slot - 4) * 16 + k % 16 = f * 256 + k := by omega
      simp only [sourceOf, FACE, ROW, HISTORY, hrow, hdiv, hmod, hsource,
        if_neg (show ¬4 - slot + k / 16 + slot < 4 by omega)]
    rw [List.flatten_append, List.flatten_singleton, ← List.flatMap_def, List.flatMap_congr hhistory, hpiece,
      ← List.map_flatMap, Indices.blocks_append, ← List.map_append, List.range'_append_1, Nat.zero_add, ← Nat.add_mul]
    simp only [ROWS, HISTORY, SLOTS, ROW, FACE] at hslot ⊢
    rw [show (4 - slot + (16 - 4 + slot)) * 16 = 256 by omega]
  unfold buildWindow
  rw [List.flatMap_def, List.flatten_flatten, List.map_map, ← List.flatMap_def]
  refine (List.flatMap_congr fun f hf => hface f (List.mem_range.mp hf)).trans ?_
  rw [← List.map_flatMap, Indices.blocks_append, ← List.range_eq_range']

/-- The half-word of window `slot` at place `i`, from the piece (tile 0) and the histories: row `token` is entry
`token + slot` of the histories' first rows followed by the piece's rows, and the rows past `rows` are zero. -/
def windowAt (tiles : Nat → Nat → UInt16) (rows slot i : Nat) : UInt16 :=
  let token := i / 512 * 16 + i % FACE / ROW
  if token < rows then
    if token + slot < HISTORY then tiles (token + slot + 1) (i % 512 / FACE * FACE + i % ROW)
    else tiles 0 ((token + slot - HISTORY) / 16 * 512 + (token + slot - HISTORY) % 16 * 16 + i % 512 / FACE * FACE +
      i % ROW)
  else 0

/-- At sixteen rows: faces 2 and 3 are zero, and the others are what the merged copies bring. -/
theorem windowAt_rows (m : Cell → UInt16) (staged : Nat → Nat → Cell) {slot i : Nat} (hslot : slot < SLOTS)
    (hi : i < PAGE) :
    windowAt (fun tile j => m (staged tile j)) ROWS slot i =
      if i < 2 * FACE then m (sourceOf staged slot i) else 0 := by
  simp only [windowAt, sourceOf, ROWS, FACE, ROW, HISTORY, PAGE, SLOTS] at *
  by_cases hface : i < 512
  · have htoken : i / 512 * 16 + i % 256 / 16 = i % 256 / 16 := by omega
    have hlast : i % 512 = i := by omega
    have hrow : i % 256 / 16 < 16 := by omega
    rw [htoken, hlast, if_pos hrow, if_pos (show i < 2 * 256 by omega)]
    by_cases hhistory : i % 256 / 16 + slot < 4
    · rw [if_pos hhistory, if_pos hhistory, Nat.add_comm 1]
    · rw [if_neg hhistory, if_neg hhistory]
      exact congrArg (fun j => m (staged 0 j)) (by omega)
  · rw [if_neg (show ¬i / 512 * 16 + i % 256 / 16 < 16 by omega), if_neg (show ¬i < 2 * 256 by omega)]

/-- **The served kernel's window**, in a scratch page that was zero. -/
theorem windowCopies_moved {m : Cell → UInt16} {core slot rows i : Nat} (hzero : m (.input core TILES_IN i) = 0) :
    moved (windowCopies (.input core) (.input core TILES_IN) slot rows) m (.input core TILES_IN i) =
      windowAt (fun tile j => m (.input core tile j)) rows slot i := by
  have hmem : ∀ op, op ∈ windowCopies (.input core) (.input core TILES_IN) slot rows ↔
    ∃ token < rows, ∃ f < 2, ∃ k < ROW,
      op = ⟨.load, .input core (if token + slot < HISTORY then token + slot + 1 else 0)
        ((if token + slot < HISTORY then 0 else token + slot - HISTORY) / 16 * 512 +
          (if token + slot < HISTORY then 0 else token + slot - HISTORY) % 16 * 16 + f * FACE + k),
        .input core TILES_IN (token / 16 * 512 + token % 16 * 16 + f * FACE + k)⟩ := by
    intro op
    simp only [windowCopies, List.mem_flatMap, List.mem_map, List.mem_range, eq_comm]
  have hplace : ∀ token f k, f < 2 → k < 16 → token / 16 * 512 + token % 16 * 16 + f * 256 + k = i →
      token = i / 512 * 16 + i % 256 / 16 ∧ f = i % 512 / 256 ∧ k = i % 16 := by
    intro token f k hf hk heq
    omega
  simp only [windowAt, FACE, ROW, HISTORY, TILES_IN] at *
  by_cases htoken : i / 512 * 16 + i % 256 / 16 < rows
  · rw [if_pos htoken]
    have hmoved : ∀ a, Cell.input core
        (if i / 512 * 16 + i % 256 / 16 + slot < 4 then i / 512 * 16 + i % 256 / 16 + slot + 1 else 0)
        ((if i / 512 * 16 + i % 256 / 16 + slot < 4 then 0 else i / 512 * 16 + i % 256 / 16 + slot - 4) / 16 * 512 +
          (if i / 512 * 16 + i % 256 / 16 + slot < 4 then 0 else i / 512 * 16 + i % 256 / 16 + slot - 4) % 16 * 16 +
          i % 512 / 256 * 256 + i % 16) = a →
        moved (windowCopies (.input core) (.input core 5) slot rows) m (.input core 5 i) = m a := by
      rintro a rfl
      refine moved_eq (fun op hop hdst => ?_) ⟨_, (hmem _).mpr ⟨_, htoken, i % 512 / 256, by omega,
        i % 16, by omega, rfl⟩, ?_⟩ fun op hop hsrc => ?_
      · obtain ⟨token, -, f, hf, k, hk, rfl⟩ := (hmem op).mp hop
        obtain ⟨rfl, rfl, rfl⟩ := hplace token f k hf hk (Cell.input.inj hdst).2.2
        rfl
      · exact congrArg (Cell.input core 5) (by omega)
      · obtain ⟨token, -, f, -, k, -, rfl⟩ := (hmem op).mp hop
        have htile := (Cell.input.inj hsrc).2.1
        split_ifs at htile
        · omega
    by_cases hhistory : i / 512 * 16 + i % 256 / 16 + slot < 4
    · rw [if_pos hhistory]
      refine hmoved _ ?_
      rw [if_pos hhistory, if_pos hhistory, Nat.zero_div, Nat.zero_mod, Nat.zero_mul, Nat.zero_add]
    · rw [if_neg hhistory]
      refine hmoved _ ?_
      rw [if_neg hhistory, if_neg hhistory]
  · rw [if_neg htoken, moved_kept, hzero]
    intro op hop hdst
    obtain ⟨token, hlt, f, hf, k, hk, rfl⟩ := (hmem op).mp hop
    obtain ⟨rfl, -, -⟩ := hplace token f k hf hk (Cell.input.inj hdst).2.2
    exact htoken hlt

end

/-! ## The host's references -/

/-- The two assignments of a row of the reference. -/
def assignRow (window tile : Nat → UInt16) (destination source : Nat) : Nat → UInt16 :=
  (List.range 2).foldl (fun window face =>
    splice window tile (destination + face * 256) (source + face * 256) 16) window

/-- A token of the reference. -/
def referenceRow (tiles : Nat → Nat → UInt16) (slot : Nat) (window : Nat → UInt16) (token : Nat) : Nat → UInt16 :=
  let history := token + slot
  let sourceRow := if history < HISTORY then 0 else history - HISTORY
  let source := sourceRow / 16 * 256 + sourceRow % 16 * 16
  let destination := token / 16 * 256 + token % 16 * 16
  assignRow window (tiles (if history < HISTORY then history + 1 else 0)) destination source

/-- `reference_windows`: a page of a window, from a page of the piece (tile 0) and of the histories. -/
def referenceWindow (tiles : Nat → Nat → UInt16) (rows slot : Nat) : Nat → UInt16 :=
  (List.range rows).foldl (referenceRow tiles slot) fun _ => 0

/-- What a merged copy reads. -/
inductive CopyKind
  | hist
  | piece
  deriving DecidableEq, Repr

/-- `window_copies`: what is read, the history or the piece's row, the destination row, and how many bytes. -/
def mergedCopies (slot : Nat) : Except PyError (List (CopyKind × Nat × Nat × Nat)) := do
  raiseIf (¬slot < SLOTS) (.valueError "slot must be 0..3")
  pure ((List.range (HISTORY - slot)).map (fun row => (.hist, row + slot, row, 32)) ++
    [(.piece, 0, HISTORY - slot, (ROWS - HISTORY + slot) * 32)])

/-- A merged copy, in a face. -/
def applyCopy (tiles : Nat → Nat → UInt16) (base : Nat) (window : Nat → UInt16) (copy : CopyKind × Nat × Nat × Nat) :
    Nat → UInt16 :=
  match copy with
  | (.hist, source, row, length) => splice window (tiles (source + 1)) (base + row * 16) base (length / 2)
  | (.piece, source, row, length) => splice window (tiles 0) (base + row * 16) (base + source * 16) (length / 2)

/-- `apply_copies`: the merged copies of a page, on a zeroed page. -/
def applyCopies (tiles : Nat → Nat → UInt16) (slot : Nat) : Except PyError (Nat → UInt16) := do
  let copies ← mergedCopies slot
  pure ((List.range 2).foldl (fun window face => copies.foldl (applyCopy tiles (face * 256)) window) fun _ => 0)

section

variable {tiles : Nat → Nat → UInt16} {rows slot i : Nat}

/-- A row of the reference, in the first two faces: its own sixteen places of each. -/
theorem assignRow_inside {window tile : Nat → UInt16} {destination source : Nat}
    (hlow : destination ≤ i % 256) (hhigh : i % 256 < destination + 16) (hi : i < 512) :
    assignRow window tile destination source i = tile (source + i / 256 * 256 + (i % 256 - destination)) := by
  simp only [assignRow, List.range_succ, List.range_zero, List.nil_append, List.cons_append, List.foldl_cons,
    List.foldl_nil]
  by_cases hface : i < 256
  · rw [splice_outside (by omega), splice_inside (by omega)]
    exact congrArg tile (by omega)
  · by_cases hsecond : destination + 1 * 256 ≤ i ∧ i < destination + 1 * 256 + 16
    · rw [splice_inside hsecond]
      exact congrArg tile (by omega)
    · omega

theorem assignRow_outside {window tile : Nat → UInt16} {destination source : Nat}
    (h : ∀ face < 2, ¬(destination + face * 256 ≤ i ∧ i < destination + face * 256 + 16)) :
    assignRow window tile destination source i = window i :=
  foldl_kept (fun face hface _ => splice_outside (h face (List.mem_range.mp hface))) window

/-- A token of the reference, among the first sixteen. -/
theorem referenceRow_eq {window : Nat → UInt16} {token : Nat} (htoken : token < 16) (hslot : slot < SLOTS)
    (hi : i < PAGE) : referenceRow tiles slot window token i = if i / 512 * 16 + i % FACE / ROW = token then
      if token + slot < HISTORY then tiles (token + slot + 1) (i % 512 / FACE * FACE + i % ROW)
      else tiles 0 ((token + slot - HISTORY) / 16 * 512 + (token + slot - HISTORY) % 16 * 16 + i % 512 / FACE * FACE +
        i % ROW)
    else window i := by
  simp only [referenceRow, HISTORY, SLOTS, PAGE, FACE, ROW] at *
  have hdestination : token / 16 * 256 + token % 16 * 16 = token * 16 := by omega
  rw [hdestination]
  by_cases hrow : i / 512 * 16 + i % 256 / 16 = token
  · have hi512 : i < 512 := by omega
    have hlast : i % 512 = i := Nat.mod_eq_of_lt hi512
    have hplace : i % 256 - token * 16 = i % 16 := by omega
    rw [if_pos hrow, assignRow_inside (by omega) (by omega) hi512, hplace, hlast]
    by_cases hhistory : token + slot < 4
    · simp only [if_pos hhistory, Nat.zero_div, Nat.zero_mod, Nat.zero_mul, Nat.zero_add]
    · have hsource : (token + slot - 4) / 16 = 0 := by omega
      simp only [if_neg hhistory, hsource, Nat.zero_mul, Nat.zero_add]
  · rw [if_neg hrow, assignRow_outside fun face hface => by omega]

/-- **The reference at no more than sixteen rows** is the kernel's window. -/
theorem referenceWindow_eq (hrows : rows ≤ 16) (hslot : slot < SLOTS) (hi : i < PAGE) :
    referenceWindow tiles rows slot i = windowAt tiles rows slot i := by
  have hrow : ∀ token ∈ List.range rows, ∀ window, referenceRow tiles slot window token i = _ :=
    fun token htoken window => referenceRow_eq (Nat.lt_of_lt_of_le (List.mem_range.mp htoken) hrows) hslot hi
  unfold referenceWindow windowAt
  dsimp only
  split_ifs with htoken hhistory
  · refine foldl_written (List.mem_range.mpr htoken) (fun window => ?_) (fun token ht window => ?_) _
    · rw [hrow _ (List.mem_range.mpr htoken), if_pos rfl, if_pos hhistory]
    · rw [hrow token ht]
      split_ifs with heq h
      · subst heq
        exact Or.inr rfl
      · subst heq
        exact absurd hhistory h
      · exact Or.inl rfl
  · refine foldl_written (List.mem_range.mpr htoken) (fun window => ?_) (fun token ht window => ?_) _
    · rw [hrow _ (List.mem_range.mpr htoken), if_pos rfl, if_neg hhistory]
    · rw [hrow token ht]
      split_ifs with heq h
      · subst heq
        exact absurd h hhistory
      · subst heq
        exact Or.inr rfl
      · exact Or.inl rfl
  · refine foldl_kept (fun token ht window => ?_) _
    rw [hrow token ht]
    split_ifs with heq
    · subst heq
      exact absurd (List.mem_range.mp ht) htoken
    · subst heq
      exact absurd (List.mem_range.mp ht) htoken
    · rfl

/-- **The reference past sixteen rows** puts row 16 over row 0 of the second face, and leaves the third face zero. -/
theorem referenceWindow_zero (hrows : rows ≤ 32) (hi : 768 ≤ i) : referenceWindow tiles rows slot i = 0 := by
  unfold referenceWindow
  refine foldl_kept (fun token htoken window => assignRow_outside fun face hface => ?_) _
  rw [List.mem_range] at htoken
  omega

/-- The merged copies of a face. -/
theorem applyCopies_face (window : Nat → UInt16) (hslot : slot < SLOTS) {face : Nat} :
    ((List.range (HISTORY - slot)).map (fun row => (CopyKind.hist, row + slot, row, 32)) ++
      [(CopyKind.piece, 0, HISTORY - slot, (ROWS - HISTORY + slot) * 32)]).foldl
        (applyCopy tiles (face * 256)) window i =
    if i / 256 = face then
      if i % 256 / 16 + slot < HISTORY then tiles (i % 256 / 16 + slot + 1) (face * 256 + i % 16)
      else tiles 0 (face * 256 + (i % 256 / 16 + slot - HISTORY) * 16 + i % 16)
    else window i := by
  simp only [HISTORY, SLOTS, ROWS] at *
  have hpiece : ∀ window :
    Nat → UInt16, applyCopy tiles (face * 256) window (.piece, 0, 4 - slot, (16 - 4 + slot) * 32) i =
      if i / 256 = face ∧ 4 ≤ i % 256 / 16 + slot then tiles 0 (face * 256 + (i % 256 / 16 + slot - 4) * 16 + i % 16)
      else window i := by
    intro window
    simp only [applyCopy]
    split_ifs with h
    · rw [splice_inside (by omega)]
      exact congrArg (tiles 0) (by omega)
    · rw [splice_outside (by omega)]
  rw [List.foldl_append, List.foldl_cons, List.foldl_nil, hpiece, List.foldl_map]
  by_cases hface : i / 256 = face
  · by_cases hhistory : i % 256 / 16 + slot < 4
    · rw [if_neg (by omega), if_pos hface, if_pos hhistory]
      have hwrite : ∀ window : Nat → UInt16,
          applyCopy tiles (face * 256) window (.hist, i % 256 / 16 + slot, i % 256 / 16, 32) i =
            tiles (i % 256 / 16 + slot + 1) (face * 256 + i % 16) := by
        intro window
        simp only [applyCopy]
        rw [splice_inside (by omega)]
        exact congrArg (tiles _) (by omega)
      refine foldl_written (List.mem_range.mpr (show i % 256 / 16 < 4 - slot by omega)) hwrite
        (fun row hrow window => ?_) _
      by_cases heq : row = i % 256 / 16
      · subst heq
        exact Or.inr (hwrite window)
      · rw [List.mem_range] at hrow
        exact Or.inl (splice_outside (by omega))
    · rw [if_pos ⟨hface, by omega⟩, if_pos hface, if_neg hhistory]
  · rw [if_neg fun h => hface h.1, if_neg hface]
    refine foldl_kept (fun row hrow window => splice_outside ?_) _
    rw [List.mem_range] at hrow
    omega

/-- **The merged copies build the kernel's window of sixteen rows.** -/
theorem applyCopies_eq (hslot : slot < SLOTS) (hi : i < PAGE) {window : Nat → UInt16}
    (h : applyCopies tiles slot = .ok window) : window i = windowAt tiles ROWS slot i := by
  obtain ⟨copies, hcopies, h⟩ := bind_ok h
  obtain ⟨_, -, hcopies⟩ := bind_ok hcopies
  obtain rfl := Except.ok.inj hcopies
  obtain rfl := Except.ok.inj h
  simp only [List.range_succ, List.range_zero, List.nil_append, List.cons_append, List.foldl_cons, List.foldl_nil,
    applyCopies_face _ hslot, windowAt]
  simp only [HISTORY, SLOTS, ROWS, PAGE, FACE, ROW] at *
  by_cases hlow : i < 512
  · have htoken : i / 512 * 16 + i % 256 / 16 = i % 256 / 16 := by omega
    have hlast : i % 512 = i := by omega
    have hsource : (i % 256 / 16 + slot - 4) / 16 = 0 := by omega
    have hmod : (i % 256 / 16 + slot - 4) % 16 = i % 256 / 16 + slot - 4 := by omega
    rw [htoken, hlast, hsource, hmod, if_pos (show i % 256 / 16 < 16 by omega)]
    by_cases hface : i / 256 = 1
    · rw [if_pos hface, hface]
      grind
    · obtain hface' : i / 256 = 0 := by omega
      rw [if_neg hface, if_pos hface', hface']
      grind
  · rw [if_neg (show ¬i / 512 * 16 + i % 256 / 16 < 16 by omega), if_neg (show ¬i / 256 = 1 by omega),
      if_neg (show ¬i / 256 = 0 by omega)]

/-- The slots that are copied. -/
theorem applyCopies_ok (hslot : slot < SLOTS) : ∃ window, applyCopies tiles slot = .ok window := by
  rw [applyCopies, mergedCopies, raiseIf_bind (not_not.mpr hslot)]
  exact ⟨_, rfl⟩

end

/-- **Main result: the host's references.** At any number of rows that a tile has, `reference_windows` is what the
kernel builds exactly when there are at most sixteen rows; `apply_copies` always is, at sixteen. -/
theorem references_agree {rows : Nat} (hrows : rows ≤ 32) :
    ((∀ tiles, ∀ slot < SLOTS, ∀ i < PAGE,
      referenceWindow tiles rows slot i = windowAt tiles rows slot i) ↔ rows ≤ 16) ∧
    ∀ tiles slot, (slot < SLOTS → ∃ window, applyCopies tiles slot = .ok window ∧
        ∀ i < PAGE, window i = windowAt tiles ROWS slot i) ∧
      (¬slot < SLOTS → applyCopies tiles slot = .error (.valueError "slot must be 0..3")) := by
  refine ⟨⟨fun h => ?_, fun h tiles slot hslot i hi => referenceWindow_eq h hslot hi⟩,
    fun tiles slot => ⟨fun hslot => ?_,
    fun hslot => ?_⟩⟩
  · by_contra hmore
    have hzero := h (fun _ _ => 1) 0 (by decide) 768 (by decide)
    rw [referenceWindow_zero hrows (Nat.le_refl _), windowAt] at hzero
    simp only [ROW, FACE, HISTORY] at hzero
    rw [if_pos (by omega)] at hzero
    exact absurd hzero (by decide)
  · obtain ⟨window, h⟩ := @applyCopies_ok tiles slot hslot
    exact ⟨window, h, fun i hi => applyCopies_eq hslot hi h⟩
  · rw [applyCopies, mergedCopies, raiseIf, if_pos hslot]
    rfl

/-- At seventeen rows the transcription is off. -/
theorem references_agree_seventeen :
    ¬∀ tiles, ∀ slot < SLOTS, ∀ i < PAGE, referenceWindow tiles 17 slot i = windowAt tiles 17 slot i := fun h =>
  absurd ((references_agree (show 17 ≤ 32 by decide)).1.mp h) (by decide)

/-! ## Who holds what -/

namespace Launch

variable (launch : Launch)

/-- Task `t` is dealt to the core. -/
def Dealt (core t : Nat) : Prop :=
  core < launch.cores ∧ startOf launch.tasks launch.cores core ≤ t ∧ t < startOf launch.tasks launch.cores (core + 1)

/-- The output pages of a core's tasks. -/
def outs (core : Nat) : Set Cell :=
  {c | ∃ t, launch.Dealt core t ∧ ∃ s < SLOTS, ∃ i,
    c = .dram (outputArg launch.args launch.users (t / PAGES) s) (t % PAGES) i}

/-- Constant is what is no output; a group has the half-words of its five pages. -/
def discipline : Discipline Mover Cell Ring Group where
  constant := {c | ∃ a p i, (∀ u < launch.users, ∀ s < SLOTS, a ≠ outputArg launch.args launch.users u s) ∧
    c = .dram a p i}
  cells := fun g => {c | ∃ tile < TILES_IN, ∃ i, c = stagedAt g.core g.half tile i}
  producer := fun ring => match ring with | .free core => ⟨core, .writer⟩ | .full core => ⟨core, .reader⟩
  consumer := fun ring => match ring with | .free core => ⟨core, .reader⟩ | .full core => ⟨core, .writer⟩

/-- The scratch pages of a core, and the output pages of its tasks. -/
def writes (core : Nat) : Set Cell := {c | ∃ tile i, c = .scratch core tile i} ∪ launch.outs core

/-- What a program holds at the start. -/
def held (w : Mover) : Set Cell :=
  match w.role with
  | .reader => ∅
  | .writer => launch.writes w.core ∪ if launch.settings.port then {c | ∃ tile i, c = .input w.core tile i} else ∅

variable {launch}

theorem planned_eq : 0 < launch.cores ∧ launch.tasks = launch.users * PAGES ∧
    launch.ranges = (List.range launch.cores).map fun worker => (startOf launch.tasks launch.cores worker,
      startOf launch.tasks launch.cores (worker + 1) - startOf launch.tasks launch.cores worker) :=
  (plan_eq launch.planned).2

theorem Dealt.lt {core t : Nat} (h : launch.Dealt core t) : t < launch.tasks := by
  obtain ⟨hcores, htasks, -⟩ : 0 < launch.cores ∧ launch.tasks = launch.users * PAGES ∧ _ := planned_eq
  have hlast : startOf launch.tasks launch.cores (core + 1) ≤ launch.tasks :=
    (startOf_mono _ _ (Nat.succ_le_of_lt h.1)).trans_eq (startOf_ends hcores).2
  have hlt := h.2.2
  omega

/-- A task is a page of a user. -/
theorem Dealt.user {core t : Nat} (h : launch.Dealt core t) : t / PAGES < launch.users := by
  obtain ⟨hcores, htasks, -⟩ : 0 < launch.cores ∧ launch.tasks = launch.users * PAGES ∧ _ := planned_eq
  refine Nat.div_lt_of_lt_mul ?_
  rw [Nat.mul_comm, ← htasks]
  exact h.lt

/-- It is dealt to one core. -/
theorem Dealt.unique {core core' t : Nat} (h : launch.Dealt core t) (h' : launch.Dealt core' t) : core = core' := by
  have hle : ∀ {a b}, launch.Dealt a t → launch.Dealt b t → b ≤ a := fun {a b} ha hb => by
    by_contra hlt
    have hmono : startOf launch.tasks launch.cores (a + 1) ≤ startOf launch.tasks launch.cores b :=
      startOf_mono _ _ (Nat.lt_of_not_le hlt)
    have := ha.2.2
    have := hb.2.1
    omega
  exact Nat.le_antisymm (hle h' h) (hle h h')

/-- Every task is dealt. -/
theorem dealt_exists {t : Nat} (ht : t < launch.tasks) : ∃ core, launch.Dealt core t := by
  obtain ⟨hcores, htasks, -⟩ : 0 < launch.cores ∧ launch.tasks = launch.users * PAGES ∧ _ := planned_eq
  have hranges := Indices.ranges_append (startOf_mono launch.tasks launch.cores) (startOf_ends hcores).1 launch.cores
  rw [(startOf_ends hcores).2] at hranges
  have hmem := List.mem_range.mpr ht
  rw [← hranges, List.mem_flatMap] at hmem
  obtain ⟨core, hcore, hmem⟩ := hmem
  have hbounds := List.mem_range'_1.mp hmem
  exact ⟨core, List.mem_range.mp hcore, hbounds.1, by omega⟩

/-- A task and a window are told from their output page. -/
theorem out_inj {t t' s s' i i' : Nat} (ht : t / PAGES < launch.users) (ht' : t' / PAGES < launch.users)
    (hs : s < SLOTS) (hs' : s' < SLOTS)
    (heq : Cell.dram (outputArg launch.args launch.users (t / PAGES) s) (t % PAGES) i =
      .dram (outputArg launch.args launch.users (t' / PAGES) s') (t' % PAGES) i') : t = t' ∧ s = s' ∧ i = i' := by
  obtain ⟨haddress, hpage, hi⟩ := Cell.dram.inj heq
  obtain ⟨huser, hslot⟩ := launch.outputArg_inj ht ht' hs hs' haddress
  refine ⟨?_, hslot, hi⟩
  rw [← Nat.div_add_mod t PAGES, ← Nat.div_add_mod t' PAGES, huser, hpage]

theorem outs_constant (core : Nat) : Disjoint (launch.outs core) launch.discipline.constant := by
  refine Set.disjoint_left.mpr ?_
  rintro c ⟨t, ht, s, hs, i, rfl⟩ ⟨a, p, i', ha, heq⟩
  exact ha _ ht.user s hs (Cell.dram.inj heq).1.symm

theorem outs_apart {core core' : Nat} (hne : core ≠ core') : Disjoint (launch.outs core) (launch.outs core') := by
  refine Set.disjoint_left.mpr ?_
  rintro c ⟨t, ht, s, hs, i, rfl⟩ ⟨t', ht', s', hs', i', heq⟩
  obtain ⟨rfl, -, -⟩ := out_inj ht.user ht'.user hs hs' heq
  exact hne (ht.unique ht')

theorem writes_constant (core : Nat) : Disjoint (launch.writes core) launch.discipline.constant := by
  refine Set.disjoint_union_left.mpr ⟨Set.disjoint_left.mpr ?_, outs_constant core⟩
  rintro c ⟨tile, i, rfl⟩ ⟨a, p, i', -, heq⟩
  cases heq

theorem writes_apart {core core' : Nat} (hne : core ≠ core') : Disjoint (launch.writes core) (launch.writes core') := by
  refine Set.disjoint_left.mpr ?_
  rintro c (⟨tile, i, rfl⟩ | hc) (⟨tile', i', heq⟩ | hc')
  · exact hne (Cell.scratch.inj heq).1
  · obtain ⟨t, ht, s, hs, i', heq⟩ := hc'
    cases heq
  · obtain ⟨t, ht, s, hs, i, rfl⟩ := hc
    cases heq
  · exact Set.disjoint_left.mp (outs_apart hne) hc hc'

/-- The pages of a core's input are no one's output. -/
theorem writes_input (core core' tile i : Nat) : Cell.input core' tile i ∉ launch.writes core := by
  rintro (⟨tile', i', heq⟩ | ⟨t, ht, s, hs, i', heq⟩)
  · cases heq
  · cases heq

theorem held_apart (w w' : Mover) (hne : w ≠ w') : Disjoint (launch.held w) (launch.held w') := by
  obtain ⟨core, role⟩ := w
  obtain ⟨core', role'⟩ := w'
  cases role with
  | reader => exact Set.empty_disjoint _
  | writer =>
    cases role' with
    | reader => exact Set.disjoint_empty _
    | writer =>
      have hcore : core ≠ core' := fun h => hne (h ▸ rfl)
      refine Set.disjoint_left.mpr ?_
      rintro c (hc | hc) (hc' | hc')
      · exact Set.disjoint_left.mp (writes_apart hcore) hc hc'
      · split_ifs at hc'
        · obtain ⟨tile, i, rfl⟩ := hc'
          exact writes_input _ _ _ _ hc
        · exact hc'
      · split_ifs at hc
        · obtain ⟨tile, i, rfl⟩ := hc
          exact writes_input _ _ _ _ hc'
        · exact hc
      · split_ifs at hc hc'
        · obtain ⟨tile, i, rfl⟩ := hc
          obtain ⟨tile', i', heq⟩ := hc'
          exact hcore (Cell.input.inj heq).1
        · exact hc

theorem held_constant (w : Mover) : Disjoint (launch.held w) launch.discipline.constant := by
  obtain ⟨core, role⟩ := w
  cases role with
  | reader => exact Set.empty_disjoint _
  | writer =>
    refine Set.disjoint_union_left.mpr ⟨writes_constant core, Set.disjoint_left.mpr ?_⟩
    intro c hc
    split_ifs at hc
    · obtain ⟨tile, i, rfl⟩ := hc
      rintro ⟨a, p, i', -, heq⟩
      cases heq
    · exact absurd hc (Set.notMem_empty c)

/-- The groups of the rings are apart. -/
theorem group_apart {g g' : Group} (hne : g ≠ g') :
    Disjoint (launch.discipline.cells g) (launch.discipline.cells g') := by
  refine Set.disjoint_left.mpr ?_
  rintro c ⟨tile, htile, i, rfl⟩ ⟨tile', htile', i', heq⟩
  obtain ⟨hcore, hindex, -⟩ := Cell.input.inj heq
  simp only [TILES_IN, HISTORY] at htile htile' hindex
  refine hne ?_
  obtain ⟨core, half⟩ := g
  obtain ⟨core', half'⟩ := g'
  simp only [Group.mk.injEq]
  exact ⟨hcore, by simp only at hindex; omega⟩

end Launch

/-! ## The reader keeps to the discipline -/

theorem stagedAt_inj {core half tile tile' i i' : Nat} (heq : stagedAt core half tile i = stagedAt core half tile' i') :
    tile = tile' ∧ i = i' := by
  obtain ⟨-, htile, hi⟩ := Cell.input.inj heq
  exact ⟨by omega, hi⟩

namespace Launch

variable {launch : Launch}

/-- The cells of one token. -/
theorem cellsOf_singleton (g : Group) : launch.discipline.cellsOf [g] = launch.discipline.cells g := by
  ext c
  simp [Discipline.cellsOf]

/-- An input of a task is constant. -/
theorem input_constant {user tile : Nat} (hu : user < launch.users) (htile : tile < TILES_IN) (p i : Nat) :
    Cell.dram (inputArg launch.args launch.users user tile) p i ∈ launch.discipline.constant :=
  ⟨_, p, i, fun _ hu' _ hs => launch.inputArg_ne hu htile hu' hs, rfl⟩

theorem readerTask_typed {core l t : Nat} (ht : launch.Dealt core t) {rest : List WindowInstr}
    (hrest : Typed launch.discipline ⟨core, .reader⟩ ∅ [] rest) :
    Typed launch.discipline ⟨core, .reader⟩ ∅ []
      (readerTask launch.args launch.users launch.settings core l t ++ rest) := by
  unfold readerTask
  rw [List.cons_append, List.append_assoc]
  refine .acquire rfl (Typed.settled (fun op hop => ?_) (by simp) ?_ ?_)
  · obtain ⟨tile, -, i, -, -, rfl⟩ := mem_taskReads.mp hop
    rfl
  · rw [List.nil_append]
    refine .of_nodup (fun op hop => ?_) (taskReads_nodup fun _ _ _ _ => stagedAt_inj) fun op hop op' hop' => ?_
    · obtain ⟨tile, htile, i, -, -, rfl⟩ := mem_taskReads.mp hop
      refine ⟨Or.inr (input_constant ht.user htile _ _), Or.inr ?_⟩
      rw [cellsOf_singleton]
      exact ⟨tile, htile, i, rfl⟩
    · obtain ⟨tile, -, i, -, -, rfl⟩ := mem_taskReads.mp hop
      obtain ⟨tile', -, i', -, -, rfl⟩ := mem_taskReads.mp hop'
      intro heq
      cases heq
  · refine .release rfl (fun c hc => ⟨Or.inr hc, by simp⟩) (List.pairwise_singleton _ _) (hrest.weaken ?_)
    exact Set.empty_subset _

/-- **The reader of a core** touches a group only between taking it free and handing it over full. -/
theorem reader_typed {core start count : Nat} (hdealt : ∀ l < count, launch.Dealt core (start + l)) :
    Typed launch.discipline ⟨core, .reader⟩ ∅ []
      (reader launch.args launch.users launch.settings core start count) := by
  unfold reader
  have hall : ∀ ls : List Nat, (∀ l ∈ ls, launch.Dealt core (start + l)) → Typed launch.discipline ⟨core, .reader⟩ ∅ []
      (ls.flatMap fun l => readerTask launch.args launch.users launch.settings core l (start + l)) := by
    intro ls
    induction ls with
    | nil => exact fun _ => .nil
    | cons l ls ih =>
      intro hls
      rw [List.flatMap_cons]
      exact readerTask_typed (hls l List.mem_cons_self) (ih fun l' hl' => hls l' (List.mem_cons_of_mem _ hl'))
  exact hall _ fun l hl => hdealt l (List.mem_range.mp hl)

end Launch

/-! ## The writer keeps to the discipline -/

/-- The copies of a task's windows, half-word by half-word. -/
def taskCopies (settings : Settings) (core l : Nat) : List (Op Cell) :=
  (List.range SLOTS).flatMap fun s => (List.range (2 * FACE)).map fun i =>
    ⟨.load, sourceOf (stagedAt core (l % NBUF_IN)) s i, scratchAt core (setOf settings l) s i⟩

/-- The spans of a task's windows. -/
def taskSpans (settings : Settings) (core l : Nat) : List (List (Op Cell)) :=
  (List.range SLOTS).flatMap fun s => buildWindow (stagedAt core (l % NBUF_IN)) (scratchAt core (setOf settings l) s) s

theorem taskSpans_flatten (settings : Settings) (core l : Nat) :
    (taskSpans settings core l).flatten = taskCopies settings core l := by
  rw [taskSpans, List.flatMap_def, List.flatten_flatten, List.map_map, ← List.flatMap_def]
  exact List.flatMap_congr fun s hs => buildWindow_flatten _ _ (List.mem_range.mp hs)

theorem taskBuilds_eq (settings : Settings) (core l : Nat) :
    taskBuilds settings core l = (taskSpans settings core l).flatMap (copyBytes settings.copyNoc) :=
  List.flatMap_assoc.symm

theorem mem_taskCopies {settings : Settings} {core l : Nat} {op : Op Cell} (hop : op ∈ taskCopies settings core l) :
    op.kind = .load ∧ (∃ tile < TILES_IN, ∃ i, op.src = stagedAt core (l % NBUF_IN) tile i) ∧
      ∃ s < SLOTS, ∃ i < 2 * FACE, op.dst = scratchAt core (setOf settings l) s i := by
  simp only [taskCopies, List.mem_flatMap, List.mem_map, List.mem_range] at hop
  obtain ⟨s, hs, i, hi, rfl⟩ := hop
  refine ⟨rfl, ?_, s, hs, i, hi, rfl⟩
  show ∃ tile < TILES_IN, ∃ j, sourceOf _ s i = _
  simp only [sourceOf, TILES_IN, HISTORY]
  split_ifs with h
  · exact ⟨_, by omega, _, rfl⟩
  · exact ⟨0, by omega, _, rfl⟩

theorem taskCopies_nodup (settings : Settings) (core l : Nat) : ((taskCopies settings core l).map Op.dst).Nodup := by
  rw [taskCopies, List.map_flatMap]
  refine List.nodup_flatMap.mpr ⟨fun s _ => ?_, List.nodup_range.imp fun {s s'} hne =>
    List.disjoint_left.mpr fun c hc hc' => ?_⟩
  · rw [List.map_map]
    exact List.nodup_range.map fun i i' heq => (Cell.scratch.inj heq).2.2
  · simp only [List.map_map, List.mem_map] at hc hc'
    obtain ⟨i, -, rfl⟩ := hc
    obtain ⟨i', -, heq⟩ := hc'
    have htile := (Cell.scratch.inj heq).2.1
    exact hne (by omega)

theorem mem_taskWrites {args : List Nat} {users user p : Nat} {scratch : Nat → Nat → Cell} {op : Op Cell} :
    op ∈ taskWrites args users user p scratch ↔
      ∃ s < SLOTS, ∃ i < PAGE, op = ⟨.store, scratch s i, .dram (outputArg args users user s) p i⟩ := by
  simp only [taskWrites, writeTile, List.mem_flatMap, List.mem_map, List.mem_range, eq_comm]

namespace Launch

variable {launch : Launch}

theorem taskWrites_nodup {user p : Nat} (hu : user < launch.users) (scratch : Nat → Nat → Cell) :
    ((taskWrites launch.args launch.users user p scratch).map Op.dst).Nodup := by
  rw [taskWrites, List.map_flatMap]
  refine List.nodup_flatMap.mpr ⟨fun s _ => ?_, List.nodup_range.imp_of_mem fun {s s'} hs hs' hne =>
    List.disjoint_left.mpr fun c hc hc' => ?_⟩
  · rw [writeTile, List.map_map]
    exact List.nodup_range.map fun i i' heq => (Cell.dram.inj heq).2.2
  · simp only [writeTile, List.map_map, List.mem_map] at hc hc'
    obtain ⟨i, -, rfl⟩ := hc
    obtain ⟨i', -, heq⟩ := hc'
    exact hne (launch.outputArg_inj hu hu (List.mem_range.mp hs) (List.mem_range.mp hs') (Cell.dram.inj heq).1.symm).2

/-- The writes under way when the writer comes to its task `l`: they are of earlier tasks, and with one set of scratch
pages there are none. -/
structure Writing (launch : Launch) (core start l : Nat) (pending : List (Op Cell)) : Prop where
  stores : ∀ op ∈ pending, op.kind = .store
  earlier : ∀ op ∈ pending, ∃ l' < l, ∃ s < SLOTS, ∃ i, op.src = scratchAt core (setOf launch.settings l') s i ∧
    op.dst = .dram (outputArg launch.args launch.users ((start + l') / PAGES) s) ((start + l') % PAGES) i
  apart : (pending.map Op.dst).Nodup
  single : launch.settings.nbuf = 1 → pending = []

theorem Writing.nil (core start l : Nat) : launch.Writing core start l [] :=
  ⟨by simp, by simp, List.nodup_nil, fun _ => rfl⟩

/-- They keep out of each other's way. -/
theorem Writing.underWay {core start l : Nat} {pending : List (Op Cell)} (h : launch.Writing core start l pending)
    (hdealt : ∀ l' < l, launch.Dealt core (start + l')) :
    UnderWay launch.discipline (launch.writes core) pending := by
  refine .of_nodup (fun op hop => ?_) h.apart fun op hop op' hop' heq => ?_
  · obtain ⟨l', hl', s, hs, i, hsrc, hdst⟩ := h.earlier op hop
    rw [hsrc, hdst]
    exact ⟨Or.inl (Or.inl ⟨_, _, rfl⟩), Or.inr ⟨_, hdealt l' hl', s, hs, i, rfl⟩⟩
  · obtain ⟨l', -, s, -, i, hsrc, -⟩ := h.earlier op hop
    obtain ⟨l'', -, s', -, i', -, hdst⟩ := h.earlier op' hop'
    rw [hsrc, hdst] at heq
    cases heq

/-- With the writes of task `l` issued. -/
theorem Writing.issued {core start l : Nat} {pending : List (Op Cell)} (h : launch.Writing core start l pending)
    (hdealt : ∀ l' ≤ l, launch.Dealt core (start + l')) (htwo : launch.settings.nbuf ≠ 1) :
    launch.Writing core start (l + 1) (pending ++ taskWrites launch.args launch.users ((start + l) / PAGES)
      ((start + l) % PAGES) (scratchAt core (setOf launch.settings l))) where
  stores := fun op hop => by
    rcases List.mem_append.mp hop with hop | hop
    · exact h.stores op hop
    · obtain ⟨s, -, i, -, rfl⟩ := mem_taskWrites.mp hop
      rfl
  earlier := fun op hop => by
    rcases List.mem_append.mp hop with hop | hop
    · obtain ⟨l', hl', hop⟩ := h.earlier op hop
      exact ⟨l', by omega, hop⟩
    · obtain ⟨s, hs, i, -, rfl⟩ := mem_taskWrites.mp hop
      exact ⟨l, by omega, s, hs, i, rfl, rfl⟩
  apart := by
    have hl := (hdealt l le_rfl).user
    rw [List.map_append]
    refine List.nodup_append'.mpr ⟨h.apart, taskWrites_nodup hl _, List.disjoint_left.mpr fun c hc hc' => ?_⟩
    obtain ⟨op, hop, rfl⟩ := List.mem_map.mp hc
    obtain ⟨op', hop', heq⟩ := List.mem_map.mp hc'
    obtain ⟨l', hl', s, hs, i, -, hdst⟩ := h.earlier op hop
    obtain ⟨s', hs', i', -, rfl⟩ := mem_taskWrites.mp hop'
    have hout := out_inj hl (hdealt l' (by omega)).user hs' hs (heq.trans hdst)
    omega
  single := fun hone => absurd hone htwo

/-- The copies of the windows are typed over writes under way from other scratch pages. -/
theorem taskBuilds_typed {core l : Nat} {held : Set Cell} {pending : List (Op Cell)} {rest : List WindowInstr}
    (hinput : ∀ tile < TILES_IN, ∀ i, stagedAt core (l % NBUF_IN) tile i ∈ held)
    (hscratch : ∀ tile i, Cell.scratch core tile i ∈ held) (hunder : UnderWay launch.discipline held pending)
    (hstores : ∀ op ∈ pending, op.kind = .store) (hdst : ∀ op ∈ pending, ∃ a p i, op.dst = .dram a p i)
    (hsrc : ∀ op ∈ pending, ∀ s < SLOTS, ∀ i, op.src ≠ scratchAt core (setOf launch.settings l) s i)
    (hrest : Typed launch.discipline ⟨core, .writer⟩ held pending rest) :
    Typed launch.discipline ⟨core, .writer⟩ held pending (taskBuilds launch.settings core l ++
      ((if launch.settings.copyNoc then [.settle .load] else []) ++ rest)) := by
  rw [taskBuilds_eq]
  have hcopies : ∀ ops ∈ taskSpans launch.settings core l, ∀ op ∈ ops, op ∈ taskCopies launch.settings core l := by
    intro ops hops op hop
    rw [← taskSpans_flatten]
    exact List.mem_flatten.mpr ⟨ops, hops, hop⟩
  cases hnoc : launch.settings.copyNoc with
  | true =>
    have hall : (taskSpans launch.settings core l).flatMap (copyBytes true) =
        (taskCopies launch.settings core l).map .copy := by
      rw [← taskSpans_flatten, List.map_flatten, ← List.flatMap_def]
      rfl
    rw [hall, if_pos rfl, List.singleton_append]
    refine Typed.settled (fun op hop => (mem_taskCopies hop).1) (fun op hop => ?_) ⟨fun op hop => ?_, ?_⟩ hrest
    · rw [hstores op hop]
      decide
    · rcases List.mem_append.mp hop with hop | hop
      · exact hunder.within op hop
      · obtain ⟨-, ⟨tile, htile, i, hs⟩, s, -, i', -, hd⟩ := mem_taskCopies hop
        rw [hs, hd]
        exact ⟨Or.inl (hinput tile htile i), hscratch _ _⟩
    · have hown : UnderWay launch.discipline held (taskCopies launch.settings core l) := by
        refine .of_nodup (fun op hop => ?_) (taskCopies_nodup _ _ _) fun op hop op' hop' heq => ?_
        · obtain ⟨-, ⟨tile, htile, i, hs⟩, s, -, i', -, hd⟩ := mem_taskCopies hop
          rw [hs, hd]
          exact ⟨Or.inl (hinput tile htile i), hscratch _ _⟩
        · obtain ⟨-, ⟨tile, -, i, hs⟩, -⟩ := mem_taskCopies hop
          obtain ⟨-, -, s, -, i', -, hd⟩ := mem_taskCopies hop'
          rw [hs, hd] at heq
          cases heq
      refine List.pairwise_append.mpr ⟨hunder.apart, hown.apart, fun op hop op' hop' => ?_⟩
      obtain ⟨-, ⟨tile, -, i, hs⟩, s, hlt, i', -, hd⟩ := mem_taskCopies hop'
      obtain ⟨a, p, j, hdram⟩ := hdst op hop
      rw [hdram, hs, hd]
      exact ⟨by simp [scratchAt], by simp [stagedAt], hsrc op hop s hlt i'⟩
  | false =>
    rw [if_neg (by decide), List.nil_append]
    have hspans : ∀ spans : List (List (Op Cell)), (∀ ops ∈ spans, ∀ op ∈ ops, op ∈ taskCopies launch.settings core l) →
        Typed launch.discipline ⟨core, .writer⟩ held pending (spans.flatMap (copyBytes false) ++ rest) := by
      intro spans
      induction spans with
      | nil => exact fun _ => hrest
      | cons ops spans ih =>
        intro hmem
        refine Typed.moves (fun op hop => ?_) (fun op hop => ?_) (ih fun ops' h => hmem ops' (List.mem_cons_of_mem _ h))
        · obtain ⟨-, ⟨tile, htile, i, hs⟩, -⟩ := mem_taskCopies (hmem ops List.mem_cons_self op hop)
          rw [hs]
          refine ⟨Or.inl (hinput tile htile i), fun op' hop' => ?_⟩
          obtain ⟨a, p, j, hdram⟩ := hdst op' hop'
          rw [hdram]
          simp [stagedAt]
        · obtain ⟨-, -, s, hlt, i, -, hd⟩ := mem_taskCopies (hmem ops List.mem_cons_self op hop)
          rw [hd]
          refine ⟨hscratch _ _, fun op' hop' => ⟨hsrc op' hop' s hlt i, ?_⟩⟩
          obtain ⟨a, p, j, hdram⟩ := hdst op' hop'
          rw [hdram]
          simp [scratchAt]
    exact hspans _ hcopies

end Launch

namespace Launch

variable {launch : Launch}

/-- A task of the writer, over the writes of earlier tasks from other scratch pages. -/
theorem writerTask_body {core start l : Nat} {pending : List (Op Cell)} {rest : List WindowInstr}
    (h : launch.Writing core start l pending) (hdealt : ∀ l' ≤ l, launch.Dealt core (start + l'))
    (hsrc : ∀ op ∈ pending, ∀ s < SLOTS, ∀ i, op.src ≠ scratchAt core (setOf launch.settings l) s i)
    (hrest : ∀ pending', launch.Writing core start (l + 1) pending' →
      Typed launch.discipline ⟨core, .writer⟩ (launch.writes core) pending' rest) :
    Typed launch.discipline ⟨core, .writer⟩ (launch.writes core) pending
      (.acquire (.full core) [⟨core, l % NBUF_IN⟩] ::
        (taskBuilds launch.settings core l ++ ((if launch.settings.copyNoc then [.settle .load] else []) ++
          .release (.free core) [⟨core, l % NBUF_IN⟩] ::
            ((taskWrites launch.args launch.users ((start + l) / PAGES) ((start + l) % PAGES)
              (scratchAt core (setOf launch.settings l))).map .copy ++
              ((if launch.settings.nbuf = 1 then [.settle .store] else []) ++ rest))))) := by
  have hunder := h.underWay fun l' hl' => hdealt l' (by omega)
  have hdst : ∀ op ∈ pending, ∃ a p i, op.dst = .dram a p i := fun op hop => by
    obtain ⟨l', -, s, -, i, -, hd⟩ := h.earlier op hop
    exact ⟨_, _, _, hd⟩
  have hscratch : ∀ op ∈ pending, ∃ tile i, op.src = .scratch core tile i := fun op hop => by
    obtain ⟨l', -, s, -, i, hs, -⟩ := h.earlier op hop
    exact ⟨_, _, hs⟩
  refine .acquire rfl (taskBuilds_typed (fun tile htile i => Or.inr ?_) (fun tile i => Or.inl (Or.inl ⟨tile, i, rfl⟩))
    ⟨fun op hop => ?_, hunder.apart⟩ h.stores hdst hsrc (.release rfl (fun c hc => ⟨Or.inr hc, fun op hop => ?_⟩)
      (List.pairwise_singleton _ _) (Typed.weaken ?_ fun c hc => ⟨Or.inl hc, ?_⟩)))
  · rw [cellsOf_singleton]
    exact ⟨tile, htile, i, rfl⟩
  · exact ⟨(hunder.within op hop).1.imp_left (Or.inl ·), Or.inl (hunder.within op hop).2⟩
  · rw [cellsOf_singleton] at hc
    obtain ⟨tile, -, i, rfl⟩ := hc
    obtain ⟨a, p, j, hd⟩ := hdst op hop
    obtain ⟨tile', i', hs⟩ := hscratch op hop
    rw [hd, hs]
    simp [stagedAt]
  · rcases launch.settings.one_or_two with hone | htwo
    · obtain rfl := h.single hone
      rw [if_pos hone]
      -- with one set of scratch pages the writes land before the next task
      have hissued : UnderWay launch.discipline (launch.writes core)
          (taskWrites launch.args launch.users ((start + l) / PAGES) ((start + l) % PAGES)
            (scratchAt core (setOf launch.settings l))) := by
        refine .of_nodup (fun op hop => ?_) (taskWrites_nodup (hdealt l le_rfl).user _) fun op hop op' hop' heq => ?_
        · obtain ⟨s, hs, i, -, rfl⟩ := mem_taskWrites.mp hop
          exact ⟨Or.inl (Or.inl ⟨_, _, rfl⟩), Or.inr ⟨_, hdealt l le_rfl, s, hs, i, rfl⟩⟩
        · obtain ⟨s, -, i, -, rfl⟩ := mem_taskWrites.mp hop
          obtain ⟨s', -, i', -, rfl⟩ := mem_taskWrites.mp hop'
          cases heq
      exact .phase (fun op hop => by obtain ⟨s, -, i, -, rfl⟩ := mem_taskWrites.mp hop; rfl) hissued
        (hrest [] (.nil core start (l + 1)))
    · have hne : launch.settings.nbuf ≠ 1 := by omega
      rw [if_neg hne, List.nil_append]
      have hissued := h.issued hdealt hne
      exact .copies (hissued.underWay fun l' hl' => hdealt l' (by omega)) (hrest _ hissued)
  · rw [cellsOf_singleton]
    rintro ⟨tile, -, i, rfl⟩
    exact writes_input _ _ _ _ hc

/-- **A task of the writer**, over whatever writes are under way: those from its scratch pages are flushed first. -/
theorem writerTask_typed {core start l : Nat} {pending : List (Op Cell)} {rest : List WindowInstr}
    (h : launch.Writing core start l pending) (hdealt : ∀ l' ≤ l, launch.Dealt core (start + l'))
    (hrest : ∀ pending', launch.Writing core start (l + 1) pending' →
      Typed launch.discipline ⟨core, .writer⟩ (launch.writes core) pending' rest) :
    Typed launch.discipline ⟨core, .writer⟩ (launch.writes core) pending
      (writerTask launch.args launch.users launch.settings core l (start + l) ++ rest) := by
  unfold writerTask
  simp only [List.append_assoc, List.cons_append]
  by_cases hflush : launch.settings.nbuf = 2 ∧ 2 ≤ l
  · rw [if_pos hflush, List.singleton_append]
    exact .drained h.stores (writerTask_body (.nil core start l) hdealt (by simp) hrest)
  · rw [if_neg hflush, List.nil_append]
    refine writerTask_body h hdealt (fun op hop s hs i heq => ?_) hrest
    obtain ⟨l', hl', s', hs', i', hsrc, -⟩ := h.earlier op hop
    rcases launch.settings.one_or_two with hone | htwo
    · rw [h.single hone] at hop
      cases hop
    · -- at task 1 the only writes under way are of task 0, from the other set
      have htile := (Cell.scratch.inj (hsrc.symm.trans heq)).2.1
      simp only [setOf, htwo, if_true, SLOTS, true_and, not_le] at *
      omega

/-- **The writer of a core** builds in scratch pages that no write is taking away. -/
theorem writer_typed {core start count : Nat} (hdealt : ∀ l < count, launch.Dealt core (start + l)) :
    Typed launch.discipline ⟨core, .writer⟩ (launch.writes core) []
      (writer launch.args launch.users launch.settings core start count) := by
  have htasks : ∀ n l pending, l + n = count → launch.Writing core start l pending →
      Typed launch.discipline ⟨core, .writer⟩ (launch.writes core) pending
        (((List.range' l n).flatMap fun l => writerTask launch.args launch.users launch.settings core l (start + l)) ++
          [.settle .store]) := by
    intro n
    induction n with
    | zero => exact fun l pending _ h => .drained h.stores .nil
    | succ n ih =>
      intro l pending hcount h
      rw [List.range'_succ, List.flatMap_cons, List.append_assoc]
      exact writerTask_typed h (fun l' hl' => hdealt l' (by omega)) fun pending' h' => ih (l + 1) pending' (by omega) h'
  have hzeroed : ∀ (indices : List Nat) (rest : List WindowInstr),
      Typed launch.discipline ⟨core, .writer⟩ (launch.writes core) [] rest →
      Typed launch.discipline ⟨core, .writer⟩ (launch.writes core) [] (indices.map (fun index =>
        .compute (filled ((List.range' (2 * FACE) (2 * FACE)).map (.scratch core index)) 0)) ++ rest) := by
    intro indices rest hrest
    induction indices with
    | nil => exact hrest
    | cons index indices ih =>
      refine .fills (fun c hc => ?_) ih
      obtain ⟨i, -, rfl⟩ := List.mem_map.mp hc
      exact ⟨Or.inl ⟨index, i, rfl⟩, by simp⟩
  unfold writer
  rw [List.range_eq_range']
  exact hzeroed _ _ (htasks count 0 [] (Nat.zero_add _) (.nil core start 0))

end Launch

end BlackholeQwen.Gdn.ConvWindows
