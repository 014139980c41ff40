import BlackholeQwen.Lib.Call
import BlackholeQwen.Lib.Indices
import BlackholeQwen.Lib.Pages
import BlackholeQwen.Lib.Tiles

/-!
# Publishing a verified prefix (`scripts/ci/gdn_commit_dma.*`, `scripts/ci/gdn_conv_prefix_copy.*`)

A layer's state is a recurrent state of 384 pages and four convolution states of 160 pages. After a verification the
layer has the state at entry and the history of the states after each row; a publication writes the state after the
accepted prefix to the checkpoint and to slot zero of the native state, which has room for eight users. Two workers a
layer move the pages, of one parity each. The prefix copy restores four convolution states only, with 48 workers, and
may zero its output page once instead of for every task.

- `Publication.publish_exact`: whatever the schedule, a publication leaves the accepted state in the checkpoint and in
  native slot zero, and the other seven users' native states as they were.
- `PrefixCopy.copy_exact`: the prefix copy, with either zeroing, leaves the accepted row in each destination.
- `restores_agree`: both leave the same convolution states.
-/

namespace BlackholeQwen.Gdn.CommitDma

open Lib Lib.Indices Lib.Movers Lib.Pages Lib.Tiles

/-! ## The checks -/

/-- The shape of a tensor. -/
abbrev Shape : Type := List Nat

/-- The shapes of a state: of one user, of all slots, or of a history of rows. -/
def compactShapes : List Shape := [1, 24, 128, 128] :: List.replicate 4 [1, 1, 5120]

def historyShapes (rows : Nat) : List Shape := [rows, 24, 128, 128] :: List.replicate 4 [1, rows, 5120]

def nativeShapes : List Shape := [8, 24, 128, 128] :: List.replicate 4 [1, 8, 5120]

/-- The rows of the histories, from the sixth tensor of the first layer. -/
def packedRows (layers : List (List Shape)) : Nat :=
  if (layers.headD []).length = 20 ∧ ((layers.headD []).getD 5 []).length = 4 then ((layers.headD []).getD 5 []).headD 0
  else 0

/-- `validate_shapes`: the tensors of every layer, and the accepted prefix. -/
def validateShapes (layers : List (List Shape)) (accepted : Nat) : Except PyError Nat := do
  raiseIf (¬(1 ≤ layers.length ∧ layers.length ≤ 48)) (.valueError "One to 48 complete layer records required")
  raiseIf (packedRows layers ∉ [2, 4, 8, 16, 32]) (.valueError "Multirow packed history required")
  raiseIf (∃ layer ∈ layers, layer ≠
      compactShapes ++ (historyShapes (packedRows layers) ++ (nativeShapes ++ compactShapes)))
    (.valueError "Complete entry/history/native/checkpoint geometry required")
  raiseIf (packedRows layers < accepted) (.valueError "Commit prefix outside verified rows")
  pure (packedRows layers)

/-- `prepare`: the checks of the shapes, of the grid and of the addresses on a chip. -/
def prepare (grid : Nat) (layers : List (List Shape)) (accepted : Nat) (addresses : List Nat) : Except PyError Nat := do
  let rows ← validateShapes layers accepted
  raiseIf (grid < layers.length * 2) (.valueError "Two independent workers per layer required")
  raiseIf (¬addresses.Nodup) (.valueError "Layer histories and publication destinations must not alias")
  pure rows

/-- The rows of packed windows. -/
def windowRows (sources : List Shape) : Nat :=
  if sources.length = 4 ∧ (sources.headD []).length = 3 then (sources.headD []).getD 1 0 else 0

/-- `validate_prefix`: four packed windows, four compact destinations, and the prefix. -/
def validatePrefix (sources destinations : List Shape) (accepted : Nat) : Except PyError Nat := do
  raiseIf (windowRows sources ∉ [1, 2, 4, 8, 16, 32]) (.valueError "Supported packed convolution width required")
  raiseIf (∃ shape ∈ sources, shape ≠ [1, windowRows sources, 5120])
    (.valueError "Four identically shaped packed convolution states required")
  raiseIf (destinations.length ≠ 4 ∨ ∃ shape ∈ destinations, shape ≠ [1, 1, 5120])
    (.valueError "Four compact convolution destinations required")
  raiseIf (¬(1 ≤ accepted ∧ accepted ≤ windowRows sources))
    (.valueError "Nonzero prefix within packed windows required")
  pure (windowRows sources)

/-- `copy_prefix`: the checks of the shapes, of the grid and of the addresses on a chip. -/
def copyPrefix (gridX gridY : Nat) (sources destinations : List Shape) (accepted : Nat) (addresses : List Nat) :
    Except PyError Nat := do
  let rows ← validatePrefix sources destinations accepted
  raiseIf (gridX < 8 ∨ gridY < 6) (.valueError "Prefix DMA requires the audited 8x6 worker grid")
  raiseIf (¬addresses.Nodup) (.valueError "Packed snapshots and restore destinations must not alias")
  pure rows

/-! ## The kernels -/

/-- Half-words of a page. -/
abbrev PAGE : Nat := 1024

/-- Pages of a recurrent state. -/
abbrev REC_PAGES : Nat := 384

/-- Pages of a convolution state. -/
abbrev CONV_PAGES : Nat := 160

/-- What a worker is to do: a page of the recurrent state, or a page of one of the four convolution states. -/
inductive Job
  | recurrent (page : Nat)
  | conv (task : Nat)
  deriving DecidableEq, Repr

/-- Two faces of a row of the staged page, as row zero of the output. -/
def compactRow (row : Nat) (staged output : Nat → UInt16) : Nat → UInt16 :=
  (List.range 2).foldl (fun output face => splice output staged (faceStart 0 face) (faceStart row face) 16) output

/-- A page of zeros. -/
def zeroPage : Build UInt16 := ⟨1, fun _ _ => 0⟩

/-- The output page: a row of the staged page. -/
def outputRow (row : Nat) : Build UInt16 := ⟨1, fun slots => compactRow row (slots 0) (slots 1)⟩

/-- A job of `gdn_commit_dma.cpp`: slot 0 is staged, and slot 1 is the output. -/
def commitTask (args : Nat → Nat) (accepted : Nat) : Job → PageTask UInt16
  | .recurrent page =>
    { reads := [if accepted = 0 then ⟨args 0, page, 0, 0, PAGE⟩
        else ⟨args 5, (accepted - 1) * REC_PAGES + page, 0, 0, PAGE⟩]
      builds := []
      writes := [⟨0, args 10, page, 0, PAGE⟩, ⟨0, args 15, page, 0, PAGE⟩] }
  | .conv task =>
    let slot := task / CONV_PAGES
    let page := task % CONV_PAGES
    { reads := [if accepted = 0 then ⟨args (1 + slot), page, 0, 0, PAGE⟩ else ⟨args (6 + slot), page, 0, 0, PAGE⟩]
      builds := [zeroPage, outputRow (if accepted = 0 then 0 else accepted - 1)]
      writes := [⟨1, args (16 + slot), page, 0, PAGE⟩, ⟨1, args (11 + slot), page, 0, 16⟩,
        ⟨1, args (11 + slot), page, 256, 16⟩] }

/-- The jobs of a worker, one of the two of its layer. -/
def commitJobs (worker : Nat) : List Job :=
  (List.range' worker 192 2).map .recurrent ++ (List.range' worker 320 2).map .conv

/-- A task of `gdn_conv_prefix_copy.cpp`. -/
def copyTask (reuse : Bool) (args : Nat → Nat) (accepted task : Nat) : PageTask UInt16 where
  reads := [⟨args (task / CONV_PAGES), task % CONV_PAGES, 0, 0, PAGE⟩]
  builds := (if reuse then [] else [zeroPage]) ++ [outputRow (accepted - 1)]
  writes := [⟨1, args (4 + task / CONV_PAGES), task % CONV_PAGES, 0, PAGE⟩]

/-- What a worker does before its tasks. -/
def copyPrelude (reuse : Bool) : List (Build UInt16) := if reuse then [zeroPage] else []

/-- The tasks of a worker, one of 48. -/
def copyTasks (worker : Nat) : List Nat := List.range' worker ((640 - worker + 47) / 48) 48

/-! ## A job -/

section

variable {args : Nat → Nat} {accepted row task worker page i : Nat} {slots : Slots UInt16} {b : Buffers UInt16}

theorem mem_commitJobs_recurrent : .recurrent page ∈ commitJobs worker ↔ ∃ n < 192, page = worker + 2 * n := by
  simp [commitJobs, List.mem_range']

theorem mem_commitJobs_conv : .conv task ∈ commitJobs worker ↔ ∃ n < 320, task = worker + 2 * n := by
  simp [commitJobs, List.mem_range']

theorem commitJobs_nodup (worker : Nat) : (commitJobs worker).Nodup := by
  refine List.nodup_append.mpr ⟨?_, ?_, fun job hjob job' hjob' heq => ?_⟩
  · exact List.Nodup.map (fun _ _ => Job.recurrent.inj) (List.nodup_range' 2 (by decide))
  · exact List.Nodup.map (fun _ _ => Job.conv.inj) (List.nodup_range' 2 (by decide))
  · obtain ⟨_, -, rfl⟩ := List.mem_map.mp hjob
    obtain ⟨_, -, rfl⟩ := List.mem_map.mp hjob'
    cases heq

/-- What a worker writes for a job says which job it is. -/
theorem commit_writes {job : Job} {w : Write} (hworker : worker < 2) (hjob : job ∈ commitJobs worker)
    (hw : w ∈ (commitTask args accepted job).writes) : ∃ k, 10 ≤ k ∧ k < 20 ∧ w.address = args k ∧
      w.page % 2 = worker ∧ (job = .recurrent w.page ∧ w.page < REC_PAGES ∧ (k = 10 ∨ k = 15) ∨
        w.page < CONV_PAGES ∧ ∃ slot < 4, job = .conv (slot * CONV_PAGES + w.page) ∧
          (k = 11 + slot ∧ (w.start = 0 ∨ w.start = 256) ∧ w.count = 16 ∨ k = 16 + slot)) := by
  simp only [REC_PAGES, CONV_PAGES]
  cases job with
  | recurrent page =>
    obtain ⟨n, hn, rfl⟩ := mem_commitJobs_recurrent.mp hjob
    simp only [commitTask, List.mem_cons, List.not_mem_nil, or_false] at hw
    rcases hw with rfl | rfl
    · exact ⟨10, by omega, by omega, rfl, by simp only; omega, .inl ⟨rfl, by simp only; omega, .inl rfl⟩⟩
    · exact ⟨15, by omega, by omega, rfl, by simp only; omega, .inl ⟨rfl, by simp only; omega, .inr rfl⟩⟩
  | conv task =>
    obtain ⟨n, hn, rfl⟩ := mem_commitJobs_conv.mp hjob
    have hslot : (worker + 2 * n) / 160 < 4 := by omega
    have hjob : Job.conv (worker + 2 * n) =
        .conv ((worker + 2 * n) / 160 * 160 + (worker + 2 * n) % 160) := by
      rw [Nat.div_add_mod']
    simp only [commitTask, CONV_PAGES, List.mem_cons, List.not_mem_nil, or_false] at hw
    rcases hw with rfl | rfl | rfl
    · exact ⟨16 + (worker + 2 * n) / 160, by omega, by omega, rfl, by simp only; omega,
        .inr ⟨Nat.mod_lt _ (by omega), _, hslot, hjob, .inr rfl⟩⟩
    · exact ⟨11 + (worker + 2 * n) / 160, by omega, by omega, rfl, by simp only; omega,
        .inr ⟨Nat.mod_lt _ (by omega), _, hslot, hjob, .inl ⟨rfl, .inl rfl, rfl⟩⟩⟩
    · exact ⟨11 + (worker + 2 * n) / 160, by omega, by omega, rfl, by simp only; omega,
        .inr ⟨Nat.mod_lt _ (by omega), _, hslot, hjob, .inl ⟨rfl, .inr rfl, rfl⟩⟩⟩

/-- What a worker reads for a job. -/
theorem commit_reads {job : Job} {r : Read} (hworker : worker < 2) (hjob : job ∈ commitJobs worker)
    (hr : r ∈ (commitTask args accepted job).reads) : ∃ k < 10, r.address = args k := by
  cases job with
  | recurrent page =>
    obtain rfl := List.mem_singleton.mp hr
    split_ifs
    · exact ⟨0, by omega, rfl⟩
    · exact ⟨5, by omega, rfl⟩
  | conv task =>
    obtain ⟨n, hn, rfl⟩ := mem_commitJobs_conv.mp hjob
    have hslot : (worker + 2 * n) / 160 < 4 := by omega
    obtain rfl := List.mem_singleton.mp hr
    split_ifs
    · exact ⟨1 + (worker + 2 * n) / 160, by omega, rfl⟩
    · exact ⟨6 + (worker + 2 * n) / 160, by omega, rfl⟩

/-- The writes of a job do not meet. -/
theorem commit_apart (job : Job) (hargs : ∀ k, 10 ≤ k → k < 15 → args k ≠ args (k + 5))
    (hjob : ∀ task, job = .conv task → task < 640) : (commitTask args accepted job).writes.Pairwise Write.Apart := by
  cases job with
  | recurrent page =>
    refine List.pairwise_pair.mpr fun h => absurd h (hargs 10 (by omega) (by omega))
  | conv task =>
    have hslot : task / 160 < 4 := by
      have := hjob task rfl
      omega
    have hne : args (16 + task / 160) ≠ args (11 + task / 160) := fun h =>
      hargs (11 + task / 160) (by omega) (by omega)
        (h.symm.trans (congrArg args (show 16 + task / 160 = 11 + task / 160 + 5 by omega)))
    simp only [commitTask, List.pairwise_cons, List.mem_cons, List.not_mem_nil, or_false, forall_eq_or_imp, forall_eq]
    exact ⟨⟨fun h => absurd h hne, fun h => absurd h hne⟩, fun _ _ => Or.inl (by simp only; omega), by simp⟩

/-- The staged page of a convolution, as the output page. -/
theorem outputRow_eq {staged output : Nat → UInt16} :
    compactRow row staged output i = if rowAt i = 0 then staged (moveTo row i) else output i := faces_eq

/-- The slots of a convolution job. -/
theorem conv_slots (hi : i < PAGE) (haccepted : accepted ≤ 32) :
    (commitTask args accepted (.conv task)).slots PAGE (b, slots) 1 i = if rowAt i = 0 then
        if accepted = 0 then b (args (1 + task / CONV_PAGES)) (task % CONV_PAGES) (moveTo 0 i)
        else b (args (6 + task / CONV_PAGES)) (task % CONV_PAGES) (moveTo (accepted - 1) i)
      else 0 := by
  have hplace : ∀ row < 32, moveTo row i < PAGE := fun row hrow => moveTo_lt hrow i
  by_cases h : accepted = 0
  · simp only [commitTask, h, if_true, PageTask.slots, List.foldl_cons, List.foldl_nil]
    rw [Build.run, if_pos ⟨rfl, hi⟩]
    simp only [outputRow]
    rw [outputRow_eq]
    simp [Build.run, zeroPage, Read.run, hplace 0 (by decide), hi]
  · simp only [commitTask, h, if_false, PageTask.slots, List.foldl_cons, List.foldl_nil]
    rw [Build.run, if_pos ⟨rfl, hi⟩]
    simp only [outputRow]
    rw [outputRow_eq]
    simp [Build.run, zeroPage, Read.run, hplace (accepted - 1) (by omega), hi]

/-- The slots of a recurrent job. -/
theorem recurrent_slots (hi : i < PAGE) : (commitTask args accepted (.recurrent page)).slots PAGE (b, slots) 0 i =
    if accepted = 0 then b (args 0) page i else b (args 5) ((accepted - 1) * REC_PAGES + page) i := by
  by_cases h : accepted = 0
  · simp [commitTask, h, PageTask.slots, Read.run, hi]
  · simp [commitTask, h, PageTask.slots, Read.run, hi]

end

/-! ## Publications -/

/-- A publication that passed the checks: every tensor has its address. -/
structure Publication where
  grid : Nat
  layers : List (List Shape)
  accepted : Nat
  addresses : List Nat
  rows : Nat
  made : prepare grid layers accepted addresses = .ok rows
  tensors : addresses.length = layers.flatten.length

/-- What the checks of a publication leave. -/
theorem prepare_ok {grid accepted rows : Nat} {layers : List (List Shape)} {addresses : List Nat}
    (h : prepare grid layers accepted addresses = .ok rows) :
    (∀ layer ∈ layers, layer.length = 20) ∧ accepted ≤ 32 ∧ addresses.Nodup := by
  obtain ⟨_, hshapes, h⟩ := bind_ok h
  obtain ⟨_, -, h⟩ := bind_ok h
  obtain ⟨_, hnodup, -⟩ := bind_ok h
  obtain ⟨_, -, hshapes⟩ := bind_ok hshapes
  obtain ⟨_, hrows, hshapes⟩ := bind_ok hshapes
  obtain ⟨_, hlayers, hshapes⟩ := bind_ok hshapes
  obtain ⟨_, haccepted, -⟩ := bind_ok hshapes
  have hrows := not_not.mp (raiseIf_ok.mp hrows)
  have haccepted := Nat.not_lt.mp (raiseIf_ok.mp haccepted)
  have hbound : packedRows layers ≤ 32 := by
    simp only [List.mem_cons, List.not_mem_nil, or_false] at hrows
    omega
  refine ⟨fun layer hlayer => ?_, Nat.le_trans haccepted hbound, not_not.mp (raiseIf_ok.mp hnodup)⟩
  have hshape : layer = compactShapes ++ (historyShapes (packedRows layers) ++ (nativeShapes ++ compactShapes)) :=
    not_not.mp fun hne => raiseIf_ok.mp hlayers ⟨layer, hlayer, hne⟩
  rw [hshape]
  simp [compactShapes, historyShapes, nativeShapes]

/-- The state of one user. -/
@[ext]
structure LayerState where
  recurrent : Fin REC_PAGES → Fin PAGE → UInt16
  conv : Fin 4 → Fin 5120 → UInt16

/-- A state in the five tensors from `first` on: the pages and the row of a user, or of a row of a history. -/
def stateAt (b : Buffers UInt16) (args : Nat → Nat) (first row : Nat) : LayerState where
  recurrent page i := b (args first) (row * REC_PAGES + page) i
  conv slot column := b (args (first + 1 + slot)) (column / 32) (place row (column % 32))

/-- The state after the accepted prefix: the entry, or a row of the history. -/
def acceptedState (b : Buffers UInt16) (args : Nat → Nat) (accepted : Nat) : LayerState :=
  if accepted = 0 then stateAt b args 0 0 else stateAt b args 5 (accepted - 1)

namespace Publication

variable (p : Publication)

/-- The runtime argument `k` of the workers of a layer. -/
def arg (layer k : Nat) : Nat := p.addresses.getD (layer * 20 + k) 0

/-- The pages that a worker writes. -/
def Own (core address page : Nat) : Prop :=
  ∃ k, 10 ≤ k ∧ k < 20 ∧ address = p.arg (core / 2) k ∧ page % 2 = core % 2

/-- The tensors that are only read. -/
def Input (address : Nat) : Prop := ∃ layer < p.layers.length, ∃ k < 10, address = p.arg layer k

theorem arg_inj {layer layer' k k' : Nat} (hlayer : layer < p.layers.length) (hlayer' : layer' < p.layers.length)
    (hk : k < 20) (hk' : k' < 20) (h : p.arg layer k = p.arg layer' k') : layer = layer' ∧ k = k' := by
  obtain ⟨hlength, -, hnodup⟩ := prepare_ok p.made
  have hsize : p.addresses.length = p.layers.length * 20 := by
    rw [p.tensors, flatten_length hlength]
  have := getD_inj hnodup (by omega) (by omega) h
  omega

theorem accepted_le : p.accepted ≤ 32 := (prepare_ok p.made).2.1

/-- The writes of two jobs of a worker do not meet. -/
theorem jobs_apart {core : Nat} (hcore : core / 2 < p.layers.length) {job job' : Job}
    (hjob : job ∈ commitJobs (core % 2)) (hjob' : job' ∈ commitJobs (core % 2)) (hne : job ≠ job') {w w' : Write}
    (hw : w ∈ (commitTask (p.arg (core / 2)) p.accepted job).writes)
    (hw' : w' ∈ (commitTask (p.arg (core / 2)) p.accepted job').writes) : w.Apart w' := by
  have hmod : core % 2 < 2 := Nat.mod_lt _ (by decide)
  obtain ⟨k, hlow, hhigh, ha, -, hcase⟩ := commit_writes hmod hjob hw
  obtain ⟨k', hlow', hhigh', ha', -, hcase'⟩ := commit_writes hmod hjob' hw'
  intro haddress hpage
  have hk := (p.arg_inj hcore hcore hhigh hhigh' (ha.symm.trans (haddress.trans ha'))).2
  refine absurd ?_ hne
  rcases hcase with ⟨rfl, -, hk₁⟩ | ⟨-, slot, hslot, rfl, hk₁⟩
  · rcases hcase' with ⟨rfl, -, -⟩ | ⟨-, slot', hslot', rfl, hk₂⟩
    · rw [hpage]
    · omega
  · rcases hcase' with ⟨rfl, -, hk₂⟩ | ⟨-, slot', hslot', rfl, hk₂⟩
    · omega
    · have hslots : slot = slot' := by omega
      rw [hpage, hslots]

theorem job_apart {core : Nat} (hcore : core / 2 < p.layers.length) {job : Job} (hjob : job ∈ commitJobs (core % 2)) :
    (commitTask (p.arg (core / 2)) p.accepted job).writes.Pairwise Write.Apart := by
  refine commit_apart job (fun k hlow hhigh h => ?_) fun task htask => ?_
  · have := (p.arg_inj hcore hcore (by omega) (by omega) h).2
    omega
  · subst htask
    obtain ⟨n, hn, rfl⟩ := mem_commitJobs_conv.mp hjob
    omega

/-- The launch, as pages that are moved. -/
def pages : Launch UInt16 where
  size := PAGE
  cores := p.layers.length * 2
  prelude := fun _ => []
  tasks := fun core => (commitJobs (core % 2)).map (commitTask (p.arg (core / 2)) p.accepted)
  own := p.Own
  input := fun address _ => p.Input address
  fits := fun core hcore t ht => by
    have hlayer : core / 2 < p.layers.length := by omega
    have hmod : core % 2 < 2 := Nat.mod_lt _ (by decide)
    obtain ⟨job, hjob, rfl⟩ := List.mem_map.mp ht
    refine ⟨fun r hr => ?_, ?_, fun w hw => ?_, p.job_apart hlayer hjob⟩
    · obtain ⟨k, hk, ha⟩ := commit_reads hmod hjob hr
      exact Or.inr ⟨core / 2, hlayer, k, hk, ha⟩
    · cases job with
      | recurrent page => exact List.pairwise_singleton _ _
      | conv task => exact List.pairwise_singleton _ _
    · obtain ⟨k, hlow, hhigh, ha, hpage, -⟩ := commit_writes hmod hjob hw
      exact ⟨k, hlow, hhigh, ha, hpage⟩
  apart := fun core hcore core' hcore' address page => by
    rintro ⟨k, hlow, hhigh, rfl, hpage⟩ ⟨k', hlow', hhigh', heq, hpage'⟩
    have := (p.arg_inj (by omega) (by omega) hhigh hhigh' heq).1
    omega
  inputs := fun core hcore address page => by
    rintro ⟨k, hlow, hhigh, rfl, -⟩ ⟨layer, hlayer, k', hk', heq⟩
    have := (p.arg_inj (by omega) hlayer hhigh (by omega) heq).2
    omega

section

variable {p} {m : Cell → UInt16} {s : State Nat Cell UInt16 Empty Empty} {ls : List (Act Nat Cell)}
  {layer k page i : Nat}

/-- What a run that has ended has in a page that is written: what the jobs of the page's worker leave there. -/
theorem ended_page (hrun : Run (Steps step) (initial p.pages.programs (fun _ => []) m) ls s) (hend : s.Ended)
    (hlayer : layer < p.layers.length) (hlow : 10 ≤ k) (hhigh : k < 20) :
    (∀ job ∈ commitJobs (page % 2), ∀ w ∈ (commitTask (p.arg layer) p.accepted job).writes,
      w.Covers (p.arg layer k) page i → ∃ slots, s.mem (.dram (p.arg layer k) page i) =
        (commitTask (p.arg layer) p.accepted job).slots PAGE (buffersOf m, slots) w.slot i) ∧
    ((∀ job ∈ commitJobs (page % 2), ∀ w ∈ (commitTask (p.arg layer) p.accepted job).writes,
      ¬w.Covers (p.arg layer k) page i) → s.mem (.dram (p.arg layer k) page i) = m (.dram (p.arg layer k) page i)) := by
  have hdiv : (layer * 2 + page % 2) / 2 = layer := by omega
  have hmod : (layer * 2 + page % 2) % 2 = page % 2 := by omega
  have hcore : layer * 2 + page % 2 < p.pages.cores := by
    show _ < p.layers.length * 2
    omega
  have hown : p.Own (layer * 2 + page % 2) (p.arg layer k) page := ⟨k, hlow, hhigh, by rw [hdiv], hmod.symm⟩
  have hleft := (p.pages.finished hrun hend).1 _ hcore _ _ hown i
  have htasks : p.pages.left (layer * 2 + page % 2) m =
      ((commitJobs (page % 2)).map (commitTask (p.arg layer) p.accepted)).foldl (PageTask.run PAGE)
        (buffersOf m, slotsOf (layer * 2 + page % 2) m) := by
    simp only [Launch.left, pages, hdiv, hmod, List.foldl_nil]
  have hlt : (layer * 2 + page % 2) / 2 < p.layers.length := by rw [hdiv]; exact hlayer
  have hworker : page % 2 < 2 := Nat.mod_lt _ (by decide)
  obtain ⟨hcovered, hkept⟩ := tasks_each PAGE (commitTask (p.arg layer) p.accepted)
    (buffersOf m) (slotsOf (layer * 2 + page % 2) m) (commitJobs_nodup (page % 2)) (fun _ => True)
    (fun _ _ _ _ => trivial) (fun job hjob r hr job' hjob' w hw hsame => by
      obtain ⟨k₁, hk₁, ha₁⟩ := commit_reads hworker hjob hr
      obtain ⟨k₂, hlow₂, hhigh₂, ha₂, -⟩ := commit_writes hworker hjob' hw
      have := (p.arg_inj hlayer hlayer (by omega) hhigh₂ (ha₁.symm.trans (hsame.1.trans ha₂))).2
      omega)
    (fun job hjob => by
      have hjob : job ∈ commitJobs ((layer * 2 + page % 2) % 2) := by
        rw [hmod]
        exact hjob
      have := p.job_apart hlt hjob
      rwa [hdiv] at this)
    (fun job hjob job' hjob' hne w hw w' hw' => by
      rw [← hdiv] at hw hw'
      rw [← hmod] at hjob hjob'
      exact p.jobs_apart hlt hjob hjob' hne hw hw') trivial
  rw [htasks] at hleft
  rw [hleft]
  refine ⟨fun job hjob w hw hcovers => ?_, fun hnone => hkept _ _ _ hnone⟩
  obtain ⟨slots, -, hvalue⟩ := hcovered job hjob w hw _ _ _ hcovers
  exact ⟨slots, hvalue⟩

/-- The recurrent pages of both destinations. -/
theorem ended_recurrent (hrun : Run (Steps step) (initial p.pages.programs (fun _ => []) m) ls s) (hend : s.Ended)
    (hlayer : layer < p.layers.length) (hk : k = 10 ∨ k = 15) (hpage : page < REC_PAGES) (hi : i < PAGE) :
    s.mem (.dram (p.arg layer k) page i) = if p.accepted = 0 then m (.dram (p.arg layer 0) page i)
      else m (.dram (p.arg layer 5) ((p.accepted - 1) * REC_PAGES + page) i) := by
  have hjob : .recurrent page ∈ commitJobs (page % 2) :=
    mem_commitJobs_recurrent.mpr ⟨page / 2, by simp only [REC_PAGES] at hpage; omega, by omega⟩
  have hpages := @ended_page p m s ls layer k page i hrun hend hlayer (by omega) (by omega)
  have hwrite : ∃ w ∈ (commitTask (p.arg layer) p.accepted (.recurrent page)).writes,
      w.Covers (p.arg layer k) page i ∧ w.slot = 0 := by
    rcases hk with rfl | rfl
    · exact ⟨⟨0, p.arg layer 10, page, 0, PAGE⟩, by simp [commitTask], ⟨rfl, rfl, Nat.zero_le _, by simpa using hi⟩,
        rfl⟩
    · exact ⟨⟨0, p.arg layer 15, page, 0, PAGE⟩, by simp [commitTask], ⟨rfl, rfl, Nat.zero_le _, by simpa using hi⟩,
        rfl⟩
  obtain ⟨w, hw, hcovers, hslot⟩ := hwrite
  obtain ⟨slots, hvalue⟩ := hpages.1 _ hjob w hw hcovers
  rw [hvalue, hslot, recurrent_slots hi]
  rfl

/-- The convolution pages of the checkpoint, and the row of native slot zero. -/
theorem ended_conv (hrun : Run (Steps step) (initial p.pages.programs (fun _ => []) m) ls s) (hend : s.Ended)
    (hlayer : layer < p.layers.length) {slot : Nat} (hslot : slot < 4)
    (hk : k = 16 + slot ∨ k = 11 + slot ∧ (i < 16 ∨ 256 ≤ i ∧ i < 272)) (hpage : page < CONV_PAGES) (hi : i < PAGE) :
    s.mem (.dram (p.arg layer k) page i) = if rowAt i = 0 then
        if p.accepted = 0 then m (.dram (p.arg layer (1 + slot)) page (moveTo 0 i))
        else m (.dram (p.arg layer (6 + slot)) page (moveTo (p.accepted - 1) i))
      else 0 := by
  simp only [CONV_PAGES] at hpage
  have hdiv : (slot * 160 + page) / 160 = slot := by omega
  have hmod : (slot * 160 + page) % 160 = page := by omega
  have hjob : .conv (slot * 160 + page) ∈ commitJobs (page % 2) :=
    mem_commitJobs_conv.mpr ⟨(slot * 160 + page) / 2, by omega, by omega⟩
  have hpages := @ended_page p m s ls layer k page i hrun hend hlayer (by omega) (by omega)
  have hwrite : ∃ w ∈ (commitTask (p.arg layer) p.accepted (.conv (slot * 160 + page))).writes,
      w.Covers (p.arg layer k) page i ∧ w.slot = 1 := by
    simp only [commitTask, CONV_PAGES, hdiv, hmod, List.mem_cons, List.not_mem_nil, or_false]
    rcases hk with rfl | ⟨rfl, hleft | hright⟩
    · exact ⟨_, .inl rfl, ⟨rfl, rfl, Nat.zero_le _, by simpa using hi⟩, rfl⟩
    · exact ⟨_, .inr (.inl rfl), ⟨rfl, rfl, Nat.zero_le _, by simpa using hleft⟩, rfl⟩
    · exact ⟨_, .inr (.inr rfl), ⟨rfl, rfl, hright.1, hright.2⟩, rfl⟩
  obtain ⟨w, hw, hcovers, hone⟩ := hwrite
  obtain ⟨slots, hvalue⟩ := hpages.1 _ hjob w hw hcovers
  rw [hvalue, hone, conv_slots hi p.accepted_le, show (slot * 160 + page) / CONV_PAGES = slot from hdiv,
    show (slot * 160 + page) % CONV_PAGES = page from hmod]
  rfl

/-- Both destinations have the accepted state. -/
theorem ended_accepted (hrun : Run (Steps step) (initial p.pages.programs (fun _ => []) m) ls s) (hend : s.Ended)
    (hlayer : layer < p.layers.length) {first : Nat} (hfirst : first = 10 ∨ first = 15) :
    stateAt (buffersOf s.mem) (p.arg layer) first 0 = acceptedState (buffersOf m) (p.arg layer) p.accepted := by
  have hrec : ∀ page < REC_PAGES, ∀ i < PAGE, s.mem (.dram (p.arg layer first) (0 * REC_PAGES + page) i) =
      if p.accepted = 0 then m (.dram (p.arg layer 0) page i)
      else m (.dram (p.arg layer 5) ((p.accepted - 1) * REC_PAGES + page) i) := fun page hpage i hi => by
    rw [Nat.zero_mul, Nat.zero_add]
    exact p.ended_recurrent hrun hend hlayer hfirst hpage hi
  have hconv : ∀ slot < 4, ∀ column < 5120,
      s.mem (.dram (p.arg layer (first + 1 + slot)) (column / 32) (place 0 (column % 32))) =
        if p.accepted = 0 then m (.dram (p.arg layer (1 + slot)) (column / 32) (place 0 (column % 32)))
        else m (.dram (p.arg layer (6 + slot)) (column / 32) (place (p.accepted - 1) (column % 32))) := by
    intro slot hslot column hcolumn
    have hmod : column % 32 < 32 := Nat.mod_lt _ (by decide)
    have hspan : place 0 (column % 32) < 16 ∨ 256 ≤ place 0 (column % 32) ∧ place 0 (column % 32) < 272 := by
      simp only [place, faceStart]
      omega
    have hpage : column / 32 < CONV_PAGES := by
      simp only [CONV_PAGES]
      omega
    rw [p.ended_conv hrun hend hlayer hslot (by omega) hpage (place_lt (by decide) hmod),
      if_pos (rowAt_place hmod), moveTo_place hmod, moveTo_place hmod]
  unfold acceptedState
  split_ifs with hzero
  · refine LayerState.ext (funext fun page => funext fun i => ?_) (funext fun slot => funext fun column => ?_)
    · refine (hrec page page.isLt i i.isLt).trans ?_
      rw [if_pos hzero, ← Nat.zero_add page.val, ← Nat.zero_mul REC_PAGES]
      rfl
    · refine (hconv slot slot.isLt column column.isLt).trans ?_
      rw [if_pos hzero]
      rfl
  · refine LayerState.ext (funext fun page => funext fun i => ?_) (funext fun slot => funext fun column => ?_)
    · exact (hrec page page.isLt i i.isLt).trans (if_neg hzero)
    · exact (hconv slot slot.isLt column column.isLt).trans (if_neg hzero)

/-- The other users' pages and rows of the native state. -/
theorem ended_native (hrun : Run (Steps step) (initial p.pages.programs (fun _ => []) m) ls s) (hend : s.Ended)
    (hlayer : layer < p.layers.length) (hlow : 10 ≤ k) (hhigh : k < 15)
    (hother : k = 10 ∧ REC_PAGES ≤ page ∨ k ≠ 10 ∧ ¬(i < 16 ∨ 256 ≤ i ∧ i < 272)) :
    s.mem (.dram (p.arg layer k) page i) = m (.dram (p.arg layer k) page i) := by
  refine (ended_page hrun hend hlayer hlow (by omega)).2 fun job hjob w hw hcovers => ?_
  obtain ⟨k', -, hhigh', ha, -, hcase⟩ := commit_writes (Nat.mod_lt _ (by decide)) hjob hw
  obtain ⟨haddress, hpage, hstart, hstop⟩ := hcovers
  have hk := (p.arg_inj hlayer hlayer (by omega) hhigh' (haddress.trans ha)).2
  rcases hcase with ⟨-, hbound, hk'⟩ | ⟨-, slot, hslot, -, hk'⟩
  · omega
  · omega

end

end Publication

/-- **Main result: a publication is exact under every schedule.** No run is stuck before all workers have ended, and
one that has ended has the accepted state in the checkpoint and in native slot zero of every layer, the other users'
native states as they were, and every other buffer too. -/
theorem Publication.publish_exact (p : Publication) {m : Cell → UInt16} {s : State Nat Cell UInt16 Empty Empty}
    {ls : List (Act Nat Cell)} (hrun : Run (Steps step) (initial p.pages.programs (fun _ => []) m) ls s) :
    (¬s.Ended → ∃ l s', step s l = some s') ∧
    (s.Ended → (∀ layer < p.layers.length,
        stateAt (buffersOf s.mem) (p.arg layer) 15 0 = acceptedState (buffersOf m) (p.arg layer) p.accepted ∧
        stateAt (buffersOf s.mem) (p.arg layer) 10 0 = acceptedState (buffersOf m) (p.arg layer) p.accepted ∧
        ∀ user, 0 < user → user < 8 →
          stateAt (buffersOf s.mem) (p.arg layer) 10 user = stateAt (buffersOf m) (p.arg layer) 10 user) ∧
      ∀ address, (∀ layer < p.layers.length, ∀ k, 10 ≤ k → k < 20 → address ≠ p.arg layer k) →
        ∀ page i, s.mem (.dram address page i) = m (.dram address page i)) := by
  refine ⟨p.pages.live hrun, fun hend => ⟨fun layer hlayer => ?_, fun address hother page i => ?_⟩⟩
  · refine ⟨ended_accepted hrun hend hlayer (.inr rfl), ended_accepted hrun hend hlayer (.inl rfl),
      fun user hlow hhigh => ?_⟩
    refine LayerState.ext (funext fun page => funext fun i => ?_) (funext fun slot => funext fun column => ?_)
    · exact p.ended_native hrun hend hlayer (by omega) (by omega) (.inl ⟨rfl, by simp only [REC_PAGES]; omega⟩)
    · have hslot := slot.isLt
      refine p.ended_native hrun hend hlayer (by omega) (by omega) (.inr ⟨by omega, ?_⟩)
      simp only [place, faceStart]
      omega
  · refine (p.pages.finished hrun hend).2 address page (fun core hcore => ?_) i
    rintro ⟨k, hlow, hhigh, heq, -⟩
    have hcore : core < p.layers.length * 2 := hcore
    exact hother (core / 2) (by omega) k hlow hhigh heq

/-- Two layers with histories of two rows, of which the first is accepted. -/
def samplePublication : Publication where
  grid := 4
  layers := List.replicate 2 (compactShapes ++ (historyShapes 2 ++ (nativeShapes ++ compactShapes)))
  accepted := 1
  addresses := List.range 40
  rows := 2
  made := rfl
  tensors := rfl

/-- Every buffer holds its address. -/
def addressMem : Cell → UInt16
  | .dram address _ _ => UInt16.ofNat address
  | .core _ _ _ => 0

/-- The second layer's checkpoint, after the first row. -/
theorem samplePublication_published : ∃ s ls,
    Run (Steps step) (initial samplePublication.pages.programs (fun _ => []) addressMem) ls s ∧ s.Ended ∧
    (stateAt (buffersOf s.mem) (samplePublication.arg 1) 15 0).conv = fun slot _ => UInt16.ofNat (26 + slot.val) := by
  obtain ⟨s, ls, hrun, hend⟩ := samplePublication.pages.exists_run addressMem
  have hstate := (((samplePublication.publish_exact hrun).2 hend).1 1 (by decide)).1
  have harg : ∀ slot : Fin 4, samplePublication.arg 1 (5 + 1 + slot.val) = 26 + slot.val := by decide
  refine ⟨s, ls, hrun, hend, ?_⟩
  rw [hstate]
  exact funext fun slot => funext fun _ => congrArg UInt16.ofNat (harg slot)

/-! ## The prefix copy -/

section

variable {args : Nat → Nat} {accepted task worker i : Nat} {slots : Slots UInt16} {b : Buffers UInt16} {reuse : Bool}

theorem mem_copyTasks (hworker : worker < 48) : task ∈ copyTasks worker ↔ task < 640 ∧ task % 48 = worker := by
  rw [copyTasks, List.mem_range']
  constructor
  · rintro ⟨n, hn, rfl⟩
    omega
  · intro ⟨hlt, hmod⟩
    exact ⟨task / 48, by omega, by omega⟩

/-- With one zeroing, the rows of the output page after row zero stay zero. -/
def Cleared (reuse : Bool) (slots : Slots UInt16) : Prop := reuse = true → ∀ i < PAGE, rowAt i ≠ 0 → slots 1 i = 0

theorem copyPrelude_cleared : Cleared reuse ((copyPrelude reuse).foldl (Build.run PAGE) slots) := by
  intro hreuse i hi _
  simp [copyPrelude, hreuse, Build.run, zeroPage, hi]

/-- The output page of a task. -/
theorem copy_slots (hslots : Cleared reuse slots) (haccepted : accepted ≤ 32) (hi : i < PAGE) :
    (copyTask reuse args accepted task).slots PAGE (b, slots) 1 i =
      if rowAt i = 0 then b (args (task / CONV_PAGES)) (task % CONV_PAGES) (moveTo (accepted - 1) i) else 0 := by
  have hplace : moveTo (accepted - 1) i < PAGE := moveTo_lt (by omega) i
  cases reuse with
  | false =>
    simp only [copyTask, PageTask.slots, List.foldl_cons, List.foldl_nil, List.cons_append, List.nil_append,
      Bool.false_eq_true, if_false]
    rw [Build.run, if_pos ⟨rfl, hi⟩]
    simp only [outputRow]
    rw [outputRow_eq]
    simp [Build.run, zeroPage, Read.run, hplace, hi]
  | true =>
    simp only [copyTask, PageTask.slots, List.foldl_cons, List.foldl_nil, List.nil_append, if_true]
    rw [Build.run, if_pos ⟨rfl, hi⟩]
    simp only [outputRow]
    rw [outputRow_eq]
    split_ifs with hrow
    · simp [Read.run, hplace]
    · simpa [Read.run] using hslots rfl i hi hrow

theorem copyTask_cleared (hslots : Cleared reuse slots) (haccepted : accepted ≤ 32) :
    Cleared reuse ((copyTask reuse args accepted task).slots PAGE (b, slots)) := fun _ i hi hrow => by
  rw [copy_slots hslots haccepted hi, if_neg hrow]

end

/-- A prefix copy that passed the checks: every tensor has its address. -/
structure PrefixCopy where
  gridX : Nat
  gridY : Nat
  sources : List Shape
  destinations : List Shape
  accepted : Nat
  addresses : List Nat
  rows : Nat
  reuse : Bool
  made : copyPrefix gridX gridY sources destinations accepted addresses = .ok rows
  tensors : addresses.length = sources.length + destinations.length

/-- What the checks of a prefix copy leave. -/
theorem copyPrefix_ok {gridX gridY accepted rows : Nat} {sources destinations : List Shape} {addresses : List Nat}
    (h : copyPrefix gridX gridY sources destinations accepted addresses = .ok rows) :
    sources.length = 4 ∧ destinations.length = 4 ∧ accepted ≤ 32 ∧ addresses.Nodup := by
  obtain ⟨_, hshapes, h⟩ := bind_ok h
  obtain ⟨_, -, h⟩ := bind_ok h
  obtain ⟨_, hnodup, -⟩ := bind_ok h
  obtain ⟨_, hrows, hshapes⟩ := bind_ok hshapes
  obtain ⟨_, -, hshapes⟩ := bind_ok hshapes
  obtain ⟨_, hdestinations, hshapes⟩ := bind_ok hshapes
  obtain ⟨_, haccepted, -⟩ := bind_ok hshapes
  have hrows := not_not.mp (raiseIf_ok.mp hrows)
  have haccepted := not_not.mp (raiseIf_ok.mp haccepted)
  have hdestinations := raiseIf_ok.mp hdestinations
  have hsources : sources.length = 4 := by
    by_contra hne
    rw [windowRows, if_neg fun hboth => hne hboth.1] at hrows
    exact absurd hrows (by decide)
  simp only [List.mem_cons, List.not_mem_nil, or_false] at hrows
  exact ⟨hsources, by_contra fun hne => hdestinations (.inl hne), by omega, not_not.mp (raiseIf_ok.mp hnodup)⟩

namespace PrefixCopy

variable (c : PrefixCopy)

/-- The runtime argument `k`. -/
def arg (k : Nat) : Nat := c.addresses.getD k 0

/-- The pages that a worker writes. -/
def Own (core address page : Nat) : Prop :=
  ∃ slot < 4, address = c.arg (4 + slot) ∧ page < CONV_PAGES ∧ (slot * CONV_PAGES + page) % 48 = core

/-- The tensors that are only read. -/
def Input (address : Nat) : Prop := ∃ slot < 4, address = c.arg slot

theorem arg_inj {k k' : Nat} (hk : k < 8) (hk' : k' < 8) (h : c.arg k = c.arg k') : k = k' := by
  obtain ⟨hsources, hdestinations, -, hnodup⟩ := copyPrefix_ok c.made
  have hsize : c.addresses.length = 8 := by rw [c.tensors, hsources, hdestinations]
  exact getD_inj hnodup (by omega) (by omega) h

theorem accepted_le : c.accepted ≤ 32 := (copyPrefix_ok c.made).2.2.1

/-- The launch, as pages that are moved. -/
def pages : Launch UInt16 where
  size := PAGE
  cores := 48
  prelude := fun _ => copyPrelude c.reuse
  tasks := fun core => (copyTasks core).map (copyTask c.reuse c.arg c.accepted)
  own := c.Own
  input := fun address _ => c.Input address
  fits := fun core hcore t ht => by
    obtain ⟨task, htask, rfl⟩ := List.mem_map.mp ht
    obtain ⟨hlt, hmod⟩ := (mem_copyTasks hcore).mp htask
    have hslot : task / 160 < 4 := by omega
    refine ⟨fun r hr => ?_, List.pairwise_singleton _ _, fun w hw => ?_, List.pairwise_singleton _ _⟩
    · obtain rfl := List.mem_singleton.mp hr
      exact Or.inr ⟨task / 160, hslot, rfl⟩
    · obtain rfl := List.mem_singleton.mp hw
      refine ⟨task / 160, hslot, rfl, Nat.mod_lt _ (by decide), ?_⟩
      show (task / 160 * 160 + task % 160) % 48 = core
      rw [Nat.div_add_mod', hmod]
  apart := fun core _ core' _ address page => by
    rintro ⟨slot, hslot, rfl, -, rfl⟩ ⟨slot', hslot', heq, -, rfl⟩
    have : slot = slot' := by
      have := c.arg_inj (by omega) (by omega) heq
      omega
    rw [this]
  inputs := fun core _ address page => by
    rintro ⟨slot, hslot, rfl, -⟩ ⟨slot', hslot', heq⟩
    have := c.arg_inj (by omega) (by omega) heq
    omega

/-- The pages of the destinations, after a run that has ended. -/
theorem ended_page {c : PrefixCopy} {m : Cell → UInt16} {s : State Nat Cell UInt16 Empty Empty}
    {ls : List (Act Nat Cell)} {slot page i : Nat}
    (hrun : Run (Steps step) (initial c.pages.programs (fun _ => []) m) ls s) (hend : s.Ended) (hslot : slot < 4)
    (hpage : page < CONV_PAGES) (hi : i < PAGE) : s.mem (.dram (c.arg (4 + slot)) page i) =
      if rowAt i = 0 then m (.dram (c.arg slot) page (moveTo (c.accepted - 1) i)) else 0 := by
  simp only [CONV_PAGES] at hpage
  have hdiv : (slot * 160 + page) / 160 = slot := by omega
  have hmod : (slot * 160 + page) % 160 = page := by omega
  have hcore : (slot * 160 + page) % 48 < 48 := Nat.mod_lt _ (by decide)
  have hown : c.Own ((slot * 160 + page) % 48) (c.arg (4 + slot)) page := ⟨slot, hslot, rfl, hpage, rfl⟩
  have hleft := (c.pages.finished hrun hend).1 _ hcore _ _ hown i
  have hmem : slot * 160 + page ∈ copyTasks ((slot * 160 + page) % 48) :=
    (mem_copyTasks hcore).mpr ⟨by omega, rfl⟩
  have hbound : ∀ task ∈ copyTasks ((slot * 160 + page) % 48), task / 160 < 4 := fun task htask => by
    have := ((mem_copyTasks hcore).mp htask).1
    omega
  have hcleared : Cleared c.reuse
      ((copyPrelude c.reuse).foldl (Build.run PAGE) (slotsOf ((slot * 160 + page) % 48) m)) := copyPrelude_cleared
  have heach := tasks_each PAGE (copyTask c.reuse c.arg c.accepted) (buffersOf m) _
    (List.nodup_range' 48 (by decide) : (copyTasks ((slot * 160 + page) % 48)).Nodup) (Cleared c.reuse)
    (fun task _ slots hslots => copyTask_cleared hslots c.accepted_le)
    (fun task htask r hr task' htask' w hw hsame => by
      obtain rfl := List.mem_singleton.mp hr
      obtain rfl := List.mem_singleton.mp hw
      have hlow := hbound task htask
      have hlow' := hbound task' htask'
      have := c.arg_inj (by omega) (by omega) (show c.arg (task / 160) = c.arg (4 + task' / 160) from hsame.1)
      omega)
    (fun task _ => List.pairwise_singleton _ _)
    (fun task htask task' htask' hne w hw w' hw' => by
      obtain rfl := List.mem_singleton.mp hw
      obtain rfl := List.mem_singleton.mp hw'
      intro haddress hpages
      have hlow := hbound task htask
      have hlow' := hbound task' htask'
      have hsame := c.arg_inj (by omega) (by omega)
        (show c.arg (4 + task / 160) = c.arg (4 + task' / 160) from haddress)
      have hpages : task % 160 = task' % 160 := hpages
      exact absurd (by omega) hne)
    hcleared
  obtain ⟨slots, hslots, hvalue⟩ := heach.1 _ hmem ⟨1, c.arg (4 + (slot * 160 + page) / 160),
    (slot * 160 + page) % 160, 0, PAGE⟩
    (List.mem_singleton_self _) (c.arg (4 + slot)) page i
    ⟨by rw [hdiv], hmod.symm, Nat.zero_le _, by simpa using hi⟩
  refine hleft.trans (hvalue.trans ?_)
  rw [copy_slots hslots c.accepted_le hi, show (slot * 160 + page) / CONV_PAGES = slot from hdiv,
    show (slot * 160 + page) % CONV_PAGES = page from hmod]
  rfl

end PrefixCopy

/-- **Main result: the prefix copy is exact under every schedule**, with either zeroing. No run is stuck before all
workers have ended, and one that has ended has in row zero of every destination the accepted row of its source, zeros
in the rows after it, and every other page as it was. -/
theorem PrefixCopy.copy_exact (c : PrefixCopy) {m : Cell → UInt16} {s : State Nat Cell UInt16 Empty Empty}
    {ls : List (Act Nat Cell)} (hrun : Run (Steps step) (initial c.pages.programs (fun _ => []) m) ls s) :
    (¬s.Ended → ∃ l s', step s l = some s') ∧
    (s.Ended → (∀ slot < 4, ∀ column < 5120, ∀ row < 32,
        s.mem (.dram (c.arg (4 + slot)) (column / 32) (place row (column % 32))) =
          if row = 0 then m (.dram (c.arg slot) (column / 32) (place (c.accepted - 1) (column % 32))) else 0) ∧
      ∀ address page, (∀ slot < 4, address = c.arg (4 + slot) → CONV_PAGES ≤ page) →
        ∀ i, s.mem (.dram address page i) = m (.dram address page i)) := by
  refine ⟨c.pages.live hrun,
    fun hend => ⟨fun slot hslot column hcolumn row hrow => ?_, fun address page hother i => ?_⟩⟩
  · have hmod : column % 32 < 32 := Nat.mod_lt _ (by decide)
    have hpage : column / 32 < CONV_PAGES := by
      simp only [CONV_PAGES]
      omega
    rw [c.ended_page hrun hend hslot hpage (place_lt hrow hmod), rowAt_place hmod, moveTo_place hmod]
  · refine (c.pages.finished hrun hend).2 address page (fun core _ => ?_) i
    rintro ⟨slot, hslot, heq, hpage, -⟩
    exact Nat.not_lt.mpr (hother slot hslot heq) hpage

/-- Four windows of two rows, of which both are accepted. -/
def sampleCopy : PrefixCopy where
  gridX := 8
  gridY := 6
  sources := List.replicate 4 [1, 2, 5120]
  destinations := List.replicate 4 [1, 1, 5120]
  accepted := 2
  addresses := List.range 8
  rows := 2
  reuse := true
  made := rfl
  tensors := rfl

/-- The last destination, with one zeroing. -/
theorem sampleCopy_copied : ∃ s ls, Run (Steps step) (initial sampleCopy.pages.programs (fun _ => []) fun _ => 5) ls s ∧
    s.Ended ∧ s.mem (.dram 7 159 (place 0 31)) = 5 ∧ s.mem (.dram 7 159 (place 1 31)) = 0 := by
  obtain ⟨s, ls, hrun, hend⟩ := sampleCopy.pages.exists_run fun _ => 5
  have hcopied := ((sampleCopy.copy_exact hrun).2 hend).1 3 (by decide) 5119 (by decide)
  exact ⟨s, ls, hrun, hend, hcopied 0 (by decide), hcopied 1 (by decide)⟩

/-- **The two restores agree**: whatever their schedules and the zeroing, a publication of a nonzero prefix and a prefix
copy of the same history that have ended leave the same convolution states, page by page. -/
theorem restores_agree (p : Publication) (c : PrefixCopy) {layer : Nat} (hlayer : layer < p.layers.length)
    (haccepted : c.accepted = p.accepted) (hpositive : 0 < p.accepted) {m m' : Cell → UInt16}
    (hsame : ∀ slot < 4, ∀ page < CONV_PAGES, ∀ i < PAGE,
      m' (.dram (c.arg slot) page i) = m (.dram (p.arg layer (6 + slot)) page i))
    {s s' : State Nat Cell UInt16 Empty Empty} {ls ls' : List (Act Nat Cell)}
    (hrun : Run (Steps step) (initial p.pages.programs (fun _ => []) m) ls s) (hend : s.Ended)
    (hrun' : Run (Steps step) (initial c.pages.programs (fun _ => []) m') ls' s') (hend' : s'.Ended) :
    ∀ slot < 4, ∀ page < CONV_PAGES, ∀ i < PAGE,
      s'.mem (.dram (c.arg (4 + slot)) page i) = s.mem (.dram (p.arg layer (16 + slot)) page i) := by
  intro slot hslot page hpage i hi
  have hbound := p.accepted_le
  rw [c.ended_page hrun' hend' hslot hpage hi, p.ended_conv hrun hend hlayer hslot (.inl rfl) hpage hi,
    if_neg (Nat.pos_iff_ne_zero.mp hpositive), haccepted,
    hsame slot hslot page hpage _ (moveTo_lt (show p.accepted - 1 < 32 by omega) i)]

/-- One layer of `samplePublication` against a copy of its first row. -/
def sampleRestore : PrefixCopy where
  gridX := 8
  gridY := 6
  sources := List.replicate 4 [1, 2, 5120]
  destinations := List.replicate 4 [1, 1, 5120]
  accepted := 1
  addresses := [26, 27, 28, 29, 90, 91, 92, 93]
  rows := 2
  reuse := false
  made := rfl
  tensors := rfl

/-- Both leave the same in the first convolution state. -/
theorem sampleRestore_agrees : ∃ s ls s' ls',
    Run (Steps step) (initial samplePublication.pages.programs (fun _ => []) fun _ => 5) ls s ∧ s.Ended ∧
    Run (Steps step) (initial sampleRestore.pages.programs (fun _ => []) fun _ => 5) ls' s' ∧ s'.Ended ∧
    ∀ page < CONV_PAGES, ∀ i < PAGE, s'.mem (.dram 90 page i) = s.mem (.dram 36 page i) := by
  obtain ⟨s, ls, hrun, hend⟩ := samplePublication.pages.exists_run fun _ => 5
  obtain ⟨s', ls', hrun', hend'⟩ := sampleRestore.pages.exists_run fun _ => 5
  exact ⟨s, ls, s', ls', hrun, hend, hrun', hend',
    restores_agree samplePublication sampleRestore (show 1 < samplePublication.layers.length by decide) rfl (by decide)
      (fun _ _ _ _ _ _ => rfl)
      hrun hend hrun' hend' 0 (by decide)⟩

end BlackholeQwen.Gdn.CommitDma
