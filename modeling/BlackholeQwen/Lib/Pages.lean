import BlackholeQwen.Lib.Interleave
import BlackholeQwen.Lib.Writes
import Mathlib.Data.List.Nodup

/-!
# Kernels that move pages

A core of its own for every worker, and buffers that all of them share. A worker's program is some computations on the
pages of its core, and then tasks: pages read to the core, computations on the core, spans of its pages written; reads
and writes are transfers of single elements, settled before the task goes on.

`PageTask.run` is what a task does to the buffers and to the pages of the core at once, and `serial_task` that the
transfers one after the other do the same. Tasks that write apart and read only inputs leave each place as its own
task builds it (`tasks_each`). In a `Launch` every page is owned by one worker, or is an input, or is left alone:
`Launch.finished` says that, whatever the schedule, each page ends as its owner alone leaves it.
-/

namespace Lib.Pages

open Lib.Movers

/-! ## Tasks -/

/-- Elements of the pages of a buffer, and of the pages of a core. -/
inductive Cell
  | dram (address page i : Nat)
  | core (core slot i : Nat)
  deriving DecidableEq, Repr

/-- An instruction. -/
abbrev PageInstr (ν : Type) : Type := Instr Cell ν Empty Empty

/-- The elements of the buffers. -/
abbrev Buffers (ν : Type) : Type := Nat → Nat → Nat → ν

/-- The elements of the pages of a core. -/
abbrev Slots (ν : Type) : Type := Nat → Nat → ν

variable {ν : Type}

/-- A span of a page read to the same place of a slot of the core. -/
structure Read where
  address : Nat
  page : Nat
  slot : Nat
  start : Nat
  count : Nat
  deriving DecidableEq, Repr

/-- A span of a slot written to the same place of a page. -/
structure Write where
  slot : Nat
  address : Nat
  page : Nat
  start : Nat
  count : Nat
  deriving DecidableEq, Repr

/-- A computation of a slot from the slots. -/
structure Build (ν : Type) where
  slot : Nat
  value : Slots ν → Nat → ν

/-- A task. -/
structure PageTask (ν : Type) where
  reads : List Read
  builds : List (Build ν)
  writes : List Write

/-- The transfers of a read. -/
def Read.ops (core : Nat) (r : Read) : List (Op Cell) :=
  (List.range' r.start r.count).map fun i => ⟨.load, .dram r.address r.page i, .core core r.slot i⟩

/-- The transfers of a write. -/
def Write.ops (core : Nat) (w : Write) : List (Op Cell) :=
  (List.range' w.start w.count).map fun i => ⟨.store, .core core w.slot i, .dram w.address w.page i⟩

/-- A computation, on the memory. -/
def Build.apply (size core : Nat) (b : Build ν) (m : Cell → ν) : Cell → ν
  | .dram address page i => m (.dram address page i)
  | .core core' slot i =>
    if core' = core ∧ slot = b.slot ∧ i < size then b.value (fun slot i => m (.core core slot i)) i
    else m (.core core' slot i)

/-- The instructions of a task. -/
def PageTask.program (size core : Nat) (t : PageTask ν) : List (PageInstr ν) :=
  (t.reads.flatMap (Read.ops core)).map .copy ++ .settle .load ::
    (t.builds.map (fun b => .compute (b.apply size core)) ++
      ((t.writes.flatMap (Write.ops core)).map .copy ++ [.settle .store]))

/-! ## What a task does -/

/-- A slot after a read. -/
def Read.run (buffers : Buffers ν) (slots : Slots ν) (r : Read) : Slots ν := fun slot i =>
  if slot = r.slot ∧ r.start ≤ i ∧ i < r.start + r.count then buffers r.address r.page i else slots slot i

/-- A slot after a computation. -/
def Build.run (size : Nat) (slots : Slots ν) (b : Build ν) : Slots ν := fun slot i =>
  if slot = b.slot ∧ i < size then b.value slots i else slots slot i

/-- The buffers after a write. -/
def Write.run (slots : Slots ν) (buffers : Buffers ν) (w : Write) : Buffers ν := fun address page i =>
  if address = w.address ∧ page = w.page ∧ w.start ≤ i ∧ i < w.start + w.count then slots w.slot i
  else buffers address page i

/-- The slots that a task writes from. -/
def PageTask.slots (size : Nat) (s : Buffers ν × Slots ν) (t : PageTask ν) : Slots ν :=
  t.builds.foldl (Build.run size) (t.reads.foldl (Read.run s.1) s.2)

/-- The buffers and the slots after a task. -/
def PageTask.run (size : Nat) (s : Buffers ν × Slots ν) (t : PageTask ν) : Buffers ν × Slots ν :=
  (t.writes.foldl (Write.run (t.slots size s)) s.1, t.slots size s)

/-- The buffers of a memory. -/
def buffersOf (m : Cell → ν) : Buffers ν := fun address page i => m (.dram address page i)

/-- The slots of a core. -/
def slotsOf (core : Nat) (m : Cell → ν) : Slots ν := fun slot i => m (.core core slot i)

section

variable (core : Nat) {m : Cell → ν}

theorem read_moved (r : Read) : buffersOf (moved (r.ops core) m) = buffersOf m ∧
    slotsOf core (moved (r.ops core) m) = r.run (buffersOf m) (slotsOf core m) := by
  have hmem : ∀ op, op ∈ r.ops core ↔ ∃ i, r.start ≤ i ∧ i < r.start + r.count ∧
      op = ⟨.load, .dram r.address r.page i, .core core r.slot i⟩ := fun op => by
    simp only [Read.ops, List.mem_map, List.mem_range'_1, eq_comm, and_assoc]
  constructor
  · funext address page i
    refine moved_kept fun op hop => ?_
    obtain ⟨i', -, -, rfl⟩ := (hmem op).mp hop
    simp
  · funext slot i
    show moved (r.ops core) m (.core core slot i) = _
    unfold Read.run
    split_ifs with h
    · obtain ⟨rfl, hi, hi'⟩ := h
      refine moved_eq (a := .dram r.address r.page i) (fun op hop heq => ?_) ⟨_, (hmem _).mpr ⟨i, hi, hi', rfl⟩, rfl⟩
        fun op hop => ?_
      · obtain ⟨i', -, -, rfl⟩ := (hmem op).mp hop
        obtain ⟨-, -, rfl⟩ := Cell.core.inj heq
        rfl
      · obtain ⟨i', -, -, rfl⟩ := (hmem op).mp hop
        simp
    · refine moved_kept fun op hop heq => h ?_
      obtain ⟨i', hlow, hhigh, rfl⟩ := (hmem op).mp hop
      obtain ⟨-, rfl, rfl⟩ := Cell.core.inj heq
      exact ⟨rfl, hlow, hhigh⟩

theorem write_moved (w : Write) : buffersOf (moved (w.ops core) m) = w.run (slotsOf core m) (buffersOf m) ∧
    slotsOf core (moved (w.ops core) m) = slotsOf core m := by
  have hmem : ∀ op, op ∈ w.ops core ↔ ∃ i, w.start ≤ i ∧ i < w.start + w.count ∧
      op = ⟨.store, .core core w.slot i, .dram w.address w.page i⟩ := fun op => by
    simp only [Write.ops, List.mem_map, List.mem_range'_1, eq_comm, and_assoc]
  constructor
  · funext address page i
    show moved (w.ops core) m (.dram address page i) = _
    unfold Write.run
    split_ifs with h
    · obtain ⟨rfl, rfl, hi, hi'⟩ := h
      refine moved_eq (a := .core core w.slot i) (fun op hop heq => ?_) ⟨_, (hmem _).mpr ⟨i, hi, hi', rfl⟩, rfl⟩
        fun op hop => ?_
      · obtain ⟨i', -, -, rfl⟩ := (hmem op).mp hop
        obtain ⟨-, -, rfl⟩ := Cell.dram.inj heq
        rfl
      · obtain ⟨i', -, -, rfl⟩ := (hmem op).mp hop
        simp
    · refine moved_kept fun op hop heq => h ?_
      obtain ⟨i', hlow, hhigh, rfl⟩ := (hmem op).mp hop
      obtain ⟨rfl, rfl, rfl⟩ := Cell.dram.inj heq
      exact ⟨rfl, rfl, hlow, hhigh⟩
  · funext slot i
    refine moved_kept fun op hop => ?_
    obtain ⟨i', -, -, rfl⟩ := (hmem op).mp hop
    simp

theorem reads_moved (reads : List Read) :
    buffersOf (moved (reads.flatMap (Read.ops core)) m) = buffersOf m ∧
    slotsOf core (moved (reads.flatMap (Read.ops core)) m) =
      reads.foldl (Read.run (buffersOf m)) (slotsOf core m) := by
  induction reads generalizing m with
  | nil => exact ⟨rfl, rfl⟩
  | cons r reads ih =>
    obtain ⟨hbuffers, hslots⟩ := read_moved core (m := m) r
    obtain ⟨ihbuffers, ihslots⟩ := ih (m := moved (r.ops core) m)
    rw [List.flatMap_cons, moved_append, List.foldl_cons, ihbuffers, ihslots, hbuffers, hslots]
    exact ⟨rfl, rfl⟩

theorem writes_moved (writes : List Write) :
    buffersOf (moved (writes.flatMap (Write.ops core)) m) = writes.foldl (Write.run (slotsOf core m)) (buffersOf m) ∧
    slotsOf core (moved (writes.flatMap (Write.ops core)) m) = slotsOf core m := by
  induction writes generalizing m with
  | nil => exact ⟨rfl, rfl⟩
  | cons w writes ih =>
    obtain ⟨hbuffers, hslots⟩ := write_moved core (m := m) w
    obtain ⟨ihbuffers, ihslots⟩ := ih (m := moved (w.ops core) m)
    rw [List.flatMap_cons, moved_append, List.foldl_cons, ihbuffers, ihslots, hbuffers, hslots]
    exact ⟨rfl, rfl⟩

variable (size : Nat)

/-- Computations leave the buffers alone. -/
theorem builds_serial (builds : List (Build ν)) :
    buffersOf (serial (builds.map fun b => (.compute (b.apply size core) : PageInstr ν)) m) = buffersOf m ∧
    slotsOf core (serial (builds.map fun b => (.compute (b.apply size core) : PageInstr ν)) m) =
      builds.foldl (Build.run size) (slotsOf core m) := by
  induction builds generalizing m with
  | nil => exact ⟨rfl, rfl⟩
  | cons b builds ih =>
    have hslots : slotsOf core (b.apply size core m) = b.run size (slotsOf core m) := by
      funext slot i
      simp only [slotsOf, Build.apply, Build.run, true_and]
      rfl
    rw [List.map_cons, serial_compute, List.foldl_cons]
    obtain ⟨ihbuffers, ihslots⟩ := ih (m := b.apply size core m)
    rw [ihbuffers, ihslots, hslots]
    exact ⟨rfl, rfl⟩

/-- **A task, transfer by transfer**, does what it does at once. -/
theorem serial_task (t : PageTask ν) :
    (buffersOf (serial (t.program size core) m), slotsOf core (serial (t.program size core) m)) =
      t.run size (buffersOf m, slotsOf core m) := by
  obtain ⟨hreadb, hreads⟩ := reads_moved core (m := m) t.reads
  obtain ⟨hbuildb, hbuilds⟩ :=
    builds_serial core size (m := moved (t.reads.flatMap (Read.ops core)) m) t.builds
  obtain ⟨hwriteb, hwrites⟩ := writes_moved core (m := serial (t.builds.map fun b => .compute (b.apply size core))
    (moved (t.reads.flatMap (Read.ops core)) m)) t.writes
  unfold PageTask.program PageTask.run PageTask.slots
  rw [serial_append, serial_moved, serial_settle, serial_append, serial_append, serial_moved, serial_settle, serial_nil,
    hwriteb, hwrites, hbuilds, hbuildb, hreads, hreadb]

/-- Tasks one after the other. -/
theorem serial_tasks (tasks : List (PageTask ν)) :
    (buffersOf (serial (tasks.flatMap (PageTask.program size core)) m),
      slotsOf core (serial (tasks.flatMap (PageTask.program size core)) m)) =
      tasks.foldl (PageTask.run size) (buffersOf m, slotsOf core m) := by
  induction tasks generalizing m with
  | nil => rfl
  | cons t tasks ih =>
    rw [List.flatMap_cons, serial_append, ih, List.foldl_cons, serial_task]

end

/-! ## Tasks that write apart -/

/-- The places of a write. -/
def Write.Covers (w : Write) (address page i : Nat) : Prop :=
  address = w.address ∧ page = w.page ∧ w.start ≤ i ∧ i < w.start + w.count

/-- Spans of one slot that do not meet. -/
def Read.Apart (r r' : Read) : Prop :=
  r.slot = r'.slot → r.start + r.count ≤ r'.start ∨ r'.start + r'.count ≤ r.start

/-- Spans of one page that do not meet. -/
def Write.Apart (w w' : Write) : Prop :=
  w.address = w'.address → w.page = w'.page → w.start + w.count ≤ w'.start ∨ w'.start + w'.count ≤ w.start

section

variable {size : Nat} {address page i : Nat} {slots : Slots ν}

theorem Write.run_covered {w : Write} {b : Buffers ν} (h : w.Covers address page i) :
    w.run slots b address page i = slots w.slot i := if_pos h

theorem Write.run_kept {w : Write} {b : Buffers ν} (h : ¬w.Covers address page i) :
    w.run slots b address page i = b address page i := if_neg h

theorem Write.Apart.not_covers {w w' : Write} (h : w.Apart w') (hw : w.Covers address page i) :
    ¬w'.Covers address page i := by
  obtain ⟨rfl, rfl, hlow, hhigh⟩ := hw
  rintro ⟨ha, hp, hlow', hhigh'⟩
  have := h ha hp
  omega

/-- A place that none of the writes covers. -/
theorem writes_kept {writes : List Write} {b : Buffers ν} (h : ∀ w ∈ writes, ¬w.Covers address page i) :
    writes.foldl (Write.run slots) b address page i = b address page i :=
  foldl_get_kept (fun b (_ : Unit) => b address page i) (c := ()) (fun w hw _ => Write.run_kept (h w hw)) b

/-- A place that one of the writes covers. -/
theorem writes_covered {writes : List Write} {b : Buffers ν} {w : Write} (hapart : writes.Pairwise Write.Apart)
    (hw : w ∈ writes) (h : w.Covers address page i) :
      writes.foldl (Write.run slots) b address page i = slots w.slot i := by
  induction writes generalizing b with
  | nil => cases hw
  | cons first writes ih =>
    obtain ⟨hfirst, hapart⟩ := List.pairwise_cons.mp hapart
    rw [List.foldl_cons]
    rcases List.mem_cons.mp hw with rfl | hw
    · rw [writes_kept fun w' hw' => (hfirst w' hw').not_covers h, Write.run_covered h]
    · exact ih hapart hw

/-- The slots that a task writes from depend on the pages that it reads only. -/
theorem PageTask.slots_congr {t : PageTask ν} {b b' : Buffers ν}
    (h : ∀ r ∈ t.reads, ∀ i, b r.address r.page i = b' r.address r.page i) :
    t.slots size (b, slots) = t.slots size (b', slots) := by
  have hreads : ∀ (reads : List Read) (slots : Slots ν),
      (∀ r ∈ reads, ∀ i, b r.address r.page i = b' r.address r.page i) →
      reads.foldl (Read.run b) slots = reads.foldl (Read.run b') slots := by
    intro reads
    induction reads with
    | nil => exact fun _ _ => rfl
    | cons r reads ih =>
      intro slots h
      have hfirst : Read.run b slots r = Read.run b' slots r := by
        funext slot i
        unfold Read.run
        split_ifs with hin
        · exact h r List.mem_cons_self i
        · rfl
      rw [List.foldl_cons, List.foldl_cons, hfirst]
      exact ih _ fun r' hr' => h r' (List.mem_cons_of_mem _ hr')
  exact congrArg (t.builds.foldl (Build.run size)) (hreads t.reads slots h)

/-- **Tasks that write apart, and read no page that any of them writes**: each place ends as the task that covers it
builds it, from the buffers as they were and from slots of which an invariant of the tasks holds; the other places are
kept. -/
theorem tasks_each {κ : Type} (size : Nat) (task : κ → PageTask ν) {ks : List κ} (b : Buffers ν) (slots : Slots ν)
    (hnodup : ks.Nodup) (inv : Slots ν → Prop)
      (hinv : ∀ k ∈ ks, ∀ slots, inv slots → inv ((task k).slots size (b, slots)))
    (hreads : ∀ k ∈ ks, ∀ r ∈ (task k).reads, ∀ k' ∈ ks, ∀ w ∈ (task k').writes,
      ¬(r.address = w.address ∧ r.page = w.page))
    (hapart : ∀ k ∈ ks, (task k).writes.Pairwise Write.Apart)
    (hothers : ∀ k ∈ ks, ∀ k' ∈ ks, k ≠ k' → ∀ w ∈ (task k).writes, ∀ w' ∈ (task k').writes, w.Apart w')
    (hslots : inv slots) :
    (∀ k ∈ ks, ∀ w ∈ (task k).writes, ∀ address page i, w.Covers address page i → ∃ slots', inv slots' ∧
      ((ks.map task).foldl (PageTask.run size) (b, slots)).1 address page i =
        (task k).slots size (b, slots') w.slot i) ∧
    ∀ address page i, (∀ k ∈ ks, ∀ w ∈ (task k).writes, ¬w.Covers address page i) →
      ((ks.map task).foldl (PageTask.run size) (b, slots)).1 address page i = b address page i := by
  have hkept : ∀ k, ∀ (s : Buffers ν × Slots ν) address page i, (∀ w ∈ (task k).writes, ¬w.Covers address page i) →
      ((task k).run size s).1 address page i = s.1 address page i := fun k s address page i h => writes_kept h
  rw [List.foldl_map]
  refine ⟨fun k hk w hw address page i hcovers => ?_, fun address page i h =>
    foldl_get_kept (fun (s : Buffers ν × Slots ν) (_ : Unit) => s.1 address page i) (c := ())
      (fun k hk s => hkept k s address page i (h k hk)) (b, slots)⟩
  have heach := foldl_each (f := fun s k => (task k).run size s)
    (fun (s : Buffers ν × Slots ν) (c : Nat × Nat × Nat) => s.1 c.1 c.2.1 c.2.2)
    (fun k => {c | ∃ w ∈ (task k).writes, w.Covers c.1 c.2.1 c.2.2})
    (fun s => inv s.2 ∧ ∀ k ∈ ks, ∀ r ∈ (task k).reads, ∀ i, s.1 r.address r.page i = b r.address r.page i)
    (fun k c v => ∀ w ∈ (task k).writes, w.Covers c.1 c.2.1 c.2.2 →
      ∃ slots', inv slots' ∧ v = (task k).slots size (b, slots') w.slot c.2.2)
    (fun k hk s hs => ?_) (fun k hk k' hk' hne s c hc => ?_) hnodup (s := (b, slots)) ⟨hslots, fun _ _ _ _ _ => rfl⟩
  · exact heach.2 k hk (address, page, i) ⟨w, hw, hcovers⟩ w hw hcovers
  · obtain ⟨hinvs, hinputs⟩ := hs
    have hsame : (task k).slots size s = (task k).slots size (b, s.2) :=
      PageTask.slots_congr fun r hr i => hinputs k hk r hr i
    refine ⟨⟨?_, fun k' hk' r hr i => ?_⟩, fun c _ w hw hcovers => ⟨s.2, hinvs, ?_⟩⟩
    · show inv ((task k).slots size s)
      rw [hsame]
      exact hinv k hk s.2 hinvs
    · rw [hkept k s _ _ _ fun w hw hcovers => hreads k' hk' r hr k hk w hw ⟨hcovers.1, hcovers.2.1⟩]
      exact hinputs k' hk' r hr i
    · rw [← hsame]
      exact writes_covered (hapart k hk) hw hcovers
  · obtain ⟨w, hw, hcovers⟩ := hc
    exact hkept k' s _ _ _ fun w' hw' => (hothers k hk k' hk' hne w hw w' hw').not_covers hcovers

end

/-! ## Launches -/

/-- A task that reads pages of its worker's own and inputs, and writes pages of its worker's own, no place of a slot
or of a page twice. -/
structure PageTask.Fits (own input : Nat → Nat → Prop) (t : PageTask ν) : Prop where
  reads : ∀ r ∈ t.reads, own r.address r.page ∨ input r.address r.page
  slots : t.reads.Pairwise Read.Apart
  writes : ∀ w ∈ t.writes, own w.address w.page
  apart : t.writes.Pairwise Write.Apart

/-- What every worker runs, and the pages that are its own or inputs. -/
structure Launch (ν : Type) where
  size : Nat
  cores : Nat
  prelude : Nat → List (Build ν)
  tasks : Nat → List (PageTask ν)
  own : Nat → Nat → Nat → Prop
  input : Nat → Nat → Prop
  fits : ∀ core < cores, ∀ t ∈ tasks core, t.Fits (own core) input
  apart : ∀ core < cores, ∀ core' < cores, ∀ address page, own core address page → own core' address page → core = core'
  inputs : ∀ core < cores, ∀ address page, own core address page → ¬input address page

namespace Launch

variable {launch : Launch ν} {m : Cell → ν}

/-- The program of a worker. -/
def programs (launch : Launch ν) (core : Nat) : List (PageInstr ν) :=
  if core < launch.cores then
    (launch.prelude core).map (fun b => .compute (b.apply launch.size core)) ++
      (launch.tasks core).flatMap (PageTask.program launch.size core)
  else []

/-- What a worker leaves, alone. -/
def left (launch : Launch ν) (core : Nat) (m : Cell → ν) : Buffers ν × Slots ν :=
  (launch.tasks core).foldl (PageTask.run launch.size)
    (buffersOf m, (launch.prelude core).foldl (Build.run launch.size) (slotsOf core m))

/-- The cells of a worker. -/
def held (launch : Launch ν) (core : Nat) : Set Cell :=
  {c | core < launch.cores ∧ ((∃ slot i, c = .core core slot i) ∨
    ∃ address page i, launch.own core address page ∧ c = .dram address page i)}

/-- The inputs are constant, and there are no rings. -/
def discipline (launch : Launch ν) : Discipline Nat Cell Empty Empty where
  constant := {c | ∃ address page i, launch.input address page ∧ c = .dram address page i}
  cells := fun _ => ∅
  producer := fun _ => 0
  consumer := fun _ => 0

theorem serial_programs {core : Nat} (hcore : core < launch.cores) :
    buffersOf (serial (launch.programs core) m) = (launch.left core m).1 := by
  obtain ⟨hbuffers, hslots⟩ := builds_serial core launch.size (m := m) (launch.prelude core)
  have htasks := serial_tasks core launch.size
    (m := serial ((launch.prelude core).map fun b => (.compute (b.apply launch.size core) : PageInstr ν)) m)
    (launch.tasks core)
  rw [hbuffers, hslots] at htasks
  rw [programs, if_pos hcore, serial_append]
  exact congrArg Prod.fst htasks

/-- Computations touch the pages of their core only. -/
theorem builds_typed {core : Nat} (hcore : core < launch.cores) (builds : List (Build ν)) {rest : List (PageInstr ν)}
    (hrest : Typed launch.discipline core (launch.held core) [] rest) :
    Typed launch.discipline core (launch.held core) []
      (builds.map (fun b => .compute (b.apply launch.size core)) ++ rest) := by
  have hfoot : ∀ b : Build ν, Footprint (b.apply launch.size core) {c | ∃ slot i, c = .core core slot i}
      {c | ∃ slot i, c = .core core slot i} := by
    refine fun b => ⟨fun m c hc => ?_, fun m m' heq c hc => ?_⟩
    · cases c with
      | dram => rfl
      | core core' slot i =>
        refine if_neg fun h => hc ?_
        exact ⟨slot, i, h.1 ▸ rfl⟩
    · obtain ⟨slot, i, rfl⟩ := hc
      have hslots : (fun slot i => m (.core core slot i)) = fun slot i => m' (.core core slot i) :=
        funext fun slot => funext fun i => heq _ ⟨slot, i, rfl⟩
      simp only [Build.apply, hslots, heq _ ⟨slot, i, rfl⟩]
  induction builds with
  | nil => exact hrest
  | cons b builds ih =>
    refine .compute _ _ (hfoot b) (fun c hc => ?_) (fun c hc => ?_) ih
    · exact ⟨Or.inl ⟨hcore, Or.inl hc⟩, by simp⟩
    · exact ⟨⟨hcore, Or.inl hc⟩, by simp⟩

theorem mem_reads {core : Nat} {reads : List Read} {op : Op Cell} : op ∈ reads.flatMap (Read.ops core) ↔
    ∃ r ∈ reads, ∃ i, r.start ≤ i ∧ i < r.start + r.count ∧
      op = ⟨.load, .dram r.address r.page i, .core core r.slot i⟩ := by
  simp only [Read.ops, List.mem_flatMap, List.mem_map, List.mem_range'_1, eq_comm, and_assoc]

theorem mem_writes {core : Nat} {writes : List Write} {op : Op Cell} : op ∈ writes.flatMap (Write.ops core) ↔
    ∃ w ∈ writes, ∃ i, w.start ≤ i ∧ i < w.start + w.count ∧
      op = ⟨.store, .core core w.slot i, .dram w.address w.page i⟩ := by
  simp only [Write.ops, List.mem_flatMap, List.mem_map, List.mem_range'_1, eq_comm, and_assoc]

/-- The reads of a task keep out of each other's way. -/
theorem reads_underWay {core : Nat} (hcore : core < launch.cores) {t : PageTask ν}
    (h : t.Fits (launch.own core) launch.input) :
    UnderWay launch.discipline (launch.held core) (t.reads.flatMap (Read.ops core)) := by
  refine .of_nodup (fun op hop => ?_) ?_ fun op hop op' hop' heq => ?_
  · obtain ⟨r, hr, i, -, -, rfl⟩ := mem_reads.mp hop
    refine ⟨(h.reads r hr).imp (fun hown => ?_) fun hin => ?_, hcore, Or.inl ⟨r.slot, i, rfl⟩⟩
    · exact ⟨hcore, Or.inr ⟨r.address, r.page, i, hown, rfl⟩⟩
    · exact ⟨r.address, r.page, i, hin, rfl⟩
  · rw [List.map_flatMap]
    refine List.nodup_flatMap.mpr ⟨fun r _ => ?_, h.slots.imp fun {r r'} hapart => ?_⟩
    · rw [Read.ops, List.map_map]
      exact List.Nodup.map (fun i i' heq => (Cell.core.inj heq).2.2) List.nodup_range'
    · refine List.disjoint_left.mpr fun c hc hc' => ?_
      simp only [Read.ops, List.map_map, List.mem_map, List.mem_range'_1] at hc hc'
      obtain ⟨i, hi, rfl⟩ := hc
      obtain ⟨i', hi', heq⟩ := hc'
      obtain ⟨-, hslot, rfl⟩ := Cell.core.inj heq
      have := hapart hslot.symm
      omega
  · obtain ⟨r, -, i, -, -, rfl⟩ := mem_reads.mp hop
    obtain ⟨r', -, i', -, -, rfl⟩ := mem_reads.mp hop'
    cases heq

/-- The writes of a task keep out of each other's way. -/
theorem writes_underWay {core : Nat} (hcore : core < launch.cores) {t : PageTask ν}
    (h : t.Fits (launch.own core) launch.input) :
    UnderWay launch.discipline (launch.held core) (t.writes.flatMap (Write.ops core)) := by
  refine .of_nodup (fun op hop => ?_) ?_ fun op hop op' hop' heq => ?_
  · obtain ⟨w, hw, i, -, -, rfl⟩ := mem_writes.mp hop
    exact ⟨Or.inl ⟨hcore, Or.inl ⟨w.slot, i, rfl⟩⟩, hcore, Or.inr ⟨w.address, w.page, i, h.writes w hw, rfl⟩⟩
  · rw [List.map_flatMap]
    refine List.nodup_flatMap.mpr ⟨fun w _ => ?_, h.apart.imp fun {w w'} hapart => ?_⟩
    · rw [Write.ops, List.map_map]
      exact List.Nodup.map (fun i i' heq => (Cell.dram.inj heq).2.2) List.nodup_range'
    · refine List.disjoint_left.mpr fun c hc hc' => ?_
      simp only [Write.ops, List.map_map, List.mem_map, List.mem_range'_1] at hc hc'
      obtain ⟨i, hi, rfl⟩ := hc
      obtain ⟨i', hi', heq⟩ := hc'
      obtain ⟨ha, hp, rfl⟩ := Cell.dram.inj heq
      have := hapart ha.symm hp.symm
      omega
  · obtain ⟨w, -, i, -, -, rfl⟩ := mem_writes.mp hop
    obtain ⟨w', -, i', -, -, rfl⟩ := mem_writes.mp hop'
    cases heq

/-- **Every worker keeps to what it holds.** -/
theorem programs_typed (core : Nat) : Typed launch.discipline core (launch.held core) [] (launch.programs core) := by
  unfold programs
  split_ifs with hcore
  · refine builds_typed hcore _ ?_
    have htasks : ∀ tasks : List (PageTask ν), (∀ t ∈ tasks, t.Fits (launch.own core) launch.input) →
        Typed launch.discipline core (launch.held core) [] (tasks.flatMap (PageTask.program launch.size core)) := by
      intro tasks
      induction tasks with
      | nil => exact fun _ => .nil
      | cons t tasks ih =>
        intro hall
        have ht := hall t List.mem_cons_self
        rw [List.flatMap_cons, PageTask.program, List.append_assoc, List.cons_append, List.append_assoc,
          List.append_assoc]
        refine .phase (fun op hop => ?_) (reads_underWay hcore ht) (builds_typed hcore _
          (.phase (fun op hop => ?_) (writes_underWay hcore ht) (ih fun t' h => hall t' (List.mem_cons_of_mem _ h))))
        · obtain ⟨r, -, i, -, -, rfl⟩ := mem_reads.mp hop
          rfl
        · obtain ⟨w, -, i, -, -, rfl⟩ := mem_writes.mp hop
          rfl
    exact htasks _ (launch.fits core hcore)
  · exact .nil

theorem programs_quiet (core : Nat) : Quiet (launch.programs core) := fun _ _ r => r.elim

theorem held_apart (core core' : Nat) (hne : core ≠ core') : Disjoint (launch.held core) (launch.held core') := by
  refine Set.disjoint_left.mpr ?_
  rintro c ⟨hcore, hc⟩ ⟨hcore', hc'⟩
  refine hne ?_
  rcases hc with ⟨slot, i, rfl⟩ | ⟨address, page, i, hown, rfl⟩
  · rcases hc' with ⟨slot', i', heq⟩ | ⟨address', page', i', -, heq⟩
    · exact (Cell.core.inj heq).1
    · cases heq
  · rcases hc' with ⟨slot', i', heq⟩ | ⟨address', page', i', hown', heq⟩
    · cases heq
    · obtain ⟨rfl, rfl, -⟩ := Cell.dram.inj heq
      exact launch.apart core hcore core' hcore' _ _ hown hown'

theorem held_constant (core : Nat) : Disjoint (launch.held core) launch.discipline.constant := by
  refine Set.disjoint_left.mpr ?_
  rintro c ⟨hcore, hc⟩ ⟨address, page, i, hin, rfl⟩
  rcases hc with ⟨slot, i', heq⟩ | ⟨address', page', i', hown, heq⟩
  · cases heq
  · obtain ⟨rfl, rfl, -⟩ := Cell.dram.inj heq
    exact launch.inputs core hcore _ _ hown hin

theorem programs_outside (core : Nat) (h : core ∉ List.range launch.cores) : launch.programs core = [] :=
  if_neg fun hlt => h (List.mem_range.mpr hlt)

/-- The workers in turn. -/
def interleaving (launch : Launch ν) : Interleaving launch.discipline launch.programs fun _ => [] :=
  .solo List.nodup_range programs_outside programs_quiet programs_typed held_apart held_constant

/-- **Every run of a launch that has ended** has in each page what its owner alone leaves there, and in every page
without an owner what was there. -/
theorem finished {s : State Nat Cell ν Empty Empty} {ls : List (Act Nat Cell)}
    (hrun : Run (Steps step) (initial launch.programs (fun _ => []) m) ls s) (hend : s.Ended) :
    (∀ core < launch.cores, ∀ address page, launch.own core address page → ∀ i,
      s.mem (.dram address page i) = (launch.left core m).1 address page i) ∧
    ∀ address page, (∀ core < launch.cores, ¬launch.own core address page) → ∀ i,
      s.mem (.dram address page i) = m (.dram address page i) := by
  obtain ⟨hinside, houtside⟩ := Interleaving.solo_finished List.nodup_range programs_outside programs_quiet
    programs_typed held_apart held_constant hrun hend
  refine ⟨fun core hcore address page hown i => ?_, fun address page hnone i => houtside _ fun core hheld => ?_⟩
  · rw [hinside core _ ⟨hcore, Or.inr ⟨address, page, i, hown, rfl⟩⟩, ← serial_programs hcore]
    rfl
  · obtain ⟨hcore, ⟨slot, i', heq⟩ | ⟨address', page', i', hown, heq⟩⟩ := hheld
    · cases heq
    · obtain ⟨rfl, rfl, -⟩ := Cell.dram.inj heq
      exact hnone core hcore hown

/-- No run is stuck before all have ended. -/
theorem live {s : State Nat Cell ν Empty Empty} {ls : List (Act Nat Cell)}
    (hrun : Run (Steps step) (initial launch.programs (fun _ => []) m) ls s) (hne : ¬s.Ended) :
    ∃ l s', step s l = some s' := launch.interleaving.live hrun hne

/-- Some run ends. -/
theorem exists_run (launch : Launch ν) (m : Cell → ν) :
    ∃ s ls, Run (Steps step) (initial launch.programs (fun _ => []) m) ls s ∧ s.Ended :=
  ⟨_, _, launch.interleaving.reference m, fun _ => rfl⟩

end Launch

end Lib.Pages
