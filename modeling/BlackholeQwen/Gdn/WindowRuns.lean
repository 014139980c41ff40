import BlackholeQwen.Gdn.ConvWindows

/-!
# Runs of the convolution windows

What the kernels of `ConvWindows` leave in the output pages, whatever the schedule of the cores and of their programs.

- `Launch.windows_exact`: the packed launch builds every user's windows, and no transfer meets another under way.
- `ServedLaunch.served_exact`: the served kernel builds its user's windows, at any number of rows of a tile.
- `packed_agrees`: the two kernels leave the same windows.
-/

namespace BlackholeQwen.Gdn.ConvWindows

open Lib Lib.Movers

/-! ## A page of the served kernel -/

section

variable {m : Cell → UInt16} {core p rows slot a i : Nat}

/-- Only the page's own half-words matter to a window. -/
theorem windowAt_congr {tiles tiles' : Nat → Nat → UInt16} (hslot : slot < SLOTS) (hrows : rows ≤ 32)
    (h : ∀ tile < TILES_IN, ∀ j < PAGE, tiles tile j = tiles' tile j) :
    windowAt tiles rows slot i = windowAt tiles' rows slot i := by
  simp only [windowAt, FACE, ROW, HISTORY, TILES_IN, PAGE, SLOTS] at *
  split_ifs with htoken hhistory
  · exact h _ (by omega) _ (by omega)
  · exact h _ (by omega) _ (by omega)
  · rfl

theorem servedWindow_serial : serial (servedWindow core p rows slot a) m =
    moved (writeTile (.input core TILES_IN) (.dram a p))
      (moved (windowCopies (.input core) (.input core TILES_IN) slot rows)
      (filled ((List.range PAGE).map (.input core TILES_IN)) 0 m)) := by
  rw [servedWindow, serial_compute, serial_compute, serial_append, serial_moved, serial_settle, serial_nil]

theorem mem_writeTile {source destination : Nat → Cell} {op : Op Cell} :
    op ∈ writeTile source destination ↔ ∃ i < PAGE, op = ⟨.store, source i, destination i⟩ := by
  simp only [writeTile, List.mem_map, List.mem_range, eq_comm]

/-- The served kernel's copies of a window stay in the scratch page. -/
theorem windowCopies_dst {op : Op Cell} (hop : op ∈ windowCopies (.input core) (.input core TILES_IN) slot rows) :
    ∃ j, op.dst = .input core TILES_IN j := by
  simp only [windowCopies, List.mem_flatMap, List.mem_map] at hop
  obtain ⟨token, -, f, -, k, -, rfl⟩ := hop
  exact ⟨_, rfl⟩

/-- What is neither the scratch page nor the output page is as it was. -/
theorem servedWindow_kept {c : Cell} (hscratch : ∀ j, c ≠ .input core TILES_IN j) (hout : ∀ j, c ≠ .dram a p j) :
    serial (servedWindow core p rows slot a) m c = m c := by
  rw [servedWindow_serial, moved_kept, moved_kept, filled_apply, if_neg]
  · rw [List.mem_map]
    rintro ⟨j, -, rfl⟩
    exact hscratch j rfl
  · intro op hop heq
    obtain ⟨j, hdst⟩ := windowCopies_dst hop
    exact hscratch j (heq.symm.trans hdst)
  · intro op hop heq
    obtain ⟨j, -, rfl⟩ := mem_writeTile.mp hop
    exact hout j heq.symm

/-- **The output page of a window.** -/
theorem servedWindow_out (hi : i < PAGE) (hslot : slot < SLOTS) (hrows : rows ≤ 32) :
    serial (servedWindow core p rows slot a) m (.dram a p i) =
      windowAt (fun tile j => m (.input core tile j)) rows slot i := by
  have hwrite : ∀ m' : Cell → UInt16,
      moved (writeTile (.input core TILES_IN) (.dram a p)) m' (.dram a p i) = m' (.input core TILES_IN i) := by
    intro m'
    refine moved_eq (fun op hop hdst => ?_) ⟨_, mem_writeTile.mpr ⟨i, hi, rfl⟩, rfl⟩ fun op hop heq => ?_
    · obtain ⟨j, -, rfl⟩ := mem_writeTile.mp hop
      rw [(Cell.dram.inj hdst).2.2]
    · obtain ⟨j, -, rfl⟩ := mem_writeTile.mp hop
      cases heq
  have hzero : ∀ tile j, j < PAGE → filled ((List.range PAGE).map (.input core TILES_IN)) 0 m (.input core tile j) =
      if tile = TILES_IN then 0 else m (.input core tile j) := by
    intro tile j hj
    rw [filled_apply]
    refine if_congr ?_ rfl rfl
    simp only [List.mem_map, List.mem_range, Cell.input.injEq, true_and]
    constructor
    · rintro ⟨_, _, htile, _⟩
      exact htile.symm
    · exact fun htile => ⟨j, hj, htile.symm, rfl⟩
  rw [servedWindow_serial, hwrite, windowCopies_moved ((hzero _ i hi).trans (if_pos rfl))]
  refine windowAt_congr hslot hrows fun tile htile j hj => ?_
  rw [hzero tile j hj, if_neg (Nat.ne_of_lt htile)]

end

section

variable {m : Cell → UInt16} {input output : Nat → Nat} {core p rows slot i : Nat}

/-- The reads of a page of the served kernel. -/
def servedReads (input : Nat → Nat) (core p : Nat) : List (Op Cell) :=
  (List.range TILES_IN).flatMap fun tile => readSpan (.dram (input tile) p) (.input core tile) 0 PAGE

theorem mem_servedReads {op : Op Cell} : op ∈ servedReads input core p ↔
    ∃ tile < TILES_IN, ∃ j < PAGE, op = ⟨.load, .dram (input tile) p j, .input core tile j⟩ := by
  simp only [servedReads, readSpan, List.mem_flatMap, List.mem_map, List.mem_range, List.mem_range'_1, Nat.zero_add,
    Nat.zero_le, true_and, eq_comm]

theorem servedTask_serial : serial (servedTask input output rows core p) m =
    serial ((List.range SLOTS).flatMap fun slot => servedWindow core p rows slot (output slot))
      (moved (servedReads input core p) m) := by
  rw [servedTask, ← servedReads, serial_append, serial_moved, serial_settle]

/-- What is no page of the core's and no output page is as it was. -/
theorem servedTask_kept {a p' j : Nat} (h : ∀ slot < SLOTS, a = output slot → p' ≠ p) :
    serial (servedTask input output rows core p) m (.dram a p' j) = m (.dram a p' j) := by
  rw [servedTask_serial, serial_flatMap_kept fun slot hslot m' => servedWindow_kept (by simp) fun j' heq => ?_]
  swap
  · obtain ⟨ha, hp, -⟩ := Cell.dram.inj heq
    exact h slot (List.mem_range.mp hslot) ha hp
  refine moved_kept fun op hop heq => ?_
  obtain ⟨tile, -, j', -, rfl⟩ := mem_servedReads.mp hop
  cases heq

/-- **The output pages of a page of the served kernel.** -/
theorem servedTask_out (hrows : rows ≤ 32) (hinj : ∀ s < SLOTS, ∀ s' < SLOTS, output s = output s' → s = s')
    (hslot : slot < SLOTS) (hi : i < PAGE) :
    serial (servedTask input output rows core p) m (.dram (output slot) p i) =
      windowAt (fun tile j => m (.dram (input tile) p j)) rows slot i := by
  have hstaged : ∀ tile < TILES_IN, ∀ j < PAGE,
      moved (servedReads input core p) m (.input core tile j) = m (.dram (input tile) p j) := by
    intro tile htile j hj
    refine moved_eq (fun op hop hdst => ?_) ⟨_, mem_servedReads.mpr ⟨tile, htile, j, hj, rfl⟩, rfl⟩ fun op hop heq => ?_
    · obtain ⟨tile', -, j', -, rfl⟩ := mem_servedReads.mp hop
      obtain ⟨-, rfl, rfl⟩ := Cell.input.inj hdst
      rfl
    · obtain ⟨tile', -, j', -, rfl⟩ := mem_servedReads.mp hop
      cases heq
  rw [servedTask_serial]
  refine (serial_flatMap_each (m := moved (servedReads input core p) m)
    (fun s => {c | ∃ j < PAGE, c = .dram (output s) p j})
    (fun m' => ∀ tile < TILES_IN, ∀ j < PAGE, m' (.input core tile j) = m (.dram (input tile) p j))
    (fun s c v => ∀ j, c = .dram (output s) p j → v = windowAt (fun tile j => m (.dram (input tile) p j)) rows s j)
    ?_ ?_ List.nodup_range hstaged).2 slot (List.mem_range.mpr hslot) _ ⟨i, hi, rfl⟩ i rfl
  · intro s hs m' hinv
    refine ⟨fun tile htile j hj => ?_, ?_⟩
    · rw [servedWindow_kept (fun j' heq => ?_) (by simp)]
      · exact hinv tile htile j hj
      · have := (Cell.input.inj heq).2.1
        omega
    · rintro c ⟨j, hj, rfl⟩ j' heq
      obtain rfl : j = j' := (Cell.dram.inj heq).2.2
      rw [servedWindow_out hj (List.mem_range.mp hs) hrows]
      exact windowAt_congr (List.mem_range.mp hs) hrows hinv
  · rintro s hs s' hs' hne m' c ⟨j, hj, rfl⟩
    refine servedWindow_kept (by simp) fun j' heq => ?_
    exact hne (hinj s (List.mem_range.mp hs) s' (List.mem_range.mp hs') (Cell.dram.inj heq).1)

theorem servedTask_quiet : Quiet (servedTask input output rows core p) := by
  refine (Quiet.copies _).append fun x hx r ts => ?_
  rcases List.mem_cons.mp hx with rfl | hx
  · exact ⟨by simp, by simp⟩
  · obtain ⟨slot, -, hx⟩ := List.mem_flatMap.mp hx
    simp only [servedWindow, List.mem_cons, List.mem_append, List.mem_map, List.not_mem_nil, or_false] at hx
    rcases hx with rfl | rfl | ⟨op, -, rfl⟩ | rfl <;> exact ⟨by simp, by simp⟩

/-- A page of the served kernel keeps to the discipline: it reads constant pages and writes the core's and the output
pages. -/
theorem servedTask_typed {d : Discipline Mover Cell Ring Group} {w : Mover} {held : Set Cell} {rest : List WindowInstr}
    (hinput : ∀ tile < TILES_IN, ∀ j, Cell.dram (input tile) p j ∈ d.constant)
    (hcore : ∀ tile j, Cell.input core tile j ∈ held) (hout : ∀ s < SLOTS, ∀ j, Cell.dram (output s) p j ∈ held)
    (hrest : Typed d w held [] rest) : Typed d w held [] (servedTask input output rows core p ++ rest) := by
  have hwindow : ∀ s < SLOTS, ∀ rest, Typed d w held [] rest →
      Typed d w held [] (servedWindow core p rows s (output s) ++ rest) := by
    intro s hs rest hrest
    simp only [servedWindow, List.cons_append, List.append_assoc]
    refine .fills (fun c hc => ?_) (.moves (fun op hop => ?_) (fun op hop => ?_) (.phase ?_ ?_ hrest))
    · obtain ⟨j, -, rfl⟩ := List.mem_map.mp hc
      exact ⟨hcore _ _, by simp⟩
    · simp only [windowCopies, List.mem_flatMap, List.mem_map] at hop
      obtain ⟨token, -, f, -, k, -, rfl⟩ := hop
      exact ⟨Or.inl (hcore _ _), by simp⟩
    · obtain ⟨j, hdst⟩ := windowCopies_dst hop
      rw [hdst]
      exact ⟨hcore _ _, by simp⟩
    · intro op hop
      obtain ⟨j, -, rfl⟩ := mem_writeTile.mp hop
      rfl
    · refine .of_nodup (fun op hop => ?_) ?_ fun op hop op' hop' heq => ?_
      · obtain ⟨j, -, rfl⟩ := mem_writeTile.mp hop
        exact ⟨Or.inl (hcore _ _), hout s hs j⟩
      · rw [writeTile, List.map_map]
        exact List.nodup_range.map fun j j' heq => (Cell.dram.inj heq).2.2
      · obtain ⟨j, -, rfl⟩ := mem_writeTile.mp hop
        obtain ⟨j', -, rfl⟩ := mem_writeTile.mp hop'
        cases heq
  have hwindows : ∀ slots : List Nat, (∀ s ∈ slots, s < SLOTS) → Typed d w held []
      ((slots.flatMap fun slot => servedWindow core p rows slot (output slot)) ++ rest) := by
    intro slots
    induction slots with
    | nil => exact fun _ => hrest
    | cons s slots ih =>
      intro hslots
      rw [List.flatMap_cons, List.append_assoc]
      exact hwindow s (hslots s List.mem_cons_self) _ (ih fun s' hs' => hslots s' (List.mem_cons_of_mem _ hs'))
  rw [servedTask, ← servedReads, List.append_assoc]
  refine .phase (fun op hop => ?_) (.of_nodup (fun op hop => ?_) ?_ fun op hop op' hop' heq => ?_)
    (hwindows _ fun s hs => List.mem_range.mp hs)
  · obtain ⟨tile, -, j, -, rfl⟩ := mem_servedReads.mp hop
    rfl
  · obtain ⟨tile, htile, j, -, rfl⟩ := mem_servedReads.mp hop
    exact ⟨Or.inr (hinput tile htile j), hcore _ _⟩
  · rw [servedReads, List.map_flatMap]
    refine List.nodup_flatMap.mpr ⟨fun tile _ => ?_, List.nodup_range.imp fun {tile tile'} hne =>
      List.disjoint_left.mpr fun c hc hc' => ?_⟩
    · rw [readSpan, List.map_map]
      exact List.Nodup.map (fun j j' heq => (Cell.input.inj heq).2.2) List.nodup_range'
    · simp only [readSpan, List.map_map, List.mem_map] at hc hc'
      obtain ⟨j, -, rfl⟩ := hc
      obtain ⟨j', -, heq⟩ := hc'
      exact hne (Cell.input.inj heq).2.1.symm
  · obtain ⟨tile, -, j, -, rfl⟩ := mem_servedReads.mp hop
    obtain ⟨tile', -, j', -, rfl⟩ := mem_servedReads.mp hop'
    cases heq

end

/-! ## The programs of a launch -/

namespace Launch

variable {launch : Launch}

/-- How many tasks are dealt to a core. -/
def countAt (launch : Launch) (core : Nat) : Nat :=
  startOf launch.tasks launch.cores (core + 1) - startOf launch.tasks launch.cores core

/-- What a program of a core of the plan runs. -/
def part (launch : Launch) (core : Nat) (role : Role) : List WindowInstr :=
  match role with
  | .reader => if launch.settings.port then [] else
      reader launch.args launch.users launch.settings core (startOf launch.tasks launch.cores core)
        (launch.countAt core)
  | .writer => if launch.settings.port then
      port launch.args launch.users core (startOf launch.tasks launch.cores core) (launch.countAt core) else
      writer launch.args launch.users launch.settings core (startOf launch.tasks launch.cores core)
        (launch.countAt core)

theorem programs_eq (w : Mover) :
    launch.programs w = if w.core < launch.cores then launch.part w.core w.role else [] := by
  unfold programs
  rw [planned_eq.2.2, List.getElem?_map]
  by_cases hcore : w.core < launch.cores
  · rw [if_pos hcore, List.getElem?_range hcore]
    rfl
  · rw [if_neg hcore, List.getElem?_eq_none (by rw [List.length_range]; omega)]
    rfl

theorem dealt_at {core l : Nat} (hcore : core < launch.cores) (hl : l < launch.countAt core) :
    launch.Dealt core (startOf launch.tasks launch.cores core + l) := by
  unfold countAt at hl
  exact ⟨hcore, Nat.le_add_right _ _, by omega⟩

theorem dealt_range {core t : Nat} (hcore : core < launch.cores) :
    t ∈ List.range' (startOf launch.tasks launch.cores core) (launch.countAt core) ↔ launch.Dealt core t := by
  have hmono : startOf launch.tasks launch.cores core ≤ startOf launch.tasks launch.cores (core + 1) :=
    startOf_mono _ _ (Nat.le_succ core)
  rw [List.mem_range'_1, countAt]
  exact ⟨fun h => ⟨hcore, h.1, by omega⟩, fun h => ⟨h.2.1, by have := h.2.2; omega⟩⟩

/-- **Every program keeps to the discipline.** -/
theorem programs_typed (w : Mover) : Typed launch.discipline w (launch.held w) [] (launch.programs w) := by
  obtain ⟨core, role⟩ := w
  rw [programs_eq]
  split_ifs with hcore
  · have hdealt : ∀ l < launch.countAt core, launch.Dealt core (startOf launch.tasks launch.cores core + l) :=
      fun l hl => dealt_at hcore hl
    cases role with
    | reader =>
      simp only [part]
      split_ifs
      · exact .nil
      · exact reader_typed hdealt
    | writer =>
      simp only [part]
      split_ifs with hport
      · have hpages : ∀ ts : List Nat, (∀ t ∈ ts, launch.Dealt core t) →
            Typed launch.discipline ⟨core, .writer⟩ (launch.held ⟨core, .writer⟩) [] (ts.flatMap fun t =>
              servedTask (inputArg launch.args launch.users (t / PAGES))
                (outputArg launch.args launch.users (t / PAGES))
                ROWS core (t % PAGES)) := by
          intro ts
          induction ts with
          | nil => exact fun _ => .nil
          | cons t ts ih =>
            intro hts
            rw [List.flatMap_cons]
            have ht := hts t List.mem_cons_self
            refine servedTask_typed (fun tile htile j => input_constant ht.user htile _ _) (fun tile j => Or.inr ?_)
              (fun s hs j => Or.inl (Or.inr ⟨t, ht, s, hs, j, rfl⟩))
                (ih fun t' ht' => hts t' (List.mem_cons_of_mem _ ht'))
            rw [if_pos hport]
            exact ⟨tile, j, rfl⟩
        exact hpages _ fun t ht => (dealt_range hcore).mp ht
      · exact (writer_typed hdealt).weaken Set.subset_union_left
  · exact .nil

end Launch

/-! ## A task of the trimmed kernel -/

section

variable {m : Cell → UInt16} {settings : Settings} {args : List Nat} {users core l t s i : Nat}

/-- A task of the reader, and then of the writer. -/
def job (args : List Nat) (users : Nat) (settings : Settings) (core l t : Nat) : List WindowInstr :=
  readerTask args users settings core l t ++ writerTask args users settings core l t

theorem taskBuilds_serial : serial (taskBuilds settings core l) m = moved (taskCopies settings core l) m := by
  have hspan : ∀ (ops : List (Op Cell)) (m : Cell → UInt16),
      serial (copyBytes settings.copyNoc ops) m = moved ops m := by
    intro ops m
    unfold copyBytes
    split_ifs
    · exact serial_moved ops
    · rfl
  rw [taskBuilds_eq, ← taskSpans_flatten]
  generalize taskSpans settings core l = spans
  induction spans generalizing m with
  | nil => rfl
  | cons ops spans ih =>
    rw [List.flatMap_cons, serial_append, hspan, ih, List.flatten_cons]
    exact (List.foldl_append).symm

theorem settle_serial {P : Prop} [Decidable P] (kind : Kind) :
    serial (if P then [.settle kind] else [] : List WindowInstr) m = m := by
  split_ifs <;> rfl

theorem readerTask_serial : serial (readerTask args users settings core l t) m =
    moved (taskReads args users settings.histRow (t / PAGES) (t % PAGES) (stagedAt core (l % NBUF_IN))) m := by
  rw [readerTask, serial_acquire, serial_append, serial_moved, serial_settle, serial_release, serial_nil]

theorem writerTask_serial : serial (writerTask args users settings core l t) m =
    moved (taskWrites args users (t / PAGES) (t % PAGES) (scratchAt core (setOf settings l)))
      (moved (taskCopies settings core l) m) := by
  rw [writerTask, serial_append, settle_serial, serial_acquire, serial_append, taskBuilds_serial, serial_append,
    settle_serial, serial_release, serial_append, serial_moved, settle_serial]

/-- **A task reads, builds and writes.** -/
theorem job_serial : serial (job args users settings core l t) m =
    moved (taskWrites args users (t / PAGES) (t % PAGES) (scratchAt core (setOf settings l)))
      (moved (taskCopies settings core l)
        (moved (taskReads args users settings.histRow (t / PAGES) (t % PAGES) (stagedAt core (l % NBUF_IN))) m)) := by
  rw [job, serial_append, readerTask_serial, writerTask_serial]

theorem taskCopies_kept {c : Cell} (h : ∀ s < SLOTS, ∀ i < 2 * FACE, c ≠ scratchAt core (setOf settings l) s i) :
    moved (taskCopies settings core l) m c = m c :=
  moved_kept fun _ hop heq => by
    obtain ⟨-, -, s, hs, i, hi, hdst⟩ := mem_taskCopies hop
    exact h s hs i hi (heq.symm.trans hdst)

/-- Windows are built from the pages of the group. -/
theorem taskCopies_moved (hs : s < SLOTS) (hi : i < 2 * FACE) :
    moved (taskCopies settings core l) m (scratchAt core (setOf settings l) s i) =
      m (sourceOf (stagedAt core (l % NBUF_IN)) s i) := by
  have hsource : ∀ s i, ∃ tile j, sourceOf (stagedAt core (l % NBUF_IN)) s i = stagedAt core (l % NBUF_IN) tile j := by
    intro s i
    unfold sourceOf
    split_ifs
    · exact ⟨_, _, rfl⟩
    · exact ⟨_, _, rfl⟩
  have hmem : ∀ op, op ∈ taskCopies settings core l ↔ ∃ s < SLOTS, ∃ i < 2 * FACE,
      op = ⟨.load, sourceOf (stagedAt core (l % NBUF_IN)) s i, scratchAt core (setOf settings l) s i⟩ := by
    intro op
    simp only [taskCopies, List.mem_flatMap, List.mem_map, List.mem_range, eq_comm]
  refine moved_eq (fun op hop hdst => ?_) ⟨_, (hmem _).mpr ⟨s, hs, i, hi, rfl⟩, rfl⟩ fun op hop heq => ?_
  · obtain ⟨s', -, i', -, rfl⟩ := (hmem op).mp hop
    obtain ⟨-, htile, rfl⟩ := Cell.scratch.inj hdst
    obtain rfl : s' = s := by omega
    rfl
  · obtain ⟨s', -, i', -, rfl⟩ := (hmem op).mp hop
    obtain ⟨tile, j, hstaged⟩ := hsource s i
    rw [hstaged] at heq
    cases heq

theorem taskReads_kept {histRow : Bool} {user p half : Nat} {c : Cell} (h : ∀ tile i, c ≠ stagedAt core half tile i) :
    moved (taskReads args users histRow user p (stagedAt core half)) m c = m c :=
  moved_kept fun _ hop heq => by
    obtain ⟨tile, -, i, -, -, rfl⟩ := mem_taskReads.mp hop
    exact h tile i heq.symm

theorem taskReads_moved {histRow : Bool} {user p half tile : Nat} (htile : tile < TILES_IN) (hi : i < PAGE)
    (hstaged : Staged histRow tile i) :
    moved (taskReads args users histRow user p (stagedAt core half)) m (stagedAt core half tile i) =
      m (.dram (inputArg args users user tile) p i) := by
  refine moved_eq (fun op hop hdst => ?_)
    ⟨_, mem_taskReads.mpr ⟨tile, htile, i, hi, hstaged, rfl⟩, rfl⟩ fun op hop heq => ?_
  · obtain ⟨tile', -, i', -, -, rfl⟩ := mem_taskReads.mp hop
    obtain ⟨rfl, rfl⟩ := stagedAt_inj hdst
    rfl
  · obtain ⟨tile', -, i', -, -, rfl⟩ := mem_taskReads.mp hop
    cases heq

/-- The half-words that the windows take are read under either setting. -/
theorem sourceOf_staged {histRow : Bool} {user p half : Nat} (hs : s < SLOTS) (hi : i < 2 * FACE) :
    moved (taskReads args users histRow user p (stagedAt core half)) m (sourceOf (stagedAt core half) s i) =
      m (sourceOf (fun tile => .dram (inputArg args users user tile) p) s i) := by
  simp only [sourceOf, FACE, ROW, HISTORY, SLOTS] at *
  split_ifs with h
  · exact taskReads_moved (by simp only [TILES_IN, HISTORY]; omega) (by simp only [PAGE]; omega)
      (by simp only [Staged, FACE]; omega)
  · exact taskReads_moved (by simp only [TILES_IN, HISTORY]; omega) (by simp only [PAGE]; omega) (Or.inl rfl)

/-- Half-words that are no output of the task, and no page of the core, are as they were. -/
theorem job_kept {a p j : Nat} (h : ∀ s < SLOTS, a = outputArg args users (t / PAGES) s → p ≠ t % PAGES) :
    serial (job args users settings core l t) m (.dram a p j) = m (.dram a p j) := by
  rw [job_serial, moved_kept, taskCopies_kept (by simp [scratchAt]), taskReads_kept (by simp [stagedAt])]
  intro op hop heq
  obtain ⟨s, hs, i, -, rfl⟩ := mem_taskWrites.mp hop
  obtain ⟨ha, hp, -⟩ := Cell.dram.inj heq
  exact h s hs ha.symm hp.symm

/-- Faces 2 and 3 of the scratch pages are as they were. -/
theorem job_faces {tile : Nat} (hi : 2 * FACE ≤ i) :
    serial (job args users settings core l t) m (.scratch core tile i) = m (.scratch core tile i) := by
  rw [job_serial, moved_kept, taskCopies_kept, taskReads_kept (by simp [stagedAt])]
  · intro s _ i' hi' heq
    have := (Cell.scratch.inj heq).2.2
    omega
  · intro op hop heq
    obtain ⟨s, hs, i', -, rfl⟩ := mem_taskWrites.mp hop
    cases heq

end

namespace Launch

variable {launch : Launch} {m : Cell → UInt16}

/-- **A task's output pages.** -/
theorem job_out {core l t s i : Nat} (hu : t / PAGES < launch.users) (hs : s < SLOTS) (hi : i < PAGE)
    (hzero : ∀ tile < SLOTS * launch.settings.nbuf, ∀ j, 2 * FACE ≤ j → j < PAGE → m (.scratch core tile j) = 0) :
    serial (job launch.args launch.users launch.settings core l t) m
        (.dram (outputArg launch.args launch.users (t / PAGES) s) (t % PAGES) i) =
      windowAt (fun tile j => m (.dram (inputArg launch.args launch.users (t / PAGES) tile) (t % PAGES) j))
        ROWS s i := by
  have hwrite : ∀ m' : Cell → UInt16, moved (taskWrites launch.args launch.users (t / PAGES) (t % PAGES)
      (scratchAt core (setOf launch.settings l))) m'
        (.dram (outputArg launch.args launch.users (t / PAGES) s) (t % PAGES) i) =
      m' (scratchAt core (setOf launch.settings l) s i) := by
    intro m'
    refine moved_eq (fun op hop hdst => ?_) ⟨_, mem_taskWrites.mpr ⟨s, hs, i, hi, rfl⟩, rfl⟩ fun op hop heq => ?_
    · obtain ⟨s', hs', i', -, rfl⟩ := mem_taskWrites.mp hop
      obtain ⟨ha, -, rfl⟩ := Cell.dram.inj hdst
      rw [(launch.outputArg_inj hu hu hs' hs ha).2]
    · obtain ⟨s', -, i', -, rfl⟩ := mem_taskWrites.mp hop
      cases heq
  rw [job_serial, hwrite, windowAt_rows m (fun tile => .dram (inputArg launch.args launch.users (t / PAGES) tile)
    (t % PAGES)) hs hi]
  split_ifs with hface
  · rw [taskCopies_moved hs hface, sourceOf_staged hs hface]
  · have hset : setOf launch.settings l * SLOTS + s < SLOTS * launch.settings.nbuf := by
      rcases launch.settings.one_or_two with h | h <;> simp only [setOf, h, SLOTS] at * <;> split_ifs <;> omega
    rw [taskCopies_kept, taskReads_kept (by simp [scratchAt, stagedAt])]
    · exact hzero _ hset i (Nat.le_of_not_lt hface) hi
    · intro s' _ i' hi' heq
      have := (Cell.scratch.inj heq).2.2
      omega

end Launch

/-! ## An order of the trimmed kernel -/

/-- The tasks of a core in turn, the reader's before the writer's. -/
def coreOrder (args : List Nat) (users : Nat) (settings : Settings) (core start count : Nat) :
    List (Mover × WindowInstr) :=
  (zeroed settings core).map (fun x => (⟨core, .writer⟩, x)) ++
    (((List.range count).flatMap fun l =>
      (readerTask args users settings core l (start + l)).map (fun x => (⟨core, .reader⟩, x)) ++
        (writerTask args users settings core l (start + l)).map fun x => (⟨core, .writer⟩, x)) ++
      [(⟨core, .writer⟩, .settle .store)])

section

variable {args : List Nat} {users core start count : Nat} {settings : Settings}

theorem coreOrder_snd : (coreOrder args users settings core start count).map Prod.snd = zeroed settings core ++
    (((List.range count).flatMap fun l => job args users settings core l (start + l)) ++ [.settle .store]) := by
  simp [coreOrder, job, List.map_flatMap, Function.comp_def]

theorem coreOrder_share (w : Mover) : share (coreOrder args users settings core start count) w =
    if w.core = core then (match w.role with
      | .reader => reader args users settings core start count
      | .writer => writer args users settings core start count) else [] := by
  obtain ⟨core', role⟩ := w
  rw [coreOrder, share_append, share_append, share_flatMap, share_tagged]
  simp only [share_append, share_tagged, Mover.mk.injEq]
  have hlast : share [((⟨core, .writer⟩ : Mover), (.settle .store : WindowInstr))] ⟨core', role⟩ =
      if core = core' ∧ Role.writer = role then [.settle .store] else [] := by
    simp [share, Mover.mk.injEq, List.filterMap_cons]
    split_ifs <;> rfl
  rw [hlast]
  by_cases hcore : core' = core
  · subst hcore
    cases role <;> simp [reader, writer]
  · have hne : core ≠ core' := Ne.symm hcore
    simp [hne, hcore]

/-- The rings when so many tasks of every core are done. -/
def ringState (done : Nat → Nat) (ring : Ring) : List Group :=
  match ring with
  | .free core => [⟨core, done core % NBUF_IN⟩, ⟨core, (done core + 1) % NBUF_IN⟩]
  | .full _ => []

/-- **A task takes the next free group and frees it again.** -/
theorem job_flows {done : Nat → Nat} {l t : Nat} (hdone : done core = l) :
    Flows (job args users settings core l t) (ringState done) (ringState (Function.update done core (l + 1))) := by
  have hsettle : ∀ (P : Prop) [Decidable P] (kind : Kind) (queue : Ring → List Group),
      Flows (if P then [.settle kind] else [] : List WindowInstr) queue queue := by
    intro P _ kind queue
    split_ifs
    · exact .settle .nil
    · exact .nil
  have hbuilds : Quiet (taskBuilds settings core l) := by
    unfold taskBuilds
    refine Quiet.flatMap fun s _ => Quiet.flatMap fun ops _ => ?_
    unfold copyBytes
    split_ifs
    · exact .copies ops
    · intro x hx r ts
      rw [List.mem_singleton.mp hx]
      exact ⟨by simp, by simp⟩
  have hfree : ringState done (.free core) = [⟨core, l % NBUF_IN⟩] ++ [⟨core, (l + 1) % NBUF_IN⟩] := by
    rw [← hdone]
    rfl
  unfold job readerTask writerTask
  rw [List.cons_append, List.append_assoc, List.cons_append, List.cons_append, List.nil_append]
  refine .acquire hfree (.copies _ (.settle (.release ((hsettle _ _ _).append (.acquire (show _ = [_] ++ [] from ?_)
    ((hbuilds.flows _).append ((hsettle _ _ _).append (.release (.copies _ ?_)))))))))
  · simp [ringState]
  · have hend : Function.update (Function.update (Function.update (Function.update (ringState done) (.free core)
        [⟨core, (l + 1) % NBUF_IN⟩]) (.full core) (Function.update (ringState done) (.free core)
        [⟨core, (l + 1) % NBUF_IN⟩] (.full core) ++ [⟨core, l % NBUF_IN⟩])) (.full core) [])
        (.free core) (Function.update (Function.update (Function.update (ringState done) (.free core)
        [⟨core, (l + 1) % NBUF_IN⟩]) (.full core) (Function.update (ringState done) (.free core)
        [⟨core, (l + 1) % NBUF_IN⟩] (.full core) ++ [⟨core, l % NBUF_IN⟩])) (.full core) [] (.free core) ++
          [⟨core, l % NBUF_IN⟩]) = ringState (Function.update done core (l + 1)) := by
      funext ring
      cases ring with
      | free core' =>
        by_cases hcore : core' = core
        · subst hcore
          simp [ringState, Nat.add_assoc]
        · simp [ringState, hcore]
      | full core' =>
        by_cases hcore : core' = core
        · subst hcore
          simp [ringState]
        · simp [ringState, hcore]
    rw [hend]
    exact hsettle _ _ _

/-- A core goes through all its tasks. -/
theorem coreOrder_flows {done : Nat → Nat} (hdone : done core = 0) :
    Flows ((coreOrder args users settings core start count).map Prod.snd) (ringState done)
      (ringState (Function.update done core count)) := by
  have hzeroed : Quiet (zeroed settings core) := by
    intro x hx r ts
    obtain ⟨index, -, rfl⟩ := List.mem_map.mp hx
    exact ⟨by simp, by simp⟩
  have htasks : ∀ n, Flows ((List.range n).flatMap fun l => job args users settings core l (start + l)) (ringState done)
      (ringState (Function.update done core n)) := by
    intro n
    induction n with
    | zero =>
      have hsame : Function.update done core 0 = done := hdone ▸ Function.update_eq_self core done
      rw [hsame]
      exact .nil
    | succ n ih =>
      rw [List.range_succ, List.flatMap_append, List.flatMap_singleton]
      refine ih.append ?_
      have hself : Function.update done core n core = n := Function.update_self _ _ _
      have hjob : Flows (job args users settings core n (start + n)) (ringState (Function.update done core n))
          (ringState (Function.update (Function.update done core n) core (n + 1))) := job_flows hself
      rwa [Function.update_idem] at hjob
  rw [coreOrder_snd]
  exact (hzeroed.flows _).append ((htasks count).append (.settle .nil))

end

namespace Launch

variable {launch : Launch} {m : Cell → UInt16}

/-- The cores in turn. -/
def order (launch : Launch) : List (Mover × WindowInstr) :=
  (List.range launch.cores).flatMap fun core => coreOrder launch.args launch.users launch.settings core
    (startOf launch.tasks launch.cores core) (launch.countAt core)

theorem order_share (hport : launch.settings.port = false) (w : Mover) : share launch.order w = launch.programs w := by
  have hpart : ∀ core : Nat, share (coreOrder launch.args launch.users launch.settings core
      (startOf launch.tasks launch.cores core) (launch.countAt core)) w =
      if w.core = core then launch.part w.core w.role else [] := by
    intro core
    rw [coreOrder_share]
    split_ifs with hcore
    · subst hcore
      cases hrole : w.role <;> simp [part, hport]
    · rfl
  rw [order, share_flatMap, programs_eq]
  simp only [hpart]
  have hcores : ∀ n, ((List.range n).flatMap fun core => if w.core = core then launch.part w.core w.role else []) =
      if w.core < n then launch.part w.core w.role else [] := by
    intro n
    induction n with
    | zero => rfl
    | succ n ih =>
      rw [List.range_succ, List.flatMap_append, ih, List.flatMap_singleton]
      by_cases hlt : w.core < n
      · simp [hlt, Nat.ne_of_lt hlt, Nat.lt_succ_of_lt hlt]
      · by_cases heq : w.core = n
        · simp [heq]
        · simp [hlt, heq, show ¬w.core < n + 1 by omega]
  exact hcores _

/-- **No task waits in the order.** -/
theorem order_flows (hport : launch.settings.port = false) : Flows (launch.order.map Prod.snd) launch.rings
    (ringState fun core => if core < launch.cores then launch.countAt core else 0) := by
  have hstart : launch.rings = ringState fun _ => 0 := by
    funext ring
    cases ring with
    | free core => simp [rings, ringState, hport, List.range_succ]
    | full core => rfl
  have hcores : ∀ n, Flows (((List.range n).flatMap fun core => coreOrder launch.args launch.users launch.settings core
      (startOf launch.tasks launch.cores core) (launch.countAt core)).map Prod.snd) (ringState fun _ => 0)
      (ringState fun core => if core < n then launch.countAt core else 0) := by
    intro n
    induction n with
    | zero => exact .nil
    | succ n ih =>
      rw [List.range_succ, List.flatMap_append, List.flatMap_singleton, List.map_append]
      refine ih.append ?_
      have hcore : Flows ((coreOrder launch.args launch.users launch.settings n (startOf launch.tasks launch.cores n)
          (launch.countAt n)).map Prod.snd) (ringState fun core => if core < n then launch.countAt core else 0)
          (ringState
            (Function.update (fun core => if core < n then launch.countAt core else 0) n (launch.countAt n))) :=
        coreOrder_flows (by simp)
      have hend : Function.update (fun core => if core < n then launch.countAt core else 0) n (launch.countAt n) =
          fun core => if core < n + 1 then launch.countAt core else 0 := by
        funext core
        by_cases heq : core = n
        · subst heq
          simp
        · rw [Function.update_of_ne heq]
          exact if_congr (by omega) rfl rfl
      rwa [hend] at hcore
  rw [hstart]
  exact hcores _

/-- **The trimmed kernel under any schedule does what its order does.** -/
def trimmed (launch : Launch) (hport : launch.settings.port = false) :
    Interleaving launch.discipline launch.programs launch.rings :=
  .ofFlow launch.order _ launch.held (order_share hport) (order_flows hport) programs_typed held_apart held_constant
    (fun ring g hg => by
      have hcells : ∀ c ∈ launch.discipline.cells g, ∃ tile i, c = .input g.core tile i := by
        rintro c ⟨tile, -, i, rfl⟩
        exact ⟨_, _, rfl⟩
      refine ⟨Set.disjoint_left.mpr fun c hc hc' => ?_, fun w => Set.disjoint_left.mpr fun c hc hc' => ?_⟩
      · obtain ⟨tile, i, rfl⟩ := hcells c hc
        obtain ⟨a, p, j, -, heq⟩ := hc'
        cases heq
      · obtain ⟨tile, i, rfl⟩ := hcells c hc
        obtain ⟨core, role⟩ := w
        cases role with
        | reader => exact hc'
        | writer =>
          rcases hc' with hc' | hc'
          · exact writes_input _ _ _ _ hc'
          · simp [hport] at hc')
    (fun ring => by
      cases ring with
      | free core =>
        simp only [rings, hport]
        refine (List.pairwise_map.mpr (List.nodup_range.imp fun {a b} hne => ?_))
        exact group_apart fun heq => hne (Group.mk.inj heq).2
      | full core => exact .nil)
    (fun ring ring' hne g hg g' hg' => by
      refine group_apart fun heq => ?_
      cases ring with
      | free core =>
        cases ring' with
        | free core' =>
          simp only [rings, hport, Bool.false_eq_true, if_false, List.mem_map] at hg hg'
          obtain ⟨_, _, rfl⟩ := hg
          obtain ⟨_, _, rfl⟩ := hg'
          exact hne (congrArg _ (Group.mk.inj heq).1)
        | full core' => cases hg'
      | full core => cases hg)

end Launch

/-! ## What the order leaves -/

section

variable {m : Cell → UInt16} {core : Nat} {settings : Settings}

/-- Faces 2 and 3 are zeroed. -/
theorem zeroed_face {tile j : Nat} (htile : tile < SLOTS * settings.nbuf) (hle : 2 * FACE ≤ j) (hlt : j < PAGE) :
    serial (zeroed settings core) m (.scratch core tile j) = 0 := by
  have hindices : ∀ n, tile < n → serial ((List.range n).map fun index => (.compute (filled
      ((List.range' (2 * FACE) (2 * FACE)).map (.scratch core index)) 0) : WindowInstr)) m
      (.scratch core tile j) = 0 := by
    intro n
    induction n with
    | zero => exact fun h => absurd h (Nat.not_lt_zero _)
    | succ n ih =>
      intro htile
      rw [List.range_succ, List.map_append, serial_append, List.map_singleton, serial_cons, serial_nil]
      show filled _ 0 (serial _ m) _ = _
      rw [filled_apply]
      split_ifs with hlast
      · rfl
      · refine ih (Nat.lt_of_le_of_ne (Nat.le_of_lt_succ htile) fun heq => hlast ?_)
        subst heq
        exact List.mem_map.mpr ⟨j, List.mem_range'_1.mpr ⟨hle, by simp only [FACE, PAGE] at *; omega⟩, rfl⟩
  exact hindices _ htile

/-- Nothing else is touched. -/
theorem zeroed_kept {c : Cell} (h : ∀ tile j, c ≠ .scratch core tile j) : serial (zeroed settings core) m c = m c :=
  serial_kept fun x hx m' => by
    obtain ⟨index, -, rfl⟩ := List.mem_map.mp hx
    show filled _ 0 m' c = m' c
    rw [filled_apply, if_neg]
    intro hmem
    obtain ⟨j, -, heq⟩ := List.mem_map.mp hmem
    exact h index j heq.symm

end

namespace Launch

variable {launch : Launch} {m m₀ : Cell → UInt16}

/-- The half-words of a task's output pages. -/
def taskOuts (launch : Launch) (t : Nat) : Set Cell :=
  {c | ∃ s < SLOTS, ∃ i < PAGE, c = .dram (outputArg launch.args launch.users (t / PAGES) s) (t % PAGES) i}

/-- What a task brings to them, from the inputs as they were. -/
def Brings (launch : Launch) (m₀ : Cell → UInt16) (t : Nat) (c : Cell) (v : UInt16) : Prop :=
  ∀ s < SLOTS, ∀ i, c = .dram (outputArg launch.args launch.users (t / PAGES) s) (t % PAGES) i →
    v = windowAt (fun tile j => m₀ (.dram (inputArg launch.args launch.users (t / PAGES) tile) (t % PAGES) j)) ROWS s i

/-- The inputs are as they were. -/
def Inputs (launch : Launch) (m₀ m : Cell → UInt16) : Prop := ∀ c ∈ launch.discipline.constant, m c = m₀ c

theorem Inputs.window {t : Nat} (h : launch.Inputs m₀ m) (hu : t / PAGES < launch.users) {s i : Nat} (hs : s < SLOTS) :
    windowAt (fun tile j => m (.dram (inputArg launch.args launch.users (t / PAGES) tile) (t % PAGES) j)) ROWS s i =
      windowAt (fun tile j => m₀ (.dram (inputArg launch.args launch.users (t / PAGES) tile) (t % PAGES) j)) ROWS s i :=
  windowAt_congr hs (by decide) fun _ htile _ _ => h _ (input_constant hu htile _ _)

/-- A page that is no output of any dealt task is as it was after a task. -/
theorem constant_page {t : Nat} (ht : t / PAGES < launch.users) {a p j : Nat}
    (hc : Cell.dram a p j ∈ launch.discipline.constant) :
    ∀ s < SLOTS, a = outputArg launch.args launch.users (t / PAGES) s → p ≠ t % PAGES := by
  obtain ⟨a', p', j', ha, heq⟩ := hc
  obtain ⟨rfl, -, -⟩ := Cell.dram.inj heq
  exact fun s hs heq => absurd heq (ha _ ht s hs)

/-- An output page of one task is none of another. -/
theorem other_page {t t' : Nat} (ht : t / PAGES < launch.users) (ht' : t' / PAGES < launch.users) (hne : t ≠ t')
    {s : Nat} (hs : s < SLOTS) : ∀ s' < SLOTS, outputArg launch.args launch.users (t / PAGES) s =
      outputArg launch.args launch.users (t' / PAGES) s' → t % PAGES ≠ t' % PAGES := by
  intro s' hs' ha hp
  have heq : Cell.dram (outputArg launch.args launch.users (t / PAGES) s) (t % PAGES) 0 =
      .dram (outputArg launch.args launch.users (t' / PAGES) s') (t' % PAGES) 0 := by rw [ha, hp]
  exact hne (out_inj ht ht' hs hs' heq).1

/-- The inputs are as they were, and faces 2 and 3 of the core's scratch pages are zero. -/
structure Ready (launch : Launch) (m₀ : Cell → UInt16) (core : Nat) (m : Cell → UInt16) : Prop where
  inputs : launch.Inputs m₀ m
  faces : ∀ tile < SLOTS * launch.settings.nbuf, ∀ j, 2 * FACE ≤ j → j < PAGE → m (.scratch core tile j) = 0

/-- The tasks of a core. -/
def coreTasks (launch : Launch) (core : Nat) : List WindowInstr :=
  (List.range (launch.countAt core)).flatMap fun l =>
    job launch.args launch.users launch.settings core l (startOf launch.tasks launch.cores core + l)

/-- **What the tasks of a core leave**: each its windows, and the zeroed faces zero. -/
theorem coreTasks_out {core : Nat} (hcore : core < launch.cores) (hready : launch.Ready m₀ core m) :
    launch.Ready m₀ core (serial (launch.coreTasks core) m) ∧ ∀ t, launch.Dealt core t → ∀ c ∈ launch.taskOuts t,
      launch.Brings m₀ t c (serial (launch.coreTasks core) m c) := by
  have hdealt : ∀ l ∈ List.range (launch.countAt core),
      launch.Dealt core (startOf launch.tasks launch.cores core + l) :=
    fun l hl => dealt_at hcore (List.mem_range.mp hl)
  have htasks : launch.Ready m₀ core (serial (launch.coreTasks core) m) ∧ ∀ l ∈ List.range (launch.countAt core),
      ∀ c ∈ launch.taskOuts (startOf launch.tasks launch.cores core + l),
        launch.Brings m₀ (startOf launch.tasks launch.cores core + l) c (serial (launch.coreTasks core) m c) := by
    refine serial_flatMap_each (fun l => launch.taskOuts (startOf launch.tasks launch.cores core + l))
      (launch.Ready m₀ core) (fun l => launch.Brings m₀ (startOf launch.tasks launch.cores core + l)) ?_ ?_
      List.nodup_range hready
    · intro l hl m' hinv
      refine ⟨⟨fun c hc => ?_, fun tile htile j hle hlt => ?_⟩, ?_⟩
      · obtain ⟨a, p, j, ha, rfl⟩ := hc
        rw [job_kept (constant_page (hdealt l hl).user ⟨a, p, j, ha, rfl⟩)]
        exact hinv.inputs _ ⟨a, p, j, ha, rfl⟩
      · rw [job_faces hle]
        exact hinv.faces tile htile j hle hlt
      · rintro c ⟨s, hs, i, hi, rfl⟩ s' hs' i' heq
        obtain ⟨-, rfl, rfl⟩ := out_inj (hdealt l hl).user (hdealt l hl).user hs hs' heq
        rw [job_out (hdealt l hl).user hs hi hinv.faces]
        exact hinv.inputs.window (hdealt l hl).user hs
    · rintro l hl l' hl' hne m' c ⟨s, hs, i, hi, rfl⟩
      exact job_kept (other_page (hdealt l hl).user (hdealt l' hl').user (by omega) hs)
  refine ⟨htasks.1, fun t ht c hc => ?_⟩
  obtain ⟨l, rfl⟩ := Nat.exists_eq_add_of_le ht.2.1
  refine htasks.2 l (List.mem_range.mpr ?_) c hc
  have := ht.2.2
  unfold countAt
  omega

/-- A half-word that is no output of the core's tasks, and no page of a core, is as it was. -/
theorem coreTasks_kept {core a p j : Nat} (hcore : core < launch.cores)
    (h : ∀ t, launch.Dealt core t → ∀ s < SLOTS, a = outputArg launch.args launch.users (t / PAGES) s → p ≠ t % PAGES) :
    serial (launch.coreTasks core) m (.dram a p j) = m (.dram a p j) :=
  serial_flatMap_kept fun _ hl _ => job_kept (h _ (dealt_at hcore (List.mem_range.mp hl)))

theorem order_snd : launch.order.map Prod.snd = (List.range launch.cores).flatMap fun core =>
    zeroed launch.settings core ++ (launch.coreTasks core ++ [.settle .store]) := by
  rw [order, List.map_flatMap]
  exact List.flatMap_congr fun core _ => coreOrder_snd

theorem core_serial (core : Nat) :
    serial (zeroed launch.settings core ++ (launch.coreTasks core ++ [.settle .store])) m =
    serial (launch.coreTasks core) (serial (zeroed launch.settings core) m) := by
  rw [serial_append, serial_append]
  rfl

/-- **The order leaves the windows of every user.** -/
theorem order_out (m : Cell → UInt16) : ∀ t < launch.tasks, ∀ c ∈ launch.taskOuts t,
    launch.Brings m t c (serial (launch.order.map Prod.snd) m c) := by
  have hcores : launch.Inputs m (serial (launch.order.map Prod.snd) m) ∧ ∀ core ∈ List.range launch.cores,
      ∀ c ∈ {c | ∃ t, launch.Dealt core t ∧ c ∈ launch.taskOuts t},
        ∀ t, launch.Dealt core t → c ∈ launch.taskOuts t →
          launch.Brings m t c (serial (launch.order.map Prod.snd) m c) := by
    rw [order_snd]
    refine serial_flatMap_each (fun core => {c | ∃ t, launch.Dealt core t ∧ c ∈ launch.taskOuts t}) (launch.Inputs m)
      (fun core c v => ∀ t, launch.Dealt core t → c ∈ launch.taskOuts t → launch.Brings m t c v) ?_ ?_ List.nodup_range
      fun _ _ => rfl
    · intro core hcore m' hinv
      rw [core_serial]
      have hready : launch.Ready m core (serial (zeroed launch.settings core) m') := by
        refine ⟨fun c hc => ?_, fun tile htile j => zeroed_face htile⟩
        obtain ⟨a, p, j, ha, rfl⟩ := hc
        rw [zeroed_kept (by simp)]
        exact hinv _ ⟨a, p, j, ha, rfl⟩
      obtain ⟨hend, houts⟩ := coreTasks_out (List.mem_range.mp hcore) hready
      exact ⟨hend.inputs, fun c _ t ht hc => houts t ht c hc⟩
    · rintro core hcore core' hcore' hne m' c ⟨t, ht, s, hs, i, hi, rfl⟩
      rw [core_serial, coreTasks_kept (List.mem_range.mp hcore'), zeroed_kept (by simp)]
      intro t' ht'
      refine other_page ht.user ht'.user (fun heq => hne ?_) hs
      exact ht.unique (heq ▸ ht')
  intro t ht c hc
  obtain ⟨core, hdealt⟩ := dealt_exists ht
  exact hcores.2 core (List.mem_range.mpr hdealt.1) c ⟨t, hdealt, hc⟩ t hdealt hc

/-- Half-words of buffers that are no output page are as they were. -/
theorem order_kept {a p j : Nat}
    (h : ∀ t < launch.tasks, ∀ s < SLOTS, a = outputArg launch.args launch.users (t / PAGES) s → p ≠ t % PAGES) :
    serial (launch.order.map Prod.snd) m (.dram a p j) = m (.dram a p j) := by
  rw [order_snd]
  refine serial_flatMap_kept fun core hcore m' => ?_
  rw [core_serial, coreTasks_kept (List.mem_range.mp hcore), zeroed_kept (by simp)]
  exact fun t ht => h t ht.lt

end Launch

/-! ## Each half-word of the outputs is written once -/

section

variable {args : List Nat} {users core l t : Nat} {settings : Settings}

theorem settle_copies {P : Prop} [Decidable P] (kind : Kind) :
    copies (if P then [.settle kind] else [] : List WindowInstr) = [] := by
  split_ifs <;> rfl

/-- The transfers to buffers that a task issues are its writes. -/
theorem job_writes (a p i : Nat) : (copies (job args users settings core l t)).countP (fun op => op.dst = .dram a p i) =
    (taskWrites args users (t / PAGES) (t % PAGES) (scratchAt core (setOf settings l))).countP
      fun op => op.dst = .dram a p i := by
  have hreads : (taskReads args users settings.histRow (t / PAGES) (t % PAGES) (stagedAt core (l % NBUF_IN))).countP
      (fun op => op.dst = .dram a p i) = 0 := List.countP_eq_zero.mpr fun op hop => by
    obtain ⟨tile, -, i', -, -, rfl⟩ := mem_taskReads.mp hop
    simp [stagedAt]
  have hbuilds : (copies (taskBuilds settings core l)).countP (fun op => op.dst = .dram a p i) = 0 := by
    refine List.countP_eq_zero.mpr fun op hop => ?_
    have hmem : op ∈ taskCopies settings core l := by
      rw [taskBuilds_eq, copies_flatMap] at hop
      obtain ⟨ops, hops, hop⟩ := List.mem_flatMap.mp hop
      unfold copyBytes at hop
      split_ifs at hop
      · rw [copies_map] at hop
        rw [← taskSpans_flatten]
        exact List.mem_flatten.mpr ⟨ops, hops, hop⟩
      · cases hop
    obtain ⟨-, -, s, -, i', -, hdst⟩ := mem_taskCopies hmem
    rw [hdst]
    simp [scratchAt]
  simp only [job, readerTask, writerTask, List.cons_append, List.append_assoc, List.nil_append, copies_acquire,
    copies_append, copies_map, copies_settle, copies_release, settle_copies, List.append_nil, List.countP_append,
      hreads,
    hbuilds, Nat.zero_add]

end

namespace Launch

variable {launch : Launch}

/-- A task writes each half-word of its output pages once. -/
theorem taskWrites_once {t s i : Nat} (ht : t / PAGES < launch.users) (hs : s < SLOTS) (hi : i < PAGE)
    (scratch : Nat → Nat → Cell) :
    (taskWrites launch.args launch.users (t / PAGES) (t % PAGES) scratch).countP (fun op =>
      op.dst = .dram (outputArg launch.args launch.users (t / PAGES) s) (t % PAGES) i) = 1 := by
  have hcount := List.count_eq_one_of_mem (taskWrites_nodup (p := t % PAGES) ht scratch)
    (List.mem_map.mpr ⟨_, mem_taskWrites.mpr ⟨s, hs, i, hi, rfl⟩, rfl⟩)
  rw [List.count, List.countP_map] at hcount
  rw [← hcount]
  exact List.countP_congr fun op _ => by simp

/-- **The order writes each half-word of the outputs once.** -/
theorem order_once {t s i : Nat} (ht : t < launch.tasks) (hs : s < SLOTS) (hi : i < PAGE) :
    (copies (launch.order.map Prod.snd)).countP (fun op =>
      op.dst = .dram (outputArg launch.args launch.users (t / PAGES) s) (t % PAGES) i) = 1 := by
  obtain ⟨core, hdealt⟩ := dealt_exists ht
  have hzeroed : ∀ core, copies (zeroed launch.settings core) = [] := fun core => by
    refine List.filterMap_eq_nil_iff.mpr fun x hx => ?_
    obtain ⟨index, -, rfl⟩ := List.mem_map.mp hx
    rfl
  have hcore : ∀ core', copies (zeroed launch.settings core' ++ (launch.coreTasks core' ++ [.settle .store])) =
      (List.range (launch.countAt core')).flatMap fun l => copies (job launch.args launch.users launch.settings core' l
        (startOf launch.tasks launch.cores core' + l)) := by
    intro core'
    rw [copies_append, hzeroed, copies_append, coreTasks, copies_flatMap, List.nil_append]
    exact List.append_nil _
  have hother : ∀ core' l, core' < launch.cores → l < launch.countAt core' →
    startOf launch.tasks launch.cores core' + l ≠ t →
      (copies (job launch.args launch.users launch.settings core' l
        (startOf launch.tasks launch.cores core' + l))).countP
        (fun op => op.dst = .dram (outputArg launch.args launch.users (t / PAGES) s) (t % PAGES) i) = 0 := by
    intro core' l hcore' hl hne
    rw [job_writes, List.countP_eq_zero]
    intro op hop
    obtain ⟨s', hs', i', -, rfl⟩ := mem_taskWrites.mp hop
    simp only [decide_eq_true_eq]
    intro heq
    exact hne (out_inj (dealt_at hcore' hl).user hdealt.user hs' hs heq).1
  rw [order_snd, copies_flatMap]
  refine Indices.countP_flatMap_one List.nodup_range (List.mem_range.mpr hdealt.1) ?_ fun core' hcore' hne => ?_
  · obtain ⟨l, hl⟩ := Nat.exists_eq_add_of_le hdealt.2.1
    have hlt : l < launch.countAt core := by
      have := hdealt.2.2
      unfold countAt
      omega
    rw [hcore]
    refine Indices.countP_flatMap_one List.nodup_range (List.mem_range.mpr hlt) ?_ fun l' hl' hne => ?_
    · rw [job_writes, ← hl]
      exact taskWrites_once hdealt.user hs hi _
    · exact hother core l' hdealt.1 (List.mem_range.mp hl') (by omega)
  · rw [hcore, List.countP_eq_zero]
    intro op hop
    obtain ⟨l, hl, hop⟩ := List.mem_flatMap.mp hop
    have hlt := List.mem_range.mp hl
    refine List.countP_eq_zero.mp (hother core' l (List.mem_range.mp hcore') hlt fun heq => hne ?_) op hop
    exact (dealt_at (List.mem_range.mp hcore') hlt).unique (heq ▸ hdealt)

end Launch

/-! ## What the port leaves -/

namespace Launch

variable {launch : Launch} {m m₀ : Cell → UInt16}

/-- A task of the port. -/
def portTask (launch : Launch) (core t : Nat) : List WindowInstr :=
  servedTask (inputArg launch.args launch.users (t / PAGES)) (outputArg launch.args launch.users (t / PAGES)) ROWS core
    (t % PAGES)

/-- The tasks of a core's port. -/
def portTasks (launch : Launch) (core : Nat) : List WindowInstr :=
  (List.range' (startOf launch.tasks launch.cores core) (launch.countAt core)).flatMap (launch.portTask core)

/-- Half-words of buffers that are no output of the task are as they were. -/
theorem portTask_kept {core t a p j : Nat}
    (h : ∀ s < SLOTS, a = outputArg launch.args launch.users (t / PAGES) s → p ≠ t % PAGES) :
    serial (launch.portTask core t) m (.dram a p j) = m (.dram a p j) := servedTask_kept h

/-- **What the tasks of a core's port leave.** -/
theorem portTasks_out {core : Nat} (hcore : core < launch.cores) (hinputs : launch.Inputs m₀ m) :
    launch.Inputs m₀ (serial (launch.portTasks core) m) ∧ ∀ t, launch.Dealt core t → ∀ c ∈ launch.taskOuts t,
      launch.Brings m₀ t c (serial (launch.portTasks core) m c) := by
  have htasks : launch.Inputs m₀ (serial (launch.portTasks core) m) ∧
      ∀ t ∈ List.range' (startOf launch.tasks launch.cores core) (launch.countAt core),
        ∀ c ∈ launch.taskOuts t, launch.Brings m₀ t c (serial (launch.portTasks core) m c) := by
    refine serial_flatMap_each launch.taskOuts (launch.Inputs m₀) (launch.Brings m₀) ?_ ?_ List.nodup_range' hinputs
    · intro t ht m' hinv
      have hdealt := (dealt_range hcore).mp ht
      refine ⟨fun c hc => ?_, ?_⟩
      · obtain ⟨a, p, j, ha, rfl⟩ := hc
        rw [portTask_kept (constant_page hdealt.user ⟨a, p, j, ha, rfl⟩)]
        exact hinv _ ⟨a, p, j, ha, rfl⟩
      · rintro c ⟨s, hs, i, hi, rfl⟩ s' hs' i' heq
        obtain ⟨-, rfl, rfl⟩ := out_inj hdealt.user hdealt.user hs hs' heq
        rw [portTask, servedTask_out (by decide)
          (fun s hs s' hs' heq => (launch.outputArg_inj hdealt.user hdealt.user hs hs' heq).2) hs hi]
        exact hinv.window hdealt.user hs
    · rintro t ht t' ht' hne m' c ⟨s, hs, i, hi, rfl⟩
      exact portTask_kept (other_page ((dealt_range hcore).mp ht).user ((dealt_range hcore).mp ht').user hne hs)
  exact ⟨htasks.1, fun t ht c hc => htasks.2 t ((dealt_range hcore).mpr ht) c hc⟩

/-- The transfers to buffers that a task of the port issues are its writes. -/
theorem portTask_writes (core t a p i : Nat) :
    (copies (launch.portTask core t)).countP (fun op => op.dst = .dram a p i) =
    (taskWrites launch.args launch.users (t / PAGES) (t % PAGES) fun _ => .input core TILES_IN).countP
      fun op => op.dst = .dram a p i := by
  have hreads : (servedReads (inputArg launch.args launch.users (t / PAGES)) core (t % PAGES)).countP
      (fun op => op.dst = .dram a p i) = 0 := List.countP_eq_zero.mpr fun op hop => by
    obtain ⟨tile, -, i', -, rfl⟩ := mem_servedReads.mp hop
    simp
  have hwindow : ∀ s, copies (servedWindow core (t % PAGES) ROWS s (outputArg launch.args launch.users (t / PAGES) s)) =
      writeTile (.input core TILES_IN) (.dram (outputArg launch.args launch.users (t / PAGES) s) (t % PAGES)) := by
    intro s
    rw [servedWindow, copies_compute, copies_compute, copies_append, copies_map, copies_settle, copies_nil,
      List.append_nil]
  rw [portTask, servedTask, ← servedReads, copies_append, copies_map, copies_settle, List.countP_append, hreads,
    copies_flatMap, Nat.zero_add]
  simp only [hwindow]
  rfl

/-- What an order of all instructions does: the windows of every user, each half-word of them written once, and nothing
else in the buffers. -/
structure Exact (launch : Launch) (p : List WindowInstr) : Prop where
  outs : ∀ m, ∀ t < launch.tasks, ∀ c ∈ launch.taskOuts t, launch.Brings m t c (serial p m c)
  kept : ∀ m a page j, (∀ t < launch.tasks, ∀ s < SLOTS,
    a = outputArg launch.args launch.users (t / PAGES) s → page ≠ t % PAGES) →
      serial p m (.dram a page j) = m (.dram a page j)
  once : ∀ t < launch.tasks, ∀ s < SLOTS, ∀ i < PAGE, (copies p).countP (fun op =>
    op.dst = .dram (outputArg launch.args launch.users (t / PAGES) s) (t % PAGES) i) = 1

/-- The port, core by core. -/
theorem ported (m : Cell → UInt16) :
    (∀ t < launch.tasks, ∀ c ∈ launch.taskOuts t,
      launch.Brings m t c (serial ((List.range launch.cores).flatMap launch.portTasks) m c)) := by
  have hcores : launch.Inputs m (serial ((List.range launch.cores).flatMap launch.portTasks) m) ∧
      ∀ core ∈ List.range launch.cores, ∀ c ∈ {c | ∃ t, launch.Dealt core t ∧ c ∈ launch.taskOuts t},
        ∀ t, launch.Dealt core t → c ∈ launch.taskOuts t →
          launch.Brings m t c (serial ((List.range launch.cores).flatMap launch.portTasks) m c) := by
    refine serial_flatMap_each (fun core => {c | ∃ t, launch.Dealt core t ∧ c ∈ launch.taskOuts t}) (launch.Inputs m)
      (fun core c v => ∀ t, launch.Dealt core t → c ∈ launch.taskOuts t → launch.Brings m t c v) ?_ ?_ List.nodup_range
      fun _ _ => rfl
    · intro core hcore m' hinv
      obtain ⟨hend, houts⟩ := portTasks_out (List.mem_range.mp hcore) hinv
      exact ⟨hend, fun c _ t ht hc => houts t ht c hc⟩
    · rintro core hcore core' hcore' hne m' c ⟨t, ht, s, hs, i, hi, rfl⟩
      refine serial_flatMap_kept fun t' ht' m'' => portTask_kept ?_
      have hdealt := (dealt_range (List.mem_range.mp hcore')).mp ht'
      exact other_page ht.user hdealt.user (fun heq => hne (ht.unique (heq ▸ hdealt))) hs
  intro t ht c hc
  obtain ⟨core, hdealt⟩ := dealt_exists ht
  exact hcores.2 core (List.mem_range.mpr hdealt.1) c ⟨t, hdealt, hc⟩ t hdealt hc

theorem ported_exact : launch.Exact ((List.range launch.cores).flatMap launch.portTasks) where
  outs := fun m => ported m
  kept := fun m a page j h => serial_flatMap_kept fun core hcore m' => serial_flatMap_kept fun t ht m'' =>
    portTask_kept (h t ((dealt_range (List.mem_range.mp hcore)).mp ht).lt)
  once := fun t ht s hs i hi => by
    obtain ⟨core, hdealt⟩ := dealt_exists ht
    have hother : ∀ core' t', launch.Dealt core' t' → t' ≠ t → (copies (launch.portTask core' t')).countP (fun op =>
        op.dst = .dram (outputArg launch.args launch.users (t / PAGES) s) (t % PAGES) i) = 0 := by
      intro core' t' hdealt' hne
      rw [portTask_writes, List.countP_eq_zero]
      intro op hop
      obtain ⟨s', hs', i', -, rfl⟩ := mem_taskWrites.mp hop
      simp only [decide_eq_true_eq]
      intro heq
      exact hne (out_inj hdealt'.user hdealt.user hs' hs heq).1
    rw [copies_flatMap]
    refine Indices.countP_flatMap_one List.nodup_range (List.mem_range.mpr hdealt.1) ?_ fun core' hcore' hne => ?_
    · rw [portTasks, copies_flatMap]
      refine Indices.countP_flatMap_one List.nodup_range' ((dealt_range hdealt.1).mpr hdealt) ?_ fun t' ht' hne => ?_
      · rw [portTask_writes]
        exact taskWrites_once hdealt.user hs hi _
      · exact hother core t' ((dealt_range hdealt.1).mp ht') hne
    · rw [portTasks, copies_flatMap, List.countP_eq_zero]
      intro op hop
      obtain ⟨t', ht', hop⟩ := List.mem_flatMap.mp hop
      have hdealt' := (dealt_range (List.mem_range.mp hcore')).mp ht'
      exact List.countP_eq_zero.mp (hother core' t' hdealt' fun heq => hne (hdealt'.unique (heq ▸ hdealt))) op hop

/-- **Every launch has an order of its instructions in which nothing waits**, and that order is exact. -/
theorem exists_interleaving (launch : Launch) :
    ∃ w : Interleaving launch.discipline launch.programs launch.rings, launch.Exact (w.order.map Prod.snd) := by
  cases hport : launch.settings.port with
  | false => exact ⟨launch.trimmed hport,
    ⟨order_out, fun _ _ _ _ h => order_kept h, fun t ht s hs i hi => order_once ht hs hi⟩⟩
  | true =>
    have hrings : launch.rings = fun _ => [] := by
      funext ring
      cases ring with
      | free core => simp [rings, hport]
      | full core => rfl
    have hquiet : ∀ w, Quiet (launch.programs w) := by
      intro w
      rw [programs_eq]
      split_ifs
      · cases hrole : w.role with
        | reader => simp [part, hport, Quiet]
        | writer =>
          simp only [part, hport, if_true]
          exact Quiet.flatMap fun t _ => servedTask_quiet
      · simp [Quiet]
    have hnodup : ((List.range launch.cores).map fun core => (⟨core, .writer⟩ : Mover)).Nodup :=
      List.nodup_range.map fun a b heq => (Mover.mk.inj heq).1
    have houtside : ∀ w, w ∉ (List.range launch.cores).map (fun core => (⟨core, .writer⟩ : Mover)) →
        launch.programs w = [] := by
      intro w hw
      rw [programs_eq]
      split_ifs with hcore
      · obtain ⟨core, role⟩ := w
        cases role with
        | reader => simp [part, hport]
        | writer => exact absurd (List.mem_map.mpr ⟨core, List.mem_range.mpr hcore, rfl⟩) hw
      · rfl
    rw [hrings]
    refine ⟨.solo hnodup houtside hquiet programs_typed held_apart held_constant, ?_⟩
    have hserial : (inTurn launch.programs ((List.range launch.cores).map fun core => ⟨core, .writer⟩)).map Prod.snd =
        (List.range launch.cores).flatMap launch.portTasks := by
      rw [inTurn_snd, List.flatMap_map]
      refine List.flatMap_congr fun core hcore => ?_
      rw [programs_eq, if_pos (List.mem_range.mp hcore)]
      simp only [part, hport, if_true]
      rfl
    show launch.Exact
      ((inTurn launch.programs ((List.range launch.cores).map fun core => ⟨core, .writer⟩)).map Prod.snd)
    rw [hserial]
    exact ported_exact

end Launch

/-! ## Every run of a launch -/

namespace Launch

variable {launch : Launch}

/-- The inputs of a user are its piece and its histories. -/
theorem inputArg_eq {user piece : Nat} {history : List Nat} (hpiece : launch.pieces[user]? = some piece)
    (hhistory : launch.histories[user]? = some history) {tile : Nat} (htile : tile < TILES_IN) :
    inputArg launch.args launch.users user tile = (piece :: history).getD tile 0 := by
  obtain ⟨hargs, hhistories, -, hrows, -⟩ := launch.args_eq
  have hlt : user < launch.users := (List.getElem?_eq_some_iff.mp hpiece).1
  cases tile with
  | zero =>
    rw [inputArg, arg, hargs, List.getD_eq_getElem?_getD, List.append_assoc, List.getElem?_append_left hlt, hpiece]
    rfl
  | succ h =>
    have hh : h < HISTORY := by
      simp only [TILES_IN, HISTORY] at *
      omega
    have hindex : HISTORY * user + h < launch.histories.flatten.length := by
      rw [hhistories]
      simp only [HISTORY] at *
      omega
    rw [inputArg, arg, hargs, List.getD_eq_getElem?_getD, List.append_assoc, Nat.add_assoc,
      List.getElem?_append_right (Nat.le_add_right launch.users _),
      show launch.users + (HISTORY * user + h) - launch.pieces.length =
        HISTORY * user + h from Nat.add_sub_cancel_left _ _,
      List.getElem?_append_left hindex, Indices.flatten_getElem? hrows user hh, hhistory, List.getD_cons_succ,
      List.getD_eq_getElem?_getD]
    rfl

/-- A window of a user. -/
theorem outputArg_eq {user slot a : Nat} {output : List Nat} (houtput : launch.outputs[user]? = some output)
    (ha : output[slot]? = some a) :
      outputArg launch.args launch.users user slot = a ∧ user < launch.users ∧ slot < SLOTS := by
  obtain ⟨-, -, -, -, hrows⟩ := launch.args_eq
  obtain ⟨_, hcheck, -⟩ := bind_ok launch.common
  have hcount := raiseIf_ok.mp hcheck
  have hslot : slot < SLOTS := hrows output (List.mem_of_getElem? houtput) ▸ (List.getElem?_eq_some_iff.mp ha).1
  have huser : user < launch.users := by
    have := (List.getElem?_eq_some_iff.mp houtput).1
    show user < launch.pieces.length
    omega
  have hget := launch.outputArg_get huser hslot
  rw [Indices.flatten_getElem? hrows user hslot, houtput] at hget
  exact ⟨Option.some.inj (hget.symm.trans ha), huser, hslot⟩

/-- What a run that has ended leaves. -/
theorem ended_windows {m : Cell → UInt16} {s : State Mover Cell UInt16 Ring Group} {ls : List (Act Mover Cell)}
    (hrun : Run (Steps step) (initial launch.programs launch.rings m) ls s) (hend : s.Ended) :
    (∀ (user piece : Nat) (history output : List Nat), launch.pieces[user]? = some piece →
      launch.histories[user]? = some history → launch.outputs[user]? = some output →
      ∀ slot a : Nat, output[slot]? = some a → ∀ page < PAGES, ∀ i < PAGE,
        s.mem (.dram a page i) =
          windowAt (fun tile j => m (.dram ((piece :: history).getD tile 0) page j)) ROWS slot i ∧
        writesTo (.dram a page i) ls = 1) ∧
    ∀ a page i, (a ∈ launch.outputs.flatten → PAGES ≤ page) → s.mem (.dram a page i) = m (.dram a page i) := by
  obtain ⟨w, hexact⟩ := launch.exists_interleaving
  obtain ⟨-, htasks, -⟩ : 0 < launch.cores ∧ launch.tasks = launch.users * PAGES ∧ _ := planned_eq
  refine ⟨?_, ?_⟩
  · intro user piece history output hpiece hhistory houtput slot a ha page hpage i hi
    obtain ⟨rfl, huser, hslot⟩ := outputArg_eq houtput ha
    have hdiv : (user * PAGES + page) / PAGES = user := by
      simp only [PAGES] at *
      omega
    have hmod : (user * PAGES + page) % PAGES = page := by
      simp only [PAGES] at *
      omega
    have ht : user * PAGES + page < launch.tasks := by
      rw [htasks]
      calc user * PAGES + page < (user + 1) * PAGES := by rw [Nat.succ_mul]; omega
        _ ≤ launch.users * PAGES := Nat.mul_le_mul_right _ huser
    have hout := hexact.outs m _ ht (.dram (outputArg launch.args launch.users user slot) page i)
      ⟨slot, hslot, i, hi, by rw [hdiv, hmod]⟩ slot hslot i (by rw [hdiv, hmod])
    have honce := hexact.once _ ht slot hslot i hi
    rw [hdiv, hmod] at hout honce
    refine ⟨?_, (w.written hrun hend _).trans honce⟩
    rw [(w.finished hrun hend).1, hout]
    exact windowAt_congr hslot (by decide) fun tile htile j _ => by rw [inputArg_eq hpiece hhistory htile]
  · intro a page i hpage
    rw [(w.finished hrun hend).1]
    refine hexact.kept m a page i fun t ht slot hslot heq hmod => ?_
    have huser : t / PAGES < launch.users := Nat.div_lt_of_lt_mul (by rw [Nat.mul_comm, ← htasks]; exact ht)
    have hmem := List.mem_of_getElem? (launch.outputArg_get huser hslot)
    have hle := hpage (heq ▸ hmem)
    have hlt := Nat.mod_lt t (show 0 < PAGES by decide)
    omega

/-- **Main result: every schedule builds every user's windows.** From whatever was in the tensors, the rings and the
scratch pages, no run is stuck before all programs have ended; no half-word of a scratch page changes while a write of
it is under way; and a run that has ended has in page `page` of each user's window `slot` the window of that user's
piece and histories alone, each half-word written once, and every other page of the buffers as it was. -/
theorem windows_exact (launch : Launch) {m : Cell → UInt16} {s : State Mover Cell UInt16 Ring Group}
    {ls : List (Act Mover Cell)} (hrun : Run (Steps step) (initial launch.programs launch.rings m) ls s) :
    (¬ s.Ended → ∃ l s', step s l = some s') ∧
    (∀ l s', step s l = some s' → ∀ w, ∀ op ∈ (s.control.proc w).pending, l ≠ .perform w op →
      s'.mem op.src = s.mem op.src) ∧
    (s.Ended → (∀ (user piece : Nat) (history output : List Nat), launch.pieces[user]? = some piece →
      launch.histories[user]? = some history → launch.outputs[user]? = some output →
      ∀ slot a : Nat, output[slot]? = some a → ∀ page < PAGES, ∀ i < PAGE,
        s.mem (.dram a page i) =
          windowAt (fun tile j => m (.dram ((piece :: history).getD tile 0) page j)) ROWS slot i ∧
        writesTo (.dram a page i) ls = 1) ∧
      ∀ a page i, (a ∈ launch.outputs.flatten → PAGES ≤ page) → s.mem (.dram a page i) = m (.dram a page i)) := by
  obtain ⟨w, -⟩ := launch.exists_interleaving
  exact ⟨w.live hrun, fun l s' hstep w' op hop hne => w.source_kept hrun hstep hop hne, ended_windows hrun⟩

end Launch

/-- One user, on two cores. -/
def sampleLaunch : Launch where
  pieces := [100]
  histories := [[1, 2, 3, 4]]
  outputs := [[5, 6, 7, 8]]
  args := [100, 1, 2, 3, 4, 5, 6, 7, 8]
  cores := 2
  tasks := 160
  ranges := [(0, 80), (80, 80)]
  settings := ⟨false, true, true, 1, Or.inl rfl⟩
  aliases := rfl
  common := rfl
  planned := rfl

/-- Tensors that can be told apart. -/
def sampleMem : Cell → UInt16
  | .dram address page i => UInt16.ofNat (address + page + i)
  | _ => 7

/-- A launch that ends: half-word 0 of page 3 of window 0 is that of history 0. -/
theorem sampleLaunch_windows :
    ∃ s ls, Run (Steps step) (initial sampleLaunch.programs sampleLaunch.rings sampleMem) ls s ∧
    s.Ended ∧ s.mem (.dram 5 3 0) = 4 ∧ writesTo (.dram 5 3 0) ls = 1 := by
  obtain ⟨w, -⟩ := sampleLaunch.exists_interleaving
  have hleft := (sampleLaunch.windows_exact (w.reference sampleMem)).2.2 fun _ => rfl
  have hwindow := hleft.1 0 100 [1, 2, 3, 4] [5, 6, 7, 8] rfl rfl rfl 0 5 rfl 3 (by decide) 0 (by decide)
  exact ⟨_, _, w.reference sampleMem, fun _ => rfl, hwindow.1.trans (by decide), hwindow.2⟩

/-! ## The served kernel -/

/-- What the served kernel is given on a chip: one user's tensors, whose addresses are distinct, and at most 32 rows. -/
structure ServedLaunch where
  piece : Nat
  history : List Nat
  output : List Nat
  rows : Nat
  histories : history.length = HISTORY
  outputs : output.length = SLOTS
  distinct : (piece :: (history ++ output)).Nodup
  rows_le : rows ≤ 32

namespace ServedLaunch

variable {launch : ServedLaunch} {m : Cell → UInt16}

/-- The addresses that a worker is given. -/
def addresses (launch : ServedLaunch) : List Nat := launch.piece :: (launch.history ++ launch.output)

/-- What every program of the launch runs: the 48 workers. -/
def programs (launch : ServedLaunch) (w : Mover) : List WindowInstr :=
  match w.role with
  | .reader => []
  | .writer => if w.core < 48 then served launch.addresses launch.rows w.core else []

theorem input_eq {tile : Nat} (htile : tile < TILES_IN) :
    arg launch.addresses tile = (launch.piece :: launch.history).getD tile 0 := by
  have hlength := launch.histories
  rw [arg, addresses, List.getD_eq_getElem?_getD, List.getD_eq_getElem?_getD, ← List.cons_append,
    List.getElem?_append_left (by rw [List.length_cons, hlength, Nat.add_comm]; exact htile)]

theorem output_eq {slot a : Nat} (ha : launch.output[slot]? = some a) : arg launch.addresses (TILES_IN + slot) = a := by
  have hindex : launch.addresses[TILES_IN + slot]? = launch.output[slot]? := by
    rw [addresses, ← List.cons_append, List.getElem?_append_right (by
      rw [List.length_cons, launch.histories, Nat.add_comm]
      exact Nat.le_add_right _ _), List.length_cons, launch.histories]
    congr 1
    simp only [TILES_IN, HISTORY]
    omega
  rw [arg, List.getD_eq_getElem?_getD, hindex, ha]
  rfl

/-- The addresses are told apart by their places. -/
theorem arg_inj {k k' : Nat} (hk : k < TILES_IN + SLOTS) (hk' : k' < TILES_IN + SLOTS)
    (heq : arg launch.addresses k = arg launch.addresses k') : k = k' := by
  have hlength : launch.addresses.length = TILES_IN + SLOTS := by
    rw [addresses, List.length_cons, List.length_append, launch.histories, launch.outputs]
    rfl
  have hget : ∀ k, k < TILES_IN + SLOTS → launch.addresses[k]? = some (arg launch.addresses k) := fun k hk => by
    rw [arg, List.getD_eq_getElem?_getD, List.getElem?_eq_getElem (hlength ▸ hk)]
    rfl
  exact (List.getElem?_inj (hlength ▸ hk) launch.distinct).mp
    ((hget k hk).trans ((congrArg some heq).trans (hget k' hk').symm))

theorem output_inj : ∀ s < SLOTS, ∀ s' < SLOTS,
    arg launch.addresses (TILES_IN + s) = arg launch.addresses (TILES_IN + s') → s = s' := by
  intro s hs s' hs' heq
  exact Nat.add_left_cancel (arg_inj (Nat.add_lt_add_left hs _) (Nat.add_lt_add_left hs' _) heq)

/-- The pages of a worker. -/
theorem mem_pages {worker page : Nat} (hworker : worker < 48) :
    page ∈ List.range' worker ((PAGES - worker + 47) / 48) 48 ↔ page < PAGES ∧ page % 48 = worker := by
  simp only [List.mem_range', PAGES]
  constructor
  · rintro ⟨i, hi, rfl⟩
    omega
  · rintro ⟨hlt, hmod⟩
    exact ⟨page / 48, by omega, by omega⟩

/-- What a worker holds: its core's pages, and its output pages. -/
def held (launch : ServedLaunch) (w : Mover) : Set Cell :=
  {c | w.role = .writer ∧ ((∃ tile i, c = .input w.core tile i) ∨ ∃ page < PAGES, page % 48 = w.core ∧
    ∃ s < SLOTS, ∃ i, c = .dram (arg launch.addresses (TILES_IN + s)) page i)}

/-- The inputs are constant, and there are no rings. -/
def discipline (launch : ServedLaunch) : Discipline Mover Cell Ring Group where
  constant := {c | ∃ tile < TILES_IN, ∃ page i, c = .dram (arg launch.addresses tile) page i}
  cells := fun _ => ∅
  producer := fun _ => ⟨0, .writer⟩
  consumer := fun _ => ⟨0, .writer⟩

theorem programs_typed (w : Mover) : Typed launch.discipline w (launch.held w) [] (launch.programs w) := by
  obtain ⟨core, role⟩ := w
  cases role with
  | reader => exact .nil
  | writer =>
    simp only [programs]
    split_ifs with hcore
    · have hpages : ∀ pages : List Nat, (∀ page ∈ pages, page < PAGES ∧ page % 48 = core) →
          Typed launch.discipline ⟨core, .writer⟩ (launch.held ⟨core, .writer⟩) [] (pages.flatMap (servedTask
            (arg launch.addresses) (fun slot => arg launch.addresses (TILES_IN + slot)) launch.rows core)) := by
        intro pages
        induction pages with
        | nil => exact fun _ => .nil
        | cons page pages ih =>
          intro hall
          rw [List.flatMap_cons]
          obtain ⟨hlt, hmod⟩ := hall page List.mem_cons_self
          exact servedTask_typed (fun tile htile j => ⟨tile, htile, page, j, rfl⟩)
            (fun tile j => ⟨rfl, Or.inl ⟨tile, j, rfl⟩⟩)
            (fun s hs j => ⟨rfl, Or.inr ⟨page, hlt, hmod, s, hs, j, rfl⟩⟩)
              (ih fun page' h => hall page' (List.mem_cons_of_mem _ h))
      exact hpages _ fun page hpage => (mem_pages hcore).mp hpage
    · exact .nil

theorem held_apart (w w' : Mover) (hne : w ≠ w') : Disjoint (launch.held w) (launch.held w') := by
  refine Set.disjoint_left.mpr ?_
  obtain ⟨core, role⟩ := w
  obtain ⟨core', role'⟩ := w'
  rintro c ⟨hrole, hc⟩ ⟨hrole', hc'⟩
  refine hne ?_
  simp only at hrole hrole'
  rcases hc with ⟨tile, i, rfl⟩ | ⟨page, -, hmod, s, -, i, rfl⟩
  · rcases hc' with ⟨tile', i', heq⟩ | ⟨page', -, -, s', -, i', heq⟩
    · obtain rfl : core = core' := (Cell.input.inj heq).1
      rw [hrole, hrole']
    · cases heq
  · rcases hc' with ⟨tile', i', heq⟩ | ⟨page', -, hmod', s', -, i', heq⟩
    · cases heq
    · have hpage := (Cell.dram.inj heq).2.1
      simp only at hmod hmod'
      rw [hrole, hrole', ← hmod, ← hmod', hpage]

theorem held_constant (w : Mover) : Disjoint (launch.held w) launch.discipline.constant := by
  refine Set.disjoint_left.mpr ?_
  rintro c ⟨-, hc⟩ ⟨tile, htile, page, i, rfl⟩
  rcases hc with ⟨tile', i', heq⟩ | ⟨page', -, -, s, hs, i', heq⟩
  · cases heq
  · have := arg_inj (by omega) (by omega) (Cell.dram.inj heq).1
    omega

theorem programs_quiet (w : Mover) : Quiet (launch.programs w) := by
  obtain ⟨core, role⟩ := w
  cases role with
  | reader => simp [programs, Quiet]
  | writer =>
    simp only [programs]
    split_ifs
    · exact Quiet.flatMap fun page _ => servedTask_quiet
    · simp [Quiet]

/-- **A worker leaves the windows of its pages.** -/
theorem worker_out {core page s i : Nat} (hcore : core < 48) (hpage : page < PAGES) (hmod : page % 48 = core)
    (hs : s < SLOTS) (hi : i < PAGE) :
    serial (launch.programs ⟨core, .writer⟩) m (.dram (arg launch.addresses (TILES_IN + s)) page i) =
      windowAt (fun tile j => m (.dram (arg launch.addresses tile) page j)) launch.rows s i := by
  have hpages : (∀ c ∈ launch.discipline.constant, serial (launch.programs ⟨core, .writer⟩) m c = m c) ∧
      ∀ page ∈ List.range' core ((PAGES - core + 47) / 48) 48,
        ∀ c ∈ {c | ∃ s < SLOTS, ∃ i < PAGE, c = .dram (arg launch.addresses (TILES_IN + s)) page i},
        ∀ s < SLOTS, ∀ i < PAGE, c = .dram (arg launch.addresses (TILES_IN + s)) page i →
          serial (launch.programs ⟨core, .writer⟩) m c =
            windowAt (fun tile j => m (.dram (arg launch.addresses tile) page j)) launch.rows s i := by
    simp only [programs, if_pos hcore, served]
    refine serial_flatMap_each
      (fun page => {c | ∃ s < SLOTS, ∃ i < PAGE, c = .dram (arg launch.addresses (TILES_IN + s)) page i})
      (fun m' => ∀ c ∈ launch.discipline.constant, m' c = m c)
      (fun page c v => ∀ s < SLOTS, ∀ i < PAGE, c = .dram (arg launch.addresses (TILES_IN + s)) page i →
        v = windowAt (fun tile j => m (.dram (arg launch.addresses tile) page j)) launch.rows s i) ?_ ?_
      (List.nodup_range' 48) fun _ _ => rfl
    · intro page hpage m' hinv
      refine ⟨fun c hc => ?_, ?_⟩
      · obtain ⟨tile, htile, page', i', rfl⟩ := hc
        rw [servedTask_kept fun s hs heq => absurd (arg_inj (by omega) (by omega) heq) (by omega)]
        exact hinv _ ⟨tile, htile, page', i', rfl⟩
      · rintro c ⟨s, hs, i, hi, rfl⟩ s' hs' i' hi' heq
        obtain ⟨ha, -, rfl⟩ := Cell.dram.inj heq
        obtain rfl := output_inj s hs s' hs' ha
        refine (servedTask_out launch.rows_le output_inj hs hi).trans ?_
        exact windowAt_congr hs launch.rows_le fun tile htile j _ => hinv _ ⟨tile, htile, page, j, rfl⟩
    · rintro page hpage page' hpage' hne m' c ⟨s, hs, i, hi, rfl⟩
      exact servedTask_kept fun s' hs' heq => hne
  exact hpages.2 page ((mem_pages hcore).mpr ⟨hpage, hmod⟩) _ ⟨s, hs, i, hi, rfl⟩ s hs i hi rfl

/-- The workers. -/
def workers : List Mover := (List.range 48).map fun core => ⟨core, .writer⟩

theorem workers_nodup : workers.Nodup := List.nodup_range.map fun _ _ heq => (Mover.mk.inj heq).1

theorem programs_outside (w : Mover) (hw : w ∉ workers) : launch.programs w = [] := by
  obtain ⟨core, role⟩ := w
  cases role with
  | reader => rfl
  | writer =>
    simp only [programs]
    split_ifs with hcore
    · exact absurd (List.mem_map.mpr ⟨core, List.mem_range.mpr hcore, rfl⟩) hw
    · rfl

/-- The workers in turn. -/
def interleaving (launch : ServedLaunch) : Interleaving launch.discipline launch.programs fun _ => [] :=
  .solo workers_nodup programs_outside programs_quiet programs_typed held_apart held_constant

/-- What a run that has ended leaves. -/
theorem ended_served {s : State Mover Cell UInt16 Ring Group} {ls : List (Act Mover Cell)}
    (hrun : Run (Steps step) (initial launch.programs (fun _ => []) m) ls s) (hend : s.Ended) :
    (∀ slot a, launch.output[slot]? = some a → ∀ page < PAGES, ∀ i < PAGE, s.mem (.dram a page i) =
      windowAt (fun tile j => m (.dram ((launch.piece :: launch.history).getD tile 0) page j)) launch.rows slot i) ∧
    ∀ a page i, (a ∈ launch.output → PAGES ≤ page) → s.mem (.dram a page i) = m (.dram a page i) := by
  obtain ⟨hinside, houtside⟩ := Interleaving.solo_finished workers_nodup programs_outside programs_quiet programs_typed
    held_apart held_constant hrun hend
  refine ⟨fun slot a ha page hpage i hi => ?_, fun a page i hpage => houtside _ fun w hw => ?_⟩
  · have hslot : slot < SLOTS := launch.outputs ▸ (List.getElem?_eq_some_iff.mp ha).1
    have hcore : page % 48 < 48 := Nat.mod_lt _ (by decide)
    have hheld : Cell.dram (arg launch.addresses (TILES_IN + slot)) page i ∈ launch.held ⟨page % 48, .writer⟩ :=
      ⟨rfl, Or.inr ⟨page, hpage, rfl, slot, hslot, i, rfl⟩⟩
    rw [← output_eq ha, hinside _ _ hheld, worker_out hcore hpage rfl hslot hi]
    exact windowAt_congr hslot launch.rows_le fun tile htile j _ => by rw [input_eq htile]
  · obtain ⟨-, hw⟩ := hw
    rcases hw with ⟨tile, i', heq⟩ | ⟨page', hlt, -, slot, hslot, i', heq⟩
    · cases heq
    · obtain ⟨rfl, rfl, -⟩ := Cell.dram.inj heq
      have hmem : arg launch.addresses (TILES_IN + slot) ∈ launch.output := by
        have hlt : slot < launch.output.length := by rw [launch.outputs]; exact hslot
        rw [output_eq (List.getElem?_eq_getElem hlt)]
        exact List.getElem_mem hlt
      have := hpage hmem
      omega

/-- **Main result: the served kernel builds its user's windows** under every schedule of its 48 workers, at any of its
numbers of rows; no run is stuck, and every other page of the buffers is as it was. -/
theorem served_exact (launch : ServedLaunch) {m : Cell → UInt16} {s : State Mover Cell UInt16 Ring Group}
    {ls : List (Act Mover Cell)} (hrun : Run (Steps step) (initial launch.programs (fun _ => []) m) ls s) :
    (¬ s.Ended → ∃ l s', step s l = some s') ∧
    (s.Ended → (∀ slot a, launch.output[slot]? = some a → ∀ page < PAGES, ∀ i < PAGE, s.mem (.dram a page i) =
        windowAt (fun tile j => m (.dram ((launch.piece :: launch.history).getD tile 0) page j)) launch.rows slot i) ∧
      ∀ a page i, (a ∈ launch.output → PAGES ≤ page) → s.mem (.dram a page i) = m (.dram a page i)) := by
  exact ⟨launch.interleaving.live hrun, ended_served hrun⟩

end ServedLaunch

/-- The user of the packed launch, alone. -/
def sampleServed : ServedLaunch where
  piece := 100
  history := [1, 2, 3, 4]
  output := [5, 6, 7, 8]
  rows := 16
  histories := rfl
  outputs := rfl
  distinct := by decide
  rows_le := by decide

/-- A launch that ends: half-word 1 of page 2 of window 1 is that of history 1. -/
theorem sampleServed_windows : ∃ s ls, Run (Steps step) (initial sampleServed.programs (fun _ => []) sampleMem) ls s ∧
    s.Ended ∧ s.mem (.dram 6 2 1) = 5 := by
  have hrun := sampleServed.interleaving.reference sampleMem
  have hleft := (sampleServed.served_exact hrun).2 fun _ => rfl
  exact ⟨_, _, hrun, fun _ => rfl, (hleft.1 1 6 rfl 2 (by decide) 1 (by decide)).trans (by decide)⟩

/-- **Main result: the packed launch agrees with the served launches.** Whatever the schedules of either, a packed
launch that has ended, under any of its settings, and a served launch of one of its users that has ended, of sixteen
rows and from the same tensors, have left the same in that user's windows. -/
theorem packed_agrees (packed : Launch) (one : ServedLaunch) {user : Nat} (hrows : one.rows = ROWS)
    (hpiece : packed.pieces[user]? = some one.piece) (hhistory : packed.histories[user]? = some one.history)
    (houtput : packed.outputs[user]? = some one.output) {m : Cell → UInt16}
    {s s' : State Mover Cell UInt16 Ring Group} {ls ls' : List (Act Mover Cell)}
    (hrun : Run (Steps step) (initial packed.programs packed.rings m) ls s) (hend : s.Ended)
    (hrun' : Run (Steps step) (initial one.programs (fun _ => []) m) ls' s') (hend' : s'.Ended) :
    ∀ a ∈ one.output, ∀ page < PAGES, ∀ i < PAGE, s.mem (.dram a page i) = s'.mem (.dram a page i) := by
  intro a ha page hpage i hi
  obtain ⟨slot, hslot⟩ := List.mem_iff_getElem?.mp ha
  have hpacked := (Launch.ended_windows hrun hend).1 user _ _ _ hpiece hhistory houtput slot a hslot page hpage i hi
  have hserved := (ServedLaunch.ended_served hrun' hend').1 slot a hslot page hpage i hi
  rw [hpacked.1, hserved, hrows]

/-- The two sample launches agree. -/
theorem sample_agrees :
    ∃ s ls s' ls', Run (Steps step) (initial sampleLaunch.programs sampleLaunch.rings sampleMem) ls s ∧
    Run (Steps step) (initial sampleServed.programs (fun _ => []) sampleMem) ls' s' ∧
    s.mem (.dram 8 159 1023) = s'.mem (.dram 8 159 1023) := by
  obtain ⟨w, -⟩ := sampleLaunch.exists_interleaving
  have hrun := w.reference sampleMem
  have hrun' := sampleServed.interleaving.reference sampleMem
  exact ⟨_, _, _, _, hrun, hrun',
    @packed_agrees sampleLaunch sampleServed 0 rfl rfl rfl rfl _ _ _ _ _ hrun (fun _ => rfl) hrun'
    (fun _ => rfl) 8 (by decide) 159 (by decide) 1023 (by decide)⟩

end BlackholeQwen.Gdn.ConvWindows
