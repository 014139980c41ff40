import BlackholeQwen.Gdn.CommitDma
import Mathlib.Data.List.GetD

/-!
# Copying states (`scripts/ci/gdn_state_copy.py`, `scripts/ci/gdn_state_copy.cpp`)

A transfer copies a user's state between compact tensors, or to and from slot zero of the native state: whole pages of
the recurrent state, and row zero of the convolution states. One launch of 48 workers may carry several transfers.

- `CopyLaunch.transfers_exact`: whatever the schedule, every destination of a launch has its source's state, and
  nothing else of the buffers changes.
- `copyCompactBatch_singles`: the transfers of a batch are admitted one by one, each on its own tensors.
- `batch_agrees`: a batch leaves what a launch for each transfer leaves, one after the other.
-/

namespace BlackholeQwen.Gdn.StateCopy

open Lib Lib.Indices Lib.Movers Lib.Pages Lib.Tiles
open CommitDma

/-! ## The checks -/

/-- `transfer_counts`: compact to compact, or to and from the native state. -/
def transferCounts (source destination : List Shape) (compactOnly : Bool) : Except PyError (List Nat) := do
  raiseIf ((source, destination) ∉ if compactOnly then [(compactShapes, compactShapes)]
      else [(compactShapes, nativeShapes), (nativeShapes, compactShapes)])
    (.valueError "Expected frozen compact-to-compact or active-slot transfer geometry")
  pure [384, 160, 160, 160, 160]

/-- `_copy_state`: the checks of the transfers, and of the addresses on a chip. -/
def copyState (transfers : List (List Shape × List Shape)) (compactOnly : Bool) (addresses : List Nat) :
    Except PyError Unit := do
  transfers.forM fun transfer => do
    raiseIf (transfer.1.length ≠ 5 ∨ transfer.2.length ≠ 5) (.valueError "Expected complete state lists")
    discard (transferCounts transfer.1 transfer.2 compactOnly)
  raiseIf (¬addresses.Nodup) (.valueError "State-copy buffers must not alias")

/-- `copy_active` and `copy_compact`: one transfer. -/
def copyActive (source destination : List Shape) (addresses : List Nat) : Except PyError Unit :=
  copyState [(source, destination)] false addresses

def copyCompact (source destination : List Shape) (addresses : List Nat) : Except PyError Unit :=
  copyState [(source, destination)] true addresses

/-- `copy_compact_batch`: several transfers in one launch. -/
def copyCompactBatch (transfers : List (List Shape × List Shape)) (addresses : List Nat) : Except PyError Unit := do
  raiseIf (transfers = []) (.valueError "At least one transfer required")
  copyState transfers true addresses

/-! ## The kernel -/

/-- The pages of a state's five tensors. -/
def pageCount (slot : Nat) : Nat := if slot = 0 then REC_PAGES else CONV_PAGES

/-- The address of a transfer's source, among those of the sources and the destinations in turn. -/
def source (addresses : List Nat) (group slot : Nat) : Nat := addresses.getD (group * 10 + 2 * slot) 0

/-- The address of a transfer's destination. -/
def destination (addresses : List Nat) (group slot : Nat) : Nat := addresses.getD (group * 10 + (2 * slot + 1)) 0

/-- A page of a transfer. -/
structure Job where
  group : Nat
  slot : Nat
  page : Nat
  deriving DecidableEq, Repr

/-- A page of `transfer`: all of it, or the two faces of row zero. -/
def transferTask (addresses : List Nat) (job : Job) : PageTask UInt16 :=
  if job.slot = 0 then
    { reads := [⟨source addresses job.group job.slot, job.page, 0, 0, PAGE⟩]
      builds := []
      writes := [⟨0, destination addresses job.group job.slot, job.page, 0, PAGE⟩] }
  else
    { reads := [⟨source addresses job.group job.slot, job.page, 0, 0, 16⟩,
        ⟨source addresses job.group job.slot, job.page, 0, 256, 16⟩]
      builds := []
      writes := [⟨0, destination addresses job.group job.slot, job.page, 0, 16⟩,
        ⟨0, destination addresses job.group job.slot, job.page, 256, 16⟩] }

/-- The pages of a worker, transfer by transfer. -/
def jobs (groups worker : Nat) : List Job :=
  (List.range groups).flatMap fun group => (List.range 5).flatMap fun slot =>
    (List.range' worker ((pageCount slot - worker + 47) / 48) 48).map fun page => ⟨group, slot, page⟩

/-- What a transfer moves of the five tensors. -/
def Moves (slot page i : Nat) : Prop :=
  page < pageCount slot ∧ if slot = 0 then i < PAGE else i < 16 ∨ 256 ≤ i ∧ i < 272

section

variable {addresses : List Nat} {groups worker : Nat} {job : Job} {b : Buffers UInt16} {slots : Slots UInt16} {i : Nat}

theorem mem_jobs (hworker : worker < 48) : job ∈ jobs groups worker ↔
    job.group < groups ∧ job.slot < 5 ∧ job.page < pageCount job.slot ∧ job.page % 48 = worker := by
  obtain ⟨group, slot, page⟩ := job
  have hpages : ∀ slot, (∃ n < (pageCount slot - worker + 47) / 48, page = worker + 48 * n) ↔
      page < pageCount slot ∧ page % 48 = worker := by
    intro slot
    have hcount : 48 ≤ pageCount slot := by
      simp only [pageCount, REC_PAGES, CONV_PAGES]
      split_ifs <;> decide
    constructor
    · rintro ⟨n, hn, rfl⟩
      omega
    · intro ⟨hlt, hmod⟩
      exact ⟨page / 48, by omega, by omega⟩
  simp only [jobs, List.mem_flatMap, List.mem_map, List.mem_range, List.mem_range', Job.mk.injEq]
  constructor
  · rintro ⟨group', hgroup, slot', hslot, page', hpage, rfl, rfl, rfl⟩
    exact ⟨hgroup, hslot, (hpages slot').mp hpage⟩
  · rintro ⟨hgroup, hslot, hpage⟩
    exact ⟨group, hgroup, slot, hslot, page, (hpages slot).mpr hpage, rfl, rfl, rfl⟩

theorem jobs_nodup (groups worker : Nat) : (jobs groups worker).Nodup := by
  refine List.nodup_flatMap.mpr ⟨fun group _ => List.nodup_flatMap.mpr ⟨fun slot _ => ?_, ?_⟩, ?_⟩
  · exact List.Nodup.map (fun _ _ h => (Job.mk.inj h).2.2) (List.nodup_range' 48 (by decide))
  · refine List.nodup_range.imp fun {slot slot'} hne => List.disjoint_left.mpr fun job hjob hjob' => ?_
    obtain ⟨_, -, rfl⟩ := List.mem_map.mp hjob
    obtain ⟨_, -, heq⟩ := List.mem_map.mp hjob'
    exact hne (Job.mk.inj heq).2.1.symm
  · refine List.nodup_range.imp fun {group group'} hne => List.disjoint_left.mpr fun job hjob hjob' => ?_
    obtain ⟨_, -, hjob⟩ := List.mem_flatMap.mp hjob
    obtain ⟨_, -, rfl⟩ := List.mem_map.mp hjob
    obtain ⟨_, -, hjob'⟩ := List.mem_flatMap.mp hjob'
    obtain ⟨_, -, heq⟩ := List.mem_map.mp hjob'
    exact hne (Job.mk.inj heq).1.symm

theorem task_reads {r : Read} (h : r ∈ (transferTask addresses job).reads) :
    r.address = source addresses job.group job.slot ∧ r.page = job.page := by
  unfold transferTask at h
  split_ifs at h
  · obtain rfl := List.mem_singleton.mp h
    exact ⟨rfl, rfl⟩
  · simp only [List.mem_cons, List.not_mem_nil, or_false] at h
    rcases h with rfl | rfl <;> exact ⟨rfl, rfl⟩

theorem task_writes {w : Write} (h : w ∈ (transferTask addresses job).writes) :
    w.slot = 0 ∧ w.address = destination addresses job.group job.slot ∧ w.page = job.page := by
  unfold transferTask at h
  split_ifs at h
  · obtain rfl := List.mem_singleton.mp h
    exact ⟨rfl, rfl, rfl⟩
  · simp only [List.mem_cons, List.not_mem_nil, or_false] at h
    rcases h with rfl | rfl <;> exact ⟨rfl, rfl, rfl⟩

/-- The writes of a task cover what a transfer moves. -/
theorem task_covers (hpage : job.page < pageCount job.slot) : Moves job.slot job.page i ↔
    ∃ w ∈ (transferTask addresses job).writes, w.start ≤ i ∧ i < w.start + w.count := by
  unfold Moves transferTask
  split_ifs with h
  · simp [hpage]
  · simp [hpage]

theorem task_slots (h : Moves job.slot job.page i) :
    (transferTask addresses job).slots PAGE (b, slots) 0 i =
      b (source addresses job.group job.slot) job.page i := by
  obtain ⟨-, h⟩ := h
  unfold transferTask
  split_ifs at h ⊢ with hslot
  · simp [PageTask.slots, Read.run, h]
  · simp only [PageTask.slots, List.foldl_cons, List.foldl_nil, Read.run, true_and]
    rcases h with h | ⟨hlow, hhigh⟩
    · rw [if_neg (by omega), if_pos ⟨by omega, by omega⟩]
    · rw [if_pos ⟨by omega, by omega⟩]

theorem task_apart (job : Job) : (transferTask addresses job).reads.Pairwise Read.Apart ∧
    (transferTask addresses job).writes.Pairwise Write.Apart := by
  unfold transferTask
  split_ifs
  · exact ⟨List.pairwise_singleton _ _, List.pairwise_singleton _ _⟩
  · exact ⟨List.pairwise_pair.mpr fun _ => .inl (show 0 + 16 ≤ 256 by decide),
      List.pairwise_pair.mpr fun _ _ => .inl (show 0 + 16 ≤ 256 by decide)⟩

end

/-! ## The launch -/

/-- A launch that passed the checks, with an address for each of the ten tensors of each transfer. -/
structure CopyLaunch where
  transfers : List (List Shape × List Shape)
  compactOnly : Bool
  addresses : List Nat
  made : copyState transfers compactOnly addresses = .ok ()
  tensors : addresses.length = transfers.length * 10

/-- What transfers leave of the buffers: at every destination what was at its source, and the rest. -/
structure Left (addresses : List Nat) (groups : Nat) (b b' : Buffers UInt16) : Prop where
  moved : ∀ group < groups, ∀ slot < 5, ∀ page i, Moves slot page i →
    b' (destination addresses group slot) page i = b (source addresses group slot) page i
  kept : ∀ address page i, (∀ group < groups, ∀ slot < 5, address = destination addresses group slot →
    ¬Moves slot page i) → b' address page i = b address page i

section

variable {addresses addresses' : List Nat} {groups groups' : Nat} {b b' b'' : Buffers UInt16}

/-- A place of the addresses is a source or a destination of one transfer. -/
theorem destination_inj (hnodup : addresses.Nodup) (hsize : addresses.length = groups * 10)
    {group group' slot slot' : Nat}
    (hgroup : group < groups) (hgroup' : group' < groups) (hslot : slot < 5) (hslot' : slot' < 5)
    (h : destination addresses group slot = destination addresses group' slot') : group = group' ∧ slot = slot' := by
  have := getD_inj hnodup (by omega) (by omega) h
  omega

theorem source_ne (hnodup : addresses.Nodup) (hsize : addresses.length = groups * 10) {group group' slot slot' : Nat}
    (hgroup : group < groups) (hgroup' : group' < groups) (hslot : slot < 5) (hslot' : slot' < 5) :
    source addresses group slot ≠ destination addresses group' slot' := fun h => by
  have := getD_inj hnodup (by omega) (by omega) h
  omega

/-- What transfers leave is determined. -/
theorem Left.unique (h : Left addresses groups b b') (h' : Left addresses groups b b'') : b' = b'' := by
  funext address page i
  by_cases hmoved : ∃ group < groups, ∃ slot < 5, address = destination addresses group slot ∧ Moves slot page i
  · obtain ⟨group, hgroup, slot, hslot, rfl, hmoves⟩ := hmoved
    rw [h.moved group hgroup slot hslot page i hmoves, h'.moved group hgroup slot hslot page i hmoves]
  · have hnone : ∀ group < groups, ∀ slot < 5, address = destination addresses group slot → ¬Moves slot page i :=
      fun group hgroup slot hslot heq hmoves => hmoved ⟨group, hgroup, slot, hslot, heq, hmoves⟩
    rw [h.kept address page i hnone, h'.kept address page i hnone]

/-- **Transfers one after the other** are the transfers at once, where no two of their tensors are one. -/
theorem Left.append (hnodup : (addresses ++ addresses').Nodup) (hsize : addresses.length = groups * 10)
    (hsize' : addresses'.length = groups' * 10) (h : Left addresses groups b b') (h' : Left addresses' groups' b' b'') :
    Left (addresses ++ addresses') (groups + groups') b b'' := by
  have hall : (addresses ++ addresses').length = (groups + groups') * 10 := by
    rw [List.length_append]
    omega
  have hfirst : ∀ group < groups, ∀ slot < 5,
      source (addresses ++ addresses') group slot = source addresses group slot ∧
      destination (addresses ++ addresses') group slot = destination addresses group slot := by
    intro group hgroup slot hslot
    exact ⟨List.getD_append _ _ _ _ (by omega), List.getD_append _ _ _ _ (by omega)⟩
  have hsecond : ∀ group < groups', ∀ slot < 5,
      source (addresses ++ addresses') (groups + group) slot = source addresses' group slot ∧
      destination (addresses ++ addresses') (groups + group) slot = destination addresses' group slot := by
    intro group hgroup slot hslot
    refine ⟨(List.getD_append_right _ _ _ _ (by omega)).trans ?_, (List.getD_append_right _ _ _ _ (by omega)).trans ?_⟩
    · exact congrArg (addresses'.getD · 0) (by omega)
    · exact congrArg (addresses'.getD · 0) (by omega)
  refine ⟨fun group hgroup slot hslot page i hmoves => ?_, fun address page i hnone => ?_⟩
  · by_cases hlt : group < groups
    · -- the later transfers write other tensors
      rw [h'.kept _ page i fun group' hgroup' slot' hslot' heq => ?_, (hfirst group hlt slot hslot).1,
        (hfirst group hlt slot hslot).2, h.moved group hlt slot hslot page i hmoves]
      rw [← (hsecond group' hgroup' slot' hslot').2] at heq
      have := (destination_inj hnodup hall hgroup (by omega) hslot hslot' heq).1
      omega
    · -- and the earlier ones do not write its source
      obtain ⟨group', rfl⟩ := Nat.exists_eq_add_of_le (Nat.not_lt.mp hlt)
      have hgroup' : group' < groups' := by omega
      rw [(hsecond group' hgroup' slot hslot).2, h'.moved group' hgroup' slot hslot page i hmoves,
        ← (hsecond group' hgroup' slot hslot).1, h.kept _ page i fun first hfirst' slot' hslot' heq => ?_]
      rw [← (hfirst first hfirst' slot' hslot').2] at heq
      exact absurd heq (source_ne hnodup hall hgroup (by omega) hslot hslot')
  · rw [h'.kept address page i fun group hgroup slot hslot heq =>
        hnone (groups + group) (by omega) slot hslot (by rw [(hsecond group hgroup slot hslot).2, heq]),
      h.kept address page i fun group hgroup slot hslot heq =>
        hnone group (by omega) slot hslot (by rw [(hfirst group hgroup slot hslot).2, heq])]

end

/-- What the checks of a launch leave. -/
theorem copyState_ok {transfers : List (List Shape × List Shape)} {compactOnly : Bool} {addresses : List Nat}
    (h : copyState transfers compactOnly addresses = .ok ()) : addresses.Nodup := by
  obtain ⟨_, -, h⟩ := bind_ok h
  exact not_not.mp (raiseIf_ok.mp h)

/-- The checks of several transfers are those of the first, on its own tensors, and of the others, on theirs. -/
theorem copyState_cons {transfer : List Shape × List Shape} {rest : List (List Shape × List Shape)}
    {compactOnly : Bool} {first later : List Nat}
    (h : copyState (transfer :: rest) compactOnly (first ++ later) = .ok ()) :
    copyState [transfer] compactOnly first = .ok () ∧ copyState rest compactOnly later = .ok () := by
  obtain ⟨⟨⟩, hall, hnodup⟩ := bind_ok h
  obtain ⟨⟨⟩, hfirst, hrest⟩ := bind_ok hall
  have hapart := not_not.mp (raiseIf_ok.mp hnodup)
  constructor
  · beta_reduce at hfirst
    rw [copyState, List.forM, hfirst]
    exact raiseIf_ok.mpr (not_not.mpr hapart.of_append_left)
  · rw [copyState, hrest]
    exact raiseIf_ok.mpr (not_not.mpr hapart.of_append_right)

namespace CopyLaunch

variable (c : CopyLaunch)

/-- The transfers of a launch. -/
def groups : Nat := c.transfers.length

/-- The pages that a worker writes. -/
def Own (core address page : Nat) : Prop :=
  ∃ group < c.groups, ∃ slot < 5, address = destination c.addresses group slot ∧ page % 48 = core

/-- The tensors that are only read. -/
def Input (address : Nat) : Prop := ∃ group < c.groups, ∃ slot < 5, address = source c.addresses group slot

theorem nodup : c.addresses.Nodup := copyState_ok c.made

/-- The launch, as pages that are moved. -/
def pages : Launch UInt16 where
  size := PAGE
  cores := 48
  prelude := fun _ => []
  tasks := fun core => (jobs c.groups core).map (transferTask c.addresses)
  own := c.Own
  input := fun address _ => c.Input address
  fits := fun core hcore t ht => by
    obtain ⟨job, hjob, rfl⟩ := List.mem_map.mp ht
    obtain ⟨hgroup, hslot, -, hmod⟩ := (mem_jobs hcore).mp hjob
    refine ⟨fun r hr => ?_, (task_apart job).1, fun w hw => ?_, (task_apart job).2⟩
    · exact Or.inr ⟨job.group, hgroup, job.slot, hslot, (task_reads hr).1⟩
    · obtain ⟨-, haddress, hpage⟩ := task_writes hw
      exact ⟨job.group, hgroup, job.slot, hslot, haddress, by rw [hpage, hmod]⟩
  apart := fun core _ core' _ address page => by
    rintro ⟨_, -, _, -, -, rfl⟩ ⟨_, -, _, -, -, rfl⟩
    rfl
  inputs := fun core _ address page => by
    rintro ⟨group, hgroup, slot, hslot, rfl, -⟩ ⟨group', hgroup', slot', hslot', heq⟩
    exact source_ne c.nodup c.tensors hgroup' hgroup hslot' hslot heq.symm

/-- What a worker leaves, alone: the places of its jobs as their sources were, and the others as they were. -/
theorem left_jobs {c : CopyLaunch} {m : Cell → UInt16} {core : Nat} (hcore : core < 48) :
    (∀ job ∈ jobs c.groups core, ∀ i, Moves job.slot job.page i →
      (c.pages.left core m).1 (destination c.addresses job.group job.slot) job.page i =
        m (.dram (source c.addresses job.group job.slot) job.page i)) ∧
    ∀ address page i, (∀ job ∈ jobs c.groups core, address = destination c.addresses job.group job.slot →
      page = job.page → ¬Moves job.slot job.page i) →
      (c.pages.left core m).1 address page i = m (.dram address page i) := by
  have hsize : c.addresses.length = c.groups * 10 := c.tensors
  obtain ⟨hcovered, hkept⟩ := tasks_each PAGE (transferTask c.addresses) (buffersOf m)
    (slotsOf core m) (jobs_nodup c.groups core) (fun _ => True) (fun _ _ _ _ => trivial)
    (fun job hjob r hr job' hjob' w hw hsame => by
      obtain ⟨hgroup, hslot, -⟩ := (mem_jobs hcore).mp hjob
      obtain ⟨hgroup', hslot', -⟩ := (mem_jobs hcore).mp hjob'
      exact source_ne c.nodup hsize hgroup hgroup' hslot hslot'
        ((task_reads hr).1.symm.trans (hsame.1.trans (task_writes hw).2.1)))
    (fun job _ => (task_apart job).2)
    (fun job hjob job' hjob' hne w hw w' hw' haddress hpage => by
      obtain ⟨hgroup, hslot, -⟩ := (mem_jobs hcore).mp hjob
      obtain ⟨hgroup', hslot', -⟩ := (mem_jobs hcore).mp hjob'
      obtain ⟨-, ha, hp⟩ := task_writes hw
      obtain ⟨-, ha', hp'⟩ := task_writes hw'
      obtain ⟨hg, hs⟩ := destination_inj c.nodup hsize hgroup hgroup' hslot hslot'
        (ha.symm.trans (haddress.trans ha'))
      refine absurd ?_ hne
      obtain ⟨group, slot, page⟩ := job
      obtain ⟨group', slot', page'⟩ := job'
      exact Job.mk.injEq .. ▸ ⟨hg, hs, hp.symm.trans (hpage.trans hp')⟩) trivial
  refine ⟨fun job hjob i hmoves => ?_, fun address page i hnone => ?_⟩
  · have hpage := ((mem_jobs hcore).mp hjob).2.2.1
    have hcovers : ∃ w ∈ (transferTask c.addresses job).writes, w.start ≤ i ∧ i < w.start + w.count :=
      (task_covers hpage).mp hmoves
    obtain ⟨w, hw, hlow, hhigh⟩ := hcovers
    obtain ⟨hslot, ha, hp⟩ := task_writes hw
    obtain ⟨slots, -, hvalue⟩ := hcovered job hjob w hw _ _ i ⟨ha.symm, hp.symm, hlow, hhigh⟩
    refine hvalue.trans ?_
    rw [hslot, task_slots hmoves]
    rfl
  · refine hkept address page i fun job hjob w hw hcovers => ?_
    obtain ⟨-, ha, hp⟩ := task_writes hw
    obtain ⟨haddress, hpage, hlow, hhigh⟩ := hcovers
    exact hnone job hjob (haddress.trans ha) (hpage.trans hp)
      ((task_covers ((mem_jobs hcore).mp hjob).2.2.1).mpr ⟨w, hw, hlow, hhigh⟩)

/-- **What a run that has ended leaves of the buffers.** -/
theorem ended_left {c : CopyLaunch} {m : Cell → UInt16} {s : State Nat Cell UInt16 Empty Empty}
    {ls : List (Act Nat Cell)}
    (hrun : Run (Steps step) (initial c.pages.programs (fun _ => []) m) ls s) (hend : s.Ended) :
    Left c.addresses c.groups (buffersOf m) (buffersOf s.mem) := by
  obtain ⟨hown, hother⟩ := c.pages.finished hrun hend
  refine ⟨fun group hgroup slot hslot page i hmoves => ?_, fun address page i hnone => ?_⟩
  · have hcore : page % 48 < 48 := Nat.mod_lt _ (by decide)
    refine (hown _ hcore _ _ ⟨group, hgroup, slot, hslot, rfl, rfl⟩ i).trans ?_
    exact (left_jobs hcore).1 ⟨group, slot, page⟩ ((mem_jobs hcore).mpr ⟨hgroup, hslot, hmoves.1, rfl⟩) i hmoves
  · by_cases howned : ∃ core < 48, c.Own core address page
    · obtain ⟨core, hcore, howned⟩ := howned
      refine (hown core hcore _ _ howned i).trans ((left_jobs hcore).2 _ _ _ fun job hjob heq hpage => ?_)
      obtain ⟨hgroup, hslot, -⟩ := (mem_jobs hcore).mp hjob
      exact hpage ▸ hnone job.group hgroup job.slot hslot heq
    · exact hother address page (fun core hcore h => howned ⟨core, hcore, h⟩) i

end CopyLaunch

/-! ## Results -/

/-- **Main result: a copy is exact under every schedule.** No run is stuck before all workers have ended, and one that
has ended has the state of every source in slot zero of its destination, the other slots of the destinations as they
were, and every other buffer too. -/
theorem CopyLaunch.transfers_exact (c : CopyLaunch) {m : Cell → UInt16} {s : State Nat Cell UInt16 Empty Empty}
    {ls : List (Act Nat Cell)} (hrun : Run (Steps step) (initial c.pages.programs (fun _ => []) m) ls s) :
    (¬s.Ended → ∃ l s', step s l = some s') ∧
    (s.Ended → (∀ group < c.groups,
        stateAt (buffersOf s.mem) (destination c.addresses group) 0 0 =
          stateAt (buffersOf m) (source c.addresses group) 0 0 ∧
        ∀ user, 0 < user → user < 32 → stateAt (buffersOf s.mem) (destination c.addresses group) 0 user =
          stateAt (buffersOf m) (destination c.addresses group) 0 user) ∧
      ∀ address, (∀ group < c.groups, ∀ slot < 5, address ≠ destination c.addresses group slot) →
        ∀ page i, s.mem (.dram address page i) = m (.dram address page i)) := by
  refine ⟨c.pages.live hrun, fun hend => ?_⟩
  have hleft := c.ended_left hrun hend
  refine ⟨fun group hgroup => ⟨?_, fun user hlow hhigh => ?_⟩, fun address hother page i => ?_⟩
  · refine LayerState.ext (funext fun page => funext fun i => ?_) (funext fun slot => funext fun column => ?_)
    · have hpage := page.isLt
      refine hleft.moved group hgroup 0 (by omega) _ _ ⟨?_, by rw [if_pos rfl]; exact i.isLt⟩
      simp only [pageCount, if_pos]
      omega
    · have hslot := slot.isLt
      have hcolumn := column.isLt
      refine hleft.moved group hgroup (0 + 1 + slot) (by omega) _ _ ⟨?_, ?_⟩
      · rw [pageCount, if_neg (by omega)]
        simp only [CONV_PAGES]
        omega
      · rw [if_neg (by omega)]
        simp only [place, faceStart]
        omega
  · refine LayerState.ext (funext fun page => funext fun i => ?_) (funext fun slot => funext fun column => ?_)
    · refine hleft.kept _ _ _ fun group' hgroup' slot' hslot' heq hmoves => ?_
      obtain ⟨-, rfl⟩ := destination_inj c.nodup c.tensors hgroup hgroup' (by omega) hslot' heq
      have hpage := hmoves.1
      simp only [pageCount, if_pos, REC_PAGES] at hpage
      omega
    · have hslot := slot.isLt
      refine hleft.kept _ _ _ fun group' hgroup' slot' hslot' heq hmoves => ?_
      obtain ⟨-, rfl⟩ := destination_inj c.nodup c.tensors hgroup hgroup' (by omega) hslot' heq
      have hplace := hmoves.2
      rw [if_neg (by omega)] at hplace
      simp only [place, faceStart] at hplace
      omega
  · exact hleft.kept _ _ _ fun group hgroup slot hslot heq => absurd heq (hother group hgroup slot hslot)

/-- Transfers that one call admits are admitted a call each. -/
theorem copyState_singles {transfers : List (List Shape × List Shape)} {compactOnly : Bool} {addresses : List Nat}
    (h : copyState transfers compactOnly addresses = .ok ()) (hsize : addresses.length = transfers.length * 10) :
    ∃ singles : List CopyLaunch, addresses = singles.flatMap (·.addresses) ∧ ∀ c ∈ singles, ∃ source destination,
      c.transfers = [(source, destination)] ∧ c.compactOnly = compactOnly ∧
      (if compactOnly then copyCompact source destination c.addresses
        else copyActive source destination c.addresses) = .ok () := by
  induction transfers generalizing addresses with
  | nil => exact ⟨[], List.length_eq_zero_iff.mp (by simpa using hsize), by simp⟩
  | cons transfer rest ih =>
    rw [List.length_cons] at hsize
    obtain ⟨first, later, rfl, hfirst⟩ : ∃ first later, addresses = first ++ later ∧ first.length = 10 :=
      ⟨addresses.take 10, addresses.drop 10, (List.take_append_drop 10 addresses).symm, by
        rw [List.length_take]; omega⟩
    rw [List.length_append] at hsize
    obtain ⟨hmade, hrest⟩ := copyState_cons h
    obtain ⟨singles, hsingles, hmem⟩ := ih hrest (by omega)
    refine ⟨⟨[transfer], compactOnly, first, hmade, hfirst⟩ :: singles, ?_, fun c hc => ?_⟩
    · rw [List.flatMap_cons, ← hsingles]
    · rcases List.mem_cons.mp hc with rfl | hc
      · refine ⟨transfer.1, transfer.2, rfl, rfl, ?_⟩
        cases compactOnly <;> exact hmade
      · exact hmem c hc

/-- The transfers of a batch are admitted by `copy_compact`, one by one. -/
theorem copyCompactBatch_singles {transfers : List (List Shape × List Shape)} {addresses : List Nat}
    (h : copyCompactBatch transfers addresses = .ok ()) (hsize : addresses.length = transfers.length * 10) :
    ∃ singles : List CopyLaunch, addresses = singles.flatMap (·.addresses) ∧ ∀ c ∈ singles, ∃ source destination,
      c.transfers = [(source, destination)] ∧ c.compactOnly = true ∧
      copyCompact source destination c.addresses = .ok () := by
  obtain ⟨⟨⟩, -, h⟩ := bind_ok h
  exact copyState_singles h hsize

/-- Launches one after the other, each run to its end, with anything in the pages of the cores. -/
inductive Launches : List CopyLaunch → Buffers UInt16 → Buffers UInt16 → Prop
  | nil (b : Buffers UInt16) : Launches [] b b
  | cons (c : CopyLaunch) (rest : List CopyLaunch) (m : Cell → UInt16) (s : State Nat Cell UInt16 Empty Empty)
      (ls : List (Act Nat Cell)) (b : Buffers UInt16)
      (hrun : Run (Steps step) (initial c.pages.programs (fun _ => []) m) ls s) (hend : s.Ended)
      (hrest : Launches rest (buffersOf s.mem) b) : Launches (c :: rest) (buffersOf m) b

theorem Launches.left {cs : List CopyLaunch} {b b' : Buffers UInt16} (h : Launches cs b b')
    (hnodup : (cs.flatMap (·.addresses)).Nodup) :
    ∃ groups, (cs.flatMap (·.addresses)).length = groups * 10 ∧ Left (cs.flatMap (·.addresses)) groups b b' := by
  induction h with
  | nil b => exact ⟨0, rfl, fun _ h => absurd h (Nat.not_lt_zero _), fun _ _ _ _ => rfl⟩
  | cons c rest m s ls b hrun hend hrest ih =>
    rw [List.flatMap_cons] at hnodup ⊢
    obtain ⟨groups, hsize, hleft⟩ := ih (List.nodup_append.mp hnodup).2.1
    refine ⟨c.groups + groups, ?_, (c.ended_left hrun hend).append hnodup c.tensors hsize hleft⟩
    rw [List.length_append, hsize, c.tensors, Nat.add_mul]
    rfl

/-- **A batch agrees with separate launches**: whatever the schedules, one launch of all the transfers leaves the
buffers as the launches of the same transfers one after the other do. -/
theorem batch_agrees (batch : CopyLaunch) (singles : List CopyLaunch)
    (haddresses : batch.addresses = singles.flatMap (·.addresses)) {m : Cell → UInt16}
    {s : State Nat Cell UInt16 Empty Empty} {ls : List (Act Nat Cell)} {b : Buffers UInt16}
    (hrun : Run (Steps step) (initial batch.pages.programs (fun _ => []) m) ls s) (hend : s.Ended)
    (hsingles : Launches singles (buffersOf m) b) : buffersOf s.mem = b := by
  obtain ⟨groups, hsize, hleft⟩ := hsingles.left (haddresses ▸ batch.nodup)
  have hgroups : batch.groups = groups := by
    have hbatch : batch.addresses.length = batch.groups * 10 := batch.tensors
    rw [haddresses, hsize] at hbatch
    omega
  have hbatch := batch.ended_left hrun hend
  rw [haddresses, hgroups] at hbatch
  exact hbatch.unique hleft

/-- Two compact transfers in one launch. -/
def sampleBatch : CopyLaunch where
  transfers := List.replicate 2 (compactShapes, compactShapes)
  compactOnly := true
  addresses := List.range 20
  made := rfl
  tensors := rfl

/-- The second transfer's recurrent state. -/
theorem sampleBatch_copied :
    ∃ s ls, Run (Steps step) (initial sampleBatch.pages.programs (fun _ => []) addressMem) ls s ∧
    s.Ended ∧ (stateAt (buffersOf s.mem) (destination (List.range 20) 1) 0 0).recurrent = fun _ _ => 10 := by
  obtain ⟨s, ls, hrun, hend⟩ := sampleBatch.pages.exists_run addressMem
  have hstate := (((sampleBatch.transfers_exact hrun).2 hend).1 1 (by decide)).1
  exact ⟨s, ls, hrun, hend, (congrArg LayerState.recurrent hstate).trans rfl⟩

/-- The transfers of `sampleBatch`, a launch each. -/
def sampleSingle (first : Nat) (h : ((List.range 10).map (first + ·)).Nodup) : CopyLaunch where
  transfers := [(compactShapes, compactShapes)]
  compactOnly := true
  addresses := (List.range 10).map (first + ·)
  made := raiseIf_ok.mpr (not_not.mpr h)
  tensors := rfl

/-- Both ways leave the same. -/
theorem sampleBatch_agrees :
    ∃ s ls b, Run (Steps step) (initial sampleBatch.pages.programs (fun _ => []) addressMem) ls s ∧
    s.Ended ∧ Launches [sampleSingle 0 (by decide), sampleSingle 10 (by decide)] (buffersOf addressMem) b ∧
    buffersOf s.mem = b := by
  obtain ⟨s, ls, hrun, hend⟩ := sampleBatch.pages.exists_run addressMem
  obtain ⟨s₁, ls₁, hrun₁, hend₁⟩ := (sampleSingle 0 (by decide)).pages.exists_run addressMem
  obtain ⟨s₂, ls₂, hrun₂, hend₂⟩ := (sampleSingle 10 (by decide)).pages.exists_run s₁.mem
  have hlaunches : Launches [sampleSingle 0 (by decide), sampleSingle 10 (by decide)] (buffersOf addressMem)
      (buffersOf s₂.mem) :=
    .cons _ _ addressMem s₁ ls₁ _ hrun₁ hend₁ (.cons _ _ s₁.mem s₂ ls₂ _ hrun₂ hend₂ (.nil _))
  exact ⟨s, ls, _, hrun, hend, hlaunches, batch_agrees sampleBatch _ rfl hrun hend hlaunches⟩

end BlackholeQwen.Gdn.StateCopy
