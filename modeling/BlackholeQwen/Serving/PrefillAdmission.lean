import BlackholeQwen.Lib.Runs
import BlackholeQwen.Serving.DramAdmission
import Mathlib.Data.Finset.Lattice.Lemmas
import Mathlib.Data.List.Perm.Basic

/-!
# One fresh prompt per prefill pass

The wrapper of `serving_prefill_admission.py` around `_schedule_prefill_only` of the plugin's `TTScheduler`
(`fixtures/vllm_tt_plugin_bf77cd63/scheduler.py`), and the `schedule` of that class, which may discard a pass.

`super().schedule()` is not part of the repository: a `BaseScheduler` is one call of it, with the requests it admits and
preempts as data, and what it may do with them as fields. `Moved` is what such a call does to the queues it sees;
`oneFreshPrefill_moved` says that a wrapped pass does the same to the queues of the scheduler, hidden or not.
-/

namespace BlackholeQwen.Serving

open Lib

/-- `TTSchedulingMode`. -/
inductive TTSchedulingMode
  | default | decodeOnly | prefillOnly
  deriving DecidableEq, Repr

/-- `TTScheduler`; `isPrefillChunk` and `blocked` are the requests' `is_prefill_chunk` and whether
`_is_blocked_waiting_status` holds of their status. -/
structure TTScheduler where
  running : List Request
  waiting : List Request
  skippedWaiting : Option (List Request)
  maxNumRunningReqs : Nat
  finishedReqIds : Finset String
  forcedMode : TTSchedulingMode
  isPrefillChunk : Request → Bool
  blocked : Request → Bool

/-- `SchedulerOutput`, as far as it is read here. -/
structure PassOutput where
  scheduledNewReqs : List String
  totalNumScheduledTokens : Nat
  finishedReqIds : Finset String
  deriving DecidableEq

/-! ## The base scheduler -/

/-- The requests one pass moves: to `running`, and back in front of each queue. -/
structure Moves where
  admitted : List Request
  preempted : List Request
  preemptedSkipped : List Request

/-- **What a pass does to the queues**: the admitted requests leave them for `running`, the preempted ones stand in
front, and the others keep their order. -/
structure Moved (s : TTScheduler) (m : Moves) (s' : TTScheduler) : Prop where
  waiting : ∃ p, p.Perm m.preempted ∧ s'.waiting = p ++ s.waiting.filter (· ∉ m.admitted)
  skipped : ∃ p, p.Perm m.preemptedSkipped ∧
    s'.skippedWaiting = s.skippedWaiting.map fun q => p ++ q.filter (· ∉ m.admitted)
  unskipped : s.skippedWaiting = none → m.preemptedSkipped = []
  running : (s'.running ++ (m.preempted ++ m.preemptedSkipped)).Perm (s.running ++ m.admitted)
  visible : ∀ r ∈ m.admitted, r ∈ s.waiting ∨ r ∈ s.skippedWaiting.getD []
  capacity : s'.maxNumRunningReqs = s.maxNumRunningReqs
  mode : s'.forcedMode = s.forcedMode

/-- One call of the base scheduler's `schedule`: it admits no more requests than it may run, and its output names the
finished ids it takes. -/
structure BaseScheduler where
  schedule : TTScheduler → Call TTScheduler PassOutput
  moves : TTScheduler → Moves
  moved : ∀ s, Moved s (moves s) (schedule s).obj
  admits : ∀ s, (moves s).admitted.length ≤ s.maxNumRunningReqs
  takes : ∀ s out, (schedule s).result = .ok out →
    Disjoint out.finishedReqIds (schedule s).obj.finishedReqIds ∧
      out.finishedReqIds ∪ (schedule s).obj.finishedReqIds = s.finishedReqIds
  keeps : ∀ s e, (schedule s).result = .error e → (schedule s).obj.finishedReqIds = s.finishedReqIds

/-- What a step of the engine meets: the two calls of the base scheduler it may make, `prepend_requests` of its queues,
the request the lifecycle's gate holds, and the registered predicate. -/
structure PassEnv where
  base : BaseScheduler
  decodeBase : BaseScheduler
  prepend : List Request → List Request → List Request
  prepends : ∀ requests queue, ∃ p, p.Perm requests ∧ prepend requests queue = p ++ queue
  gate : Option String
  predicate : Option DramPredicate

namespace TTScheduler

/-- `pure_decodes`. -/
def pureDecodes (s : TTScheduler) : List Request := s.running.filter fun r => !s.isPrefillChunk r

/-- `partial_prefills`. -/
def partialPrefills (s : TTScheduler) : List Request := s.running.filter s.isPrefillChunk

/-- `decodes`. -/
def decodes (s : TTScheduler) : Nat := s.pureDecodes.length

/-- `partials`. -/
def partials (s : TTScheduler) : Nat := s.running.length - s.decodes

/-- `_has_pending_prefill`. -/
def hasPendingPrefill (s : TTScheduler) : Bool :=
  !s.waiting.isEmpty || !(s.skippedWaiting.getD []).isEmpty || s.running.any s.isPrefillChunk

/-- What the base scheduler sees in a prefill pass. -/
def prefillView (s : TTScheduler) : TTScheduler :=
  { s with running := s.partialPrefills, maxNumRunningReqs := s.maxNumRunningReqs - s.decodes }

/-- The plugin's `_schedule_prefill_only`. -/
def schedulePrefillOnly (base : BaseScheduler) (s : TTScheduler) : Call TTScheduler PassOutput :=
  (base.schedule s.prefillView).onto fun s' =>
  { s' with running := s'.running ++ s.pureDecodes, maxNumRunningReqs := s.maxNumRunningReqs }

/-- A hidden queue, with what was put back in front of it. -/
def merged (prepend : List Request → List Request → List Request) (saved put : List Request) : List Request :=
  if put.isEmpty then saved else prepend put saved

/-- A scheduler that has had its queues hidden, with `s`'s queues back. -/
def unhidden (s : TTScheduler) (prepend : List Request → List Request → List Request) (s' : TTScheduler) :
    TTScheduler :=
  { s' with
    waiting := merged prepend s.waiting s'.waiting
    skippedWaiting := match s.skippedWaiting with
      | none => s'.skippedWaiting
      | some saved => some (merged prepend saved (s'.skippedWaiting.getD [])) }

/-- A scheduler with its queues hidden. -/
def hidden (s : TTScheduler) : TTScheduler :=
  { s with waiting := [], skippedWaiting := s.skippedWaiting.map fun _ => [] }

/-- The plugin's `_schedule_decode_only`. -/
def scheduleDecodeOnly (env : PassEnv) (s : TTScheduler) : Call TTScheduler PassOutput :=
  (env.decodeBase.schedule { s.hidden with running := s.pureDecodes }).onto fun s' =>
  s.unhidden env.prepend { s' with running := s'.running ++ s.partialPrefills }

/-! ## The wrapper -/

/-- `admission`: how many requests the pass may run, and whether the queues are hidden. -/
def admission (partials : Nat) (held : Option String) : Nat × Bool :=
  if 0 < partials then (partials, true) else if held.isSome then (0, true) else (1, false)

/-- `waiting_capacity`. -/
def waitingCapacity (savedMax decodes allowed : Nat) : Nat := min (savedMax - decodes) allowed

/-- The requests the predicate is asked about. -/
def candidates (s : TTScheduler) : List Request := admissionCandidates s.blocked s.skippedWaiting s.waiting

/-- `dram_held`: asked only when the pass would admit a fresh prompt. -/
def dramHeld (env : PassEnv) (s : TTScheduler) (w : WrapState) : Bool × WrapState :=
  if (admission s.partials env.gate).2 = false ∧
      0 < waitingCapacity s.maxNumRunningReqs s.decodes (admission s.partials env.gate).1 then
    dramHold env.predicate s.candidates s.finishedReqIds s.decodes w
  else (false, w)

/-- `(allowed, hide)`, after the hold. -/
def allowance (env : PassEnv) (s : TTScheduler) (w : WrapState) : Nat × Bool :=
  if (s.dramHeld env w).1 then (0, true) else admission s.partials env.gate

/-- The markers and the decision line. -/
def marked (env : PassEnv) (s : TTScheduler) (allowed : Nat × Bool) (w : WrapState) : WrapState :=
  let w := if w.live then w else { w with live := true }.logged .live
  if (s.partials, s.decodes, env.gate.isSome, allowed) ∈ w.seen then w
  else { w with seen := w.seen ++ [(s.partials, s.decodes, env.gate.isSome, allowed)] }.logged
    (.decision s.partials s.decodes env.gate.isSome allowed.1 allowed.2)

/-- What the pass sees of the scheduler. -/
def passView (s : TTScheduler) (allowed : Nat × Bool) : TTScheduler :=
  { (if allowed.2 then s.hidden else s) with maxNumRunningReqs := min s.maxNumRunningReqs (allowed.1 + s.decodes) }

/-- The `finally` of the wrapper. -/
def restored (env : PassEnv) (s : TTScheduler) (allowed : Nat × Bool) (s' : TTScheduler) : TTScheduler :=
  { (if allowed.2 then s.unhidden env.prepend s' else s') with maxNumRunningReqs := s.maxNumRunningReqs }

/-- The ids `carry_finished` puts back. -/
def carried (s' : TTScheduler) (out : PassOutput) (decodes : Nat) : Finset String :=
  if decodes = 0 ∨ out.totalNumScheduledTokens ≠ 0 ∨ s'.forcedMode ≠ .default then ∅ else out.finishedReqIds

/-- `carry_finished`. -/
def carryFinished (s' : TTScheduler) (out : PassOutput) (decodes : Nat) (w : WrapState) :
    TTScheduler × WrapState :=
  if s'.carried out decodes = ∅ then (s', w)
  else ({ s' with finishedReqIds := s'.carried out decodes ∪ s'.finishedReqIds },
    w.logged (.carried (s'.carried out decodes)))

/-- The wrapped `_schedule_prefill_only`. -/
def oneFreshPrefill (env : PassEnv) (s : TTScheduler) (w : WrapState) :
    Call (TTScheduler × WrapState) PassOutput :=
  ((schedulePrefillOnly env.base (s.passView (s.allowance env w))).onto fun s' =>
    (s.restored env (s.allowance env w) s', s.marked env (s.allowance env w) (s.dramHeld env w).2)).bind fun p out =>
  if (s.dramHeld env w).1 then Call.ret (p.1.carryFinished out s.decodes p.2) out else Call.ret p out

/-- The plugin's `schedule`. -/
def schedule (env : PassEnv) (s : TTScheduler) (w : WrapState) : Call (TTScheduler × WrapState) PassOutput :=
  match s.forcedMode with
  | .prefillOnly => s.oneFreshPrefill env w
  | .decodeOnly =>
    if s.hasPendingPrefill then (s.scheduleDecodeOnly env).onto fun s' => (s', w)
    else (env.decodeBase.schedule s).onto fun s' => (s', w)
  | .default =>
    if s.hasPendingPrefill then
      (s.oneFreshPrefill env w).bind fun p out =>
      if out.totalNumScheduledTokens = 0 ∧ s.running.any (fun r => !s.isPrefillChunk r) = true then
        (p.1.scheduleDecodeOnly env).onto fun s' => (s', p.2)
      else Call.ret p out
    else (env.decodeBase.schedule s).onto fun s' => (s', w)

end TTScheduler

/-! ## What a pass does -/

variable {env : PassEnv} {s s' : TTScheduler} {w : WrapState} {m : Moves}

/-- The two kinds of running requests. -/
theorem TTScheduler.perm_running (s : TTScheduler) : (s.partialPrefills ++ s.pureDecodes).Perm s.running :=
  List.filter_append_perm _ _

/-- Requests that were set aside during a pass rejoin the others. -/
theorem perm_rejoin {seen aside all after gone new : List Request} (h : (seen ++ aside).Perm all)
    (hp : (after ++ gone).Perm (seen ++ new)) : ((after ++ aside) ++ gone).Perm (all ++ new) := by
  have h1 : ((after ++ aside) ++ gone).Perm ((after ++ gone) ++ aside) := by
    rw [List.append_assoc, List.append_assoc]
    exact List.perm_append_comm.append_left after
  have h2 : ((seen ++ new) ++ aside).Perm ((seen ++ aside) ++ new) := by
    rw [List.append_assoc, List.append_assoc]
    exact List.perm_append_comm.append_left seen
  exact h1.trans ((hp.append_right aside).trans (h2.trans (h.append_right new)))

/-- A hidden queue comes back behind what was put in front of it. -/
theorem TTScheduler.merged_eq (env : PassEnv) (saved put : List Request) :
    ∃ p, p.Perm put ∧ merged env.prepend saved put = p ++ saved := by
  unfold merged
  split
  · exact ⟨[], by simp_all, rfl⟩
  · exact env.prepends put saved

/-- Nobody is admitted from hidden queues. -/
theorem Moved.hidden_admitted {v : TTScheduler} (hw : v.waiting = []) (hs : v.skippedWaiting.getD [] = [])
    (h : Moved v m s') : m.admitted = [] := by
  refine List.eq_nil_iff_forall_not_mem.mpr fun r hr => ?_
  rcases h.visible r hr with h | h
  · rw [hw] at h; cases h
  · rw [hs] at h; cases h

/-- **A pass with hidden queues**, seen from the scheduler that gets its queues back. -/
theorem Moved.unhidden (env : PassEnv) {v : TTScheduler} (hw : v.waiting = [])
    (hs : v.skippedWaiting = s.skippedWaiting.map fun _ => []) (h : Moved v m s') : m.admitted = [] ∧
    (∃ p, p.Perm m.preempted ∧ (s.unhidden env.prepend s').waiting = p ++ s.waiting.filter (· ∉ m.admitted)) ∧
    (∃ p, p.Perm m.preemptedSkipped ∧ (s.unhidden env.prepend s').skippedWaiting =
      s.skippedWaiting.map fun q => p ++ q.filter (· ∉ m.admitted)) ∧
    (s.skippedWaiting = none → m.preemptedSkipped = []) := by
  have hnil : m.admitted = [] := h.hidden_admitted hw (by rw [hs]; cases s.skippedWaiting <;> rfl)
  obtain ⟨p, hp, hwait⟩ := h.waiting
  obtain ⟨q, hq, hskip⟩ := h.skipped
  rw [hw, List.filter_nil, List.append_nil] at hwait
  refine ⟨hnil, ?_, ?_, fun hnone => h.unskipped (by rw [hs, hnone]; rfl)⟩
  · obtain ⟨p', hp', hm⟩ := TTScheduler.merged_eq env s.waiting s'.waiting
    exact ⟨p', hp'.trans (hwait ▸ hp), by simpa [TTScheduler.unhidden, hnil] using hm⟩
  · cases hsaved : s.skippedWaiting with
    | none => exact ⟨q, hq, by simp [TTScheduler.unhidden, hsaved, hskip, hs]⟩
    | some saved =>
      obtain ⟨q', hq', hm⟩ := TTScheduler.merged_eq env saved (s'.skippedWaiting.getD [])
      rw [hskip, hs, hsaved] at hq'
      refine ⟨q', hq'.trans (by simpa using hq), ?_⟩
      simp [TTScheduler.unhidden, hsaved, hm, hnil]

namespace TTScheduler

/-- The plugin's prefill pass moves requests as the base scheduler does. -/
theorem schedulePrefillOnly_moved (base : BaseScheduler) (s : TTScheduler) :
    Moved s (base.moves s.prefillView) (schedulePrefillOnly base s).obj := by
  have h := base.moved s.prefillView
  exact ⟨h.waiting, h.skipped, h.unskipped, perm_rejoin s.perm_running h.running, h.visible, rfl, h.mode⟩

/-- The moves of a wrapped pass. -/
def passMoves (env : PassEnv) (s : TTScheduler) (w : WrapState) : Moves :=
  env.base.moves (s.passView (s.allowance env w)).prefillView

/-- Carrying the finished ids moves no request. -/
theorem carryFinished_moved {out : PassOutput} {decodes : Nat} (h : Moved s m s') :
    Moved s m (s'.carryFinished out decodes w).1 := by
  unfold carryFinished
  split_ifs
  · exact h
  · exact ⟨h.waiting, h.skipped, h.unskipped, h.running, h.visible, h.capacity, h.mode⟩

/-- What the wrapper makes of the plugin's pass. -/
theorem restored_moved (env : PassEnv) (s : TTScheduler) (a : Nat × Bool) :
    Moved s (env.base.moves (s.passView a).prefillView)
      (s.restored env a (schedulePrefillOnly env.base (s.passView a)).obj) := by
  have hpass := schedulePrefillOnly_moved env.base (s.passView a)
  obtain ⟨allowed, _ | _⟩ := a
  · exact ⟨hpass.waiting, hpass.skipped, hpass.unskipped, hpass.running, hpass.visible, rfl, hpass.mode⟩
  · obtain ⟨hnil, hwait, hskip, hnone⟩ := hpass.unhidden env (s := s) rfl rfl
    exact ⟨hwait, hskip, hnone, hpass.running, by simp [hnil], rfl, hpass.mode⟩

/-- **A wrapped pass loses no request**: returned or raised, it leaves the queues as the base scheduler would have,
hidden or not, and the capacity as it was. -/
theorem oneFreshPrefill_moved (env : PassEnv) (s : TTScheduler) (w : WrapState) :
    Moved s (s.passMoves env w) (s.oneFreshPrefill env w).obj.1 := by
  have hrestored := s.restored_moved env (s.allowance env w)
  refine Call.bind_obj (P := fun p : TTScheduler × WrapState => Moved s (s.passMoves env w) p.1) hrestored
    fun out _ => ?_
  split_ifs
  · exact carryFinished_moved hrestored
  · exact hrestored

/-- The pass admits no more than the capacity the waiting loop sees. -/
theorem passMoves_le (env : PassEnv) (s : TTScheduler) (w : WrapState) :
    (s.passMoves env w).admitted.length ≤ waitingCapacity s.maxNumRunningReqs s.decodes (s.allowance env w).1 := by
  have hview : ∀ a : Nat × Bool, (s.passView a).prefillView.maxNumRunningReqs =
      min s.maxNumRunningReqs (a.1 + s.decodes) - s.decodes := by
    rintro ⟨allowed, _ | _⟩ <;> rfl
  have h := env.base.admits (s.passView (s.allowance env w)).prefillView
  rw [hview] at h
  unfold waitingCapacity
  show (env.base.moves (s.passView (s.allowance env w)).prefillView).admitted.length ≤ _
  omega

/-- A pass with hidden queues admits nobody. -/
theorem passMoves_hidden (h : (s.allowance env w).2 = true) : (s.passMoves env w).admitted = [] := by
  have hpass := schedulePrefillOnly_moved env.base (s.passView (s.allowance env w))
  obtain ⟨hwait, hskip⟩ : (s.passView (s.allowance env w)).waiting = [] ∧
      (s.passView (s.allowance env w)).skippedWaiting = s.skippedWaiting.map fun _ => [] := by
    simp [passView, h, hidden]
  exact hpass.hidden_admitted hwait (by rw [hskip]; cases s.skippedWaiting <;> rfl)

/-- Without a hold the rule is `admission`'s. -/
theorem allowance_not_held (h : (s.dramHeld env w).1 = false) : s.allowance env w = admission s.partials env.gate := by
  simp [allowance, h]

/-- Nothing new joins a partial prefill or passes the gate. -/
theorem admission_hides {partials : Nat} {held : Option String} (h : 0 < partials ∨ held ≠ none) :
    (admission partials held).2 = true := by
  unfold admission
  split_ifs with h1 h2
  · rfl
  · rfl
  · cases held <;> simp_all

/-- Visible queues are those of a pass that may admit one prompt. -/
theorem allowance_visible (h : (s.allowance env w).2 = false) : s.allowance env w = (1, false) := by
  unfold allowance at h ⊢
  split_ifs at h ⊢
  unfold admission at h ⊢
  split_ifs at h ⊢
  rfl

/-- **At most one fresh prompt** is admitted in a pass, and none beside a partial prefill, behind the gate, or against
the predicate while a decode runs. -/
theorem passMoves_one (env : PassEnv) (s : TTScheduler) (w : WrapState) : (s.passMoves env w).admitted.length ≤ 1 ∧
    (0 < s.partials ∨ env.gate ≠ none ∨ (Refuses env.predicate s.candidates ∧ 0 < s.decodes) →
      (s.passMoves env w).admitted = []) := by
  cases hhide : (s.allowance env w).2 with
  | true => exact ⟨by simp [passMoves_hidden hhide], fun _ => passMoves_hidden hhide⟩
  | false =>
    have hle := s.passMoves_le env w
    rw [allowance_visible hhide] at hle
    refine ⟨hle.trans (min_le_right _ _), fun h => ?_⟩
    have hheld : (s.dramHeld env w).1 = false := by
      by_contra hne
      simp [allowance, Bool.of_not_eq_false hne] at hhide
    rw [allowance_not_held hheld] at hhide
    have hfree : ¬(0 < s.partials ∨ env.gate ≠ none) := fun h => by
      rw [admission_hides h] at hhide
      cases hhide
    obtain ⟨hrefuses, hdecodes⟩ := (or_assoc.mpr h).resolve_left hfree
    -- with a seat free the predicate would have been asked, and would have held the pass
    have hfull : ¬0 < waitingCapacity s.maxNumRunningReqs s.decodes (admission s.partials env.gate).1 := by
      intro hcapacity
      rw [dramHeld, if_pos ⟨hhide, hcapacity⟩] at hheld
      rw [dramHold_iff.mpr ⟨hrefuses, Or.inl hdecodes⟩] at hheld
      cases hheld
    rw [← allowance_not_held hheld, allowance_visible (by rw [allowance_not_held hheld]; exact hhide)] at hfull
    exact List.length_eq_zero_iff.mp (by omega)

/-- **A hold waits for a decode or for an unreported finish.** -/
theorem dramHeld_waits (h : (s.dramHeld env w).1 = true) : 0 < s.decodes ∨ s.finishedReqIds ≠ ∅ := by
  unfold dramHeld at h
  split_ifs at h
  exact (dramHold_iff.mp h).2

/-- An idle engine's pass sees its queues and may admit a prompt. -/
theorem passView_idle (hrunning : s.running = []) (hfinished : s.finishedReqIds = ∅) (hgate : env.gate = none) :
    s.passView (s.allowance env w) = { s with maxNumRunningReqs := min s.maxNumRunningReqs 1 } := by
  have hdecodes : s.decodes = 0 := by simp [decodes, pureDecodes, hrunning]
  have hheld : (s.dramHeld env w).1 = false := by
    by_contra h
    rcases dramHeld_waits (Bool.of_not_eq_false h) with h | h
    · omega
    · exact h hfinished
  rw [allowance_not_held hheld]
  simp [admission, partials, hrunning, hgate, passView, hdecodes]

/-! ## The finished ids -/

/-- The output and the scheduler share out the finished ids. -/
def Shares (finished : Finset String) (out : PassOutput) (s' : TTScheduler) : Prop :=
  Disjoint out.finishedReqIds s'.finishedReqIds ∧ out.finishedReqIds ∪ s'.finishedReqIds = finished

/-- Restoring the queues leaves the finished ids alone. -/
theorem restored_finished (env : PassEnv) (s : TTScheduler) (a : Nat × Bool) (s' : TTScheduler) :
    (s.restored env a s').finishedReqIds = s'.finishedReqIds := by
  obtain ⟨allowed, _ | _⟩ := a <;> rfl

/-- What is seen of the finished ids is all of them. -/
theorem passView_finished (s : TTScheduler) (a : Nat × Bool) :
    (s.passView a).prefillView.finishedReqIds = s.finishedReqIds := by
  obtain ⟨allowed, _ | _⟩ := a <;> rfl

/-- What the base scheduler answers in a wrapped pass. -/
def passAnswer (env : PassEnv) (s : TTScheduler) (w : WrapState) : Except PyError PassOutput :=
  (env.base.schedule (s.passView (s.allowance env w)).prefillView).result

/-- The scheduler and the wrapper after the `finally`. -/
def passState (env : PassEnv) (s : TTScheduler) (w : WrapState) : TTScheduler × WrapState :=
  (s.restored env (s.allowance env w) (schedulePrefillOnly env.base (s.passView (s.allowance env w))).obj,
    s.marked env (s.allowance env w) (s.dramHeld env w).2)

/-- A pass that raises. -/
theorem oneFreshPrefill_error {e : PyError} (h : s.passAnswer env w = .error e) :
    s.oneFreshPrefill env w = Call.throw (s.passState env w) e := by
  have hr : (schedulePrefillOnly env.base (s.passView (s.allowance env w))).result = .error e := h
  simp only [oneFreshPrefill, Call.bind, Call.onto_result, hr]
  rfl

/-- A pass that returns. -/
theorem oneFreshPrefill_ok {out : PassOutput} (h : s.passAnswer env w = .ok out) :
    s.oneFreshPrefill env w = if (s.dramHeld env w).1 then
      Call.ret ((s.passState env w).1.carryFinished out s.decodes (s.passState env w).2) out
      else Call.ret (s.passState env w) out := by
  have hr : (schedulePrefillOnly env.base (s.passView (s.allowance env w))).result = .ok out := h
  simp only [oneFreshPrefill, Call.bind, Call.onto_result, hr]
  rfl

/-- A pass that raises takes no finished id. -/
theorem passState_error {e : PyError} (h : s.passAnswer env w = .error e) :
    (s.passState env w).1.finishedReqIds = s.finishedReqIds := by
  have hkeeps := env.base.keeps (s.passView (s.allowance env w)).prefillView e h
  rw [passView_finished] at hkeeps
  exact (s.restored_finished env _ _).trans hkeeps

/-- A pass that returns shares the finished ids out. -/
theorem passState_ok {out : PassOutput} (h : s.passAnswer env w = .ok out) :
    Shares s.finishedReqIds out (s.passState env w).1 := by
  have htakes := env.base.takes (s.passView (s.allowance env w)).prefillView out h
  rw [passView_finished] at htakes
  unfold Shares
  rw [show (s.passState env w).1.finishedReqIds = _ from s.restored_finished env _ _]
  exact htakes

/-- The pass leaves the mode. -/
theorem passState_mode (env : PassEnv) (s : TTScheduler) (w : WrapState) :
    (s.passState env w).1.forcedMode = s.forcedMode := (s.restored_moved env (s.allowance env w)).mode

/-- Carrying puts back the ids a discarded pass took. -/
theorem carryFinished_finished {finished : Finset String} {out : PassOutput} (h : Shares finished out s)
    (decodes : Nat) (w : WrapState) : (s.carryFinished out decodes w).1.finishedReqIds =
      if decodes = 0 ∨ out.totalNumScheduledTokens ≠ 0 ∨ s.forcedMode ≠ .default then s.finishedReqIds
      else finished := by
  unfold carryFinished carried
  split_ifs with hcase hempty hempty
  · rfl
  · exact absurd rfl hempty
  · rw [← h.2, hempty, Finset.empty_union]
  · exact h.2

/-- A pass the plugin will discard: nothing scheduled while a decode runs, in default mode. -/
def Discards (s : TTScheduler) (out : PassOutput) : Prop :=
  s.forcedMode = .default ∧ out.totalNumScheduledTokens = 0 ∧ 0 < s.decodes

/-- **The ids of a pass that is held.** They are all kept if the plugin will discard it, and shared out otherwise. -/
theorem oneFreshPrefill_held {out : PassOutput} (h : s.passAnswer env w = .ok out)
    (hheld : (s.dramHeld env w).1 = true) :
    (s.Discards out → (s.oneFreshPrefill env w).obj.1.finishedReqIds = s.finishedReqIds) ∧
      (¬s.Discards out → Shares s.finishedReqIds out (s.oneFreshPrefill env w).obj.1) := by
  have hshares := passState_ok h
  have hcarry := carryFinished_finished hshares s.decodes (s.passState env w).2
  rw [passState_mode] at hcarry
  rw [oneFreshPrefill_ok h, if_pos hheld]
  constructor
  · rintro ⟨hmode, htotal, hdecodes⟩
    rw [if_neg (by simp [hmode, htotal]; omega)] at hcarry
    exact hcarry
  · intro hkeep
    have hcase : s.decodes = 0 ∨ out.totalNumScheduledTokens ≠ 0 ∨ s.forcedMode ≠ .default := by
      by_contra hne
      simp only [not_or, ne_eq, not_not] at hne
      exact hkeep ⟨hne.2.2, hne.2.1, Nat.pos_of_ne_zero hne.1⟩
    rw [if_pos hcase] at hcarry
    exact ⟨hcarry ▸ hshares.1, hcarry ▸ hshares.2⟩

/-- The ids of a pass that is not held are shared out. -/
theorem oneFreshPrefill_free {out : PassOutput} (h : s.passAnswer env w = .ok out)
    (hheld : (s.dramHeld env w).1 = false) : Shares s.finishedReqIds out (s.oneFreshPrefill env w).obj.1 := by
  rw [oneFreshPrefill_ok h, hheld]
  exact passState_ok h

/-- The step loses no id: a pass that is discarded was held on DRAM, or took none. -/
def Keeps (env : PassEnv) (s : TTScheduler) (w : WrapState) : Prop :=
  s.hasPendingPrefill = true → ∀ out, s.passAnswer env w = .ok out → s.Discards out →
    (s.dramHeld env w).1 = true ∨ out.finishedReqIds = ∅

/-- The ids after a call: a call that raises takes none, a call that returns shares them out. -/
structure SharesAll (finished : Finset String) (c : Call (TTScheduler × WrapState) PassOutput) : Prop where
  raised : ∀ e, c.result = .error e → c.obj.1.finishedReqIds = finished
  returned : ∀ out, c.result = .ok out → Shares finished out c.obj.1

/-- The ids of a pass that will not be discarded. -/
theorem oneFreshPrefill_shares (h : ∀ out, s.passAnswer env w = .ok out → ¬s.Discards out) :
    SharesAll s.finishedReqIds (s.oneFreshPrefill env w) := by
  cases ha : s.passAnswer env w with
  | error e =>
    rw [oneFreshPrefill_error ha]
    exact ⟨fun _ _ => passState_error ha, fun out h => (by cases h)⟩
  | ok out =>
    have hshares : Shares s.finishedReqIds out (s.oneFreshPrefill env w).obj.1 := by
      cases hheld : (s.dramHeld env w).1 with
      | true => exact (oneFreshPrefill_held ha hheld).2 (h out ha)
      | false => exact oneFreshPrefill_free ha hheld
    have hresult : (s.oneFreshPrefill env w).result = .ok out := by
      rw [oneFreshPrefill_ok ha]
      split_ifs <;> rfl
    refine ⟨fun e he => ?_, fun out' hout => ?_⟩
    · rw [hresult] at he; cases he
    · rw [hresult] at hout
      obtain rfl := Except.ok.inj hout
      exact hshares

/-- The ids of one call of the base scheduler. -/
theorem base_shares (base : BaseScheduler) (s : TTScheduler) (w : WrapState) :
    SharesAll s.finishedReqIds ((base.schedule s).onto fun s' => (s', w)) :=
  ⟨fun e h => base.keeps s e h, fun out h => base.takes s out h⟩

/-- The ids of a decode-only pass. -/
theorem scheduleDecodeOnly_shares (env : PassEnv) (s : TTScheduler) (w : WrapState) :
    SharesAll s.finishedReqIds ((s.scheduleDecodeOnly env).onto fun s' => (s', w)) :=
  ⟨fun e h => env.decodeBase.keeps _ e h, fun out h => env.decodeBase.takes _ out h⟩

/-- The plugin's own test for a decode. -/
theorem any_decode (s : TTScheduler) : s.running.any (fun r => !s.isPrefillChunk r) = true ↔ 0 < s.decodes := by
  unfold decodes pureDecodes
  rw [List.length_pos_iff, List.any_eq_true, ne_eq, List.filter_eq_nil_iff]
  simp

/-- **A step that keeps the ids** shares them out between its output and the scheduler. -/
theorem schedule_shares (h : s.Keeps env w) : SharesAll s.finishedReqIds (s.schedule env w) := by
  unfold schedule
  cases hmode : s.forcedMode with
  | prefillOnly => exact oneFreshPrefill_shares fun out _ hd => by rw [hd.1] at hmode; cases hmode
  | decodeOnly =>
    dsimp only
    split_ifs
    · exact scheduleDecodeOnly_shares env s w
    · exact base_shares env.decodeBase s w
  | default =>
    dsimp only
    split_ifs with hpending
    · cases ha : s.passAnswer env w with
      | error e =>
        rw [oneFreshPrefill_error ha]
        exact ⟨fun _ _ => passState_error ha, fun out h => (by cases h)⟩
      | ok out =>
        have hresult : (s.oneFreshPrefill env w).result = .ok out := by
          rw [oneFreshPrefill_ok ha]
          split_ifs <;> rfl
        rcases Call.bind_cases (s.oneFreshPrefill env w) _ with ⟨e, he, -⟩ | ⟨out', hout, hc⟩
        · rw [hresult] at he; cases he
        rw [hresult] at hout
        obtain rfl := Except.ok.inj hout
        rw [hc]
        by_cases hd : s.Discards out
        · -- the pass is thrown away; the decode-only pass takes what it left
          rw [if_pos ⟨hd.2.1, s.any_decode.mpr hd.2.2⟩]
          have hkept : (s.oneFreshPrefill env w).obj.1.finishedReqIds = s.finishedReqIds := by
            cases hheld : (s.dramHeld env w).1 with
            | true => exact (oneFreshPrefill_held ha hheld).1 hd
            | false =>
              have hempty := (h hpending out ha hd).resolve_left (by simp [hheld])
              rw [← (oneFreshPrefill_free ha hheld).2, hempty, Finset.empty_union]
          rw [← hkept]
          exact scheduleDecodeOnly_shares env _ _
        · rw [if_neg fun hc => hd ⟨hmode, hc.1, s.any_decode.mp hc.2⟩]
          have hshares := oneFreshPrefill_shares (w := w) fun out' ha' => by
            rw [ha] at ha'
            exact Except.ok.inj ha' ▸ hd
          exact ⟨fun e he => (by cases he), fun out' hout' => by
            obtain rfl := Except.ok.inj hout'
            exact hshares.returned out hresult⟩
    · exact base_shares env.decodeBase s w

end TTScheduler

/-! ## Runs -/

/-- What happens to the scheduler: a step of the engine with its outcome, a request that finishes or is aborted, a new
request, and changes of the mode and of the requests' own state. -/
inductive EngineEvent
  | schedule (env : PassEnv) (result : Except PyError PassOutput)
  | finish (id : String)
  | add (request : Request)
  | update (mode : TTSchedulingMode) (isPrefillChunk blocked : Request → Bool)

namespace EngineEvent

/-- Perform an event. -/
def Step (p : TTScheduler × WrapState) : EngineEvent → TTScheduler × WrapState → Prop
  | .schedule env result, p' => p' = (p.1.schedule env p.2).obj ∧ result = (p.1.schedule env p.2).result
  | .finish id, p' =>
    (∃ r ∈ p.1.running ++ p.1.waiting ++ p.1.skippedWaiting.getD [], r.requestId = id) ∧
    p' = ({ p.1 with
      running := p.1.running.filter (·.requestId ≠ id)
      waiting := p.1.waiting.filter (·.requestId ≠ id)
      skippedWaiting := p.1.skippedWaiting.map fun q => q.filter (·.requestId ≠ id)
      finishedReqIds := insert id p.1.finishedReqIds }, p.2)
  | .add request, p' => p' = ({ p.1 with waiting := p.1.waiting ++ [request] }, p.2)
  | .update mode isPrefillChunk blocked, p' => p' = ({ p.1 with forcedMode := mode, isPrefillChunk, blocked }, p.2)

/-- The step of the engine loses no id. -/
def Keeps (p : TTScheduler × WrapState) : EngineEvent → Prop
  | .schedule env _ => p.1.Keeps env p.2
  | _ => True

/-- The event finishes this request. -/
def finishes (id : String) : EngineEvent → Bool
  | .finish id' => id' = id
  | _ => false

/-- The event is a step whose output the worker executes, and it names this request finished. -/
def names (id : String) : EngineEvent → Bool
  | .schedule _ (.ok out) => id ∈ out.finishedReqIds
  | _ => false

end EngineEvent

/-- One, if the id waits to be named. -/
def TTScheduler.unreported (s : TTScheduler) (id : String) : Nat := if id ∈ s.finishedReqIds then 1 else 0

/-- An id that is shared out is named or waits, once. -/
theorem TTScheduler.Shares.count {finished : Finset String} {out : PassOutput} {s' : TTScheduler}
    (h : TTScheduler.Shares finished out s') (id : String) :
    (if id ∈ out.finishedReqIds then 1 else 0) + s'.unreported id = if id ∈ finished then 1 else 0 := by
  obtain ⟨hdisjoint, hunion⟩ := h
  have hmem : id ∈ finished ↔ id ∈ out.finishedReqIds ∨ id ∈ s'.finishedReqIds := by
    rw [← hunion, Finset.mem_union]
  have hone : id ∈ out.finishedReqIds → id ∉ s'.finishedReqIds := fun h => Finset.disjoint_left.mp hdisjoint h
  unfold TTScheduler.unreported
  by_cases h1 : id ∈ out.finishedReqIds <;> by_cases h2 : id ∈ s'.finishedReqIds <;> simp_all

/-- **What one event does to the count of an id**: it is named, or waits, as often as it did or finishes now. -/
theorem EngineEvent.count {p p' : TTScheduler × WrapState} {l : EngineEvent} (id : String) (hk : l.Keeps p)
    (h : l.Step p p') : (l.names id).toNat + p'.1.unreported id =
      if l.finishes id then 1 else p.1.unreported id := by
  cases l with
  | schedule env result =>
    obtain ⟨rfl, rfl⟩ := h
    have hall := TTScheduler.schedule_shares hk
    cases hr : (p.1.schedule env p.2).result with
    | error e => simp [names, finishes, TTScheduler.unreported, hall.raised e hr]
    | ok out =>
      have hcount := (hall.returned out hr).count id
      by_cases hid : id ∈ out.finishedReqIds <;> simp_all [names, finishes, TTScheduler.unreported]
  | finish id' =>
    obtain ⟨-, rfl⟩ := h
    by_cases hid : id' = id
    · simp [names, finishes, hid, TTScheduler.unreported]
    · simp [names, finishes, hid, TTScheduler.unreported, Ne.symm hid]
  | add request =>
    subst h
    simp [names, finishes, TTScheduler.unreported]
  | update mode isPrefillChunk blocked =>
    subst h
    simp [names, finishes, TTScheduler.unreported]

/-- **Every finished id is named once**, over a run whose steps lose none: an id that finishes once, in the run or
before it, is named by exactly one output, or still waits to be. -/
theorem named_once {p₀ p : TTScheduler × WrapState} {ls : List EngineEvent}
    (hrun : Run (fun p l p' => EngineEvent.Step p l p' ∧ l.Keeps p) p₀ ls p) (id : String) :
    (p₀.1.unreported id + ls.countP (·.finishes id) = 0 → ls.countP (·.names id) + p.1.unreported id = 0) ∧
    (p₀.1.unreported id + ls.countP (·.finishes id) = 1 → ls.countP (·.names id) + p.1.unreported id = 1) := by
  refine Run.invariant (P := fun ls p =>
    (p₀.1.unreported id + ls.countP (·.finishes id) = 0 → ls.countP (·.names id) + p.1.unreported id = 0) ∧
    (p₀.1.unreported id + ls.countP (·.finishes id) = 1 → ls.countP (·.names id) + p.1.unreported id = 1))
    (by simp) (fun {ls t l u} _ ih hstep => ?_) hrun
  have hcount := EngineEvent.count id hstep.2 hstep.1
  have hnames : (ls ++ [l]).countP (·.names id) = ls.countP (·.names id) + (l.names id).toNat := by
    rw [List.countP_append, List.countP_singleton]
    cases l.names id <;> rfl
  have hfinishes : (ls ++ [l]).countP (·.finishes id) = ls.countP (·.finishes id) + (l.finishes id).toNat := by
    rw [List.countP_append, List.countP_singleton]
    cases l.finishes id <;> rfl
  rw [hnames, hfinishes]
  cases hf : l.finishes id with
  | false => simp only [hf, Bool.toNat_false, Bool.false_eq_true, if_false] at hcount ⊢; omega
  | true => simp only [hf, Bool.toNat_true, if_true] at hcount ⊢; omega

/-- **Prefill admission.** A wrapped pass, returned or raised, restores the capacity and leaves the queues as they were
behind what was preempted and without what was admitted; it admits at most one prompt, and none beside a partial
prefill, behind the gate, or against the predicate while a decode runs; it is held on DRAM only while a decode runs or a
finish is unreported, and an idle engine's pass is not hidden. Over a run whose steps lose no id, every id that finishes
is named by exactly one output, unless it still waits to be. -/
theorem prefill_admission {p₀ p : TTScheduler × WrapState} {ls : List EngineEvent}
    (hrun : Run (fun p l p' => EngineEvent.Step p l p' ∧ l.Keeps p) p₀ ls p) :
    (∀ (env : PassEnv) (s : TTScheduler) (w : WrapState),
      (∃ m, Moved s m (s.oneFreshPrefill env w).obj.1 ∧ m.admitted.length ≤ 1 ∧
        (0 < s.partials ∨ env.gate ≠ none ∨ (Refuses env.predicate s.candidates ∧ 0 < s.decodes) → m.admitted = [])) ∧
      ((s.dramHeld env w).1 = true → 0 < s.decodes ∨ s.finishedReqIds ≠ ∅) ∧
      (s.running = [] → s.finishedReqIds = ∅ → env.gate = none →
        s.passView (s.allowance env w) = { s with maxNumRunningReqs := min s.maxNumRunningReqs 1 })) ∧
    ∀ id, p₀.1.unreported id + ls.countP (·.finishes id) = 1 → ls.countP (·.names id) + p.1.unreported id = 1 := by
  refine ⟨fun env s w => ⟨⟨_, s.oneFreshPrefill_moved env w, s.passMoves_one env w⟩,
    TTScheduler.dramHeld_waits, fun hrunning hfinished hgate => ?_⟩, fun id h => (named_once hrun id).2 h⟩
  exact TTScheduler.passView_idle hrunning hfinished hgate

/-- A base scheduler that runs what is running, admits nobody and reports every finish. -/
def sampleBase : BaseScheduler where
  schedule s := Call.ret { s with finishedReqIds := ∅ } ⟨[], s.running.length, s.finishedReqIds⟩
  moves _ := ⟨[], [], []⟩
  moved s := ⟨⟨[], .refl _, by simp⟩, ⟨[], .refl _, by simp⟩, fun _ => rfl, by simp, by simp, rfl, rfl⟩
  admits s := Nat.zero_le _
  takes s out h := by
    obtain rfl := Except.ok.inj h
    simp
  keeps s e h := by cases h

/-- A step behind this gate and this predicate. -/
def sampleEnv (gate : Option String) (predicate : Option DramPredicate) : PassEnv :=
  ⟨sampleBase, sampleBase, (· ++ ·), fun requests _ => ⟨requests, .refl _, rfl⟩, gate, predicate⟩

/-- Two requests decode and two wait. -/
def sampleScheduler (maxNumRunningReqs : Nat) : TTScheduler :=
  ⟨[⟨"a", some 10⟩, ⟨"b", some 10⟩], [⟨"c", some 10⟩, ⟨"d", some 10⟩], some [], maxNumRunningReqs, ∅, .default,
    fun _ => false, fun _ => false⟩

/-- A wrapper that has not run. -/
def freshWrap : WrapState := ⟨false, [], none, none, []⟩

/-- The scheduler after a request finished. -/
def sampleFinished (s : TTScheduler) (id : String) : TTScheduler × WrapState :=
  ({ s with
    running := s.running.filter (·.requestId ≠ id)
    waiting := s.waiting.filter (·.requestId ≠ id)
    skippedWaiting := s.skippedWaiting.map fun q => q.filter (·.requestId ≠ id)
    finishedReqIds := insert id s.finishedReqIds }, freshWrap)

/-- A request finishes, and a step follows. -/
def sampleRun (s : TTScheduler) (env : PassEnv) (id : String) : List EngineEvent :=
  [.finish id, .schedule env ((sampleFinished s id).1.schedule env freshWrap).result]

/-- Such a run, where its step meets what is asked of a step. -/
theorem sampleRun_run {R : TTScheduler × WrapState → EngineEvent → TTScheduler × WrapState → Prop} (s : TTScheduler)
    (env : PassEnv) (id : String) (hfinish : R (s, freshWrap) (.finish id) (sampleFinished s id))
    (hstep : R (sampleFinished s id)
      (.schedule env ((sampleFinished s id).1.schedule env freshWrap).result)
      ((sampleFinished s id).1.schedule env freshWrap).obj) :
    Run R (s, freshWrap) (sampleRun s env id) ((sampleFinished s id).1.schedule env freshWrap).obj := by
  have h := Run.snoc (Run.single hfinish) hstep
  exact h

/-- Every prompt is refused. -/
def sampleRefusal : DramPredicate := fun _ => .ok (false, ⟨some 0, 1, none, none, none, none, none⟩)

/-- A request that finishes while one decodes and another waits on DRAM is named by the step that follows. -/
theorem prefill_admission_sample :
    (sampleRun (sampleScheduler 4) (sampleEnv none (some sampleRefusal)) "a").countP (·.names "a") = 1 := by
  have hheld : ((sampleFinished (sampleScheduler 4) "a").1.dramHeld (sampleEnv none (some sampleRefusal)) freshWrap).1 =
    true := by decide
  have hrun := sampleRun_run (R := fun p l p' => EngineEvent.Step p l p' ∧ l.Keeps p) (sampleScheduler 4)
    (sampleEnv none (some sampleRefusal)) "a" ⟨⟨⟨⟨"a", some 10⟩, by decide, rfl⟩, rfl⟩, trivial⟩
    ⟨⟨rfl, rfl⟩, fun _ _ _ _ => Or.inl hheld⟩
  have h := (prefill_admission hrun).2 "a" (by decide)
  have hreported : ((sampleFinished (sampleScheduler 4) "a").1.schedule (sampleEnv none (some sampleRefusal))
    freshWrap).obj.1.unreported "a" = 0 := by decide
  omega

/-- The run finishes the id once, names it in no output, and leaves it waiting nowhere. -/
def LosesId (s : TTScheduler) (env : PassEnv) (id : String) : Prop :=
  ∃ p, Run EngineEvent.Step (s, freshWrap) (sampleRun s env id) p ∧ s.unreported id = 0 ∧
    (sampleRun s env id).countP (·.finishes id) = 1 ∧ (sampleRun s env id).countP (·.names id) = 0 ∧
    p.1.unreported id = 0

/-- **Ids are lost**: a finish beside a held gate, and an abort in the queue beside full seats. -/
theorem gate_loses_finish : LosesId (sampleScheduler 4) (sampleEnv (some "x") none) "a" ∧
    LosesId (sampleScheduler 2) (sampleEnv none none) "c" :=
  ⟨⟨_, sampleRun_run _ _ _ ⟨⟨⟨"a", some 10⟩, by decide, rfl⟩, rfl⟩ ⟨rfl, rfl⟩, by decide⟩,
    ⟨_, sampleRun_run _ _ _ ⟨⟨⟨"c", some 10⟩, by decide, rfl⟩, rfl⟩ ⟨rfl, rfl⟩, by decide⟩⟩

end BlackholeQwen.Serving
