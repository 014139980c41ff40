import BlackholeQwen.Lib.Shares
import BlackholeQwen.Serving.PrefillAdmission

/-!
# Alternating prefill with decode (`lever_n_model_patch.py`)

The graft in the default mode of `TTScheduler.schedule` yields a decode-only pass to the running decodes while a partial
prefill is in flight (`Alternating.schedule`), the one in `_negotiate_forced_mode` votes for one
(`LaneCoordinator.negotiateForcedMode`); both by the same two counters.

- `Counters.turn_spec`: what one turn of a stretch does to the counters.
- `Alternating.run_shares`, `LaneCoordinator.run_shares`: in every run each of them shares the turns.
- `alternation_share`: one prefill after every `R` decodes, the stock choice elsewhere, and the same for both.
- `alternation_falls_back`: a chosen prefill pass may schedule nothing and fall back, and full lanes do not choose it.
-/

namespace BlackholeQwen.Serving

open Lib

/-! ## The graft of `schedule` -/

/-- `TT_PREFILL_DECODE_INTERLEAVE` and `TT_DECODE_STEPS_PER_PREFILL_CHUNK`. -/
structure Interleave where
  on : Bool
  decodeSteps : Int

/-- `_qwen_prefill_streak` and `_qwen_decode_credit`. -/
structure Counters where
  streak : Nat
  credit : Nat
  deriving DecidableEq, Repr

/-- `_qwen_yield`. -/
def Counters.yields (c : Counters) (r : Int) : Bool := 1 ≤ c.streak ∧ (c.credit : Int) < r

/-- The counters after a call of a stretch. -/
def Counters.turn (c : Counters) (r : Int) : Counters :=
  if c.yields r then { c with credit := c.credit + 1 } else ⟨c.streak + 1, 0⟩

namespace TTScheduler

/-- `any(r.is_prefill_chunk for r in self.running)`. -/
def partialInFlight (s : TTScheduler) : Bool := s.running.any s.isPrefillChunk

/-- `has_running_decode`. -/
def hasRunningDecode (s : TTScheduler) : Bool := s.running.any fun r => !s.isPrefillChunk r

/-- A partial prefill is in flight and a decode is running. -/
def inStretch (s : TTScheduler) : Bool := s.partialInFlight && s.hasRunningDecode

/-- The rest of the default mode, once prefill is chosen: a pass that schedules nothing falls back to decode. -/
def preferPrefill (env : PassEnv) (prefillOnly : TTScheduler → Call TTScheduler PassOutput) (s : TTScheduler) :
    Call TTScheduler PassOutput :=
  (prefillOnly s).bind fun s' out =>
    if out.totalNumScheduledTokens = 0 ∧ s.hasRunningDecode = true then s'.scheduleDecodeOnly env else .ret s' out

/-- The stock `schedule`, with the class's `_schedule_prefill_only`. -/
def stockSchedule (env : PassEnv) (prefillOnly : TTScheduler → Call TTScheduler PassOutput) (s : TTScheduler) :
    Call TTScheduler PassOutput :=
  match s.forcedMode with
  | .prefillOnly => prefillOnly s
  | .decodeOnly => if s.hasPendingPrefill then s.scheduleDecodeOnly env else env.decodeBase.schedule s
  | .default => if s.hasPendingPrefill then s.preferPrefill env prefillOnly else env.decodeBase.schedule s

end TTScheduler

/-- A grafted scheduler. -/
structure Alternating where
  sched : TTScheduler
  counters : Counters

/-- The grafted `schedule`. -/
def Alternating.schedule (knobs : Interleave) (env : PassEnv)
    (prefillOnly : TTScheduler → Call TTScheduler PassOutput) (s : Alternating) : Call Alternating PassOutput :=
  match s.sched.forcedMode with
  | .prefillOnly => (prefillOnly s.sched).onto fun s' => ⟨s', s.counters⟩
  | .decodeOnly =>
    if s.sched.hasPendingPrefill then (s.sched.scheduleDecodeOnly env).onto fun s' => ⟨s', s.counters⟩
    else (env.decodeBase.schedule s.sched).onto fun s' => ⟨s', s.counters⟩
  | .default =>
    if s.sched.hasPendingPrefill then
      if knobs.on ∧ s.sched.partialInFlight ∧ s.sched.hasRunningDecode then
        if s.counters.yields knobs.decodeSteps then
          (s.sched.scheduleDecodeOnly env).onto fun s' => ⟨s', s.counters.turn knobs.decodeSteps⟩
        else (s.sched.preferPrefill env prefillOnly).onto fun s' => ⟨s', s.counters.turn knobs.decodeSteps⟩
      else (s.sched.preferPrefill env prefillOnly).onto fun s' => ⟨s', ⟨1, 0⟩⟩
    else (env.decodeBase.schedule s.sched).onto fun s' => ⟨s', s.counters⟩

/-- Whether the grafted default mode chooses a prefill pass. -/
def Alternating.prefers (knobs : Interleave) (s : Alternating) : Bool :=
  s.sched.hasPendingPrefill && !(knobs.on && s.sched.inStretch && s.counters.yields knobs.decodeSteps)

/-- The turn a call takes. -/
def Alternating.turn (knobs : Interleave) (s : Alternating) : Turn :=
  ⟨s.sched.inStretch, s.sched.hasPendingPrefill, s.prefers knobs⟩

/-! ## The graft of the lanes -/

/-- `TTLaneCoordinator`, as far as its negotiation reads it. -/
structure LaneCoordinator where
  lanes : List TTScheduler
  perLaneMax : Nat
  counters : Counters

/-- `TTSchedulingMode.from_prefill_intent`. -/
def fromPrefillIntent (intent : Nat) : Except PyError TTSchedulingMode :=
  if intent = 0 then .ok .decodeOnly else if intent = 1 then .ok .prefillOnly
  else .error (.valueError ("Invalid TT scheduling intent: " ++ toString intent))

namespace LaneCoordinator

/-- `_local_prefill_intent`. -/
def localPrefillIntent (c : LaneCoordinator) (s : TTScheduler) : Nat :=
  let hasWaiting := !s.waiting.isEmpty || !(s.skippedWaiting.getD []).isEmpty
  if s.partialInFlight ∨ hasWaiting ∧ (s.running.isEmpty ∨ s.running.length < c.perLaneMax) then 1 else 0

/-- `max(self._local_prefill_intent(sched) for sched in self.lanes)`. -/
def intent (c : LaneCoordinator) : Nat := (c.lanes.map c.localPrefillIntent).foldr max 0

/-- `_qwen_partial` and `_qwen_decoding`. -/
def inStretch (c : LaneCoordinator) : Bool :=
  c.lanes.any TTScheduler.partialInFlight && c.lanes.any TTScheduler.hasRunningDecode

/-- The grafted `_negotiate_forced_mode`. -/
def negotiateForcedMode (knobs : Interleave) (c : LaneCoordinator) : Call LaneCoordinator TTSchedulingMode :=
  .attempt (raiseIf (c.lanes = []) (.valueError "max() iterable argument is empty")) c fun _ =>
    if c.intent ≠ 0 ∧ knobs.on = true ∧ c.inStretch = true then
      let c' := { c with counters := c.counters.turn knobs.decodeSteps }
      .attempt (fromPrefillIntent (if c.counters.yields knobs.decodeSteps then 0 else 1)) c' fun mode => .ret c' mode
    else
      let c' := { c with counters := ⟨if c.intent = 0 then 0 else 1, 0⟩ }
      .attempt (fromPrefillIntent c.intent) c' fun mode => .ret c' mode

end LaneCoordinator

/-! ## Counters -/

/-- **One turn** of a stretch, after `n` others. -/
theorem Counters.turn_spec {c : Counters} {R n : Nat} (hstreak : 1 ≤ c.streak) (hcredit : c.credit = n % (R + 1)) :
    (c.yields R = true ↔ n % (R + 1) ≠ R) ∧ 1 ≤ (c.turn R).streak ∧ (c.turn R).credit = (n + 1) % (R + 1) := by
  have hlt : n % (R + 1) < R + 1 := Nat.mod_lt n (Nat.succ_pos R)
  have hyields : c.yields R = true ↔ n % (R + 1) ≠ R := by
    unfold Counters.yields
    rw [decide_eq_true_iff, hcredit]
    omega
  refine ⟨hyields, ?_⟩
  unfold Counters.turn
  by_cases h : c.yields R = true
  · have hne := hyields.mp h
    rw [if_pos h]
    refine ⟨hstreak, ?_⟩
    show c.credit + 1 = _
    rw [hcredit, ← Nat.mod_add_mod, Nat.mod_eq_of_lt (show n % (R + 1) + 1 < R + 1 by omega)]
  · have heq : n % (R + 1) = R := by
      by_contra hne
      exact h (hyields.mpr hne)
    rw [if_neg h]
    refine ⟨Nat.le_add_left 1 _, ?_⟩
    show 0 = _
    rw [← Nat.mod_add_mod, heq, Nat.mod_self]

/-- The counters count the stretch, once a prompt is partial. -/
def Counters.Counts (R : Nat) (turns : List Turn) (inFlight : Bool) (c : Counters) : Prop :=
  inFlight = true → 1 ≤ c.streak ∧ c.credit = trailing turns % (R + 1)

theorem Counters.Counts.fresh {R : Nat} {turns : List Turn} {c : Counters} : c.Counts R turns false :=
  fun h => (by cases h)

/-- **A turn in the stretch**, taken by the counters. -/
theorem Counters.Counts.turn {R : Nat} {turns : List Turn} {c : Counters} (hshares : Shares R turns)
    (h : c.Counts R turns true) (stock : Bool) (inFlight : Bool) :
    Shares R (turns ++ [⟨true, stock, !c.yields R⟩]) ∧
      (c.turn R).Counts R (turns ++ [⟨true, stock, !c.yields R⟩]) inFlight := by
  obtain ⟨hstreak, hcredit⟩ := h rfl
  obtain ⟨hyields, hstreak', hcredit'⟩ := Counters.turn_spec hstreak hcredit
  refine ⟨hshares.snoc (fun _ => ?_) fun hout => (by cases hout), fun _ => ⟨hstreak', ?_⟩⟩
  · show (!c.yields R) = true ↔ _
    rw [Bool.not_eq_true', ← Bool.not_eq_true, hyields, not_not]
  · rw [hcredit', trailing_in turns rfl]

/-- **A turn outside**, taken by the stock rule. -/
theorem Counters.Counts.outside {R : Nat} {turns : List Turn} {c : Counters} (hshares : Shares R turns) (stock : Bool)
    {inFlight : Bool} (h : inFlight = true → c = ⟨1, 0⟩) :
    Shares R (turns ++ [⟨false, stock, stock⟩]) ∧ c.Counts R (turns ++ [⟨false, stock, stock⟩]) inFlight := by
  refine ⟨hshares.snoc (fun hin => (by cases hin)) fun _ => rfl, fun hin => ?_⟩
  rw [h hin, trailing_out turns rfl]
  exact ⟨Nat.le_refl 1, rfl⟩

/-! ## Runs of the grafted scheduler -/

/-- A pass of the base scheduler that sees no prefill work makes no prompt partial. -/
def BaseScheduler.Quiet (base : BaseScheduler) : Prop :=
  ∀ s : TTScheduler, s.hasPendingPrefill = false → (base.schedule s).obj.partialInFlight = false

/-- A call in default mode, with any `_schedule_prefill_only`, and what happens until the next: requests arrive, finish
or are aborted, and none becomes partial. -/
def Alternating.Step (knobs : Interleave) (s : Alternating) (turn : Turn) (s' : Alternating) : Prop :=
  s.sched.forcedMode = .default ∧ turn = s.turn knobs ∧ ∃ env prefillOnly, env.decodeBase.Quiet ∧
    s'.counters = (s.schedule knobs env prefillOnly).obj.counters ∧
    (s'.sched.partialInFlight = true → (s.schedule knobs env prefillOnly).obj.sched.partialInFlight = true)

/-- The counters that a default call leaves. -/
theorem Alternating.schedule_counters {knobs : Interleave} {s : Alternating} (hmode : s.sched.forcedMode = .default)
    (env : PassEnv) (prefillOnly : TTScheduler → Call TTScheduler PassOutput) :
    (s.schedule knobs env prefillOnly).obj.counters = if s.sched.hasPendingPrefill = true then
      if knobs.on = true ∧ s.sched.partialInFlight = true ∧ s.sched.hasRunningDecode = true then
        s.counters.turn knobs.decodeSteps else ⟨1, 0⟩ else s.counters := by
  unfold Alternating.schedule
  rw [hmode]
  show Alternating.counters (Call.obj (if _ then _ else _)) = _
  split_ifs <;> rfl

/-- What a default call does: a decode-only pass if it yields, else what the stock does. -/
theorem Alternating.schedule_default {knobs : Interleave} {s : Alternating} (hmode : s.sched.forcedMode = .default)
    (env : PassEnv) (prefillOnly : TTScheduler → Call TTScheduler PassOutput) :
    (s.schedule knobs env prefillOnly).onto Alternating.sched =
      if s.sched.hasPendingPrefill = true ∧ s.prefers knobs = false then s.sched.scheduleDecodeOnly env
      else s.sched.stockSchedule env prefillOnly := by
  unfold Alternating.schedule TTScheduler.stockSchedule Alternating.prefers TTScheduler.inStretch
  rw [hmode]
  cases s.sched.hasPendingPrefill <;> cases knobs.on <;> cases s.sched.partialInFlight <;>
    cases s.sched.hasRunningDecode <;> cases s.counters.yields knobs.decodeSteps <;> rfl

/-- **The grafted scheduler shares its turns** in every run. -/
theorem Alternating.run_shares {knobs : Interleave} {R : Nat} (hon : knobs.on = true) (hR : knobs.decodeSteps = R)
    {s₀ s : Alternating} (hfresh : s₀.sched.partialInFlight = false) {turns : List Turn}
    (hrun : Run (Alternating.Step knobs) s₀ turns s) : Shares R turns := by
  refine (Run.invariant (P := fun turns s => Shares R turns ∧ s.counters.Counts R turns s.sched.partialInFlight)
    ⟨Shares.nil R, hfresh ▸ Counters.Counts.fresh⟩ ?_ hrun).1
  rintro turns s turn s' - ⟨hshares, hcounts⟩ ⟨hmode, rfl, env, prefillOnly, hquiet, hcounters, hbetween⟩
  rw [hcounters, Alternating.schedule_counters hmode]
  cases hin : s.sched.inStretch with
  | true =>
    obtain ⟨hflight, hdecode⟩ := Bool.and_eq_true_iff.mp hin
    have hpending : s.sched.hasPendingPrefill = true := Bool.or_eq_true_iff.mpr (Or.inr hflight)
    have hturn : s.turn knobs = ⟨true, true, !s.counters.yields R⟩ := by
      unfold Alternating.turn Alternating.prefers
      rw [hin, hpending, hon, hR]
      rfl
    rw [if_pos hpending, if_pos ⟨hon, hflight, hdecode⟩, hturn, hR]
    exact Counters.Counts.turn hshares (hflight ▸ hcounts) true _
  | false =>
    have hturn : s.turn knobs = ⟨false, s.sched.hasPendingPrefill, s.sched.hasPendingPrefill⟩ := by
      unfold Alternating.turn Alternating.prefers
      rw [hin, Bool.and_false, Bool.false_and, Bool.not_false, Bool.and_true]
    have hnot : ¬(knobs.on = true ∧ s.sched.partialInFlight = true ∧ s.sched.hasRunningDecode = true) := fun h => by
      have hboth : s.sched.inStretch = true := Bool.and_eq_true_iff.mpr h.2
      rw [hin] at hboth
      cases hboth
    rw [hturn, if_neg hnot]
    refine Counters.Counts.outside hshares _ fun hflight => ?_
    cases hpending : s.sched.hasPendingPrefill with
    | true => rfl
    | false =>
      -- a call without prefill work leaves no partial prompt
      have hobj := hbetween hflight
      have hplain : (s.schedule knobs env prefillOnly).onto Alternating.sched = env.decodeBase.schedule s.sched := by
        rw [Alternating.schedule_default hmode, if_neg (by simp [hpending])]
        unfold TTScheduler.stockSchedule
        rw [hmode, hpending]
        rfl
      have hnone := hquiet s.sched hpending
      rw [← hplain, Call.onto_obj, hobj] at hnone
      cases hnone

/-! ## Runs of the lanes -/

namespace LaneCoordinator

theorem localPrefillIntent_le (c : LaneCoordinator) (s : TTScheduler) : c.localPrefillIntent s ≤ 1 := by
  unfold localPrefillIntent
  show (if _ then 1 else 0) ≤ 1
  split_ifs <;> omega

/-- The lanes' intent is 0 or 1, and 1 once a prompt is partial. -/
theorem intent_spec (c : LaneCoordinator) :
    c.intent ≤ 1 ∧ (c.lanes.any TTScheduler.partialInFlight = true → c.intent = 1) := by
  unfold intent
  induction c.lanes with
  | nil => exact ⟨Nat.zero_le 1, fun h => (by cases h)⟩
  | cons s lanes ih =>
    rw [List.map_cons, List.foldr_cons]
    have hle := c.localPrefillIntent_le s
    refine ⟨Nat.max_le.mpr ⟨hle, ih.1⟩, fun hany => ?_⟩
    rcases Bool.or_eq_true_iff.mp hany with hs | hrest
    · have hone : c.localPrefillIntent s = 1 := if_pos (Or.inl hs)
      omega
    · have hone := ih.2 hrest
      omega

/-- The turn a negotiation takes. -/
def turn (knobs : Interleave) (c : LaneCoordinator) : Turn :=
  ⟨c.inStretch, c.intent ≠ 0, (c.negotiateForcedMode knobs).result = .ok .prefillOnly⟩

/-- A negotiation, the step of the lanes in the mode it gives, and what happens until the next: a step in decode-only
mode leaves no partial prompt that was not. -/
def Step (knobs : Interleave) (c : LaneCoordinator) (turn : Turn) (c' : LaneCoordinator) : Prop :=
  c.lanes ≠ [] ∧ turn = c.turn knobs ∧ c'.counters = (c.negotiateForcedMode knobs).obj.counters ∧
    ((c.negotiateForcedMode knobs).result = .ok .decodeOnly → c.lanes.any TTScheduler.partialInFlight = false →
      c'.lanes.any TTScheduler.partialInFlight = false)

/-- What a negotiation answers. -/
theorem negotiateForcedMode_eq {knobs : Interleave} {c : LaneCoordinator} (h : c.lanes ≠ []) (hon : knobs.on = true) :
    c.negotiateForcedMode knobs = if c.inStretch = true then
      .ret { c with counters := c.counters.turn knobs.decodeSteps }
        (if c.counters.yields knobs.decodeSteps = true then .decodeOnly else .prefillOnly)
    else .ret { c with counters := ⟨if c.intent = 0 then 0 else 1, 0⟩ }
      (if c.intent = 0 then .decodeOnly else .prefillOnly) := by
  unfold negotiateForcedMode
  rw [(raiseIf_ok (u := ())).mpr h, Call.attempt_ok]
  obtain ⟨hle, hflight⟩ := c.intent_spec
  cases hin : c.inStretch with
  | true =>
    have hone := hflight (Bool.and_eq_true_iff.mp hin).1
    rw [if_pos ⟨by omega, hon, rfl⟩, if_pos rfl]
    cases c.counters.yields knobs.decodeSteps <;> rfl
  | false =>
    rw [if_neg (fun h => Bool.false_ne_true h.2.2), if_neg Bool.false_ne_true]
    rcases Nat.le_one_iff_eq_zero_or_eq_one.mp hle with hzero | hone
    · rw [hzero]
      rfl
    · rw [hone]
      rfl

/-- **The lanes share their turns** in every run. -/
theorem run_shares {knobs : Interleave} {R : Nat} (hon : knobs.on = true) (hR : knobs.decodeSteps = R)
    {c₀ c : LaneCoordinator} (hfresh : c₀.lanes.any TTScheduler.partialInFlight = false) {turns : List Turn}
    (hrun : Run (Step knobs) c₀ turns c) : Shares R turns := by
  refine (Run.invariant (P := fun turns c => Shares R turns ∧
    c.counters.Counts R turns (c.lanes.any TTScheduler.partialInFlight))
    ⟨Shares.nil R, hfresh ▸ Counters.Counts.fresh⟩ ?_ hrun).1
  rintro turns c turn c' - ⟨hshares, hcounts⟩ ⟨hlanes, rfl, hcounters, hdecodes⟩
  have hmode := negotiateForcedMode_eq hlanes hon
  obtain ⟨hle, hflight⟩ := c.intent_spec
  cases hin : c.inStretch with
  | true =>
    rw [hin, if_pos rfl, hR] at hmode
    have hone := hflight (Bool.and_eq_true_iff.mp hin).1
    have hturn : c.turn knobs = ⟨true, true, !c.counters.yields R⟩ := by
      unfold LaneCoordinator.turn
      rw [hmode, hin, hone]
      cases c.counters.yields R <;> rfl
    rw [hcounters, hmode, hturn]
    exact Counters.Counts.turn hshares ((Bool.and_eq_true_iff.mp hin).1 ▸ hcounts) true _
  | false =>
    rw [hin, if_neg Bool.false_ne_true] at hmode
    have hturn : c.turn knobs = ⟨false, c.intent ≠ 0, c.intent ≠ 0⟩ := by
      unfold LaneCoordinator.turn
      rw [hmode, hin]
      rcases Nat.le_one_iff_eq_zero_or_eq_one.mp hle with hzero | hone
      · rw [hzero]
        rfl
      · rw [hone]
        rfl
    rw [hturn]
    refine Counters.Counts.outside hshares _ fun hafter => ?_
    rw [hcounters, hmode]
    show (⟨if c.intent = 0 then 0 else 1, 0⟩ : Counters) = _
    by_cases hzero : c.intent = 0
    · have hbefore : c.lanes.any TTScheduler.partialInFlight = false := by
        by_contra hany
        have := hflight (by simpa using hany)
        omega
      rw [hdecodes (by rw [hmode, hzero]; rfl) hbefore] at hafter
      cases hafter
    · rw [if_neg hzero]

end LaneCoordinator

/-! ## Main result -/

/-- **Main result.** With interleaving on, in every run in default mode that starts without a partial prompt: of the
calls of a stretch one in `R + 1` chooses prefill, after `R` that run decode-only, and outside a stretch a call chooses
prefill if there is prefill work. So no two calls in a row choose prefill once the second is in a stretch, if `1 ≤ R`,
and of `R + 1` calls of a stretch one does. A call that does not yield is the stock call. The lanes do the same with
their own intent outside, and choose alike in runs with the same stretches. -/
theorem alternation_share {knobs : Interleave} {R : Nat} (hon : knobs.on = true) (hR : knobs.decodeSteps = R)
    {s₀ s : Alternating} (hfresh : s₀.sched.partialInFlight = false) {turns : List Turn}
    (hrun : Run (Alternating.Step knobs) s₀ turns s) :
    Shares R turns ∧
    (1 ≤ R → ∀ past t u, (past ++ [t, u]) <+: turns → u.stretch = true → ¬(t.first = true ∧ u.first = true)) ∧
    (∀ past more, (past ++ more) <+: turns → (∀ t ∈ more, t.stretch = true) → more.length = R + 1 →
      ∃ t ∈ more, t.first = true) ∧
    (∀ (s : Alternating) env prefillOnly, s.sched.forcedMode = .default →
      (s.schedule knobs env prefillOnly).onto Alternating.sched =
        if s.sched.hasPendingPrefill = true ∧ s.prefers knobs = false then s.sched.scheduleDecodeOnly env
        else s.sched.stockSchedule env prefillOnly) ∧
    ∀ {c₀ c : LaneCoordinator} {laneTurns}, c₀.lanes.any TTScheduler.partialInFlight = false →
      Run (LaneCoordinator.Step knobs) c₀ laneTurns c → Shares R laneTurns ∧
        (turns.map Turn.stretch = laneTurns.map Turn.stretch → ∀ past t past' t', (past ++ [t]) <+: turns →
          (past' ++ [t']) <+: laneTurns → past.length = past'.length → t.stretch = true → t.first = t'.first) := by
  have hshares := Alternating.run_shares hon hR hfresh hrun
  refine ⟨hshares, fun hr _ _ _ hstart hu => hshares.not_twice hr hstart hu,
    fun _ _ hstart hstretch hlength => hshares.window hstart hstretch hlength,
    fun s env prefillOnly hmode => Alternating.schedule_default hmode env prefillOnly, fun hlanes hlaneRun => ?_⟩
  have hlaneShares := LaneCoordinator.run_shares hon hR hlanes hlaneRun
  exact ⟨hlaneShares, fun hsame _ _ _ _ hp hp' hlength ht => hshares.agree hlaneShares hsame hp hp' hlength ht⟩

/-! ## Falling back -/

/-- A base scheduler that starts a chunk of the first waiting prompt. -/
def chunkBase : BaseScheduler where
  schedule s := Call.ret { s with
      waiting := s.waiting.filter (· ∉ s.waiting.take (min 1 s.maxNumRunningReqs))
      skippedWaiting := s.skippedWaiting.map fun q => q.filter (· ∉ s.waiting.take (min 1 s.maxNumRunningReqs))
      running := s.running ++ s.waiting.take (min 1 s.maxNumRunningReqs)
      isPrefillChunk := fun r => r ∈ s.waiting.take (min 1 s.maxNumRunningReqs) || s.isPrefillChunk r
      finishedReqIds := ∅ } ⟨[], 1, s.finishedReqIds⟩
  moves s := ⟨s.waiting.take (min 1 s.maxNumRunningReqs), [], []⟩
  moved s := ⟨⟨[], .refl _, rfl⟩, ⟨[], .refl _, rfl⟩, fun _ => rfl, by simp,
    fun r hr => Or.inl (List.mem_of_mem_take hr),
    rfl, rfl⟩
  admits s := by
    show (s.waiting.take _).length ≤ _
    rw [List.length_take]
    omega
  takes s out h := by
    obtain rfl := Except.ok.inj h
    simp
  keeps s e h := by cases h

/-- Everything running is preempted, and nothing is scheduled. -/
def preemptAll (s : TTScheduler) : TTScheduler :=
  { s with waiting := s.running ++ s.waiting, running := [], finishedReqIds := ∅ }

theorem preemptAll_moved (s : TTScheduler) : Moved s ⟨[], s.running, []⟩ (preemptAll s) :=
  ⟨⟨s.running, .refl _, by simp [preemptAll]⟩, ⟨[], .refl _, by simp [preemptAll]⟩, fun _ => rfl,
    by simp [preemptAll], by simp, rfl, rfl⟩

theorem admits_none (s : TTScheduler) : ([] : List Request).length ≤ s.maxNumRunningReqs := Nat.zero_le _

/-- A base scheduler without a free block. -/
def starvedBase : BaseScheduler where
  schedule s := Call.ret (preemptAll s) ⟨[], 0, s.finishedReqIds⟩
  moves s := ⟨[], s.running, []⟩
  moved := preemptAll_moved
  admits := admits_none
  takes s out h := by
    obtain rfl := Except.ok.inj h
    simp [preemptAll]
  keeps s e h := by cases h

theorem sampleBase_quiet : sampleBase.Quiet := fun _ h => (Bool.or_eq_false_iff.mp h).2

/-- A request decodes and a prompt waits. -/
def promptArrived : Alternating :=
  ⟨⟨[⟨"a", some 10⟩], [⟨"p", some 10⟩], some [], 2, ∅, .default, fun _ => false, fun _ => false⟩, ⟨0, 0⟩⟩

/-- One decode step after each chunk. -/
def oneEach : Interleave := ⟨true, 1⟩

/-- The scheduler after the prompt's first chunk. -/
def promptPartial : Alternating :=
  (promptArrived.schedule oneEach (sampleEnv none none) (TTScheduler.schedulePrefillOnly chunkBase)).obj

/-- The scheduler after the decode that follows. -/
def decodeGiven : Alternating :=
  (promptPartial.schedule oneEach (sampleEnv none none) (TTScheduler.schedulePrefillOnly chunkBase)).obj

theorem promptPartial_run : Run (Alternating.Step oneEach) promptArrived
    [⟨false, true, true⟩, ⟨true, true, false⟩] decodeGiven := by
  have hfirst : Alternating.Step oneEach promptArrived ⟨false, true, true⟩ promptPartial :=
    ⟨rfl, by decide, sampleEnv none none, TTScheduler.schedulePrefillOnly chunkBase, sampleBase_quiet, rfl, id⟩
  have hsecond : Alternating.Step oneEach promptPartial ⟨true, true, false⟩ decodeGiven :=
    ⟨rfl, by decide, sampleEnv none none, TTScheduler.schedulePrefillOnly chunkBase, sampleBase_quiet, rfl, id⟩
  exact Run.append (Run.single hfirst) (Run.single hsecond)

/-- The calls of that run choose as they should. -/
theorem alternation_share_sample : Shares 1 [⟨false, true, true⟩, ⟨true, true, false⟩] :=
  (alternation_share (rfl : oneEach.on = true) (rfl : oneEach.decodeSteps = (1 : Nat)) rfl promptPartial_run).1

/-- **Prefill may fall back**: the third call of that run is in the stretch and chooses prefill, but without a free
block it schedules nothing and runs a second decode step. And beside a full lane with a waiting prompt, where the
scheduler chooses prefill, the lanes choose decode. -/
theorem alternation_falls_back :
    (∃ s, Run (Alternating.Step oneEach) promptArrived [⟨false, true, true⟩, ⟨true, true, false⟩] s ∧
      s.turn oneEach = ⟨true, true, true⟩ ∧
      (s.schedule oneEach (sampleEnv none none) (TTScheduler.schedulePrefillOnly starvedBase)).result =
        ((TTScheduler.schedulePrefillOnly starvedBase s.sched).obj.scheduleDecodeOnly (sampleEnv none none)).result) ∧
    ((⟨sampleScheduler 2, ⟨0, 0⟩⟩ : Alternating).turn oneEach = ⟨false, true, true⟩ ∧
      (⟨[sampleScheduler 2], 2, ⟨0, 0⟩⟩ : LaneCoordinator).turn oneEach = ⟨false, false, false⟩) :=
  ⟨⟨decodeGiven, promptPartial_run, by decide, by decide⟩, by decide, by decide⟩

end BlackholeQwen.Serving
