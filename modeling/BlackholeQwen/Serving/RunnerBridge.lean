import BlackholeQwen.Lib.Runs
import BlackholeQwen.Serving.UpdateStates

/-!
# The runner bridge

`FastRunnerBridge` is `serving_runner_bridge.FastRunnerBridge`: it admits a scheduled step for its request's ticket,
lets the plugin update its states, checks the reservation, steps the request and applies the committed output.

The runner and the session are two machines that advance in step. `Joined` is what holds of the two between calls,
`executeDecode_joined` that a returned step keeps it and leaves every counter at the session's position; `lock_step`
gathers this for every run, with the refusal of every other schedule and of every output applied again.
-/

namespace BlackholeQwen.Serving

open Lib Speculative GreedySession

/-- `FastRunnerBridge`; `state` is the captured state's identity. -/
structure FastRunnerBridge where
  runner : Runner
  request : FastRequest
  state : StateRef
  failed : Bool

/-- What the environment answers during `execute_decode`: the storage validation where there is one, the page refresh
with the phase a failed one leaves the engine in, and the step. -/
structure DecodeEnv where
  validateStorage : Option (Except PyError Unit)
  refresh : Except PyError Unit × EnginePhase
  step : StepEnv

namespace FastRunnerBridge

/-- `FastRunnerBridge.__init__`; `synchronous` and `paired` are its conditions on the runner's mode and on the page
binding's engine, `validatable` that `validate_storage` is `None` or callable. -/
def init (runner : Runner) (request : FastRequest) (synchronous paired validatable : Bool) :
    Except PyError FastRunnerBridge := do
  raiseIf (synchronous = false ∨ paired = false)
    (.valueError "Synchronous TP2 single-request runner and matching page binding required")
  match runner.requests.get? request.session.requestId with
  | none => .error .keyError
  | some state =>
    raiseIf (validatable = false) (.valueError "Explicit callable storage validation required")
    return ⟨runner, request, state, false⟩

/-- `if session.pending is None: request.prepare(..)`. -/
def ensurePrepared (b : FastRunnerBridge) (proposalRows : Except PyError Nat) (adapters : Adapters) (ident : Nat) :
    Call FastRunnerBridge Unit :=
  match b.request.session.pending with
  | some _ => Call.ret b ()
  | none =>
    ((b.request.prepare b.request.session.requestId proposalRows adapters ident).map fun _ => ()).onto fun request =>
      { b with request }

/-- `drafts`; `proposalRows` is what `engine.proposal_rows` answers for the packed width asked for. -/
def drafts (b : FastRunnerBridge) (proposalRows : Except PyError Nat) (adapters : Adapters) (ident : Nat) :
    Call FastRunnerBridge (Option DraftTokenIds) :=
  Call.attempt (raiseIf (b.failed = true ∨ b.request.closed = true ∨ b.request.cancelled = true)
    (.valueError "Live fast request required")) b fun () =>
  if b.request.session.finished then Call.ret b none
  else
    (b.ensurePrepared proposalRows adapters ident).bind fun b () =>
    Call.attempt (draftTokenIds b.request) b fun ids => Call.ret b (some ids)

/-- `page_binding.refresh(..)`. -/
def refresh (b : FastRunnerBridge) (answer : Except PyError Unit × EnginePhase) : Call FastRunnerBridge Unit :=
  Call.attempt answer.1 { b with request := { b.request with engine := answer.2 } } fun () => Call.ret b ()

variable (ops : InputBatchOps)

/-- The body of `execute_decode`'s `try`. -/
def decodeBody (b : FastRunnerBridge) (scheduled : SchedulerOutput) (ticket : BlockTicket) (env : DecodeEnv) :
    Call FastRunnerBridge ModelRunnerOutput :=
  Call.attempt (env.validateStorage.getD (.ok ())) b fun () =>
  ((b.runner.updateStates ops scheduled).onto fun runner => { b with runner }).bind fun b () =>
  Call.attempt (b.runner.validateRunnerReservation b.state ticket 1) b fun () =>
  Call.attempt (raiseIf ((b.runner.states b.state).blockIds.length ≠ 1)
    (.valueError "One explicit target KV page group required")) b fun () =>
  (b.refresh env.refresh).bind fun b () =>
  ((b.request.step ticket.requestId env.step).onto fun request => { b with request }).bind fun b output =>
  ((b.runner.applyCommittedOutput b.state output 1).onto fun runner => { b with runner }).bind fun b () =>
  Call.ret b (modelRunnerOutput output)

/-- `execute_decode`. -/
def executeDecode (b : FastRunnerBridge) (scheduled : SchedulerOutput) (env : DecodeEnv) :
    Call FastRunnerBridge ModelRunnerOutput :=
  Call.attempt (raiseIf (b.failed = true) (.valueError "Failed runner bridge cannot execute another block")) b fun () =>
  Call.attempt (admitSchedulerOutput b.request scheduled) b fun ticket =>
  match (b.decodeBody ops scheduled ticket env).result with
  | .ok _ => b.decodeBody ops scheduled ticket env
  | .error e => Call.throw { (b.decodeBody ops scheduled ticket env).obj with failed := true } e

/-- `close`. -/
def close (b : FastRunnerBridge) (released : Except PyError Unit × EnginePhase) (dropped : Except PyError Unit) :
    Call FastRunnerBridge Unit :=
  (b.request.close b.request.session.requestId released dropped).onto fun request => { b with request }

end FastRunnerBridge

/-- A call on the bridge or, between its calls, a narrowing of the live ticket. -/
inductive BridgeCall
  | drafts (proposalRows : Except PyError Nat) (adapters : Adapters) (ident : Nat)
  | narrow (requestId : String) (ticket : BlockTicket) (rows ident : Nat)
  | executeDecode (scheduled : SchedulerOutput) (env : DecodeEnv)
  | close (released : Except PyError Unit × EnginePhase) (dropped : Except PyError Unit)

namespace FastRunnerBridge

variable (ops : InputBatchOps)

/-- The bridge after a call, returned or raised. -/
def after (b : FastRunnerBridge) : BridgeCall → FastRunnerBridge
  | .drafts proposalRows adapters ident => (b.drafts proposalRows adapters ident).obj
  | .narrow requestId ticket rows ident =>
    { b with request := { b.request with session := (b.request.session.narrow requestId ticket rows ident).obj } }
  | .executeDecode scheduled env => (b.executeDecode ops scheduled env).obj
  | .close released dropped => (b.close released dropped).obj

/-- The runs of a bridge. -/
abbrev Runs := Run (fun (b : FastRunnerBridge) (call : BridgeCall) b' => b' = b.after ops call)

/-! ## What a step does -/

variable {ops} {b : FastRunnerBridge} {prompt : List Token} {scheduled : SchedulerOutput} {env : DecodeEnv}
  {out : ModelRunnerOutput}

/-- The request's text is the same in the session and in the runner. -/
structure Joined (prompt : List Token) (b : FastRunnerBridge) : Prop where
  books : ∃ issued, Bookkeeping prompt issued b.request.session
  known : (b.runner.states b.state).promptTokenIds = some prompt
  owner : (b.runner.states b.state).reqId = b.request.session.requestId
  written : b.runner.outputOf b.state = b.request.session.emitted
  row : ∀ text, b.runner.inputBatch.rowText b.request.session.requestId = some text →
    text = (b.runner.states b.state).rowText (b.runner.outputOf b.state)

/-- The bridge and the session advanced together by the tokens of one output. -/
structure Stepped (prompt : List Token) (b b' : FastRunnerBridge) (scheduled : SchedulerOutput)
    (out : ModelRunnerOutput) : Prop where
  admitted : ∃ ticket, Matches b.request scheduled ticket
  unfailed : b'.failed = false
  state : b'.state = b.state
  advanced : ∃ output, out = modelRunnerOutput output ∧ b.request.Advanced prompt b'.request output
  joined : Joined prompt b'
  inStep : b'.runner.InStep b'.state b'.request.session.requestId prompt b'.request.session.emitted
    b'.request.session.position

/-- A returned body went through all its stages. -/
theorem decodeBody_stages {ticket : BlockTicket} (h : (b.decodeBody ops scheduled ticket env).result = .ok out) :
    ∃ output, (b.runner.updateStates ops scheduled).result = .ok () ∧
      (b.runner.updateStates ops scheduled).obj.validateRunnerReservation b.state ticket 1 = .ok () ∧
      (b.request.step ticket.requestId env.step).result = .ok output ∧
      ((b.runner.updateStates ops scheduled).obj.applyCommittedOutput b.state output 1).result = .ok () ∧
      out = modelRunnerOutput output ∧
      (b.decodeBody ops scheduled ticket env).obj =
        { b with
          runner := ((b.runner.updateStates ops scheduled).obj.applyCommittedOutput b.state output 1).obj
          request := (b.request.step ticket.requestId env.step).obj } := by
  obtain ⟨⟨⟩, -, hc⟩ := Call.of_attempt h
  have hbody : b.decodeBody ops scheduled ticket env = _ := hc
  rw [hbody] at h ⊢
  obtain ⟨⟨⟩, hupdate, hc⟩ := Call.of_bind h
  rw [hc] at h ⊢
  obtain ⟨⟨⟩, hvalid, hc⟩ := Call.of_attempt h
  rw [hc] at h ⊢
  obtain ⟨⟨⟩, -, hc⟩ := Call.of_attempt h
  rw [hc] at h ⊢
  obtain ⟨⟨⟩, hrefresh, hc⟩ := Call.of_bind h
  obtain ⟨⟨⟩, -, hr⟩ := Call.of_attempt hrefresh
  have hr' : refresh _ env.refresh = _ := hr
  rw [hr'] at h hc
  rw [hc] at h
  rw [hr', hc]
  obtain ⟨output, hstep, hc⟩ := Call.of_bind h
  rw [hc] at h ⊢
  obtain ⟨⟨⟩, happly, hc⟩ := Call.of_bind h
  rw [hc] at h ⊢
  exact ⟨output, hupdate, hvalid, hstep, happly, (Except.ok.inj h).symm, rfl⟩

/-- In step is joined: the row spells the text of its state. -/
theorem joined_of_inStep (hbooks : ∃ issued, Bookkeeping prompt issued b.request.session)
    (howner : (b.runner.states b.state).reqId = b.request.session.requestId)
    (h : b.runner.InStep b.state b.request.session.requestId prompt b.request.session.emitted
      b.request.session.position) : Joined prompt b := by
  obtain ⟨⟨index, row, hb, hspell, hlen, -⟩, hwritten⟩ := h
  refine ⟨hbooks, hb.known, howner, hwritten, fun text ht => ?_⟩
  simp only [InputBatch.rowText, hb.placed, hb.entry, Option.bind_some, Option.map_some, Option.some.injEq] at ht
  rw [← ht]
  simp only [BatchRow.text, CachedRequestState.rowText, hb.shared, hb.known, Option.getD_some, hspell]
  rw [hlen, List.length_append]

/-- **A returned body keeps the two machines joined and leaves them in step.** -/
theorem decodeBody_ok (hops : ops.Lawful) (hj : Joined prompt b) (hf : b.failed = false) {ticket : BlockTicket}
    (hm : Matches b.request scheduled ticket) (h : (b.decodeBody ops scheduled ticket env).result = .ok out) :
    Stepped prompt b (b.decodeBody ops scheduled ticket env).obj scheduled out := by
  obtain ⟨output, hupdate, hvalid, hstep, happly, hout, hobj⟩ := decodeBody_stages h
  have hid : ticket.requestId = b.request.session.requestId := hm.prepared.owner
  have hnames : Runner.Names scheduled b.request.session.requestId := by
    rw [← hid]; exact ⟨hm.new, hm.unfinished, hm.cached, hm.counts⟩
  obtain ⟨ref, href, href', htext⟩ := Runner.updateStates_ok hops hnames hupdate
  have hsame := Runner.updateStates_sameTexts hops b.runner hm.new
  obtain ⟨issued, hbooks⟩ := hj.books
  have hadv := FastRequest.step_ok hstep hbooks
  obtain ⟨index, row, p, hbound, -⟩ := Runner.validate_ok hvalid
  obtain rfl : ref = b.state := by
    have := hbound.identity
    rw [hid] at this
    exact Option.some.inj (href'.symm.trans this)
  have hknown := (hsame.promptTokenIds b.state).trans hj.known
  -- the row spells the text: it was not touched, or it was added with the text of the state
  have hspell : ∀ text, (b.runner.updateStates ops scheduled).obj.inputBatch.rowText b.request.session.requestId =
      some text → text = (b.runner.states b.state).rowText (b.runner.outputOf b.state) := by
    intro text ht
    rcases htext hj.owner with heq | heq
    · exact hj.row text (heq ▸ ht)
    · exact Option.some.inj (ht.symm.trans heq)
  have hin := Runner.apply_ok happly hknown fun i w hb _ => by
    have hrow := hspell w.text (by
      rw [← hadv.requestId]
      simp only [InputBatch.rowText, hb.placed, hb.entry, Option.bind_some, Option.map_some])
    have htokens := congrArg RowText.tokens hrow
    rw [hsame.outputOf]
    simpa [CachedRequestState.rowText, BatchRow.text, hj.known] using htokens
  rw [hsame.outputOf, hj.written, ← hadv.emitted, hadv.requestId, ← hadv.owner, hadv.position] at hin
  have hreqId : (((b.runner.updateStates ops scheduled).obj.applyCommittedOutput b.state output 1).obj.states
      b.state).reqId = b.request.session.requestId := by
    rcases Runner.apply_cases (b.runner.updateStates ops scheduled).obj b.state output 1 with
      ⟨e, -, hc⟩ | ⟨i, w, -, hc⟩ <;> rw [hc]
    · exact (hsame.reqId b.state).trans hj.owner
    · rw [Call.ret_obj]
      split_ifs
      · exact (hsame.reqId b.state).trans hj.owner
      · simp only [Runner.write, Function.update_self]
        exact (hsame.reqId b.state).trans hj.owner
  rw [hobj]
  exact ⟨⟨ticket, hm⟩, hf, rfl, ⟨output, hout, hadv⟩,
    joined_of_inStep hadv.books (hreqId.trans hadv.owner.symm) hin, hin⟩

/-- A returned `execute_decode` is a step. -/
theorem executeDecode_ok (hops : ops.Lawful) (hj : Joined prompt b)
    (h : (b.executeDecode ops scheduled env).result = .ok out) :
    Stepped prompt b (b.executeDecode ops scheduled env).obj scheduled out := by
  obtain ⟨⟨⟩, hf, hc⟩ := Call.of_attempt h
  have hex : b.executeDecode ops scheduled env = _ := hc
  rw [hex] at h ⊢
  obtain ⟨ticket, hadmit, hc⟩ := Call.of_attempt h
  rw [hc] at h ⊢
  rw [raiseIf_ok, Bool.not_eq_true] at hf
  split at h
  · rename_i out' hout
    rw [hout] at h
    obtain rfl := Except.ok.inj h
    exact decodeBody_ok hops hj hf (admit_ok.mp hadmit) hout
  · cases h

/-- A schedule that is not admitted is refused, and so is every schedule by a failed bridge. -/
theorem executeDecode_refused (env : DecodeEnv)
    (h : b.failed = true ∨ ∀ ticket, ¬Matches b.request scheduled ticket) :
    (b.executeDecode ops scheduled env).Refused b := by
  unfold executeDecode
  by_cases hf : b.failed = true
  · simp only [raiseIf, hf, if_true, Call.attempt_error]
    exact Call.refused_throw b _
  · rw [show raiseIf (b.failed = true) _ = .ok () from raiseIf_ok.mpr hf, Call.attempt_ok]
    rcases Call.attempt_cases (admitSchedulerOutput b.request scheduled) b _ with ⟨e, -, hc⟩ | ⟨ticket, ha, -⟩
    · rw [hc]; exact Call.refused_throw b e
    · exact absurd (admit_ok.mp ha) (h.resolve_left hf ticket)

/-- A raising `execute_decode` changed nothing, or failed the bridge. -/
theorem executeDecode_raised {e : PyError} (h : (b.executeDecode ops scheduled env).result = .error e) :
    (b.executeDecode ops scheduled env).obj = b ∨ (b.executeDecode ops scheduled env).obj.failed = true := by
  unfold executeDecode at h ⊢
  rcases Call.attempt_cases (raiseIf (b.failed = true)
    (.valueError "Failed runner bridge cannot execute another block")) b _ with ⟨e, -, hc⟩ | ⟨⟨⟩, -, hc⟩ <;>
    rw [hc] at h ⊢
  · exact Or.inl rfl
  rcases Call.attempt_cases (admitSchedulerOutput b.request scheduled) b _ with ⟨e, -, hc⟩ | ⟨ticket, -, hc⟩ <;>
    rw [hc] at h ⊢
  · exact Or.inl rfl
  cases hr : (b.decodeBody ops scheduled ticket env).result with
  | ok out =>
    simp only [hr] at h
    cases h
  | error e' => exact Or.inr rfl

/-! ## Runs -/

/-- Preparing drafts is quiet, and leaves the rest of the bridge alone. -/
theorem drafts_obj (b : FastRunnerBridge) (proposalRows : Except PyError Nat) (adapters : Adapters) (ident : Nat) :
    ∃ request, (b.drafts proposalRows adapters ident).obj = { b with request } ∧ b.request.Quiet request := by
  have hprepare : ∃ request, (b.ensurePrepared proposalRows adapters ident).obj = { b with request } ∧
      b.request.Quiet request := by
    unfold ensurePrepared
    split
    · exact ⟨b.request, rfl, .refl _⟩
    · exact ⟨_, rfl, b.request.prepare_quiet _ _ _ _⟩
  unfold drafts
  refine Call.attempt_obj (P := fun b' => ∃ request, b' = { b with request } ∧ b.request.Quiet request)
    ⟨b.request, rfl, .refl _⟩ fun _ _ => ?_
  split_ifs
  · exact ⟨b.request, rfl, .refl _⟩
  · refine Call.bind_obj (P := fun b' => ∃ request, b' = { b with request } ∧ b.request.Quiet request) hprepare
      fun _ _ => ?_
    refine Call.attempt_obj (P := fun b' => ∃ request, b' = { b with request } ∧ b.request.Quiet request) hprepare
      fun _ _ => ?_
    exact hprepare

/-- A call is a decode, or changes the request only, which it closes or leaves quiet. -/
theorem after_cases (ops : InputBatchOps) (b : FastRunnerBridge) (call : BridgeCall) :
    (∃ scheduled env, call = .executeDecode scheduled env) ∨
    ∃ request, b.after ops call = { b with request } ∧ (request.closed = true ∨ b.request.Quiet request) := by
  cases call with
  | drafts proposalRows adapters ident =>
    obtain ⟨request, hb, hq⟩ := b.drafts_obj proposalRows adapters ident
    exact Or.inr ⟨request, hb, Or.inr hq⟩
  | narrow requestId ticket rows ident =>
    exact Or.inr ⟨_, rfl, Or.inr (b.request.narrow_quiet requestId ticket rows ident)⟩
  | executeDecode scheduled env => exact Or.inl ⟨scheduled, env, rfl⟩
  | close released dropped => exact Or.inr ⟨_, rfl, b.request.close_quiet _ released dropped⟩

/-- A quiet call keeps the two machines joined. -/
theorem Joined.quiet (hj : Joined prompt b) {request : FastRequest} (hq : b.request.Quiet request) :
    Joined prompt { b with request } := by
  obtain ⟨issued, hb⟩ := hj.books
  refine ⟨hq.books hb, hj.known, hj.owner.trans hq.owner.symm, hj.written.trans hq.emitted.symm, fun text ht => ?_⟩
  rw [hq.owner] at ht
  exact hj.row text ht

/-- The invariant of a run: while the bridge is live, the two machines are joined. -/
def Live (prompt : List Token) (b : FastRunnerBridge) : Prop :=
  b.failed = false → b.request.closed = false → Joined prompt b

/-- A decode that returned was admitted by a live bridge. -/
theorem executeDecode_live (h : (b.executeDecode ops scheduled env).result = .ok out) :
    b.failed = false ∧ b.request.closed = false := by
  by_contra hlive
  have hrefused : (b.executeDecode ops scheduled env).Refused b := executeDecode_refused env (by
    by_cases hf : b.failed = true
    · exact Or.inl hf
    · refine Or.inr fun ticket hm => hlive ⟨by simpa using hf, hm.prepared.open_⟩)
  exact hrefused.not_ok out h

/-- A returned decode of a live bridge is a step. -/
theorem Live.step (hops : ops.Lawful) (h : Live prompt b)
    (hr : (b.executeDecode ops scheduled env).result = .ok out) :
    Stepped prompt b (b.executeDecode ops scheduled env).obj scheduled out :=
  executeDecode_ok hops (h (executeDecode_live hr).1 (executeDecode_live hr).2) hr

/-- Every call keeps a live bridge joined. -/
theorem Live.after (hops : ops.Lawful) (h : Live prompt b) (call : BridgeCall) : Live prompt (b.after ops call) := by
  rcases after_cases ops b call with ⟨scheduled, env, rfl⟩ | ⟨request, hb, hq⟩
  · show Live prompt (b.executeDecode ops scheduled env).obj
    cases hr : (b.executeDecode ops scheduled env).result with
    | error e =>
      rcases executeDecode_raised hr with hb | hb
      · rwa [hb]
      · exact fun hf => absurd (hb.symm.trans hf) (by simp)
    | ok out => exact fun _ _ => (h.step hops hr).joined
  · rw [hb]
    intro hf hclosed
    rcases hq with hq | hq
    · exact absurd (hq.symm.trans hclosed) (by simp)
    · exact (h hf (hq.closed ▸ hclosed)).quiet hq

/-- The frontier `p` is behind the bridge: its request ended, or has moved on. -/
def Spent (p : Nat) (b : FastRunnerBridge) : Prop :=
  b.failed = true ∨ b.request.closed = true ∨ b.request.cancelled = true ∨ p < b.request.session.position

/-- A step never moves the frontier back, and moves it on unless it cancelled the request. -/
theorem Stepped.position (hj : Joined prompt b) {b' : FastRunnerBridge} (h : Stepped prompt b b' scheduled out) :
    b.request.session.position ≤ b'.request.session.position ∧
      (b'.request.cancelled = true ∨ b.request.session.position < b'.request.session.position) := by
  obtain ⟨output, -, hadv⟩ := h.advanced
  obtain ⟨issued, hb⟩ := hj.books
  obtain ⟨issued', hb'⟩ := hadv.books
  obtain ⟨ticket, hm⟩ := h.admitted
  have hlen := congrArg List.length hadv.emitted
  rw [List.length_append] at hlen
  have h1 := hb.position
  have h2 := hb'.position
  have h3 := hb.emitted_pos
  refine ⟨by omega, ?_⟩
  rcases hadv.progress with hne | hc | hfin
  · have := List.length_pos_iff.mpr hne
    exact Or.inr (by omega)
  · exact Or.inl hc
  · rw [hb.unfinished ticket hm.prepared.pending] at hfin
    cases hfin

/-- A frontier behind the bridge stays behind it. -/
theorem Spent.after (hops : ops.Lawful) (h : Live prompt b) {p : Nat} (hp : Spent p b) (call : BridgeCall) :
    Spent p (b.after ops call) := by
  rcases after_cases ops b call with ⟨scheduled, env, rfl⟩ | ⟨request, hb, hq⟩
  · show Spent p (b.executeDecode ops scheduled env).obj
    cases hr : (b.executeDecode ops scheduled env).result with
    | error e =>
      rcases executeDecode_raised hr with hb | hb
      · rwa [hb]
      · exact Or.inl hb
    | ok out =>
      obtain ⟨hf, hclosed⟩ := executeDecode_live hr
      have hstep := h.step hops hr
      obtain ⟨ticket, hm⟩ := hstep.admitted
      rcases hp with hp | hp | hp | hp
      · exact absurd (hp.symm.trans hf) (by simp)
      · exact absurd (hp.symm.trans hclosed) (by simp)
      · exact absurd (hp.symm.trans hm.prepared.live) (by simp)
      · exact Or.inr (Or.inr (Or.inr (hp.trans_le (hstep.position (h hf hclosed)).1)))
  · rw [hb]
    rcases hq with hq | hq
    · exact Or.inr (Or.inl hq)
    · unfold Spent
      rwa [hq.closed, hq.cancelled, hq.position]

/-- The frontier of a returned step is behind the bridge. -/
theorem Stepped.spent (hj : Joined prompt b) {b' : FastRunnerBridge} (h : Stepped prompt b b' scheduled out) :
    Spent b.request.session.position b' := (h.position hj).2.elim (fun hc => Or.inr (Or.inr (Or.inl hc)))
  fun hlt => Or.inr (Or.inr (Or.inr hlt))

/-- A schedule whose frontier is behind the bridge is refused. -/
theorem Spent.refused {p : Nat} (hp : Spent p b) (hfront : scheduled.scheduledCachedReqs.numComputedTokens = [p])
    (env : DecodeEnv) : (b.executeDecode ops scheduled env).Refused b := by
  refine executeDecode_refused env ?_
  rcases hp with hp | hp | hp | hp
  · exact Or.inl hp
  · exact Or.inr fun ticket hm => absurd (hp.symm.trans hm.prepared.open_) (by simp)
  · exact Or.inr fun ticket hm => absurd (hp.symm.trans hm.prepared.live) (by simp)
  · refine Or.inr fun ticket hm => ?_
    have h1 := hm.frontier
    rw [hfront, List.cons_eq_cons] at h1
    have h2 := hm.prepared.position
    omega

/-! ## Outputs applied again -/

/-- The runner knows the request's prompt and has recorded at least `n` tokens of its text. -/
def Recorded (prompt : List Token) (n : Nat) (b : FastRunnerBridge) : Prop :=
  (b.runner.states b.state).promptTokenIds = some prompt ∧ n ≤ prompt.length + (b.runner.outputOf b.state).length

/-- A page refresh leaves the record alone. -/
theorem Recorded.refresh {n : Nat} (h : Recorded prompt n b) (answer : Except PyError Unit × EnginePhase) :
    Recorded prompt n (b.refresh answer).obj := by
  refine Call.attempt_obj (P := Recorded prompt n) h fun _ _ => ?_
  exact h

/-- Applying an output keeps the record. -/
theorem Recorded.applied {n : Nat} (h : Recorded prompt n b) (output : CommittedOutput) (users : Nat) :
    Recorded prompt n { b with runner := (b.runner.applyCommittedOutput b.state output users).obj } := by
  rcases Runner.apply_cases b.runner b.state output users with ⟨e, -, hc⟩ | ⟨index, row, -, hc⟩ <;> rw [hc]
  · exact h
  · rw [Call.ret_obj]
    split_ifs
    · exact h
    · refine ⟨by simpa [Runner.write] using h.1, ?_⟩
      have hn := h.2
      show n ≤ prompt.length + (Runner.outputOf (Runner.write _ _ _ _ _) _).length
      rw [Runner.outputOf_write, List.length_append]
      omega

/-- Nothing a decode does shortens the record, whether it returns or raises. -/
theorem Recorded.decode (hops : ops.Lawful) {n : Nat} (h : Recorded prompt n b) (scheduled : SchedulerOutput)
    (env : DecodeEnv) : Recorded prompt n (b.executeDecode ops scheduled env).obj := by
  have hbody : ∀ ticket, Matches b.request scheduled ticket →
      Recorded prompt n (b.decodeBody ops scheduled ticket env).obj := by
    intro ticket hm
    have hsame := Runner.updateStates_sameTexts hops b.runner hm.new
    have hup : Recorded prompt n { b with runner := (b.runner.updateStates ops scheduled).obj } := by
      refine ⟨(hsame.promptTokenIds _).trans h.1, ?_⟩
      show n ≤ prompt.length + (Runner.outputOf (b.runner.updateStates ops scheduled).obj b.state).length
      rw [hsame.outputOf]
      exact h.2
    unfold decodeBody
    refine Call.attempt_obj (P := Recorded prompt n) h fun _ _ => ?_
    refine Call.bind_obj (P := Recorded prompt n) hup fun _ _ => ?_
    refine Call.attempt_obj (P := Recorded prompt n) hup fun _ _ => ?_
    refine Call.attempt_obj (P := Recorded prompt n) hup fun _ _ => ?_
    refine Call.bind_obj (P := Recorded prompt n) (hup.refresh env.refresh) fun _ _ => ?_
    refine Call.bind_obj (P := Recorded prompt n) (hup.refresh env.refresh) fun output _ => ?_
    refine Call.bind_obj (P := Recorded prompt n) ?_ fun _ _ => ?_
    all_goals exact (hup.refresh env.refresh).applied output 1
  unfold executeDecode
  refine Call.attempt_obj (P := Recorded prompt n) h fun _ _ => ?_
  refine Call.attempt_obj (P := Recorded prompt n) h fun ticket hadmit => ?_
  split
  · exact hbody ticket (admit_ok.mp hadmit)
  · exact hbody ticket (admit_ok.mp hadmit)

/-- Nor does any other call. -/
theorem Recorded.after (hops : ops.Lawful) {n : Nat} (h : Recorded prompt n b) (call : BridgeCall) :
    Recorded prompt n (b.after ops call) := by
  rcases after_cases ops b call with ⟨scheduled, env, rfl⟩ | ⟨request, hb, -⟩
  · exact h.decode hops scheduled env
  · rw [hb]; exact h

/-- An output that ends within the record is refused, unless it is empty. -/
theorem Recorded.refused {n : Nat} (h : Recorded prompt n b) {output : CommittedOutput}
    (hpos : output.position < n) (hne : output.tokenIds ≠ []) (users : Nat) :
    (b.runner.applyCommittedOutput b.state output users).Refused b.runner := by
  rcases Runner.apply_cases b.runner b.state output users with ⟨e, -, hc⟩ | ⟨index, row, hguard, -⟩
  · rw [hc]; exact Call.refused_throw b.runner e
  · obtain ⟨p, hb, hlen, -, -, hend⟩ := Runner.applyGuard_ok hguard
    obtain rfl : p = prompt := Option.some.inj (hb.known.symm.trans h.1)
    have hn := h.2
    have := List.length_pos_iff.mpr hne
    omega

/-! ## The start of a run -/

/-- A bridge over a fresh session and a runner row that holds the prompt and the seed. -/
structure Start (prompt : List Token) (seed : Token) (b : FastRunnerBridge) : Prop where
  session : ∃ requestId vocabSize maxNewTokens eosIds neural verifierRows preferFullSuffix lookupEnabled session,
    GreedySession.init requestId prompt seed vocabSize maxNewTokens eosIds neural verifierRows preferFullSuffix
      lookupEnabled = .ok session ∧
    ∃ drafterName, FastRequest.init session .idle true true drafterName (.ok ()) = .ok b.request
  bridge : FastRunnerBridge.init b.runner b.request true true true = .ok b
  known : (b.runner.states b.state).promptTokenIds = some prompt
  owner : (b.runner.states b.state).reqId = b.request.session.requestId
  output : b.runner.outputOf b.state = [seed]
  row : ∃ index row, b.runner.inputBatch.reqIdToIndex.get? b.request.session.requestId = some index ∧
    b.runner.inputBatch.rows[index]? = some row ∧
    row.outputTokenIds = some (b.runner.states b.state).outputTokenIds ∧ row.numTokens = prompt.length + 1 ∧
    row.tokenIds.take row.numTokens = prompt ++ [seed]

/-- At the start the two machines are joined. -/
theorem Start.joined {seed : Token} (h : Start prompt seed b) : Joined prompt b := by
  obtain ⟨id, vocab, budget, eos, neural, rows, full, lookup, session, hinit, drafter, hreq⟩ := h.session
  obtain ⟨⟨⟩, -, hreq⟩ := bind_ok hreq
  obtain ⟨⟨⟩, -, hreq⟩ := bind_ok hreq
  have hsession : b.request.session = session := by rw [← Except.ok.inj hreq]
  have hbooks := Bookkeeping.start hinit
  have hemitted : session.emitted = [seed] := by
    obtain ⟨⟨⟩, -, h⟩ := bind_ok hinit
    obtain ⟨⟨⟩, -, h⟩ := bind_ok h
    obtain ⟨_, -, h⟩ := bind_ok h
    obtain ⟨_, -, h⟩ := bind_ok h
    obtain ⟨_, -, h⟩ := bind_ok h
    cases h
    rfl
  obtain ⟨index, row, hindex, hentry, hshared, hlen, hspell⟩ := h.row
  refine ⟨⟨[], hsession ▸ hbooks⟩, h.known, h.owner, ?_, fun text ht => ?_⟩
  · rw [hsession, hemitted]; exact h.output
  · simp only [InputBatch.rowText, hindex, hentry, Option.bind_some, Option.map_some, Option.some.injEq] at ht
    rw [← ht]
    simp only [BatchRow.text, CachedRequestState.rowText, hshared, h.known, Option.getD_some, hspell, h.output]
    rw [hlen, List.length_append]
    rfl

/-- What every call keeps, a run keeps. -/
theorem Runs.keep {P : FastRunnerBridge → Prop} {b' : FastRunnerBridge} {calls : List BridgeCall} (h0 : P b)
    (hstep : ∀ b call, P b → P (b.after ops call)) (h : Runs ops b calls b') : P b' := by
  refine Run.invariant_state h0 ?_ h
  rintro b call _ hb rfl
  exact hstep b call hb

/-- **The runner and the session advance in lock step.** In every run, a decode that returns leaves the row spelling the
prompt and the output, the output the session's, and all counters at the session's position; from then on its schedule
and its output are refused. Every other schedule, and every output the runner does not accept, is refused and changes
nothing. -/
theorem lock_step (hops : ops.Lawful) {seed : Token} {b₀ b : FastRunnerBridge} {calls : List BridgeCall}
    (hstart : Start prompt seed b₀) (hrun : Runs ops b₀ calls b) :
    (∀ scheduled env out, (b.executeDecode ops scheduled env).result = .ok out →
      let b' := (b.executeDecode ops scheduled env).obj
      b'.runner.InStep b'.state b'.request.session.requestId prompt b'.request.session.emitted
        b'.request.session.position ∧
      (∀ calls' b'', Runs ops b' calls' b'' → ∀ env', (b''.executeDecode ops scheduled env').Refused b'') ∧
      ∀ output : CommittedOutput, output.tokenIds ≠ [] → output.position = b'.request.session.position →
        ∀ calls' b'', Runs ops b' calls' b'' → ∀ users,
          (b''.runner.applyCommittedOutput b''.state output users).Refused b''.runner) ∧
    (∀ scheduled env, (∀ ticket, ¬Matches b.request scheduled ticket) →
      (b.executeDecode ops scheduled env).Refused b) ∧
    (∀ scheduled env e, admitSchedulerOutput b.request scheduled = .error e →
      (b.executeDecode ops scheduled env).Refused b) ∧
    ∀ captured output users e, (b.runner.applyCommittedOutput captured output users).result = .error e →
      (b.runner.applyCommittedOutput captured output users).obj = b.runner := by
  have hlive : Live prompt b := Runs.keep (P := Live prompt) (fun _ _ => hstart.joined)
    (fun b call h => h.after hops call) hrun
  refine ⟨fun scheduled env out hr => ?_, fun scheduled env h => executeDecode_refused env (Or.inr h),
    fun scheduled env e h => executeDecode_refused env (Or.inr fun ticket hm => ?_),
    fun captured output users e h => Runner.apply_refused h⟩
  · have hstep := hlive.step hops hr
    have hj := hlive (executeDecode_live hr).1 (executeDecode_live hr).2
    have hlive' : Live prompt (b.executeDecode ops scheduled env).obj := fun _ _ => hstep.joined
    obtain ⟨ticket, hm⟩ := hstep.admitted
    refine ⟨hstep.inStep, fun calls' b'' hrun' env' => ?_, fun output hne hpos calls' b'' hrun' users => ?_⟩
    · have hspent : Live prompt b'' ∧ Spent b.request.session.position b'' :=
        Runs.keep (P := fun b' => Live prompt b' ∧ Spent b.request.session.position b') ⟨hlive', hstep.spent hj⟩
          (fun b' call h => ⟨h.1.after hops call, h.2.after hops h.1 call⟩) hrun'
      exact hspent.2.refused (hm.frontier.trans (by rw [hm.prepared.position])) env'
    · obtain ⟨⟨index, row, hb, -, hlen, -, -, hposition⟩, hwritten⟩ := hstep.inStep
      have hrec : Recorded prompt ((b.executeDecode ops scheduled env).obj.request.session.position + 1) b'' :=
        Runs.keep (P := Recorded prompt _) ⟨hb.known, by omega⟩ (fun b' call h => h.after hops call) hrun'
      exact hrec.refused (by omega) hne users
  · rw [admit_ok.mpr hm] at h
    cases h

/-- The runner of the sample session: its row holds the prompt `3` and the seed `5`. -/
def sampleRunner : Runner where
  requests := ⟨[("r", 0)], by simp⟩
  states := fun _ => ⟨"r", some [3], 0, 1, [[7]]⟩
  outputs := fun _ => [5]
  inputBatch := ⟨1, ⟨[("r", 0)], by simp⟩, [⟨some 0, 2, 1, [3, 5, 0, 0, 0, 0]⟩], 6, by decide⟩
  maxModelLen := 6
  vocabSize := 10

/-- The bridge of the sample session. -/
def sampleBridge : FastRunnerBridge :=
  ⟨sampleRunner, ⟨GreedySession.sample, .idle, "dspark", false, false, false⟩, 0, false⟩

theorem sampleBridge_start : Start [3] 5 sampleBridge where
  session := ⟨_, _, _, _, _, _, _, _, _, GreedySession.sample_init, "dspark", rfl⟩
  bridge := rfl
  known := rfl
  owner := rfl
  output := rfl
  row := ⟨0, _, rfl, rfl, rfl, rfl, rfl⟩

/-- The drafting of the sample session's first block. -/
def sampleDrafts : BridgeCall := .drafts (.ok 4) (fun _ _ _ _ => .ok []) 0

/-- The schedule of the sample session's first block. -/
def sampleScheduled : SchedulerOutput :=
  ⟨[], [], [], false, Dict.empty, ⟨["r"], [], [1], [none]⟩, ⟨[("r", 1)], by simp⟩, 1, Dict.empty⟩

/-- A step in which the device verifies the block to `7`. -/
def sampleEnv : DecodeEnv where
  validateStorage := none
  refresh := (.ok (), .idle)
  step := ⟨true, .ok false, .ok 4, fun _ _ _ _ => .ok [], 0, .device (.ok [7]), .ok false, ⟨.returnsNone, .idle⟩,
    ⟨.returnsNone, .idle⟩, ⟨.returnsNone, .idle⟩⟩

/-- The sample bridge after its first drafts. -/
def sampleDrafted : FastRunnerBridge := sampleBridge.after sampleOps sampleDrafts

theorem sample_decode :
    (sampleDrafted.executeDecode sampleOps sampleScheduled sampleEnv).result = .ok ⟨["r"], [("r", 0)], [[7]]⟩ := by
  decide

/-- The sample runner and session are in step after the first block, and its schedule is refused from then on. -/
theorem lock_step_sample :
    (sampleDrafted.executeDecode sampleOps sampleScheduled sampleEnv).obj.runner.InStep 0 "r" [3] [5, 7] 2 ∧
      ((sampleDrafted.executeDecode sampleOps sampleScheduled sampleEnv).obj.executeDecode sampleOps sampleScheduled
        sampleEnv).Refused (sampleDrafted.executeDecode sampleOps sampleScheduled sampleEnv).obj := by
  have h := (lock_step sampleOps_lawful sampleBridge_start
    (Run.single (l := sampleDrafts) (rfl : sampleDrafted = _))).1 sampleScheduled sampleEnv _ sample_decode
  exact ⟨h.1, h.2.1 [] _ .nil sampleEnv⟩

end FastRunnerBridge

end BlackholeQwen.Serving
