import BlackholeQwen.Speculative.Bookkeeping

/-!
# One request's serving transaction

`FastRequest` is `serving_fast_request.FastRequest`: it prepares a block ticket for its session, and a step verifies the
ticket on the engine and commits or aborts it. The engine is seen through its phase; what the device, the drafter and
the caller's cancellation callback answer during a step is `StepEnv`.

`step_ok` says all that a returning step does to the session (`Advanced`): it emits the tokens of its output and nothing
else, and a step without tokens has cancelled the request or found it finished.
-/

namespace BlackholeQwen

open Lib

/-! ## Closing a session -/

namespace Speculative

/-- `HybridDraft.close`. -/
def HybridDraft.close (d : HybridDraft) (requestId : String) : Except PyError HybridDraft := do
  d.lookup.checkOwner requestId
  return { d with neural := [], lookup := { d.lookup with history := [], closed := true } }

/-- `GreedySession.close`. -/
def GreedySession.close (s : GreedySession) (requestId : String) : Call GreedySession Unit :=
  Call.attempt (do
      raiseIf (requestId ≠ s.requestId ∨ s.phase ∉ [Phase.idle, Phase.failed])
        (.valueError "Finish or abort the block before closing its request")
      s.drafter.close requestId) s fun drafter =>
  Call.ret { s with drafter, emitted := [], seed := none, pending := none, phase := .closed } ()

/-- A session refuses to close and is as it was, or closes at its frontier. -/
theorem GreedySession.close_cases (s : GreedySession) (requestId : String) :
    (∃ e, s.close requestId = Call.throw s e) ∨ ∃ s', s.close requestId = Call.ret s' () ∧ s'.phase = .closed ∧
      s'.position = s.position ∧ s'.finished = s.finished := by
  unfold GreedySession.close
  rcases Call.attempt_cases (do
      raiseIf (requestId ≠ s.requestId ∨ s.phase ∉ [Phase.idle, Phase.failed])
        (.valueError "Finish or abort the block before closing its request")
      s.drafter.close requestId) s _ with ⟨e, -, h⟩ | ⟨drafter, -, h⟩ <;> rw [h]
  · exact Or.inl ⟨e, rfl⟩
  · exact Or.inr ⟨_, rfl, rfl, rfl, rfl⟩

end Speculative

namespace Serving

open Speculative GreedySession

/-! ## The request -/

/-- `engine.phase`. -/
inductive EnginePhase
  | preparing | idle | verifying | verified | committing | failed | parked | closed
  deriving DecidableEq, Repr

/-- `CommittedOutput`. -/
structure CommittedOutput where
  requestId : String
  tokenIds : List Token
  position : Nat
  finished : Bool
  cancelled : Bool := false
  deriving DecidableEq, Repr

/-- `FastRequest`; `engine` is its engine's phase, `drafterName` its runtime's drafter. -/
structure FastRequest where
  session : GreedySession
  engine : EnginePhase
  drafterName : String
  closed : Bool
  cancelled : Bool
  busy : Bool
  deriving DecidableEq, Repr

/-- A call of `runtime.publish`: its answer to the session, and the phase it leaves the engine in. -/
structure Publication where
  answer : Callback
  engine : EnginePhase

/-- `engine.verify`: refused before the ticket is taken, or the device's answer. -/
inductive Verification
  | refused (e : PyError)
  | device (answer : Except PyError (List Token))

/-- What the environment answers during a step: the two polls of `cancelled`, `engine.proposal_rows` and the adapters
where the step has to prepare a ticket, the engine, and the publications of a commit, an abort and a recovery. -/
structure StepEnv where
  callable : Bool
  first : Except PyError Bool
  proposalRows : Except PyError Nat
  adapters : Adapters
  ident : Nat
  verification : Verification
  second : Except PyError Bool
  commitPublication : Publication
  abortPublication : Publication
  recovery : Publication

namespace FastRequest

/-- `FastRequest.__init__`; `owned` is `engine.session is session`, `bind` what `runtime.bind` answers. -/
def init (session : GreedySession) (engine : EnginePhase) (owned releasable : Bool) (drafterName : String)
    (bind : Except PyError Unit) : Except PyError FastRequest := do
  raiseIf (session.phase ≠ .idle ∨ engine ≠ .idle ∨ owned = false ∨ session.verifierRows ≠ 16 ∨ releasable = false ∨
      drafterName ∉ ["dflash2", "dspark"])
    (.valueError "Prepared request-owned greedy T16 engine and explicit cleanup required")
  bind
  return ⟨session, engine, drafterName, false, false, false⟩

/-- `prepare`. -/
def prepare (r : FastRequest) (requestId : String) (proposalRows : Except PyError Nat) (adapters : Adapters)
    (ident : Nat) : Call FastRequest BlockTicket :=
  Call.attempt (do
      raiseIf (r.closed = true ∨ r.busy = true ∨ r.cancelled = true ∨ requestId ≠ r.session.requestId ∨
          r.session.phase ≠ .idle ∨ r.session.finished = true ∨ r.engine ≠ .idle)
        (.valueError "One unfinished idle owner required for draft preparation")
      let rows ← proposalRows
      raiseIf (rows ∉ [1, 2, 4, 8, 16]) (.valueError "Qualified T16 verifier bucket required")
      return rows) r fun rows =>
  (r.session.propose requestId rows (some r.drafterName) adapters ident).onto fun session => { r with session }

/-- `engine.verify`, which fails the session where the device raises. -/
def verify (r : FastRequest) (ticket : BlockTicket) (verification : Verification) : Call FastRequest (List Token) :=
  Call.attempt (r.session.checkTicket r.session.requestId ticket) r fun () =>
  match verification with
  | .refused e => Call.throw r e
  | .device (.ok predictions) => Call.ret { r with engine := .verified } predictions
  | .device (.error e) =>
    ((r.session.failVerification r.session.requestId ticket).onto fun session =>
      { r with session, engine := .failed }).bind fun r () => Call.throw r e

/-- `session.commit(request_id, ticket, predictions, runtime.publish)`. -/
def commit (r : FastRequest) (requestId : String) (ticket : BlockTicket) (predictions : List Token)
    (p : Publication) : Call FastRequest Decision :=
  (r.session.commit requestId ticket predictions p.answer none).onto fun session =>
    { r with
      session
      engine := if (r.session.commitDecision requestId ticket predictions p.answer none).isOk then p.engine
        else r.engine }

/-- `session.abort(request_id, ticket, runtime.publish)`. -/
def abort (r : FastRequest) (requestId : String) (ticket : BlockTicket) (p : Publication) : Call FastRequest Unit :=
  (r.session.abort requestId ticket p.answer).onto fun session =>
    { r with
      session
      engine := if (r.session.abortGuard requestId ticket p.answer).isOk then p.engine else r.engine }

/-- The `except` clause of `step`. -/
def recover (r : FastRequest) (requestId : String) (ticket : BlockTicket) (p : Publication) : Call FastRequest Unit :=
  if r.session.phase = .pending then
    if r.engine = .verified then
      (r.abort requestId ticket p).onto fun r => { r with session := { r.session with phase := .failed } }
    else
      (r.session.failVerification requestId ticket).onto fun session => { r with session }
  else Call.ret r ()

/-- The body of `step`'s `try`. -/
def transact (r : FastRequest) (requestId : String) (ticket : BlockTicket) (env : StepEnv) :
    Call FastRequest CommittedOutput :=
  (r.verify ticket env.verification).bind fun r predictions =>
  Call.attempt env.second r fun cancelled =>
  if cancelled then
    (r.abort requestId ticket env.abortPublication).bind fun r () =>
    Call.ret { r with cancelled := true } ⟨requestId, [], r.session.position, true, true⟩
  else
    (r.commit requestId ticket predictions env.commitPublication).bind fun r d =>
    Call.ret r ⟨requestId, d.emitted, r.session.position, r.session.finished, false⟩

/-- The body with its `except` clause. -/
def transaction (r : FastRequest) (requestId : String) (ticket : BlockTicket) (env : StepEnv) :
    Call FastRequest CommittedOutput :=
  match (r.transact requestId ticket env).result with
  | .ok _ => r.transact requestId ticket env
  | .error e =>
    ((r.transact requestId ticket env).obj.recover requestId ticket env.recovery).bind fun r () => Call.throw r e

/-- `if session.pending is not None: session.fail_verification(..)`, on a cancellation. -/
def dropPending (r : FastRequest) (requestId : String) : Call FastRequest Unit :=
  match r.session.pending with
  | some ticket => (r.session.failVerification requestId ticket).onto fun session => { r with session }
  | none => Call.ret r ()

/-- `session.pending or prepare(request_id)`. -/
def livingTicket (r : FastRequest) (requestId : String) (env : StepEnv) : Call FastRequest BlockTicket :=
  match r.session.pending with
  | some ticket => Call.ret r ticket
  | none => r.prepare requestId env.proposalRows env.adapters env.ident

/-- `step`. -/
def step (r : FastRequest) (requestId : String) (env : StepEnv) : Call FastRequest CommittedOutput :=
  Call.attempt (raiseIf (r.closed = true ∨ r.busy = true ∨ r.cancelled = true ∨ requestId ≠ r.session.requestId ∨
      r.session.phase ∉ [Phase.idle, Phase.pending] ∨ env.callable = false)
    (.valueError "One live owner and a cancellation callback required")) r fun () =>
  Call.attempt env.first r fun cancelled =>
  if cancelled then
    (r.dropPending requestId).bind fun r () =>
    Call.ret { r with cancelled := true } ⟨requestId, [], r.session.position, true, true⟩
  else if r.session.finished then
    Call.ret r ⟨requestId, [], r.session.position, true, false⟩
  else
    (r.livingTicket requestId env).bind fun r ticket => r.transaction requestId ticket env

/-- The first part of `close`: a pending ticket is failed where the engine is idle. -/
def dropIdle (r : FastRequest) (requestId : String) : Call FastRequest Unit :=
  if r.session.phase = .pending ∧ r.engine = .idle then r.dropPending requestId else Call.ret r ()

/-- `close`; `released` is what `engine.close` or `release_engine` answers and the phase it leaves the engine in,
`dropped` what `release_drafter` answers. -/
def close (r : FastRequest) (requestId : String) (released : Except PyError Unit × EnginePhase)
    (dropped : Except PyError Unit) : Call FastRequest Unit :=
  Call.attempt (raiseIf (requestId ≠ r.session.requestId ∨ r.busy = true)
    (.valueError "Only the idle owner can release request resources")) r fun () =>
  if r.closed then Call.ret r ()
  else
    (r.dropIdle requestId).bind fun r () =>
    Call.attempt released.1 { r with engine := released.2 } fun () =>
    Call.attempt dropped { r with engine := released.2 } fun () =>
    ((r.session.close requestId).onto fun session => { r with session, engine := released.2 }).bind fun r () =>
    Call.ret { r with closed := true } ()

/-! ## What a returning step does -/

/-- The session of `r'` continues the one of `r` by the tokens of an output; an output without tokens cancelled the
request or found it finished. -/
structure Advanced (prompt : List Token) (r r' : FastRequest) (out : CommittedOutput) : Prop where
  owner : r'.session.requestId = r.session.requestId
  closed : r'.closed = r.closed
  books : ∃ issued, Bookkeeping prompt issued r'.session
  requestId : out.requestId = r.session.requestId
  position : out.position = r'.session.position
  emitted : r'.session.emitted = r.session.emitted ++ out.tokenIds
  progress : out.tokenIds ≠ [] ∨ r'.cancelled = true ∨ r.session.finished = true

variable {prompt : List Token} {issued : List BlockTicket} {r : FastRequest} {requestId : String}
  {ticket : BlockTicket}

/-- A returned verification only changed the engine's phase. -/
theorem verify_ok {verification : Verification} {predictions : List Token}
    (h : (r.verify ticket verification).result = .ok predictions) :
    (r.verify ticket verification).obj = { r with engine := .verified } ∧ r.session.pending = some ticket := by
  obtain ⟨⟨⟩, hticket, hc⟩ := Call.of_attempt h
  have hv : r.verify ticket verification = _ := hc
  rw [hv] at h ⊢
  cases verification with
  | refused e => cases h
  | device answer =>
    cases answer with
    | ok predictions => exact ⟨rfl, (GreedySession.checkTicket_ok hticket).2.2⟩
    | error e =>
      obtain ⟨⟨⟩, -, hc⟩ := Call.of_bind h
      simp only at h
      rw [hc] at h
      cases h

/-- A returned abort dropped the ticket. -/
theorem abort_ok {p : Publication} (h : (r.abort requestId ticket p).result = .ok ())
    (hb : Bookkeeping prompt issued r.session) :
    (r.abort requestId ticket p).obj.session.requestId = r.session.requestId ∧
      (r.abort requestId ticket p).obj.session.emitted = r.session.emitted ∧
      Bookkeeping prompt issued (r.abort requestId ticket p).obj.session := by
  rcases r.session.abort_cases requestId ticket p.answer with ⟨e, phase, hc, -⟩ | ⟨hc, -⟩
  · rw [abort, Call.onto_result, hc] at h; cases h
  · rw [abort, Call.onto_obj, hc]
    exact ⟨rfl, rfl, hb.drop⟩

/-- A returned commit decided on the ticket. -/
theorem commit_ok {p : Publication} {predictions : List Token} {d : Decision}
    (h : (r.commit requestId ticket predictions p).result = .ok d) (hb : Bookkeeping prompt issued r.session) :
    (r.commit requestId ticket predictions p).obj.session.requestId = r.session.requestId ∧
      (r.commit requestId ticket predictions p).obj.session.emitted = r.session.emitted ++ d.emitted ∧
      Bookkeeping prompt issued (r.commit requestId ticket predictions p).obj.session ∧ d.emitted ≠ [] := by
  rcases r.session.commit_cases requestId ticket predictions p.answer none with
    ⟨e, phase, hc, -⟩ | ⟨d', drafter, n, hc, -, ht, hsel, rfl⟩
  · rw [commit, Call.onto_result, hc] at h; cases h
  · rw [commit, Call.onto_result, hc] at h
    obtain rfl := Except.ok.inj h
    rw [commit, Call.onto_obj, hc]
    exact ⟨rfl, rfl, hb.decide ht hsel, List.ne_nil_of_length_pos hsel.emitted_pos⟩

/-- A returned transaction advanced the request. -/
theorem transact_ok {env : StepEnv} {out : CommittedOutput} (h : (r.transact requestId ticket env).result = .ok out)
    (hid : requestId = r.session.requestId) (hb : Bookkeeping prompt issued r.session) :
    Advanced prompt r (r.transact requestId ticket env).obj out := by
  obtain ⟨predictions, hv, hc⟩ := Call.of_bind h
  have htr : r.transact requestId ticket env = _ := hc
  rw [htr, (verify_ok hv).1] at h ⊢
  obtain ⟨cancelled, -, hc⟩ := Call.of_attempt h
  rw [hc] at h ⊢
  cases cancelled with
  | true =>
    simp only [if_true] at h ⊢
    obtain ⟨⟨⟩, ha, hc⟩ := Call.of_bind h
    rw [hc] at h ⊢
    obtain rfl := Except.ok.inj h
    obtain ⟨howner, hemit, hbooks⟩ := abort_ok ha hb
    exact ⟨howner, rfl, ⟨_, hbooks⟩, hid, rfl, by simpa using hemit, Or.inr (Or.inl rfl)⟩
  | false =>
    simp only [Bool.false_eq_true, if_false] at h ⊢
    obtain ⟨d, hd, hc⟩ := Call.of_bind h
    rw [hc] at h ⊢
    obtain rfl := Except.ok.inj h
    obtain ⟨howner, hemit, hbooks, hne⟩ := commit_ok hd hb
    exact ⟨howner, rfl, ⟨_, hbooks⟩, hid, rfl, hemit, Or.inl hne⟩

/-- A transaction that returned never ran its `except` clause. -/
theorem transaction_ok {env : StepEnv} {out : CommittedOutput}
    (h : (r.transaction requestId ticket env).result = .ok out) :
    r.transaction requestId ticket env = r.transact requestId ticket env := by
  unfold transaction at h ⊢
  split
  · rfl
  · rename_i e he
    rw [he] at h
    obtain ⟨⟨⟩, -, hc⟩ := Call.of_bind h
    simp only at h
    rw [hc] at h
    cases h

/-- The live ticket, or a newly prepared one. -/
theorem livingTicket_ok {env : StepEnv} (h : (r.livingTicket requestId env).result = .ok ticket)
    (hb : Bookkeeping prompt issued r.session) :
    ∃ session, (r.livingTicket requestId env).obj = { r with session } ∧ session.requestId = r.session.requestId ∧
      session.emitted = r.session.emitted ∧ session.finished = r.session.finished ∧
      ∃ issued', Bookkeeping prompt issued' session := by
  unfold livingTicket at h ⊢
  split at h
  · exact ⟨r.session, rfl, rfl, rfl, rfl, issued, hb⟩
  · obtain ⟨rows, -, hc⟩ := Call.of_attempt h
    have hp : r.prepare requestId env.proposalRows env.adapters env.ident = _ := hc
    rw [hp] at h ⊢
    rcases r.session.propose_cases requestId rows (some r.drafterName) env.adapters env.ident with
      ⟨e, phase, hp, -⟩ | ⟨t, hp, -, hf, he, hfit⟩
    · rw [Call.onto_result, hp] at h; cases h
    · rw [Call.onto_obj, hp]
      exact ⟨_, rfl, rfl, rfl, rfl, _, hb.issue hfit he hf⟩

/-- **A returning step advances the request** by the tokens of its output. -/
theorem step_ok {env : StepEnv} {out : CommittedOutput} (h : (r.step requestId env).result = .ok out)
    (hb : Bookkeeping prompt issued r.session) : Advanced prompt r (r.step requestId env).obj out := by
  obtain ⟨⟨⟩, hguard, hc⟩ := Call.of_attempt h
  have hs : r.step requestId env = _ := hc
  rw [hs] at h ⊢
  simp only [raiseIf_ok, not_or, ne_eq, not_not] at hguard
  obtain ⟨-, -, -, hid, -⟩ := hguard
  obtain ⟨cancelled, -, hc⟩ := Call.of_attempt h
  rw [hc] at h ⊢
  cases cancelled with
  | true =>
    simp only [if_true] at h ⊢
    obtain ⟨⟨⟩, hd, hc⟩ := Call.of_bind h
    rw [hc] at h ⊢
    obtain rfl := Except.ok.inj h
    have hdrop : (r.dropPending requestId).obj.session.requestId = r.session.requestId ∧
        (r.dropPending requestId).obj.closed = r.closed ∧
        (r.dropPending requestId).obj.session.emitted = r.session.emitted ∧
        Bookkeeping prompt issued (r.dropPending requestId).obj.session := by
      unfold dropPending at hd ⊢
      split
      · rename_i t ht
        rcases r.session.failVerification_cases requestId t with ⟨e, he⟩ | ⟨he, -⟩
        · rw [ht] at hd; simp only [Call.onto_result, he] at hd; cases hd
        · rw [Call.onto_obj, he]
          exact ⟨rfl, rfl, rfl, hb.rephase (Or.inr (Or.inl rfl))⟩
      · exact ⟨rfl, rfl, rfl, hb⟩
    obtain ⟨howner, hclosed, hemit, hbooks⟩ := hdrop
    exact ⟨howner, hclosed, ⟨_, hbooks⟩, hid, rfl, by simpa using hemit, Or.inr (Or.inl rfl)⟩
  | false =>
    simp only [Bool.false_eq_true, if_false] at h ⊢
    split at h
    · rename_i hf
      rw [if_pos hf]
      obtain rfl := Except.ok.inj h
      exact ⟨rfl, rfl, ⟨_, hb⟩, hid, rfl, by simp, Or.inr (Or.inr hf)⟩
    · rename_i hf
      rw [if_neg hf]
      obtain ⟨ticket, ht, hc⟩ := Call.of_bind h
      rw [hc] at h ⊢
      obtain ⟨session, hobj, howner, hemit, hfin, issued', hb'⟩ := livingTicket_ok ht hb
      rw [hobj] at h ⊢
      have htransact := transaction_ok h
      rw [htransact] at h ⊢
      obtain ⟨h1, hclosed, h2, h3, h4, h5, h6⟩ := transact_ok h (hid.trans howner.symm) hb'
      refine ⟨h1.trans howner, hclosed, h2, h3.trans howner, h4, hemit ▸ h5, ?_⟩
      rcases h6 with h6 | h6 | h6
      · exact Or.inl h6
      · exact Or.inr (Or.inl h6)
      · exact absurd (hfin ▸ h6) hf

/-! ## Calls that write nothing -/

/-- The request emitted nothing and is open as before; its session's books stay in order. -/
structure Quiet (r r' : FastRequest) : Prop where
  closed : r'.closed = r.closed
  cancelled : r'.cancelled = r.cancelled
  owner : r'.session.requestId = r.session.requestId
  position : r'.session.position = r.session.position
  emitted : r'.session.emitted = r.session.emitted
  books : ∀ {prompt : List Token} {issued : List BlockTicket}, Bookkeeping prompt issued r.session →
    ∃ issued', Bookkeeping prompt issued' r'.session

theorem Quiet.refl (r : FastRequest) : Quiet r r := ⟨rfl, rfl, rfl, rfl, rfl, fun h => ⟨_, h⟩⟩

/-- The engine's phase is no part of it. -/
theorem Quiet.engine {a b : FastRequest} (h : Quiet a b) (engine : EnginePhase) : Quiet a { b with engine } :=
  ⟨h.closed, h.cancelled, h.owner, h.position, h.emitted, h.books⟩

/-- A preparation is quiet, whether it returns or raises. -/
theorem prepare_quiet (r : FastRequest) (requestId : String) (proposalRows : Except PyError Nat) (adapters : Adapters)
    (ident : Nat) : Quiet r (r.prepare requestId proposalRows adapters ident).obj := by
  refine Call.attempt_obj (P := Quiet r) (.refl r) fun rows _ => ?_
  rw [Call.onto_obj]
  have hbooks {prompt : List Token} {issued : List BlockTicket} (hb : Bookkeeping prompt issued r.session) :=
    hb.apply (.propose requestId rows (some r.drafterName) adapters ident)
  simp only [GreedySession.apply] at hbooks
  rcases r.session.propose_cases requestId rows (some r.drafterName) adapters ident with
    ⟨e, phase, hc, -⟩ | ⟨t, hc, -⟩ <;> rw [hc] at hbooks ⊢ <;>
    exact ⟨rfl, rfl, rfl, rfl, rfl, fun hb => ⟨_, hbooks hb⟩⟩

/-- A narrowing of the live ticket is quiet. -/
theorem narrow_quiet (r : FastRequest) (requestId : String) (ticket : BlockTicket) (rows ident : Nat) :
    Quiet r { r with session := (r.session.narrow requestId ticket rows ident).obj } := by
  have hbooks {prompt : List Token} {issued : List BlockTicket} (hb : Bookkeeping prompt issued r.session) :=
    hb.apply (.narrow requestId ticket rows ident)
  simp only [GreedySession.apply] at hbooks
  rcases r.session.narrow_cases requestId ticket rows ident with ⟨e, hc⟩ | ⟨t, hc, -⟩ <;> rw [hc] at hbooks ⊢ <;>
    exact ⟨rfl, rfl, rfl, rfl, rfl, fun hb => ⟨_, hbooks hb⟩⟩

/-- Failing the live ticket is quiet. -/
theorem dropPending_quiet (r : FastRequest) (requestId : String) : Quiet r (r.dropPending requestId).obj := by
  unfold dropPending
  split
  · rename_i ticket _
    rw [Call.onto_obj]
    rcases r.session.failVerification_cases requestId ticket with ⟨e, hc⟩ | ⟨hc, -⟩ <;> rw [hc]
    · exact .refl r
    · exact ⟨rfl, rfl, rfl, rfl, rfl, fun hb => ⟨_, hb.rephase (Or.inr (Or.inl rfl))⟩⟩
  · exact .refl r

/-- Closing closes the request, or was quiet. -/
theorem close_quiet (r : FastRequest) (requestId : String) (released : Except PyError Unit × EnginePhase)
    (dropped : Except PyError Unit) :
    (r.close requestId released dropped).obj.closed = true ∨ Quiet r (r.close requestId released dropped).obj := by
  unfold close
  refine Call.attempt_obj (P := fun r' => r'.closed = true ∨ Quiet r r') (Or.inr (.refl r)) fun _ _ => ?_
  split
  · exact Or.inr (.refl r)
  have hdrop : Quiet r (r.dropIdle requestId).obj := by
    unfold dropIdle
    split_ifs
    · exact r.dropPending_quiet requestId
    · exact .refl r
  refine Call.bind_obj (P := fun r' => r'.closed = true ∨ Quiet r r') (Or.inr hdrop) fun _ _ => ?_
  refine Call.attempt_obj (P := fun r' => r'.closed = true ∨ Quiet r r') (Or.inr (hdrop.engine _)) fun _ _ => ?_
  refine Call.attempt_obj (P := fun r' => r'.closed = true ∨ Quiet r r') (Or.inr (hdrop.engine _)) fun _ _ => ?_
  rcases (r.dropIdle requestId).obj.session.close_cases requestId with ⟨e, hc⟩ | ⟨s', hc, -⟩ <;> rw [hc]
  · exact Or.inr (hdrop.engine _)
  · exact Or.inl rfl

end FastRequest

end Serving

end BlackholeQwen
