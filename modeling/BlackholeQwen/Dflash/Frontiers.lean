import BlackholeQwen.Dflash.Runtime
import BlackholeQwen.Lib.Runs

/-!
# The frontiers of a request

Session, runtime, engine and drafter each keep the position up to which the request is committed.

* `Parties.At n`: the runtime, the engine, the drafter and its cache are at `n`. A publication that returns takes them
  from `n` to `n + accepted` together (`Parties.At.published`), and one that raises in a stage leaves the runtime and
  the engine failed (`Parties.publish_failed`).
* `Sound`: unless the session failed, the parties are at its position; kept by every call (`Sound.apply`).
* `Dead`: after a failed publication nothing is accepted any more (`Dead.apply`).
-/

namespace BlackholeQwen.Dflash

open Lib Speculative GreedySession

/-! ## A publication -/

/-- The parties are at a position. -/
structure Parties.At (n : Nat) (p : Parties) : Prop where
  runtime : p.runtime.position = n
  engine : p.engine.position = n
  drafter : DFlashDevice.At n p.drafter

namespace Publishing

variable {w : Publishing} {n accepted : Nat} {s : GreedySession} {ticket : BlockTicket} {env : PublishEnv}

/-- A stage that returned is its body. -/
theorem within_ok {stage : Stage} {body : Call Publishing Unit} {u : Unit}
    (h : (w.within env stage body).result = .ok u) :
    body.result = .ok () ∧ w.within env stage body = Call.ret body.obj () := by
  obtain ⟨⟨⟩, -, hc⟩ := Call.of_attempt h
  rw [within, hc] at h ⊢
  obtain ⟨⟨⟩, hbody, hc⟩ := Call.of_bind h
  rw [hc] at h ⊢
  obtain ⟨⟨⟩, -, hc⟩ := Call.of_attempt h
  exact ⟨hbody, hc⟩

/-- Once the history is prepared the parties are where they were, and the publication has the accepted rows. -/
theorem prepare_ok (h : w.parties.At n) {u : Unit} (hr : (w.prepare s ticket accepted env).result = .ok u) :
    (w.prepare s ticket accepted env).obj.parties.At n ∧
      ∃ p, (w.prepare s ticket accepted env).obj.publication = some p ∧ p.accepted = accepted ∧
        p.kv.accepted = p.accepted := by
  obtain ⟨⟨⟩, hf, hc⟩ := Call.of_bind hr
  rw [prepare, hc] at hr ⊢
  obtain ⟨hbody, hf⟩ := within_ok hf
  obtain ⟨⟨⟩, -, hbody⟩ := Call.of_attempt hbody
  rw [hf, Call.ret_obj, hbody, Call.ret_obj] at hr ⊢
  obtain ⟨hp, hw⟩ := within_ok hr
  obtain ⟨p, hprep, hb⟩ := Call.of_bind hp
  rw [hw, Call.ret_obj, hb]
  obtain ⟨hacc, hkv⟩ := DFlashDevice.prepare_ok hprep
  exact ⟨⟨h.runtime, h.engine, h.drafter.prepare accepted w.parties.runtime.position env.prepare⟩, p, rfl, hacc,
    hkv.trans hacc.symm⟩

/-- Once the target is published only the engine has moved. -/
theorem target_ok {u : Unit} (hr : (w.target s accepted env).result = .ok u) :
    (w.target s accepted env).obj.parties.engine.position = w.parties.engine.position + accepted ∧
      (w.target s accepted env).obj.parties.runtime = w.parties.runtime ∧
      (w.target s accepted env).obj.parties.drafter = w.parties.drafter ∧
      (w.target s accepted env).obj.publication = w.publication := by
  obtain ⟨hbody, hw⟩ := within_ok hr
  have hengine : w.parties.engine.publish s accepted env.committed = _ := VerifierEngine.publish_ok hbody
  rw [target, hw, Call.ret_obj, Call.onto_obj, hengine]
  exact ⟨rfl, rfl, rfl, rfl⟩

/-- Once the history is committed only the drafter has moved, by the rows of its publication. -/
theorem commit_ok {d : Nat} (h : DFlashDevice.At d w.parties.drafter)
    (hp : ∀ p, w.publication = some p → p.accepted = accepted ∧ p.kv.accepted = p.accepted)
    (hn : w.publication = none → accepted = 0) {u : Unit} (hr : (w.commit env).result = .ok u) :
    DFlashDevice.At (d + accepted) (w.commit env).obj.parties.drafter ∧
      (w.commit env).obj.parties.runtime = w.parties.runtime ∧
      (w.commit env).obj.parties.engine = w.parties.engine := by
  unfold commit at hr ⊢
  split at hr
  · rename_i hnone
    rw [hn hnone]
    exact ⟨h, rfl, rfl⟩
  · rename_i p hsome
    obtain ⟨hbody, hw⟩ := within_ok hr
    obtain ⟨hacc, hkv⟩ := hp p hsome
    rw [hw]
    refine ⟨?_, rfl, rfl⟩
    rw [← hacc]
    exact h.commit hkv hbody

/-- **A publication that returns moves the three frontiers by the accepted rows.** -/
theorem stages_ok (h : w.parties.At n) (hnone : w.publication = none) {u : Unit}
    (hr : (stages s ticket accepted env w).result = .ok u) :
    (stages s ticket accepted env w).obj.parties.At (n + accepted) := by
  obtain ⟨⟨⟩, hprep, hc⟩ := Call.of_bind hr
  rw [stages, hc] at hr ⊢
  -- after the first two stages: the parties at `n`, and a publication of the rows unless there are none
  have hfirst : ∀ w', (if accepted = 0 then Call.ret w () else w.prepare s ticket accepted env).obj = w' →
      w'.parties.At n ∧ (∀ p, w'.publication = some p → p.accepted = accepted ∧ p.kv.accepted = p.accepted) ∧
        (w'.publication = none → accepted = 0) := by
    rintro w' rfl
    by_cases h0 : accepted = 0
    · rw [if_pos h0]
      refine ⟨h, fun p hp => ?_, fun _ => h0⟩
      rw [Call.ret_obj, hnone] at hp
      cases hp
    · rw [if_neg h0] at hprep ⊢
      obtain ⟨hat, p, hp, hacc, hkv⟩ := prepare_ok h hprep
      refine ⟨hat, fun q hq => ?_, fun hq => ?_⟩ <;> rw [hp] at hq <;> cases hq
      exact ⟨hacc, hkv⟩
  generalize (if accepted = 0 then Call.ret w () else w.prepare s ticket accepted env).obj = w₁ at hr hfirst ⊢
  obtain ⟨hat, hpub, hempty⟩ := hfirst w₁ rfl
  obtain ⟨⟨⟩, htarget, hc⟩ := Call.of_bind hr
  rw [hc] at hr ⊢
  obtain ⟨hengine, hruntime, hdrafter, hsame⟩ := target_ok htarget
  generalize (w₁.target s accepted env).obj = w₂ at hr hengine hruntime hdrafter hsame ⊢
  obtain ⟨⟨⟩, hcommit, hc⟩ := Call.of_bind hr
  rw [hc] at hr ⊢
  obtain ⟨hd, hruntime', hengine'⟩ :=
    commit_ok (hdrafter ▸ hat.drafter) (hsame ▸ hpub) (hsame ▸ hempty) hcommit
  generalize (w₂.commit env).obj = w₃ at hr hd hruntime' hengine' ⊢
  obtain ⟨⟨⟩, -, hc⟩ := Call.of_attempt hr
  rw [settle, hc]
  refine ⟨?_, ?_, hd⟩
  · show w₃.parties.runtime.position + accepted = n + accepted
    rw [hruntime', hruntime, hat.runtime]
  · show w₃.parties.engine.position = n + accepted
    rw [hengine', hengine, hat.engine]

end Publishing

namespace Parties

variable {p : Parties} {n accepted : Nat} {s : GreedySession} {env : PublishEnv}

/-- The parties have failed together. -/
structure Failed (p : Parties) : Prop where
  runtime : p.runtime.phase = .failed
  engine : p.engine.phase = .failed

/-- The `except` of a publication fails the parties and raises. -/
theorem recover_failed (w : Publishing) (e : PyError) :
    (recover w e).obj.Failed ∧ ∃ e', (recover w e).result = .error e' := by
  unfold recover
  split
  · exact ⟨⟨rfl, rfl⟩, e, rfl⟩
  · rename_i publication _
    rcases Call.bind_cases ((w.parties.failed.drafter.discardPublication publication).onto fun drafter =>
      ({ w.parties.failed with drafter } : Parties)) fun p _ => (Call.throw p e : Call Parties Unit) with
      ⟨e', -, h⟩ | ⟨_, -, h⟩ <;> rw [h]
    · exact ⟨⟨rfl, rfl⟩, e', rfl⟩
    · exact ⟨⟨rfl, rfl⟩, e, rfl⟩

/-- **A publication refused at its checks changes nothing; one that raises in a stage fails the runtime and the
engine.** -/
theorem publish_failed {e : PyError} (he : (p.publish s accepted env).result = .error e) :
    (p.publishCheck s accepted = .error e ∧ (p.publish s accepted env).obj = p) ∨
    (∃ ticket, p.publishCheck s accepted = .ok ticket) ∧ (p.publish s accepted env).obj.Failed := by
  unfold publish at he ⊢
  rcases Call.attempt_cases (p.publishCheck s accepted) p _ with ⟨e', hg, h⟩ | ⟨ticket, hg, h⟩ <;> rw [h] at he ⊢
  · cases he
    exact Or.inl ⟨hg, rfl⟩
  · refine Or.inr ⟨⟨ticket, hg⟩, ?_⟩
    cases hstages : (p.begun.stages s ticket accepted env).result with
    | ok u => rw [hstages] at he; cases he
    | error e' => exact (recover_failed _ e').1

/-- A publication that returns takes the parties to the next frontier. -/
theorem At.published (h : p.At n) {u : Unit} (hr : (p.publish s accepted env).result = .ok u) :
    (p.publish s accepted env).obj.At (n + accepted) := by
  obtain ⟨ticket, -, hc⟩ := Call.of_attempt hr
  rw [publish, hc] at hr ⊢
  have hat : p.begun.parties.At n := ⟨h.runtime, h.engine, h.drafter⟩
  cases hstages : (p.begun.stages s ticket accepted env).result with
  | ok u => exact Publishing.stages_ok hat rfl hstages
  | error e =>
    obtain ⟨-, e', he'⟩ := recover_failed (p.begun.stages s ticket accepted env).obj e
    simp only [hstages, he', reduceCtorEq] at hr

end Parties

/-! ## The calls of the session's that publish -/

namespace Request

variable {r : Request} {requestId : String} {ticket : BlockTicket} {predictions : List Token} {maxRows : Option Nat}
  {env : PublishEnv} {accepted n : Nat}

/-- A publication is always callable. -/
theorem callback_callable (c : Call Parties Unit) : callback c ≠ .notCallable := by
  unfold callback; split <;> simp

/-- The decision of a commit does not depend on the publication. -/
theorem commitDecision_callable {s : GreedySession} {publish : Callback} (h : publish ≠ .notCallable) :
    s.commitDecision requestId ticket predictions publish maxRows =
      s.commitDecision requestId ticket predictions .returnsNone maxRows := by
  simp [commitDecision, raiseIf, h]

/-- Nor do the checks of an abort. -/
theorem abortGuard_callable {s : GreedySession} {restore : Callback} (h : restore ≠ .notCallable) :
    s.abortGuard requestId ticket restore = s.abortGuard requestId ticket .returnsNone := by
  simp [abortGuard, raiseIf, h]

/-- What a call that publishes does: with the publication `c`, the session fails, or it is at the frontier that `c`
returned from. -/
inductive Ended (r : Request) (accepted : Nat) (c : Call Parties Unit) : Request → Prop
  | failed : Ended r accepted c ⟨{ r.session with phase := .failed }, c.obj⟩
  | settled {session : GreedySession} : c.result = .ok () → session.phase = .idle →
      session.position = r.session.position + accepted → Ended r accepted c ⟨session, c.obj⟩

/-- `session.commit` is refused and nothing changes, or publishes and ends; it fails where the publication raises. -/
theorem commit_cases (r : Request) (requestId : String) (ticket : BlockTicket) (predictions : List Token)
    (maxRows : Option Nat) (env : PublishEnv) :
    (∃ e, r.decided requestId ticket predictions maxRows = .error e ∧
      r.commit requestId ticket predictions maxRows env = Call.throw r e) ∨
    ∃ accepted, r.decided requestId ticket predictions maxRows = .ok accepted ∧
      Ended r accepted (r.parties.publish r.committing accepted env)
        (r.commit requestId ticket predictions maxRows env).obj ∧
      ∀ e, (r.parties.publish r.committing accepted env).result = .error e →
        r.commit requestId ticket predictions maxRows env =
          Call.throw ⟨{ r.session with phase := .failed }, (r.parties.publish r.committing accepted env).obj⟩ e := by
  unfold commit
  rcases Call.attempt_cases (r.decided requestId ticket predictions maxRows) r _ with ⟨e, hd, h⟩ | ⟨accepted, hd, h⟩ <;>
    rw [h]
  · exact Or.inl ⟨e, hd, rfl⟩
  refine Or.inr ⟨accepted, hd, ?_⟩
  generalize hc : r.parties.publish r.committing accepted env = c
  have hdecision : ∃ d, r.session.commitDecision requestId ticket predictions (callback c) maxRows = .ok d ∧
      d.stateRows = accepted := by
    rw [commitDecision_callable (callback_callable c)]
    unfold decided at hd
    cases hd' : r.session.commitDecision requestId ticket predictions .returnsNone maxRows with
    | error e => rw [hd'] at hd; cases hd
    | ok d => rw [hd'] at hd; exact ⟨d, rfl, Except.ok.inj hd⟩
  obtain ⟨d, hd, hrows⟩ := hdecision
  unfold GreedySession.commit
  rw [hd, Call.attempt_ok]
  cases hres : c.result with
  | error e =>
    have hcb : callback c = .raises e := by simp only [callback, hres]
    rw [hcb]
    exact ⟨.failed, fun e' he' => by cases he'; rfl⟩
  | ok u =>
    have hcb : callback c = .returnsNone := by simp only [callback, hres]
    rw [hcb]
    refine ⟨?_, fun e' he' => by cases he'⟩
    rcases Call.attempt_cases (do
        Callback.returnsNone.await "Publication must return None after successful synchronization"
        r.session.drafter.commitVerified requestId d.emitted) { r.session with phase := .failed }
        (fun drafter => Call.ret (r.session.decided ticket d drafter) d) with ⟨e, -, h⟩ | ⟨drafter, -, h⟩ <;> rw [h]
    · exact .failed
    · exact .settled hres rfl (by show r.session.position + d.stateRows = _; rw [hrows])

/-- `session.abort` is refused and nothing changes, or publishes nothing and ends; it fails where the publication
raises. -/
theorem abort_cases (r : Request) (requestId : String) (ticket : BlockTicket) (env : PublishEnv) :
    (∃ e, r.session.abortGuard requestId ticket .returnsNone = .error e ∧
      r.abort requestId ticket env = Call.throw r e) ∨
    r.session.abortGuard requestId ticket .returnsNone = .ok () ∧
      Ended r 0 (r.parties.publish r.committing 0 env) (r.abort requestId ticket env).obj ∧
      ∀ e, (r.parties.publish r.committing 0 env).result = .error e →
        r.abort requestId ticket env =
          Call.throw ⟨{ r.session with phase := .failed }, (r.parties.publish r.committing 0 env).obj⟩ e := by
  unfold abort
  rcases Call.attempt_cases (r.session.abortGuard requestId ticket .returnsNone) r _ with ⟨e, hg, h⟩ | ⟨⟨⟩, hg, h⟩ <;>
    rw [h]
  · exact Or.inl ⟨e, hg, rfl⟩
  refine Or.inr ⟨hg, ?_⟩
  generalize r.parties.publish r.committing 0 env = c
  unfold GreedySession.abort
  rw [abortGuard_callable (callback_callable c), hg, Call.attempt_ok]
  cases hres : c.result with
  | error e =>
    have hcb : callback c = .raises e := by simp only [callback, hres]
    rw [hcb]
    exact ⟨.failed, fun e' he' => by cases he'; rfl⟩
  | ok u =>
    have hcb : callback c = .returnsNone := by simp only [callback, hres]
    rw [hcb]
    exact ⟨.settled hres rfl rfl, fun e' he' => by cases he'⟩

/-- A commit publishes for a pending session. -/
theorem decided_pending (h : r.decided requestId ticket predictions maxRows = .ok accepted) :
    r.session.phase = .pending ∧ r.session.pending = some ticket := by
  unfold decided at h
  cases hd : r.session.commitDecision requestId ticket predictions .returnsNone maxRows with
  | error e => rw [hd] at h; cases h
  | ok d =>
    obtain ⟨⟨⟩, ht, -⟩ := bind_ok hd
    exact (checkTicket_ok ht).2

/-- So does an abort. -/
theorem abortGuard_pending {s : GreedySession} {restore : Callback}
    (h : s.abortGuard requestId ticket restore = .ok ()) : s.phase = .pending ∧ s.pending = some ticket := by
  obtain ⟨⟨⟩, ht, -⟩ := bind_ok h
  exact (checkTicket_ok ht).2

/-! ## The frontiers agree -/

/-- Unless the session failed, the parties are at its position; a session that failed was not finished. -/
structure Sound (r : Request) : Prop where
  resting : r.session.phase ≠ .committing
  unfinished : r.session.phase = .pending ∨ r.session.phase = .failed → r.session.finished = false
  frontiers : r.session.phase ≠ .failed → (r.session.phase = .closed → r.session.finished = true) →
    r.parties.At r.session.position

/-- The parties of a new request start at its session's frontier. -/
theorem Sound.start {s : GreedySession} {position historyRows maxDrafts : Nat}
    (h : bound s position historyRows maxDrafts = .ok r) : Sound r := by
  obtain ⟨t, hinit, h⟩ := bind_ok h
  obtain ⟨⟨⟩, -, hinit⟩ := bind_ok hinit
  obtain ⟨⟨⟩, -, hinit⟩ := bind_ok hinit
  cases hinit
  obtain ⟨t', hbind, h⟩ := bind_ok h
  cases h
  obtain ⟨⟨⟩, hcheck, hbind⟩ := bind_ok hbind
  cases hbind
  simp only [raiseIf_ok, not_or, ne_eq, not_not] at hcheck
  obtain ⟨-, hidle, hs⟩ := hcheck
  exact ⟨by simp [hidle], by simp [hidle], fun _ _ => ⟨hs.symm, rfl, hs.symm, hs.symm⟩⟩

/-- A change of the session that keeps its position and its end, out of a phase where the frontiers agree. -/
theorem Sound.session (h : Sound r) (hphase : r.session.phase = .idle ∨ r.session.phase = .pending)
    {s : GreedySession} (hr : s.phase ≠ .committing) (hu : s.phase = .pending ∨ s.phase = .failed → s.finished = false)
    (hs : s.position = r.session.position) : Sound ⟨s, r.parties⟩ := by
  refine ⟨hr, hu, fun _ _ => ?_⟩
  show r.parties.At s.position
  rw [hs]
  exact h.frontiers (by rcases hphase with h | h <;> simp [h]) (by rcases hphase with h | h <;> simp [h])

/-- The parties change where the session is at their position. -/
theorem Sound.parties (h : Sound r) {p : Parties} (hp : ∀ n, r.parties.At n → p.At n) : Sound ⟨r.session, p⟩ :=
  ⟨h.resting, h.unfinished, fun hne hc => hp _ (h.frontiers hne hc)⟩

/-- A session that fails while it is pending claims nothing. -/
theorem Sound.failed (h : Sound r) (hpending : r.session.phase = .pending) {s : GreedySession} {p : Parties}
    (hs : s.phase = .failed) (hf : s.finished = r.session.finished) : Sound ⟨s, p⟩ :=
  ⟨by simp [hs], fun _ => hf.trans (h.unfinished (Or.inl hpending)), fun hne => absurd hs hne⟩

/-- The end of a call that publishes. -/
theorem Sound.ended (h : Sound r) (hpending : r.session.phase = .pending) {s : GreedySession} {r' : Request}
    (he : Ended r accepted (r.parties.publish s accepted env) r') : Sound r' := by
  cases he with
  | failed => exact h.failed hpending rfl rfl
  | settled hres hidle hposition =>
    refine ⟨by simp [hidle], by simp [hidle], fun _ _ => ?_⟩
    show Parties.At _ _
    rw [hposition]
    exact (h.frontiers (by simp [hpending]) (by simp [hpending])).published hres

/-- An abort neither finishes a session nor takes its end back. -/
theorem abort_finished : (r.abort requestId ticket env).obj.session.finished = r.session.finished := by
  unfold abort
  refine Call.attempt_obj (P := fun r' : Request => r'.session.finished = r.session.finished) rfl fun _ _ => ?_
  show (r.session.abort requestId ticket _).obj.finished = r.session.finished
  rcases r.session.abort_cases requestId ticket (callback (r.parties.publish r.committing 0 env)) with
    ⟨e, phase, hc, -⟩ | ⟨hc, -⟩ <;> rw [hc] <;> rfl

/-- A proposal leaves a finished session alone. -/
theorem propose_unfinished (s : GreedySession) (requestId : String) (maxRows : Nat) (selected : Option String)
    (adapters : Adapters) (ident : Nat) :
    (s.propose requestId maxRows selected adapters ident).obj = s ∨ s.finished = false := by
  unfold GreedySession.propose
  rcases Call.attempt_cases (s.proposeGuard requestId maxRows) s _ with ⟨e, -, h⟩ | ⟨⟨⟩, hg, h⟩ <;> rw [h]
  · exact Or.inl rfl
  · obtain ⟨⟨⟩, -, hg⟩ := bind_ok hg
    obtain ⟨⟨⟩, hidle, -⟩ := bind_ok hg
    simp only [raiseIf_ok, not_or, Bool.not_eq_true] at hidle
    exact Or.inr hidle.2

/-- A proposal of the runtime's leaves its frontier alone. -/
theorem propose_position {t : DFlashRequestRuntime} {s : GreedySession} {d : DFlashDevice} {history : List Token}
    {count : Nat} {tokens : Except PyError (List Token)} :
    (t.propose s d requestId history count tokens).obj.position = t.position :=
  Call.attempt_obj (P := fun t' : DFlashRequestRuntime => t'.position = t.position) rfl fun _ _ =>
    Call.attempt_obj (P := fun t' : DFlashRequestRuntime => t'.position = t.position) rfl fun _ _ => rfl

/-- So does a discarded proposal. -/
theorem discardProposal_position {t : DFlashRequestRuntime} : t.discardProposal.obj.position = t.position := by
  unfold DFlashRequestRuntime.discardProposal
  split
  · rfl
  · exact Call.attempt_obj (P := fun t' : DFlashRequestRuntime => t'.position = t.position) rfl fun _ _ => rfl

/-- A closed engine stays where it was. -/
theorem close_position {e : VerifierEngine} {released : Except PyError Unit} :
    (e.close released).obj.position = e.position := by
  unfold VerifierEngine.close
  split
  · rfl
  · exact Call.attempt_obj (P := fun e' : VerifierEngine => e'.position = e.position) rfl fun _ _ => rfl

/-- Outside a commit the engine refuses to publish. -/
theorem publishTarget_refused (e : VerifierEngine) {s : GreedySession} (hs : s.phase ≠ .committing) (accepted : Nat)
    (committed : Except PyError Unit) : (e.publish s accepted committed).Refused e := by
  have hcheck : e.publishCheck s accepted =
      .error (.valueError "Publication requires the live verified ticket during its owner decision") := by
    simp only [VerifierEngine.publishCheck, raiseIf, hs, ne_eq, not_false_eq_true, or_true, if_true]
    rfl
  rw [VerifierEngine.publish, hcheck]
  exact Call.refused_throw e _

/-- Outside a commit the runtime refuses to publish. -/
theorem publish_refused (p : Parties) {s : GreedySession} (hs : s.phase ≠ .committing) (accepted : Nat)
    (env : PublishEnv) : (p.publish s accepted env).Refused p := by
  have hcheck : ∃ e, p.publishCheck s accepted = .error e := by
    unfold Parties.publishCheck
    split
    · exact ⟨_, rfl⟩
    · simp only [raiseIf, hs, ne_eq, not_false_eq_true, or_true, true_or, if_true]
      exact ⟨_, rfl⟩
  obtain ⟨e, he⟩ := hcheck
  rw [Parties.publish, he]
  exact Call.refused_throw p e

/-- **Every call keeps the frontiers together.** -/
theorem Sound.apply (h : Sound r) (op : Op) : Sound (r.apply op).obj := by
  cases op with
  | propose requestId maxRows selected others ident tokens =>
    have hparties : ∀ n, r.parties.At n →
        Parties.At n { r.parties with runtime := r.proposed requestId maxRows selected tokens } := fun n hn => by
      refine ⟨?_, hn.engine, hn.drafter⟩
      show (r.proposed requestId maxRows selected tokens).position = n
      unfold proposed
      split
      · exact propose_position.trans hn.runtime
      · exact hn.runtime
    have h' := h.parties hparties
    show Sound ⟨(r.session.propose requestId maxRows selected (r.adapters others tokens) ident).obj, _⟩
    have hfin := propose_unfinished r.session requestId maxRows selected (r.adapters others tokens) ident
    rcases r.session.propose_cases requestId maxRows selected (r.adapters others tokens) ident with
      ⟨e, phase, hc, hp⟩ | ⟨t, hc, hidle, hf, -, -⟩
    · rcases hp with rfl | ⟨hidle, hp⟩
      · rw [hc]; exact h'
      · rw [hc] at hfin ⊢
        have hf : r.session.finished = false := by
          rcases hfin with hs | hf
          · have hphase : phase = .idle := (congrArg GreedySession.phase hs).trans hidle
            rcases hp with rfl | rfl <;> cases hphase
          · exact hf
        refine h'.session (Or.inl hidle) ?_ (fun _ => hf) rfl
        rcases hp with rfl | rfl <;> simp
    · rw [hc]
      exact h'.session (Or.inl hidle) (by simp [issued]) (fun _ => hf) rfl
  | narrow requestId ticket rows ident =>
    show Sound ⟨(r.session.narrow requestId ticket rows ident).obj, r.parties⟩
    rcases r.session.narrow_cases requestId ticket rows ident with ⟨e, hc⟩ | ⟨t, hc, hpending, -⟩ <;> rw [hc]
    · exact h
    · exact h.session (Or.inr hpending) (by simp [issued]) (fun _ => h.unfinished (Or.inl hpending)) rfl
  | discardProposal => exact h.parties fun n hn => ⟨discardProposal_position.trans hn.runtime, hn.engine, hn.drafter⟩
  | discardTicket kept =>
    show Sound (r.discardTicket kept).obj
    unfold discardTicket
    split
    · exact h
    · split
      · exact h
      · rename_i hphase
        have hdrop : Sound ⟨r.session, { r.parties with runtime := r.parties.runtime.discardProposal.obj }⟩ :=
          h.parties fun n hn => ⟨discardProposal_position.trans hn.runtime, hn.engine, hn.drafter⟩
        refine Call.bind_obj hdrop fun _ _ => ?_
        have hpending : r.session.phase = .pending := by
          by_contra hne
          exact hphase (Or.inl hne)
        exact hdrop.session (Or.inr hpending) (by simp) (by simp) rfl
  | verify ticket captured predicted =>
    refine Call.attempt_obj (P := Sound) h fun _ hg => ?_
    obtain ⟨⟨⟩, ht, -⟩ := bind_ok hg
    cases predicted with
    | ok u => exact h.parties fun n hn => ⟨hn.runtime, hn.engine, hn.drafter⟩
    | error e =>
      have hfail : r.session.failVerification r.session.requestId ticket =
          Call.ret { r.session with phase := .failed } () := by
        rw [failVerification, ht]; rfl
      simp only [hfail]
      exact h.failed (checkTicket_ok ht).2.1 rfl rfl
  | adoptPacked ticket held =>
    exact Call.attempt_obj (P := Sound) h fun _ _ => h.parties fun n hn => ⟨hn.runtime, hn.engine, hn.drafter⟩
  | commit requestId ticket predictions maxRows env =>
    show Sound (r.commit requestId ticket predictions maxRows env).obj
    rcases r.commit_cases requestId ticket predictions maxRows env with ⟨e, -, hc⟩ | ⟨accepted, hd, hended, -⟩
    · rw [hc]; exact h
    · exact h.ended (decided_pending hd).1 hended
  | abort requestId ticket env =>
    show Sound (r.abort requestId ticket env).obj
    rcases r.abort_cases requestId ticket env with ⟨e, -, hc⟩ | ⟨hg, hended, -⟩
    · rw [hc]; exact h
    · exact h.ended (abortGuard_pending hg).1 hended
  | failVerification requestId ticket =>
    show Sound ⟨(r.session.failVerification requestId ticket).obj, r.parties⟩
    rcases r.session.failVerification_cases requestId ticket with ⟨e, hc⟩ | ⟨hc, hpending⟩ <;> rw [hc]
    · exact h
    · exact h.failed hpending rfl rfl
  | failRound requestId ticket env =>
    show Sound (r.failRound requestId ticket env).obj
    unfold failRound
    split
    · exact h
    rename_i hlive
    simp only [not_or, not_not] at hlive
    split
    · refine h.failed hlive.1 rfl ?_
      exact abort_finished
    · show Sound ⟨(r.session.failVerification requestId ticket).obj, r.parties⟩
      rcases r.session.failVerification_cases requestId ticket with ⟨e, hc⟩ | ⟨hc, -⟩ <;> rw [hc]
      · exact h
      · exact h.failed hlive.1 rfl rfl
  | publish accepted env =>
    show Sound ⟨r.session, (r.parties.publish r.session accepted env).obj⟩
    rw [(publish_refused _ h.resting _ _).1]
    exact h
  | publishTarget accepted committed =>
    show Sound ⟨r.session, { r.parties with engine := (r.parties.engine.publish r.session accepted committed).obj }⟩
    rw [(publishTarget_refused _ h.resting _ _).1]
    exact h
  | closeSession requestId =>
    show Sound ⟨(r.session.close requestId).obj, r.parties⟩
    rcases r.session.close_cases requestId with ⟨e, hc⟩ | ⟨s, hc, hclosed, hposition, hfin⟩ <;> rw [hc]
    · exact h
    · refine ⟨by simp [hclosed], by simp [hclosed], fun _ hdone => ?_⟩
      show r.parties.At s.position
      have hdone : r.session.finished = true := hfin.symm.trans (hdone hclosed)
      rw [hposition]
      refine h.frontiers (fun hf => ?_) fun _ => hdone
      rw [h.unfinished (Or.inr hf)] at hdone
      cases hdone
  | closeEngine released => exact h.parties fun n hn => ⟨hn.runtime, close_position.trans hn.engine, hn.drafter⟩
  | closeDrafter fenced kvReleased released =>
    exact h.parties fun n hn => ⟨hn.runtime, hn.engine, hn.drafter.close fenced kvReleased released⟩

/-! ## After a failed publication -/

/-- Nothing of the request can go on. -/
structure Dead (r : Request) : Prop where
  session : r.session.phase = .failed ∨ r.session.phase = .closed
  runtime : r.parties.runtime.phase = .failed
  engine : r.parties.engine.phase = .failed ∨ r.parties.engine.phase = .closed

theorem checkOwner_dead {s : GreedySession} (h : s.phase = .failed ∨ s.phase = .closed) (requestId : String) :
    s.checkOwner requestId = .error (.valueError "Closed, failed or mismatched request") := by
  simp [checkOwner, raiseIf, h]

theorem checkTicket_dead {s : GreedySession} (h : s.phase = .failed ∨ s.phase = .closed) (requestId : String)
    (ticket : BlockTicket) :
    s.checkTicket requestId ticket = .error (.valueError "Closed, failed or mismatched request") := by
  rw [checkTicket, checkOwner_dead h]; rfl

/-- A dead request refuses whatever would carry it on. -/
theorem Dead.refused (h : Dead r) {op : Op} (ha : op.Advances) : (r.apply op).Refused r := by
  have hcommitting : r.session.phase ≠ .committing := by rcases h.session with h | h <;> simp [h]
  cases op with
  | propose requestId maxRows selected others ident tokens =>
    have hguard : r.session.proposeGuard requestId maxRows =
        .error (.valueError "Closed, failed or mismatched request") := by
      rw [proposeGuard, checkOwner_dead h.session]; rfl
    have hproposed : r.proposed requestId maxRows selected tokens = r.parties.runtime := by
      simp [proposed, calls, hguard, Except.isOk, Except.toBool]
    show (((r.session.propose requestId maxRows selected (r.adapters others tokens) ident).onto _).map _).Refused r
    rw [hproposed, GreedySession.propose, hguard]
    exact ⟨rfl, _, rfl⟩
  | narrow requestId ticket rows ident =>
    show (((r.session.narrow requestId ticket rows ident).onto _).map _).Refused r
    rw [GreedySession.narrow, checkTicket_dead h.session]
    exact ⟨rfl, _, rfl⟩
  | verify ticket captured predicted =>
    show (r.verify ticket captured predicted).Refused r
    unfold Request.verify
    rw [checkTicket_dead h.session]
    exact ⟨rfl, _, rfl⟩
  | adoptPacked ticket held =>
    show (r.adoptPacked ticket held).Refused r
    rw [Request.adoptPacked, checkTicket_dead h.session]
    exact ⟨rfl, _, rfl⟩
  | commit requestId ticket predictions maxRows env =>
    show (r.commit requestId ticket predictions maxRows env).Refused r
    rw [Request.commit, decided, commitDecision, checkTicket_dead h.session]
    exact ⟨rfl, _, rfl⟩
  | abort requestId ticket env =>
    show (r.abort requestId ticket env).Refused r
    rw [Request.abort, abortGuard, checkTicket_dead h.session]
    exact ⟨rfl, _, rfl⟩
  | publish accepted env =>
    obtain ⟨hobj, e, he⟩ := publish_refused r.parties hcommitting accepted env
    refine ⟨?_, e, he⟩
    show (⟨r.session, (r.parties.publish r.session accepted env).obj⟩ : Request) = r
    rw [hobj]
  | publishTarget accepted committed =>
    obtain ⟨hobj, e, he⟩ := publishTarget_refused r.parties.engine hcommitting accepted committed
    refine ⟨?_, e, he⟩
    show (⟨r.session, { r.parties with engine := (r.parties.engine.publish r.session accepted committed).obj }⟩ :
      Request) = r
    rw [hobj]
  | discardProposal | discardTicket | failVerification | failRound | closeSession | closeEngine | closeDrafter =>
    exact ha.elim

/-- **A dead request stays dead.** -/
theorem Dead.apply (h : Dead r) (op : Op) : Dead (r.apply op).obj := by
  have hpending : r.session.phase ≠ .pending := by rcases h.session with h | h <;> simp [h]
  cases op with
  | discardProposal =>
    refine ⟨h.session, ?_, h.engine⟩
    show r.parties.runtime.discardProposal.obj.phase = .failed
    simp [DFlashRequestRuntime.discardProposal, h.runtime, raiseIf]
  | discardTicket kept =>
    show Dead (r.discardTicket kept).obj
    unfold discardTicket
    split
    · exact h
    · rw [if_pos (Or.inl hpending)]
      exact h
  | failVerification requestId ticket =>
    show Dead ⟨(r.session.failVerification requestId ticket).obj, r.parties⟩
    rw [failVerification, checkTicket_dead h.session]
    exact h
  | failRound requestId ticket env =>
    show Dead (r.failRound requestId ticket env).obj
    rw [failRound, if_pos (Or.inl hpending)]
    exact h
  | closeSession requestId =>
    show Dead ⟨(r.session.close requestId).obj, r.parties⟩
    rcases r.session.close_cases requestId with ⟨e, hc⟩ | ⟨s, hc, hclosed, -⟩ <;> rw [hc]
    · exact h
    · exact ⟨Or.inr hclosed, h.runtime, h.engine⟩
  | closeEngine released =>
    refine ⟨h.session, h.runtime, ?_⟩
    show (r.parties.engine.close released).obj.phase = .failed ∨ (r.parties.engine.close released).obj.phase = .closed
    unfold VerifierEngine.close
    split
    · exact h.engine
    · exact Call.attempt_obj (P := fun e : VerifierEngine => e.phase = .failed ∨ e.phase = .closed) h.engine
        fun _ _ => Or.inr rfl
  | closeDrafter fenced kvReleased released => exact ⟨h.session, h.runtime, h.engine⟩
  | propose | narrow | verify | adoptPacked | commit | abort | publish | publishTarget =>
    rw [(h.refused (by trivial)).1]
    exact h

/-- Nothing is accepted in a run out of a dead request. -/
theorem Dead.run (h : Dead r) {ops : List Op} {r' : Request} (hrun : Run Step r ops r') : Dead r' := by
  refine Run.invariant_state h ?_ hrun
  rintro t op _ ht rfl
  exact ht.apply op

/-- The publication that a call starts: its rows, and what may raise in it. -/
def publication (r : Request) : Op → Option (Nat × PublishEnv)
  | .commit requestId ticket predictions maxRows env =>
    (r.decided requestId ticket predictions maxRows).toOption.map fun accepted => (accepted, env)
  | .abort requestId ticket env =>
    if r.session.abortGuard requestId ticket .returnsNone = .ok () then some (0, env) else none
  | .failRound requestId ticket env =>
    if r.parties.engine.phase = .verified ∧ r.session.abortGuard requestId ticket .returnsNone = .ok () then
      some (0, env)
    else none
  | _ => none

/-- **A call whose publication raises fails the session with what the publication left, and emits nothing.** -/
theorem publication_failed {op : Op} {accepted : Nat} {env : PublishEnv} (h : r.publication op = some (accepted, env))
    {e : PyError} (he : (r.parties.publish r.committing accepted env).result = .error e) :
    (r.apply op).obj.session.phase = .failed ∧ (r.apply op).obj.session.emitted = r.session.emitted ∧
      (r.apply op).obj.parties = (r.parties.publish r.committing accepted env).obj := by
  cases op with
  | commit requestId ticket predictions maxRows env' =>
    simp only [publication, Option.map_eq_some_iff] at h
    obtain ⟨n, hd, heq⟩ := h
    cases heq
    show (r.commit requestId ticket predictions maxRows env).obj.session.phase = _ ∧ _
    rcases r.commit_cases requestId ticket predictions maxRows env with ⟨e', hd', -⟩ | ⟨n, hd', -, hfail⟩
    · rw [hd'] at hd; cases hd
    · rw [hd'] at hd
      cases hd
      simp only [Request.apply, hfail e he]
      exact ⟨rfl, rfl, rfl⟩
  | abort requestId ticket env' =>
    simp only [publication] at h
    split at h <;> cases h
    rename_i hg
    rcases r.abort_cases requestId ticket env with ⟨e', hg', -⟩ | ⟨-, -, hfail⟩
    · rw [hg] at hg'; cases hg'
    · simp only [Request.apply, hfail e he]
      exact ⟨rfl, rfl, rfl⟩
  | failRound requestId ticket env' =>
    simp only [publication] at h
    split at h <;> cases h
    rename_i hg
    obtain ⟨hengine, hg⟩ := hg
    obtain ⟨hphase, hticket⟩ := abortGuard_pending hg
    rcases r.abort_cases requestId ticket env with ⟨e', hg', -⟩ | ⟨-, -, hfail⟩
    · rw [hg] at hg'; cases hg'
    · have hlive : ¬(r.session.phase ≠ .pending ∨ r.session.pending ≠ some ticket) := by simp [hphase, hticket]
      simp only [Request.apply, failRound, if_neg hlive, if_pos hengine, hfail e he]
      exact ⟨rfl, rfl, rfl⟩
  | _ => cases h

/-- The states that the owners of the request see: between two calls, and from inside a publication, whatever the
parties are by then. -/
inductive Seen (r₀ : Request) : Request → Prop
  | between {ops : List Op} {r : Request} : Run Step r₀ ops r → Seen r₀ r
  | inside {ops : List Op} {r : Request} {op : Op} {publication : Nat × PublishEnv} (parties : Parties) :
      Run Step r₀ ops r → r.publication op = some publication → Seen r₀ ⟨r.committing, parties⟩

/-- A call publishes for a pending session. -/
theorem publication_pending {op : Op} {publication : Nat × PublishEnv} (h : r.publication op = some publication) :
    r.session.phase = .pending := by
  cases op with
  | commit requestId ticket predictions maxRows env =>
    simp only [Request.publication, Option.map_eq_some_iff] at h
    obtain ⟨n, hd, -⟩ := h
    cases hdec : r.decided requestId ticket predictions maxRows with
    | error e => rw [hdec] at hd; cases hd
    | ok n => exact (decided_pending hdec).1
  | abort requestId ticket env =>
    simp only [Request.publication] at h
    split at h <;> cases h
    rename_i hg
    exact (abortGuard_pending hg).1
  | failRound requestId ticket env =>
    simp only [Request.publication] at h
    split at h <;> cases h
    rename_i hg
    exact (abortGuard_pending hg.2).1
  | _ => cases h

/-- Every reachable request is sound. -/
theorem Sound.run {r₀ : Request} (h : Sound r₀) {ops : List Op} (hrun : Run Step r₀ ops r) : Sound r := by
  refine Run.invariant_state h ?_ hrun
  rintro t op _ ht rfl
  exact ht.apply op

/-- **The four frontiers agree, and a failed publication ends the request.** Whenever the session is idle, or finished
without a failure, it is at the runtime's, the engine's and the drafter's position. If a publication raises, the session
has failed and has emitted nothing of the block; if it raised in a stage, the runtime and the engine have failed too,
and nothing that would carry the request on is ever accepted again. -/
theorem frontiers_agree {s : GreedySession} {position historyRows maxDrafts : Nat} {r₀ : Request}
    (h0 : bound s position historyRows maxDrafts = .ok r₀) :
    (∀ r, Seen r₀ r → r.session.phase = .idle ∨ r.session.finished = true ∧ r.session.phase ≠ .failed →
      r.parties.runtime.position = r.session.position ∧ r.parties.engine.position = r.session.position ∧
        r.parties.drafter.position = r.session.position ∧ r.parties.drafter.kv.position = r.session.position) ∧
    ∀ ops r, Run Step r₀ ops r → ∀ op accepted env e, r.publication op = some (accepted, env) →
      (r.parties.publish r.committing accepted env).result = .error e →
      (r.apply op).obj.session.phase = .failed ∧ (r.apply op).obj.session.emitted = r.session.emitted ∧
        ((∃ ticket, r.parties.publishCheck r.committing accepted = .ok ticket) →
          (r.apply op).obj.parties.runtime.phase = .failed ∧ (r.apply op).obj.parties.engine.phase = .failed ∧
          ∀ ops' r', Run Step (r.apply op).obj ops' r' → ∀ op', op'.Advances → (r'.apply op').Refused r') := by
  refine ⟨fun r hr hidle => ?_, fun ops r hrun op accepted env e hpub he => ?_⟩
  · cases hr with
    | between hrun =>
      have hs := (Sound.start h0).run hrun
      have hat : r.parties.At r.session.position := by
        refine hs.frontiers ?_ fun hc => ?_
        · rcases hidle with h | h
          · simp [h]
          · exact h.2
        · rcases hidle with h | h
          · rw [h] at hc; cases hc
          · exact h.1
      exact ⟨hat.runtime, hat.engine, hat.drafter.device, hat.drafter.cache⟩
    | inside parties hrun hpub =>
      rename_i ops r op publication
      have hfin : r.session.finished = false :=
        ((Sound.start h0).run hrun).unfinished (Or.inl (publication_pending hpub))
      rcases hidle with h | h
      · cases h
      · exact absurd (hfin.symm.trans h.1) (by simp)
  · obtain ⟨hphase, hemitted, hparties⟩ := publication_failed hpub he
    refine ⟨hphase, hemitted, fun ⟨ticket, hg⟩ => ?_⟩
    have hfailed : (r.parties.publish r.committing accepted env).obj.Failed := by
      rcases Parties.publish_failed he with ⟨hg', -⟩ | ⟨-, hfailed⟩
      · rw [hg] at hg'; cases hg'
      · exact hfailed
    have hdead : Dead (r.apply op).obj :=
      ⟨Or.inl hphase, by rw [hparties]; exact hfailed.runtime, Or.inl (by rw [hparties]; exact hfailed.engine)⟩
    exact ⟨hdead.runtime, by rw [hparties]; exact hfailed.engine, fun ops' r' hrun' op' ha =>
      (hdead.run hrun').refused ha⟩

/-- A publication in which nothing raises. -/
def quietEnv : PublishEnv :=
  ⟨fun _ => .ok (), fun _ => .ok (), .ok (), .ok (), ⟨.ok (), .ok (), .ok (), .ok ()⟩, .ok (), .ok ()⟩

/-- A publication that is interrupted between the target and the drafter's history. -/
def tornEnv : PublishEnv :=
  { quietEnv with leave := fun stage => if stage = .publishTarget then .error (.raised "interrupt") else .ok () }

/-- The sample session with the learned drafter as its adapter. -/
def sampleSession : GreedySession :=
  { GreedySession.sample with drafter := { GreedySession.sample.drafter with neural := ["dflash2"] } }

/-- The request of the sample session, with its parties at position 1. -/
def sampleRequest : Request :=
  ⟨sampleSession, ⟨.idle, 1, 7, [], 0⟩, ⟨.idle, 1, none⟩, DFlashDevice.init 1 1 7⟩

/-- A block of the seed and one draft, drafted and verified. -/
def sampleVerified : Request :=
  ((sampleRequest.apply (.propose "r" 4 (some "dflash2") (fun _ _ _ _ => .error .typeError) 0 (.ok [7, 7]))).obj.apply
    (.verify ⟨0, "r", 1, 1, some 5, [7], "dflash2", 0⟩ true (.ok ()))).obj

/-- The commit of that block. -/
def sampleCommit (env : PublishEnv) : Op := .commit "r" ⟨0, "r", 1, 1, some 5, [7], "dflash2", 0⟩ [7, 8] none env

theorem sampleVerified_run : ∃ ops, Run Step sampleRequest ops sampleVerified :=
  ⟨_, (Run.nil.snoc rfl).snoc rfl⟩

/-- Committed, the block takes the four frontiers to 3; torn, it ends the request. -/
theorem frontiers_agree_sample :
    (sampleVerified.apply (sampleCommit quietEnv)).obj.session.position = 3 ∧
    (sampleVerified.apply (sampleCommit quietEnv)).obj.parties.drafter.kv.position = 3 ∧
    (sampleVerified.apply (sampleCommit tornEnv)).obj.parties.drafter.position = 1 ∧
    (sampleVerified.apply (sampleCommit tornEnv)).obj.parties.engine.phase = .failed := by
  have h0 : bound sampleSession 1 1 7 = .ok sampleRequest := rfl
  obtain ⟨ops, hrun⟩ := sampleVerified_run
  have hcommitted :=
    (frontiers_agree h0).1 _ (.between (hrun.snoc (l := sampleCommit quietEnv) rfl)) (Or.inl (by decide))
  have htorn :=
    (frontiers_agree h0).2 ops sampleVerified hrun (sampleCommit tornEnv) 2 tornEnv (.raised "interrupt") rfl rfl
  have hposition : (sampleVerified.apply (sampleCommit quietEnv)).obj.session.position = 3 := by decide
  exact ⟨hposition, hcommitted.2.2.2.trans hposition, by decide, (htorn.2.2 ⟨_, rfl⟩).2.1⟩

end Request

end BlackholeQwen.Dflash
