import BlackholeQwen.Dflash.Frontiers

/-!
# Drafting again

A pending ticket that will not be verified is dropped with the drafter's proposal (`Request.discardTicket`), and the
request drafts again. `Draftable` is what makes that safe: while a session is idle or pending its runtime is idle or
holds a proposal, so the drop never raises (`discardTicket_pending`) and leaves the runtime ready for the next proposal
at the session's frontier (`Ready`).
-/

namespace BlackholeQwen.Dflash

open Lib Speculative GreedySession

/-- A publication that returns leaves the runtime idle. -/
theorem Parties.publish_idle {p : Parties} {s : GreedySession} {accepted : Nat} {env : PublishEnv} {u : Unit}
    (hr : (p.publish s accepted env).result = .ok u) : (p.publish s accepted env).obj.runtime.phase = .idle := by
  obtain ⟨ticket, -, hc⟩ := Call.of_attempt hr
  rw [publish, hc] at hr ⊢
  cases hstages : (p.begun.stages s ticket accepted env).result with
  | ok u =>
    obtain ⟨⟨⟩, -, h1⟩ := Call.of_bind hstages
    rw [Publishing.stages, h1] at hstages ⊢
    obtain ⟨⟨⟩, -, h2⟩ := Call.of_bind hstages
    rw [h2] at hstages ⊢
    obtain ⟨⟨⟩, -, h3⟩ := Call.of_bind hstages
    rw [h3] at hstages ⊢
    obtain ⟨⟨⟩, -, h4⟩ := Call.of_attempt hstages
    rw [Publishing.settle, h4]
    rfl
  | error e =>
    obtain ⟨-, e', he'⟩ := recover_failed (p.begun.stages s ticket accepted env).obj e
    simp only [hstages, he', reduceCtorEq] at hr

/-- An adapter that is asked and raises makes the proposal raise. -/
theorem propose_raises {d : HybridDraft} {requestId : String} {count : Nat} {selected : Option String}
    {adapters : Adapters} {name : String} (hname : asked d requestId count selected = .ok (some name)) {e : PyError}
    (he : adapters name requestId d.lookup.history count = .error e) :
    d.propose requestId count true true selected adapters = .error e := by
  obtain ⟨⟨⟩, howner, hname⟩ := bind_ok hname
  obtain ⟨⟨⟩, hcount, hname⟩ := bind_ok hname
  obtain ⟨found, hfound, hname⟩ := bind_ok hname
  have hname : (if found.1 = [] then selected.filter (fun n => d.neural.contains n) else none) = some name :=
    Except.ok.inj hname
  have hempty : found.1 = [] := by
    by_contra hne
    rw [if_neg hne] at hname
    cases hname
  rw [if_pos hempty] at hname
  unfold HybridDraft.propose
  simp only [howner, hcount, hfound, bind, Except.bind, ne_eq, not_true_eq_false, or_self, if_false, hempty, hname, he]

namespace Request

variable {r : Request}

/-- The runtime is idle or holds an unpublished proposal. -/
def RuntimeFree (t : DFlashRequestRuntime) : Prop := t.phase = .idle ∨ t.phase = .proposed

/-- While the session is idle or pending the runtime is free. -/
def Draftable (r : Request) : Prop :=
  r.session.phase = .idle ∨ r.session.phase = .pending → RuntimeFree r.parties.runtime

/-- The session is idle without a ticket, and the runtime and the drafter wait at its frontier. -/
structure Ready (r : Request) : Prop where
  session : r.session.phase = .idle
  ticket : r.session.pending = none
  runtime : r.parties.runtime.phase = .idle
  proposed : r.parties.runtime.position = r.session.position
  drafter : r.parties.drafter.position = r.session.position

/-- A proposal of the runtime's that returns leaves it with the proposal; one refused at its checks leaves it as it
was. -/
theorem runtime_propose_cases (t : DFlashRequestRuntime) (s : GreedySession) (d : DFlashDevice) (requestId : String)
    (history : List Token) (count : Nat) (tokens : Except PyError (List Token)) :
    (t.propose s d requestId history count tokens).obj = t ∨
    (∃ e, (t.propose s d requestId history count tokens).result = .error e) ∨
    (t.propose s d requestId history count tokens).obj.phase = .proposed := by
  unfold DFlashRequestRuntime.propose
  rcases Call.attempt_cases (t.proposeCheck s d requestId history count) t _ with ⟨e, -, h⟩ | ⟨⟨⟩, -, h⟩ <;> rw [h]
  · exact Or.inl rfl
  rcases Call.attempt_cases (t.candidates s d count tokens) { t with phase := .failed } _ with
    ⟨e, -, h⟩ | ⟨cs, -, h⟩ <;> rw [h]
  · exact Or.inr (Or.inl ⟨e, rfl⟩)
  · exact Or.inr (Or.inr rfl)

/-- Where the runtime is called and raises, the session fails. -/
theorem propose_failed {requestId : String} {maxRows : Nat} {selected : Option String} {others : Adapters}
    {ident : Nat} {tokens : Except PyError (List Token)} (hcalls : r.calls requestId maxRows selected = true)
    {e : PyError}
    (he : (r.call requestId r.session.drafter.lookup.history (r.session.proposeLimit maxRows - 1) tokens).result =
      .error e) :
    (r.session.propose requestId maxRows selected (r.adapters others tokens) ident).obj.phase = .failed := by
  simp only [calls, Bool.and_eq_true, decide_eq_true_eq] at hcalls
  obtain ⟨⟨hguard, hlimit⟩, hasked⟩ := hcalls
  have hasked : asked r.session.drafter requestId (r.session.proposeLimit maxRows - 1) selected =
      .ok (some "dflash2") := by
    cases ha : asked r.session.drafter requestId (r.session.proposeLimit maxRows - 1) selected with
    | error e => rw [ha] at hasked; cases hasked
    | ok name =>
      rw [ha] at hasked
      exact congrArg Except.ok hasked
  have hraises : r.session.drafter.propose requestId (r.session.proposeLimit maxRows - 1) true true selected
      (r.adapters others tokens) = .error e := propose_raises hasked (by simp only [adapters, if_true]; exact he)
  cases hg : r.session.proposeGuard requestId maxRows with
  | error e' => rw [hg] at hguard; cases hguard
  | ok u =>
    unfold GreedySession.propose
    rw [hg, Call.attempt_ok]
    simp only [if_pos hlimit, hraises]
    rfl

/-- After a call that published, the session has failed or the runtime is idle. -/
theorem Draftable.ended {accepted : Nat} {env : PublishEnv} {s : GreedySession}
    {r' : Request} (he : Ended r accepted (r.parties.publish s accepted env) r') : Draftable r' := by
  cases he with
  | failed => intro hp; rcases hp with hp | hp <;> cases hp
  | settled hres hidle hposition => exact fun _ => Or.inl (Parties.publish_idle hres)

theorem discardProposal_free {t : DFlashRequestRuntime} (h : RuntimeFree t) :
    t.discardProposal.result = .ok () ∧ t.discardProposal.obj.phase = .idle ∧
      t.discardProposal.obj.position = t.position := by
  unfold DFlashRequestRuntime.discardProposal
  rcases h with h | h <;> simp [h, raiseIf]

/-- A session that is neither idle nor pending asks nothing of its runtime. -/
theorem Draftable.of_phase (h1 : r.session.phase ≠ .idle) (h2 : r.session.phase ≠ .pending) : Draftable r :=
  fun h => by rcases h with h | h; exacts [absurd h h1, absurd h h2]

/-- **Every call keeps a runtime free for its idle or pending session.** -/
theorem Draftable.apply (h : Draftable r) (hs : Sound r) (op : Op) : Draftable (r.apply op).obj := by
  cases op with
  | propose requestId maxRows selected others ident tokens =>
    intro hp
    replace hp : (r.session.propose requestId maxRows selected (r.adapters others tokens) ident).obj.phase = .idle ∨
        (r.session.propose requestId maxRows selected (r.adapters others tokens) ident).obj.phase = .pending := hp
    show RuntimeFree (r.proposed requestId maxRows selected tokens)
    -- a session that is idle or pending afterwards was so before
    have hbefore : r.session.phase = .idle ∨ r.session.phase = .pending := by
      rcases r.session.propose_cases requestId maxRows selected (r.adapters others tokens) ident with
        ⟨e, phase, hc, hph⟩ | ⟨t, -, hidle, -⟩
      · rw [hc] at hp
        rcases hph with rfl | ⟨hidle, -⟩
        · exact hp
        · exact Or.inl hidle
      · exact Or.inl hidle
    unfold proposed
    by_cases hcalls : r.calls requestId maxRows selected = true
    · rw [if_pos hcalls]
      rcases runtime_propose_cases r.parties.runtime r.drafting r.parties.drafter requestId
        r.session.drafter.lookup.history (r.session.proposeLimit maxRows - 1) tokens with hsame | ⟨e, he⟩ | hproposed
      · rw [show (r.call requestId r.session.drafter.lookup.history (r.session.proposeLimit maxRows - 1) tokens).obj =
          r.parties.runtime from hsame]
        exact h hbefore
      · have hfailed :
            (r.session.propose requestId maxRows selected (r.adapters others tokens) ident).obj.phase = .failed :=
          propose_failed hcalls he
        rcases hp with hp | hp <;> rw [hfailed] at hp <;> cases hp
      · exact Or.inr hproposed
    · rw [if_neg hcalls]
      exact h hbefore
  | narrow requestId ticket rows ident =>
    show Draftable ⟨(r.session.narrow requestId ticket rows ident).obj, r.parties⟩
    rcases r.session.narrow_cases requestId ticket rows ident with ⟨e, hc⟩ | ⟨t, hc, hpending, -⟩ <;> rw [hc]
    · exact h
    · exact fun _ => h (Or.inr hpending)
  | discardProposal =>
    intro hp
    exact Or.inl (discardProposal_free (h hp)).2.1
  | discardTicket kept =>
    show Draftable (r.discardTicket kept).obj
    unfold discardTicket
    split
    · exact h
    · split
      · exact h
      · rename_i hphase
        have hpending : r.session.phase = .pending := by
          by_contra hne
          exact hphase (Or.inl hne)
        obtain ⟨-, hidle, -⟩ := discardProposal_free (h (Or.inr hpending))
        exact Call.bind_obj (P := Draftable) (fun _ => Or.inl hidle) fun _ _ => fun _ => Or.inl hidle
  | verify ticket captured predicted =>
    refine Call.attempt_obj (P := Draftable) h fun _ hg => ?_
    obtain ⟨⟨⟩, ht, -⟩ := bind_ok hg
    cases predicted with
    | ok u => exact h
    | error e =>
      have hfail : r.session.failVerification r.session.requestId ticket =
          Call.ret { r.session with phase := .failed } () := by
        rw [failVerification, ht]; rfl
      simp only [hfail]
      exact .of_phase (by simp [Call.onto, Call.bind, Call.throw, Call.ret])
        (by simp [Call.onto, Call.bind, Call.throw, Call.ret])
  | adoptPacked ticket held => exact Call.attempt_obj (P := Draftable) h fun _ _ => h
  | commit requestId ticket predictions maxRows env =>
    show Draftable (r.commit requestId ticket predictions maxRows env).obj
    rcases r.commit_cases requestId ticket predictions maxRows env with ⟨e, -, hc⟩ | ⟨accepted, -, hended, -⟩
    · rw [hc]; exact h
    · exact .ended hended
  | abort requestId ticket env =>
    show Draftable (r.abort requestId ticket env).obj
    rcases r.abort_cases requestId ticket env with ⟨e, -, hc⟩ | ⟨-, hended, -⟩
    · rw [hc]; exact h
    · exact .ended hended
  | failVerification requestId ticket =>
    show Draftable ⟨(r.session.failVerification requestId ticket).obj, r.parties⟩
    rcases r.session.failVerification_cases requestId ticket with ⟨e, hc⟩ | ⟨hc, -⟩ <;> rw [hc]
    · exact h
    · exact .of_phase (by simp) (by simp)
  | failRound requestId ticket env =>
    show Draftable (r.failRound requestId ticket env).obj
    unfold failRound
    split
    · exact h
    split
    · exact .of_phase (by simp) (by simp)
    · show Draftable ⟨(r.session.failVerification requestId ticket).obj, r.parties⟩
      rcases r.session.failVerification_cases requestId ticket with ⟨e, hc⟩ | ⟨hc, -⟩ <;> rw [hc]
      · exact h
      · exact .of_phase (by simp) (by simp)
  | publish accepted env =>
    show Draftable ⟨r.session, (r.parties.publish r.session accepted env).obj⟩
    rw [(publish_refused _ hs.resting _ _).1]
    exact h
  | publishTarget accepted committed =>
    show Draftable ⟨r.session, { r.parties with engine := (r.parties.engine.publish r.session accepted committed).obj }⟩
    rw [(publishTarget_refused _ hs.resting _ _).1]
    exact h
  | closeSession requestId =>
    show Draftable ⟨(r.session.close requestId).obj, r.parties⟩
    rcases r.session.close_cases requestId with ⟨e, hc⟩ | ⟨s, hc, hclosed, -⟩ <;> rw [hc]
    · exact h
    · exact .of_phase (by simp [hclosed]) (by simp [hclosed])
  | closeEngine released => exact h
  | closeDrafter fenced kvReleased released => exact h

/-! ## Reachable requests -/

/-- A request that was bound at its prefilled frontier, after any calls. -/
def Reachable (r : Request) : Prop :=
  ∃ s position historyRows maxDrafts r₀ ops, bound s position historyRows maxDrafts = .ok r₀ ∧ Run Step r₀ ops r

theorem Reachable.sound (h : Reachable r) : Sound r := by
  obtain ⟨s, position, historyRows, maxDrafts, r₀, ops, h0, hrun⟩ := h
  exact (Sound.start h0).run hrun

theorem Reachable.draftable (h : Reachable r) : Draftable r := by
  obtain ⟨s, position, historyRows, maxDrafts, r₀, ops, h0, hrun⟩ := h
  have hstart : Draftable r₀ := by
    obtain ⟨t, -, hb⟩ := bind_ok h0
    obtain ⟨t', hbind, hb⟩ := bind_ok hb
    cases hb
    obtain ⟨⟨⟩, -, hbind⟩ := bind_ok hbind
    cases hbind
    exact fun _ => Or.inl rfl
  have hboth := hrun.invariant_state (P := fun r => Draftable r ∧ Sound r) ⟨hstart, Sound.start h0⟩ <| by
    rintro t op _ ⟨hd, hs⟩ rfl
    exact ⟨hd.apply hs op, hs.apply op⟩
  exact hboth.1

theorem Reachable.apply (h : Reachable r) (op : Op) : Reachable (r.apply op).obj := by
  obtain ⟨s, position, historyRows, maxDrafts, r₀, ops, h0, hrun⟩ := h
  exact ⟨s, position, historyRows, maxDrafts, r₀, _, h0, hrun.snoc (l := op) rfl⟩

/-- **A pending ticket of a reachable request is dropped without an error, and the request can draft again.** -/
theorem Reachable.discardTicket (h : Reachable r) {ticket : BlockTicket} (hticket : r.session.pending = some ticket)
    (hphase : r.session.phase = .pending) :
    (r.discardTicket none).result = .ok () ∧ Ready (r.discardTicket none).obj := by
  obtain ⟨hok, hidle, hposition⟩ := discardProposal_free (h.draftable (Or.inr hphase))
  have hat := h.sound.frontiers (by simp [hphase]) (by simp [hphase])
  have hbind : r.discardTicket none = Call.ret
      (⟨{ r.session with pending := none, phase := .idle },
        { r.parties with runtime := r.parties.runtime.discardProposal.obj }⟩ : Request) () := by
    unfold Request.discardTicket
    rw [hticket]
    dsimp only
    rw [if_neg (by simp [hphase])]
    unfold Call.bind Call.onto
    rw [hok]
  rw [hbind]
  exact ⟨rfl, rfl, rfl, hidle, hposition.trans hat.runtime, hat.drafter.device⟩

/-- Without a pending ticket nothing is dropped. -/
theorem discardTicket_idle (h : r.session.pending = none ∨ r.session.phase ≠ .pending) (kept : Option Nat) :
    r.discardTicket kept = Call.ret r () := by
  unfold Request.discardTicket
  split
  · rfl
  · rename_i ticket hticket
    rw [if_pos]
    rcases h with h | h
    · rw [hticket] at h; cases h
    · exact Or.inl h

end Request

end BlackholeQwen.Dflash
