import BlackholeQwen.Serving.FastRequest

/-!
# Calls that raise

A call on a session that raises leaves it as it was, or failed with everything else as it was, and then every call but
`close` is refused (`failed_calls_atomic`). A session that was left as it was can still commit its live ticket: `Live`
is what makes a commit of valid predictions go through, and every call keeps it (`Live.apply`).

`commitWith` is `commit` with the publication a call on a world of its own: the world is as it was, or the publication
was called once, after the predictions had been validated (`commitWith_publish`).
-/

namespace BlackholeQwen.Speculative

open Lib

/-! ## Proposals are tokens of the vocabulary -/

/-- A lookup proposal copies the history. -/
theorem LookupDraft.proposeWithMatch_mem {d : LookupDraft} {requestId : String} {count : Nat} {r : List Token × Nat}
    (h : d.proposeWithMatch requestId count = .ok r) : ∀ t ∈ r.1, t ∈ d.history := by
  obtain ⟨⟨⟩, -, h⟩ := bind_ok h
  obtain ⟨⟨⟩, -, h⟩ := bind_ok h
  split at h
  · cases h; exact fun t ht => by cases ht
  · split at h
    · cases h; exact fun t ht => by cases ht
    · cases h; exact fun t ht => List.mem_of_mem_drop (List.mem_of_mem_take ht)

/-- A history holds what it held and what was added. -/
theorem LookupDraft.mem_extend {d : LookupDraft} {tokens : List Token} {t : Token}
    (h : t ∈ (d.extend tokens).history) : t ∈ d.history ∨ t ∈ tokens :=
  List.mem_append.mp (List.mem_of_mem_drop h)

theorem HybridDraft.validate_vocab {vocabSize : Int} {tokens tokens' : List Token}
    (h : HybridDraft.validate vocabSize tokens = .ok tokens') : ∀ t ∈ tokens', inVocab vocabSize t := by
  obtain ⟨⟨⟩, hany, h⟩ := bind_ok h
  cases h
  rw [raiseIf_ok] at hany
  intro t ht
  by_contra hn
  exact hany (List.any_eq_true.mpr ⟨t, ht, by simpa using hn⟩)

/-- A proposal's tokens are in the vocabulary, as the history's are. -/
theorem HybridDraft.propose_vocab {d : HybridDraft} {requestId : String} {count : Nat} {greedy verifierReady : Bool}
    {selected : Option String} {adapters : Adapters} {p : Proposal}
    (h : d.propose requestId count greedy verifierReady selected adapters = .ok p)
    (hhistory : ∀ t ∈ d.lookup.history, inVocab d.vocabSize t) : ∀ t ∈ p.tokens, inVocab d.vocabSize t := by
  have hnone : ∀ t ∈ ([] : List Token), inVocab d.vocabSize t := fun t ht => by cases ht
  obtain ⟨⟨⟩, -, h⟩ := bind_ok h
  obtain ⟨⟨⟩, -, h⟩ := bind_ok h
  split at h
  · cases h; exact hnone
  obtain ⟨⟨tokens, matchLength⟩, hl, h⟩ := bind_ok h
  simp only at h
  split at h
  · cases h
    unfold lookupProposal at hl
    split at hl
    · exact fun t ht => hhistory t (LookupDraft.proposeWithMatch_mem hl t ht)
    · cases hl; exact hnone
  split at h
  · cases h; exact hnone
  obtain ⟨ts, -, h⟩ := bind_ok h
  obtain ⟨ts', hv, h⟩ := bind_ok h
  obtain ⟨⟨⟩, -, h⟩ := bind_ok h
  split at h
  · cases h; exact validate_vocab hv
  · cases h; exact hnone

/-- Validated predictions and end tokens are in the vocabulary. -/
theorem selectPrefix_vocab {proposals targetArgmax eosIds : List Token} {vocabSize : Int} {maxProposals : Nat}
    {d : Decision} (h : selectPrefix proposals targetArgmax vocabSize eosIds maxProposals = .ok d) :
    1 ≤ vocabSize ∧ (∀ t ∈ targetArgmax, inVocab vocabSize t) ∧ ∀ t ∈ eosIds, inVocab vocabSize t := by
  unfold selectPrefix at h
  split_ifs at h with hv hm hl hany
  have hall : ∀ t ∈ proposals ++ targetArgmax ++ eosIds, inVocab vocabSize t := fun t ht => by
    by_contra hn
    exact hany (List.any_eq_true.mpr ⟨t, ht, by simpa using hn⟩)
  exact ⟨by omega, fun t ht => hall t (by simp [ht]), fun t ht => hall t (by simp [ht])⟩

/-- Proposals and predictions that pass the checks are decided on. -/
theorem selectPrefix_total {proposals targetArgmax eosIds : List Token} {vocabSize : Int} {maxProposals : Nat}
    (hvocab : 1 ≤ vocabSize) (hmax : maxProposals = 15 ∨ maxProposals = 31)
    (hproposals : proposals.length ≤ maxProposals)
    (hrows : targetArgmax.length = proposals.length + 1) (hps : ∀ t ∈ proposals, inVocab vocabSize t)
    (hts : ∀ t ∈ targetArgmax, inVocab vocabSize t) (heos : ∀ t ∈ eosIds, inVocab vocabSize t) :
    ∃ d, selectPrefix proposals targetArgmax vocabSize eosIds maxProposals = .ok d := by
  have hany : ¬(proposals ++ targetArgmax ++ eosIds).any (fun t => !inVocab vocabSize t) = true := by
    rw [List.any_eq_true]
    rintro ⟨t, ht, hn⟩
    have : inVocab vocabSize t = true := by
      rcases List.mem_append.mp ht with ht | ht
      · rcases List.mem_append.mp ht with ht | ht
        · exact hps t ht
        · exact hts t ht
      · exact heos t ht
    rw [this] at hn
    cases hn
  unfold selectPrefix
  rw [if_neg (by omega), if_neg (by omega), if_neg (by omega), if_neg hany]
  rcases acceptLoop_speculate eosIds proposals targetArgmax hrows with ⟨h1, -, -⟩ | ⟨c, h1, h2, -⟩
  · rw [h1]; exact ⟨_, rfl⟩
  · rw [h1]; simp only [h2]; exact ⟨_, rfl⟩

/-- A new drafter is open, its owner's, and its history in the vocabulary. -/
theorem HybridDraft.init_open {requestId : String} {prompt : List Token} {vocabSize : Int} {neural : List String}
    {lookupEnabled : Bool} {maxProposals : Nat} {preferFullSuffix : Bool} {d : HybridDraft}
    (h : HybridDraft.init requestId prompt vocabSize neural lookupEnabled maxProposals preferFullSuffix = .ok d) :
    d.vocabSize = vocabSize ∧ d.lookup.requestId = requestId ∧ d.lookup.closed = false ∧
      ∀ t ∈ d.lookup.history, inVocab vocabSize t := by
  obtain ⟨⟨⟩, -, h⟩ := bind_ok h
  obtain ⟨⟨⟩, -, h⟩ := bind_ok h
  obtain ⟨p, hp, h⟩ := bind_ok h
  obtain ⟨l, hl, h⟩ := bind_ok h
  cases h
  have hvocab := validate_vocab hp
  obtain ⟨⟨⟩, -, hl⟩ := bind_ok hl
  obtain ⟨⟨⟩, -, hl⟩ := bind_ok hl
  obtain ⟨⟨⟩, -, hl⟩ := bind_ok hl
  obtain ⟨⟨⟩, -, hl⟩ := bind_ok hl
  rw [(LookupDraft.commit_ok hl).1]
  refine ⟨rfl, rfl, rfl, fun t ht => ?_⟩
  rcases LookupDraft.mem_extend ht with ht | ht
  · cases ht
  · exact hvocab t ht

/-- The owner's commit of tokens of the vocabulary returns. -/
theorem HybridDraft.commitVerified_total {d : HybridDraft} {tokens : List Token} (hopen : d.lookup.closed = false)
    (h : ∀ t ∈ tokens, inVocab d.vocabSize t) :
    d.commitVerified d.lookup.requestId tokens = .ok (d.extend tokens) := by
  have hany : ¬tokens.any (fun t => !inVocab d.vocabSize t) = true := by
    rw [List.any_eq_true]
    rintro ⟨t, ht, hn⟩
    rw [h t ht] at hn
    cases hn
  have hnonneg : ∀ t ∈ tokens, 0 ≤ t := fun t ht => (of_decide_eq_true (h t ht)).1
  have howner : d.lookup.checkOwner d.lookup.requestId = .ok () := by
    rw [LookupDraft.checkOwner, raiseIf_ok]
    simp [hopen]
  have hvalid : validate d.vocabSize tokens = .ok tokens := by
    rw [validate, raiseIf, if_neg hany]
    rfl
  rw [commitVerified, howner, hvalid]
  simp only [bind, Except.bind, LookupDraft.commit_eq hopen hnonneg]
  rfl

namespace GreedySession

/-! ## Live sessions -/

/-- What a session needs to commit its ticket: an open drafter of its own over the vocabulary, and a ticket within the
verifier and the budget. -/
structure Live (s : GreedySession) : Prop where
  vocab : 1 ≤ s.vocabSize
  eos : ∀ t ∈ s.eosIds, inVocab s.vocabSize t
  rows : s.verifierRows = 16 ∨ s.verifierRows = 32
  drafts : s.drafter.vocabSize = s.vocabSize
  owner : s.drafter.lookup.requestId = s.requestId
  unclosed : s.drafter.lookup.closed = false
  history : ∀ t ∈ s.drafter.lookup.history, inVocab s.vocabSize t
  emitted : s.emitted.length ≤ s.maxNewTokens
  budget : s.finished = false → s.emitted.length < s.maxNewTokens
  ticket : ∀ t, s.pending = some t → t.rows ≤ s.verifierRows ∧ t.rows ≤ s.maxNewTokens - s.emitted.length ∧
    ∀ p ∈ t.proposals, inVocab s.vocabSize p

/-- A commit of the ticket with valid predictions, published, goes through. -/
def Committable (s : GreedySession) (t : BlockTicket) : Prop :=
  ∀ predictions, predictions.length = t.rows → (∀ p ∈ predictions, inVocab s.vocabSize p) →
    ∃ d, (s.commit s.requestId t predictions .returnsNone none).result = .ok d

variable {s s₀ : GreedySession}

/-- **A live session can commit its ticket.** -/
theorem Live.committable (h : Live s) {t : BlockTicket} (hphase : s.phase = .pending) (ht : s.pending = some t) :
    s.Committable t := by
  intro predictions hlen hpredictions
  obtain ⟨hrows, -, hproposals⟩ := h.ticket t ht
  rw [BlockTicket.rows_eq] at hlen hrows
  have hmax : s.verifierRows - 1 = 15 ∨ s.verifierRows - 1 = 31 := by have := h.rows; omega
  obtain ⟨d, hd⟩ := selectPrefix_total h.vocab hmax (by omega) hlen hproposals hpredictions h.eos
  have hdecision : s.commitDecision s.requestId t predictions .returnsNone none = .ok d := by
    have hticket : s.checkTicket s.requestId t = .ok () := by
      simp [checkTicket, checkOwner, raiseIf, hphase, ht]
      rfl
    rw [commitDecision, hticket]
    exact hd
  have hsel := selectPrefix_ok hd
  have hdrafter : s.drafter.commitVerified s.requestId d.emitted = .ok (s.drafter.extend d.emitted) := by
    rw [← h.owner]
    exact HybridDraft.commitVerified_total h.unclosed (h.drafts ▸ hsel.vocab)
  refine ⟨d, ?_⟩
  rw [commit, hdecision, Call.attempt_ok, hdrafter]
  rfl

/-! ### What keeps a session live -/

theorem Live.rephase (h : Live s) (phase : Phase) : Live { s with phase } :=
  ⟨h.vocab, h.eos, h.rows, h.drafts, h.owner, h.unclosed, h.history, h.emitted, h.budget, h.ticket⟩

/-- A ticket within the verifier and the budget is issued. -/
theorem Live.issue (h : Live s) {t : BlockTicket} (hrows : t.rows ≤ s.verifierRows)
    (hbudget : t.rows ≤ s.maxNewTokens - s.emitted.length) (hp : ∀ p ∈ t.proposals, inVocab s.vocabSize p) :
    Live (s.issued t) :=
  ⟨h.vocab, h.eos, h.rows, h.drafts, h.owner, h.unclosed, h.history, h.emitted, h.budget,
    fun u hu => by cases hu; exact ⟨hrows, hbudget, hp⟩⟩

/-- The ticket is dropped. -/
theorem Live.drop (h : Live s) (phase : Phase) (abortedBlocks : Nat) :
    Live { s with abortedBlocks, pending := none, phase } :=
  ⟨h.vocab, h.eos, h.rows, h.drafts, h.owner, h.unclosed, h.history, h.emitted, h.budget, fun t ht => by cases ht⟩

/-- A decision on the ticket is published. -/
theorem Live.decide (h : Live s) {ticket : BlockTicket} {d : Decision} {n : Nat} {predictions : List Token}
    (ht : s.pending = some ticket)
    (hsel : Selected (ticket.proposals.take n) predictions s.vocabSize s.eosIds d) :
    Live (s.decided ticket d (s.drafter.extend d.emitted)) := by
  obtain ⟨-, hbudget, -⟩ := h.ticket ticket ht
  have hle := hsel.emitted_le
  have htake : (ticket.proposals.take n).length ≤ ticket.proposals.length := List.length_take_le' _ _
  rw [BlockTicket.rows_eq] at hbudget
  have hlen : (s.emitted ++ d.emitted).length ≤ s.maxNewTokens := by rw [List.length_append]; omega
  refine ⟨h.vocab, h.eos, h.rows, h.drafts, h.owner, h.unclosed, fun t ht => ?_, hlen, fun hf => ?_,
    fun t ht => by cases ht⟩
  · rcases LookupDraft.mem_extend ht with ht | ht
    · exact h.history t ht
    · exact hsel.vocab t ht
  · simp only [decided, Bool.or_eq_false_iff, beq_eq_false_iff_ne] at hf
    exact lt_of_le_of_ne hlen hf.2

/-- What `propose` offers is in the vocabulary. -/
theorem Live.propose_vocab (h : Live s) {requestId : String} {maxRows : Nat} {selected : Option String}
    {adapters : Adapters} {ident : Nat} {t : BlockTicket}
    (hr : (s.propose requestId maxRows selected adapters ident).result = .ok t) :
    ∀ p ∈ t.proposals, inVocab s.vocabSize p := by
  obtain ⟨⟨⟩, -, hc⟩ := Call.of_attempt hr
  rw [propose, hc] at hr
  obtain ⟨proposal, hproposal, hc⟩ := Call.of_attempt hr
  rw [hc] at hr
  obtain ⟨rows, -, hc⟩ := Call.of_attempt hr
  rw [hc] at hr
  cases hr
  intro p hp
  replace hp : p ∈ proposal.elim [] Proposal.tokens := List.mem_of_mem_take hp
  cases proposal with
  | none => cases hp
  | some proposal =>
    split at hproposal
    · cases hd : s.drafter.propose requestId (s.proposeLimit maxRows - 1) true true selected adapters with
      | error e => rw [hd] at hproposal; cases hproposal
      | ok q =>
        rw [hd] at hproposal
        cases hproposal
        have hvocab := HybridDraft.propose_vocab hd (h.drafts ▸ h.history)
        exact h.drafts ▸ hvocab p hp
    · cases hproposal

/-- **Every call keeps a session live.** -/
theorem Live.apply (h : Live s) (op : Op) : Live (s.apply op).obj := by
  have prep : ∀ {c r}, (c = s.beginPreparation r ∨ c = s.finishPreparation r ∨ c = s.failPreparation r) →
      Live (c.map fun _ => ([] : List BlockTicket)).obj := fun {c r} hc => by
    rcases s.preparation_cases r hc with ⟨e, rfl⟩ | ⟨phase, rfl, -⟩
    · exact h
    · exact h.rephase phase
  cases op with
  | beginPreparation r => exact prep (Or.inl rfl)
  | finishPreparation r => exact prep (Or.inr (Or.inl rfl))
  | failPreparation r => exact prep (Or.inr (Or.inr rfl))
  | propose r maxRows selected adapters ident =>
    rcases s.propose_cases r maxRows selected adapters ident with ⟨e, phase, hc, -⟩ | ⟨t, hc, -, -, -, hfit⟩
    · rw [GreedySession.apply, hc]; exact h.rephase phase
    · have hvocab := h.propose_vocab (t := t) (by rw [hc]; rfl)
      rw [GreedySession.apply, hc]
      exact h.issue hfit.verifier hfit.budget hvocab
  | narrow r ticket rows ident =>
    rcases s.narrow_cases r ticket rows ident with ⟨e, hc⟩ | ⟨t, hc, -, ht, -, -, -, hproposals, hrows, -, hle⟩
    · rw [GreedySession.apply, hc]; exact h
    · rw [GreedySession.apply, hc]
      obtain ⟨h1, h2, h3⟩ := h.ticket ticket ht
      refine h.issue (by omega) (by omega) fun p hp => ?_
      rw [hproposals] at hp
      exact h3 p (List.mem_of_mem_take hp)
  | commit r ticket predictions publish maxRows =>
    rcases s.commit_cases r ticket predictions publish maxRows with
      ⟨e, phase, hc, -⟩ | ⟨d, drafter, n, hc, -, ht, hsel, rfl⟩
    · rw [GreedySession.apply, hc]; exact h.rephase phase
    · rw [GreedySession.apply, hc]; exact h.decide ht hsel
  | abort r ticket restore =>
    rcases s.abort_cases r ticket restore with ⟨e, phase, hc, -⟩ | ⟨hc, -⟩
    · rw [GreedySession.apply, hc]; exact h.rephase phase
    · rw [GreedySession.apply, hc]; exact h.drop _ _
  | failVerification r ticket =>
    rcases s.failVerification_cases r ticket with ⟨e, hc⟩ | ⟨hc, -⟩
    · rw [GreedySession.apply, hc]; exact h
    · rw [GreedySession.apply, hc]; exact h.rephase _

/-- A session in the middle of a call is live. -/
theorem Live.inside (h : Live s) {op : Op} {s' : GreedySession} (hs : s.inside op = some s') : Live s' := by
  cases op <;>
    simp only [GreedySession.inside, reduceCtorEq, Option.ite_none_right_eq_some, Option.some.injEq] at hs <;>
    exact hs.2 ▸ h.rephase _

/-- A new session is live. -/
theorem Live.start {requestId : String} {prompt : List Token} {seed : Token} {vocabSize : Int} {maxNewTokens : Nat}
    {eosIds : List Token} {neural : List String} {verifierRows : Nat} {preferFullSuffix lookupEnabled : Bool}
    (h : init requestId prompt seed vocabSize maxNewTokens eosIds neural verifierRows preferFullSuffix lookupEnabled
      = .ok s) : Live s := by
  obtain ⟨⟨⟩, hmax, h⟩ := bind_ok h
  obtain ⟨⟨⟩, hrows, h⟩ := bind_ok h
  obtain ⟨_, hseed, h⟩ := bind_ok h
  obtain ⟨d, hd, h⟩ := bind_ok h
  obtain ⟨d', hd', h⟩ := bind_ok h
  cases h
  rw [raiseIf_ok] at hmax hrows
  obtain ⟨hvocab, htargets, heos⟩ := selectPrefix_vocab hseed
  obtain ⟨hd1, hd2, hd3, hd4⟩ := HybridDraft.init_open hd
  rw [HybridDraft.commitVerified_ok hd']
  have hcapacity : verifierRows = 16 ∨ verifierRows = 32 := by omega
  refine ⟨hvocab, heos, hcapacity, hd1, hd2, hd3, fun t ht => ?_, by simp; omega, fun hf => ?_, fun t ht => by cases ht⟩
  · rcases LookupDraft.mem_extend ht with ht | ht
    · exact hd4 t ht
    · exact htargets t ht
  · simp only [Bool.or_eq_false_iff, beq_eq_false_iff_ne] at hf
    have := hf.2
    simp only [List.length_singleton]
    omega

/-- A closed session calls nothing back. -/
theorem inside_closed (hclosed : s.phase = .closed) (op : Op) : s.inside op = none := by
  have howner : ∀ requestId, s.checkOwner requestId ≠ .ok () := fun requestId h => (checkOwner_ok h).2.2 hclosed
  cases op with
  | propose r maxRows selected adapters ident =>
    refine if_neg fun h => ?_
    obtain ⟨⟨⟩, ho, -⟩ := bind_ok h.1
    exact howner r ho
  | commit r ticket predictions publish maxRows =>
    refine if_neg fun h => ?_
    cases hd : s.commitDecision r ticket predictions publish maxRows with
    | error e => rw [hd] at h; cases h
    | ok d =>
      obtain ⟨⟨⟩, ht, -⟩ := bind_ok hd
      obtain ⟨⟨⟩, ho, -⟩ := bind_ok ht
      exact howner r ho
  | abort r ticket restore =>
    refine if_neg fun h => ?_
    obtain ⟨⟨⟩, ht, -⟩ := bind_ok h
    obtain ⟨⟨⟩, ho, -⟩ := bind_ok ht
    exact howner r ho
  | _ => rfl

/-- A session and what becomes of it: its calls, its callbacks, its closing, and its live ticket dropped by its
driver. -/
inductive Life (s₀ : GreedySession) : GreedySession → Prop
  | start : Life s₀ s₀
  | call {s : GreedySession} (op : Op) : Life s₀ s → Life s₀ (s.apply op).obj
  | callback {s s' : GreedySession} (op : Op) : Life s₀ s → s.inside op = some s' → Life s₀ s'
  | close {s : GreedySession} (requestId : String) : Life s₀ s → Life s₀ (s.close requestId).obj
  | drop {s : GreedySession} : Life s₀ s → s.phase = .pending → Life s₀ { s with pending := none, phase := .idle }

/-- **A session is live until it is closed.** -/
theorem Life.live (h0 : Live s₀) (h : Life s₀ s) : s.phase = .closed ∨ Live s := by
  induction h with
  | start => exact Or.inr h0
  | @call s op _ ih =>
    rcases ih with hclosed | hlive
    · rw [(apply_refused (by simp [hclosed]) op).1]
      exact Or.inl hclosed
    · exact Or.inr (hlive.apply op)
  | @callback s s' op _ hs ih =>
    rcases ih with hclosed | hlive
    · rw [inside_closed hclosed] at hs; cases hs
    · exact Or.inr (hlive.inside hs)
  | @close s requestId _ ih =>
    rcases s.close_cases requestId with ⟨e, hc⟩ | ⟨s', hc, hclosed, -⟩ <;> rw [hc]
    · exact ih
    · exact Or.inl hclosed
  | drop _ hp ih =>
    rcases ih with hclosed | hlive
    · rw [hclosed] at hp; cases hp
    · exact Or.inr (hlive.drop _ _)

/-! ## Calls that raise -/

/-- There is a bucket within a positive bound. -/
theorem maxWidth_total {n : Nat} (h : 1 ≤ n) : ∃ w, maxWidth n = .ok w := by
  unfold maxWidth
  cases hmax : (buckets.filter (· ≤ n)).max? with
  | some w => exact ⟨w, rfl⟩
  | none =>
    rw [List.max?_eq_none_iff, List.filter_eq_nil_iff] at hmax
    exact absurd (decide_eq_true h) (hmax 1 (by decide))

/-- A live session's proposal that raises leaves it as it was or failed. -/
theorem Live.propose_raises (h : Live s) {requestId : String} {maxRows : Nat} {selected : Option String}
    {adapters : Adapters} {ident : Nat} {e : PyError}
    (hr : (s.propose requestId maxRows selected adapters ident).result = .error e) :
    (s.propose requestId maxRows selected adapters ident).obj = s ∨
      (s.propose requestId maxRows selected adapters ident).obj = { s with phase := .failed } := by
  unfold propose at hr ⊢
  rcases Call.attempt_cases (s.proposeGuard requestId maxRows) s _ with ⟨x, -, hc⟩ | ⟨⟨⟩, hg, hc⟩ <;> rw [hc] at hr ⊢
  · exact Or.inl rfl
  rcases Call.attempt_cases
    (if 1 < s.proposeLimit maxRows then
      (s.drafter.propose requestId (s.proposeLimit maxRows - 1) true true selected adapters).map some
    else .ok none) { s with phase := .failed } _ with ⟨x, -, hc⟩ | ⟨proposal, -, hc⟩ <;> rw [hc] at hr ⊢
  · exact Or.inr rfl
  -- with budget left there is a bucket of one row
  obtain ⟨⟨⟩, -, hg⟩ := bind_ok hg
  obtain ⟨⟨⟩, hidle, hg⟩ := bind_ok hg
  simp only [raiseIf_ok, not_or, not_not, Bool.not_eq_true] at hidle hg
  have hbudget := h.budget hidle.2
  have hpos : 1 ≤ min (s.proposeLimit maxRows) ((proposal.elim [] Proposal.tokens).length + 1) := by
    have := bucket_pos hg.1
    unfold proposeLimit
    omega
  obtain ⟨rows, hrows⟩ := maxWidth_total hpos
  dsimp only at hr
  rw [hrows] at hr
  cases hr

end GreedySession

/-- A call of `propose`, `narrow`, `commit` or `abort`. -/
def Op.isBlock : Op → Bool
  | .propose .. | .narrow .. | .commit .. | .abort .. => true
  | _ => false

/-- What a callback came to: it returned `None` or something else, or raised. -/
def Callback.of : Except PyError Bool → Callback
  | .ok true => .returnsNone
  | .ok false => .returnsValue
  | .error e => .raises e

theorem Callback.of_ne (r : Except PyError Bool) : Callback.of r ≠ .notCallable := by
  unfold Callback.of
  split <;> simp

namespace GreedySession

variable {s s₀ : GreedySession}

/-- **A call that raises leaves a live session as it was, or failed.** -/
theorem Live.raises (h : Live s) {op : Op} (hop : op.isBlock = true) {e : PyError}
    (hr : (s.apply op).result = .error e) :
    (s.apply op).obj = s ∨ (s.apply op).obj = { s with phase := .failed } := by
  have hsame : ∀ phase, phase = s.phase ∨ s.phase = .pending ∧ phase = .failed →
      ({ s with phase } : GreedySession) = s ∨ ({ s with phase } : GreedySession) = { s with phase := .failed } := by
    rintro phase (rfl | ⟨-, rfl⟩)
    · exact Or.inl rfl
    · exact Or.inr rfl
  cases op with
  | propose r maxRows selected adapters ident =>
    refine h.propose_raises (e := e) ?_
    cases hc : (s.propose r maxRows selected adapters ident).result with
    | error e' => simp only [GreedySession.apply, Call.map, hc, Except.map, Except.error.injEq] at hr; rw [hr]
    | ok t => simp [GreedySession.apply, Call.map, hc, Except.map] at hr
  | narrow r ticket rows ident =>
    rcases s.narrow_cases r ticket rows ident with ⟨e', hc⟩ | ⟨t, hc, -⟩
    · exact Or.inl (by rw [GreedySession.apply, hc]; rfl)
    · rw [GreedySession.apply, hc] at hr; cases hr
  | commit r ticket predictions publish maxRows =>
    rcases s.commit_cases r ticket predictions publish maxRows with ⟨e', phase, hc, hp⟩ | ⟨d, drafter, n, hc, -⟩
    · rw [GreedySession.apply, hc]
      exact hsame phase hp
    · rw [GreedySession.apply, hc] at hr; cases hr
  | abort r ticket restore =>
    rcases s.abort_cases r ticket restore with ⟨e', phase, hc, hp⟩ | ⟨hc, -⟩
    · rw [GreedySession.apply, hc]
      exact hsame phase hp
    · rw [GreedySession.apply, hc] at hr; cases hr
  | _ => cases hop

/-! ## The publication -/

/-- `commit` with its publication a call on a world, which says whether it returned `None`. -/
def commitWith {σ : Type} (s : GreedySession) (requestId : String) (ticket : BlockTicket) (predictions : List Token)
    (publish : Option (Nat → σ → Call σ Bool)) (maxRows : Option Nat) (w : σ) : Call (GreedySession × σ) Decision :=
  match publish with
  | none => (s.commit requestId ticket predictions .notCallable maxRows).onto fun s => (s, w)
  | some publish =>
    Call.attempt (s.commitDecision requestId ticket predictions .returnsNone maxRows) (s, w) fun d =>
    let published := publish d.stateRows w
    Call.attempt (do
        (Callback.of published.result).await "Publication must return None after successful synchronization"
        s.drafter.commitVerified requestId d.emitted) ({ s with phase := .failed }, published.obj) fun drafter =>
    Call.ret (s.decided ticket d drafter, published.obj) d

/-- The decision does not depend on what a callable publication does. -/
theorem commitDecision_callable (s : GreedySession) (requestId : String) (ticket : BlockTicket)
    (predictions : List Token) {publish : Callback} (h : publish ≠ .notCallable) (maxRows : Option Nat) :
    s.commitDecision requestId ticket predictions publish maxRows =
      s.commitDecision requestId ticket predictions .returnsNone maxRows := by
  unfold commitDecision raiseIf
  rw [if_neg h, if_neg (by simp)]

/-- `commitWith` does to the session what `commit` does with what its publication came to. -/
theorem commitWith_commit {σ : Type} (s : GreedySession) (requestId : String) (ticket : BlockTicket)
    (predictions : List Token) (publish : Option (Nat → σ → Call σ Bool)) (maxRows : Option Nat) (w : σ) :
    ∃ callback, (s.commitWith requestId ticket predictions publish maxRows w).obj.1 =
        (s.commit requestId ticket predictions callback maxRows).obj ∧
      (s.commitWith requestId ticket predictions publish maxRows w).result =
        (s.commit requestId ticket predictions callback maxRows).result := by
  cases publish with
  | none => exact ⟨.notCallable, rfl, rfl⟩
  | some publish =>
    cases hd : s.commitDecision requestId ticket predictions .returnsNone maxRows with
    | error e => exact ⟨.returnsNone, by simp only [commitWith, commit, hd]; exact ⟨rfl, rfl⟩⟩
    | ok d =>
      refine ⟨Callback.of (publish d.stateRows w).result, ?_⟩
      have hd' := (s.commitDecision_callable requestId ticket predictions
        (Callback.of_ne (publish d.stateRows w).result) maxRows).trans hd
      simp only [commitWith, commit, hd, hd', Call.attempt_ok]
      rcases Call.attempt_cases (do
          (Callback.of (publish d.stateRows w).result).await
            "Publication must return None after successful synchronization"
          s.drafter.commitVerified requestId d.emitted)
        (({ s with phase := .failed } : GreedySession), (publish d.stateRows w).obj)
        fun drafter => Call.ret (s.decided ticket d drafter, (publish d.stateRows w).obj) d with
        ⟨e, he, h⟩ | ⟨drafter, he, h⟩ <;> rw [h, he] <;> exact ⟨rfl, rfl⟩

/-- A decision is on a leading part of the ticket, against as many predictions of the vocabulary. -/
theorem commitDecision_ok {requestId : String} {ticket : BlockTicket} {predictions : List Token} {publish : Callback}
    {maxRows : Option Nat} {d : Decision} (h : s.commitDecision requestId ticket predictions publish maxRows = .ok d) :
    ∃ n, Selected (ticket.proposals.take n) (predictions.take (n + 1)) s.vocabSize s.eosIds d ∧
      ∀ t ∈ predictions.take (n + 1), inVocab s.vocabSize t := by
  obtain ⟨⟨⟩, -, h⟩ := bind_ok h
  obtain ⟨⟨⟩, -, h⟩ := bind_ok h
  obtain ⟨⟨ps, ts⟩, hcap, h⟩ := bind_ok h
  have hsel := selectPrefix_ok h
  have hvocab := (selectPrefix_vocab h).2.1
  obtain ⟨n, rfl, hts⟩ := capped_ok hcap
  have hpredictions := hts hsel.rows
  rw [hpredictions] at hsel hvocab
  exact ⟨n, hsel, hvocab⟩

/-- **The publication is called at most once, and after the predictions have been validated.** -/
theorem commitWith_publish {σ : Type} (s : GreedySession) (requestId : String) (ticket : BlockTicket)
    (predictions : List Token) (publish : Option (Nat → σ → Call σ Bool)) (maxRows : Option Nat) (w : σ) :
    (s.commitWith requestId ticket predictions publish maxRows w).obj.2 = w ∨
    ∃ p d n, publish = some p ∧
      Selected (ticket.proposals.take n) (predictions.take (n + 1)) s.vocabSize s.eosIds d ∧
      (∀ t ∈ predictions.take (n + 1), inVocab s.vocabSize t) ∧
      (s.commitWith requestId ticket predictions publish maxRows w).obj.2 = (p d.stateRows w).obj := by
  cases publish with
  | none => exact Or.inl rfl
  | some publish =>
    cases hd : s.commitDecision requestId ticket predictions .returnsNone maxRows with
    | error e => exact Or.inl (by simp only [commitWith, hd]; rfl)
    | ok d =>
      obtain ⟨n, hsel, hvocab⟩ := commitDecision_ok hd
      refine Or.inr ⟨publish, d, n, rfl, hsel, hvocab, ?_⟩
      simp only [commitWith, hd, Call.attempt_ok]
      exact Call.attempt_obj (P := fun w' : GreedySession × σ => w'.2 = (publish d.stateRows w).obj) rfl fun _ _ => rfl

/-- **Failed calls are atomic.** In every state a session passes through, a `propose`, `narrow`, `commit` or `abort`
that raises leaves everything as it was, its live ticket still to be committed, or everything but the phase, which is
then `failed` and refuses every call; and a commit calls its publication at most once, after the predictions have been
validated. -/
theorem failed_calls_atomic {requestId : String} {prompt : List Token} {seed : Token} {vocabSize : Int}
    {maxNewTokens : Nat} {eosIds : List Token} {neural : List String} {verifierRows : Nat}
    {preferFullSuffix lookupEnabled : Bool}
    (hinit : init requestId prompt seed vocabSize maxNewTokens eosIds neural verifierRows preferFullSuffix
      lookupEnabled = .ok s₀) (h : Life s₀ s) :
    (∀ op, op.isBlock = true → ∀ e, (s.apply op).result = .error e →
      ((s.apply op).obj = s ∧ ∀ t, s.phase = .pending → s.pending = some t → s.Committable t) ∨
      ((s.apply op).obj = { s with phase := .failed } ∧
        ∀ op', ((s.apply op).obj.apply op').Refused (s.apply op).obj)) ∧
    ∀ (σ : Type) (requestId : String) (ticket : BlockTicket) (predictions : List Token)
      (publish : Option (Nat → σ → Call σ Bool)) (maxRows : Option Nat) (w : σ),
      (∃ callback, (s.commitWith requestId ticket predictions publish maxRows w).obj.1 =
          (s.commit requestId ticket predictions callback maxRows).obj ∧
        (s.commitWith requestId ticket predictions publish maxRows w).result =
          (s.commit requestId ticket predictions callback maxRows).result) ∧
      ((s.commitWith requestId ticket predictions publish maxRows w).obj.2 = w ∨
        ∃ p d n, publish = some p ∧
          Selected (ticket.proposals.take n) (predictions.take (n + 1)) s.vocabSize s.eosIds d ∧
          (∀ t ∈ predictions.take (n + 1), inVocab s.vocabSize t) ∧
          (s.commitWith requestId ticket predictions publish maxRows w).obj.2 = (p d.stateRows w).obj) := by
  refine ⟨fun op hop e hr => ?_, fun σ r ticket predictions publish maxRows w =>
    ⟨s.commitWith_commit r ticket predictions publish maxRows w,
      s.commitWith_publish r ticket predictions publish maxRows w⟩⟩
  rcases h.live (.start hinit) with hclosed | hlive
  · refine Or.inl ⟨(apply_refused (by simp [hclosed]) op).1, fun t ht => ?_⟩
    rw [hclosed] at ht
    cases ht
  · rcases hlive.raises hop hr with hsame | hfailed
    · exact Or.inl ⟨hsame, fun t hp ht => hlive.committable hp ht⟩
    · refine Or.inr ⟨hfailed, fun op' => apply_refused ?_ op'⟩
      rw [hfailed]
      simp

/-- A publication that raises fails the sample session; a prediction outside the vocabulary leaves it pending. -/
theorem failed_calls_atomic_sample :
    ((sample.issued sampleTicket).apply (.commit "r" sampleTicket [7] (.raises .typeError) none)).obj =
        { sample.issued sampleTicket with phase := .failed } ∧
      (sample.issued sampleTicket).Committable sampleTicket := by
  have hlife : Life sample (sample.issued sampleTicket) :=
    .call (.propose "r" 4 none (fun _ _ _ _ => .ok []) 0) .start
  have hraise := (failed_calls_atomic sample_init hlife).1
    (.commit "r" sampleTicket [7] (.raises .typeError) none) rfl .typeError rfl
  have hvocab := (failed_calls_atomic sample_init hlife).1
    (.commit "r" sampleTicket [10] .returnsNone none) rfl (.valueError "Token outside target vocabulary") rfl
  refine ⟨?_, ?_⟩
  · rcases hraise with ⟨h, -⟩ | ⟨h, -⟩
    · exact absurd (congrArg GreedySession.phase h) (by decide)
    · exact h
  · rcases hvocab with ⟨-, h⟩ | ⟨h, -⟩
    · exact h sampleTicket rfl rfl
    · exact absurd (congrArg GreedySession.phase h) (by decide)

end GreedySession

end BlackholeQwen.Speculative
