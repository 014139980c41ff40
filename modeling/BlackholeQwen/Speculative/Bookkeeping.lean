import BlackholeQwen.Speculative.GreedySession

/-!
# The books of a session

Any interleaving of calls on one session, raising or not, and the states its callbacks see in the middle of a call.

* `Op`, `apply`: the methods, and the tickets a call issued;
* `inside`: the session as a drafter's or a publication's callback finds it; there every call is refused
  (`apply_busy`), so that a re-entrant callback changes nothing;
* `Reachable s₀ issued s`: the states a session passes through, with the tickets issued so far;
* `Bookkeeping`: what every such state satisfies (`reachable_bookkeeping`), assembled from one lemma for each of the
  things a call can do: change the phase, issue a ticket, decide, drop the ticket.
-/

namespace BlackholeQwen.Speculative

open Lib

/-- A call on a session, with what the environment answers during it. -/
inductive Op
  | beginPreparation (requestId : String)
  | finishPreparation (requestId : String)
  | failPreparation (requestId : String)
  | propose (requestId : String) (maxRows : Nat) (selected : Option String) (adapters : Adapters) (ident : Nat)
  | narrow (requestId : String) (ticket : BlockTicket) (rows ident : Nat)
  | commit (requestId : String) (ticket : BlockTicket) (predictions : List Token) (publish : Callback)
      (maxRows : Option Nat)
  | abort (requestId : String) (ticket : BlockTicket) (restore : Callback)
  | failVerification (requestId : String) (ticket : BlockTicket)

namespace GreedySession

/-- Perform a call; its value is the list of the tickets it issued. -/
def apply (s : GreedySession) : Op → Call GreedySession (List BlockTicket)
  | .beginPreparation r => (s.beginPreparation r).map fun _ => []
  | .finishPreparation r => (s.finishPreparation r).map fun _ => []
  | .failPreparation r => (s.failPreparation r).map fun _ => []
  | .propose r maxRows selected adapters ident => (s.propose r maxRows selected adapters ident).map fun t => [t]
  | .narrow r ticket rows ident => (s.narrow r ticket rows ident).map fun t => [t]
  | .commit r ticket predictions publish maxRows => (s.commit r ticket predictions publish maxRows).map fun _ => []
  | .abort r ticket restore => (s.abort r ticket restore).map fun _ => []
  | .failVerification r ticket => (s.failVerification r ticket).map fun _ => []

/-- The session as a callback of the call finds it, where the call gets as far as its callback. -/
def inside (s : GreedySession) : Op → Option GreedySession
  | .propose r maxRows _ _ _ =>
    if s.proposeGuard r maxRows = .ok () ∧ 1 < s.proposeLimit maxRows then some { s with phase := .drafting } else none
  | .commit r ticket predictions publish maxRows =>
    if (s.commitDecision r ticket predictions publish maxRows).isOk then some { s with phase := .committing } else none
  | .abort r ticket restore =>
    if s.abortGuard r ticket restore = .ok () then some { s with phase := .committing } else none
  | _ => none

/-- The states a session started in `s₀` passes through, with the tickets issued so far, oldest first. -/
inductive Reachable (s₀ : GreedySession) : List BlockTicket → GreedySession → Prop
  | start : Reachable s₀ [] s₀
  | call {issued : List BlockTicket} {s : GreedySession} (op : Op) :
      Reachable s₀ issued s → Reachable s₀ (issued ++ (s.apply op).getD []) (s.apply op).obj
  | callback {issued : List BlockTicket} {s s' : GreedySession} (op : Op) :
      Reachable s₀ issued s → s.inside op = some s' → Reachable s₀ issued s'

/-- A session that is neither idle nor pending nor preparing refuses every call. -/
theorem apply_refused {s : GreedySession} (hphase : s.phase ≠ .idle ∧ s.phase ≠ .pending ∧ s.phase ≠ .preparing)
    (op : Op) : (s.apply op).Refused s := by
  have same : ∀ phase, (phase = s.phase ∨ s.phase = .idle ∧ (phase = .failed ∨ phase = .drafting)) ∨
      (phase = s.phase ∨ s.phase = .pending ∧ phase = .failed) → ({ s with phase } : GreedySession) = s := by
    rintro phase ((rfl | ⟨hi, -⟩) | (rfl | ⟨hp, -⟩))
    · rfl
    · exact absurd hi hphase.1
    · rfl
    · exact absurd hp hphase.2.1
  have prep : ∀ {c r}, (c = s.beginPreparation r ∨ c = s.finishPreparation r ∨ c = s.failPreparation r) →
      (c.map fun _ => ([] : List BlockTicket)).Refused s := fun {c r} hc => by
    rcases s.preparation_cases r hc with ⟨e, rfl⟩ | ⟨phase, -, ⟨hi, -⟩ | ⟨hp, -⟩⟩
    · exact Call.refused_throw s e
    · exact absurd hi hphase.1
    · exact absurd hp hphase.2.2
  cases op with
  | beginPreparation r => exact prep (Or.inl rfl)
  | finishPreparation r => exact prep (Or.inr (Or.inl rfl))
  | failPreparation r => exact prep (Or.inr (Or.inr rfl))
  | propose r maxRows selected adapters ident =>
    rcases s.propose_cases r maxRows selected adapters ident with ⟨e, phase, hc, hp⟩ | ⟨t, -, hi, -⟩
    · rw [apply, hc, same phase (Or.inl hp)]; exact Call.refused_throw s e
    · exact absurd hi hphase.1
  | narrow r ticket rows ident =>
    rcases s.narrow_cases r ticket rows ident with ⟨e, hc⟩ | ⟨t, -, hp, -⟩
    · rw [apply, hc]; exact Call.refused_throw s e
    · exact absurd hp hphase.2.1
  | commit r ticket predictions publish maxRows =>
    rcases s.commit_cases r ticket predictions publish maxRows with ⟨e, phase, hc, hp⟩ | ⟨d, drafter, n, -, hp, -⟩
    · rw [apply, hc, same phase (Or.inr hp)]; exact Call.refused_throw s e
    · exact absurd hp hphase.2.1
  | abort r ticket restore =>
    rcases s.abort_cases r ticket restore with ⟨e, phase, hc, hp⟩ | ⟨-, hp⟩
    · rw [apply, hc, same phase (Or.inr hp)]; exact Call.refused_throw s e
    · exact absurd hp hphase.2.1
  | failVerification r ticket =>
    rcases s.failVerification_cases r ticket with ⟨e, hc⟩ | ⟨-, hp⟩
    · rw [apply, hc]; exact Call.refused_throw s e
    · exact absurd hp hphase.2.1

/-- While a callback runs, every call on the session is refused. -/
theorem apply_busy {s : GreedySession} (h : s.phase = .drafting ∨ s.phase = .committing) (op : Op) :
    (s.apply op).Refused s :=
  apply_refused (by rcases h with h | h <;> simp [h]) op

/-! ## The invariant -/

/-- The books of a session with this prompt, once these tickets have been issued. -/
structure Bookkeeping (prompt : List Token) (issued : List BlockTicket) (s : GreedySession) : Prop where
  position : s.position = prompt.length + s.emitted.length - 1
  emitted_pos : 1 ≤ s.emitted.length
  emitted_le : s.emitted.length ≤ s.maxNewTokens
  /-- The drafter sees the end of the text. -/
  history : s.drafter.lookup.history = (prompt ++ s.emitted).rtake s.drafter.lookup.historyLimit
  decoded : s.committedDecodeTokens = s.emitted.length - 1
  accepted : s.acceptedProposals ≤ s.committedBlockProposals
  /-- Outside a commit and unless the session failed, it is pending exactly when it holds a ticket. -/
  phase : s.phase ≠ .committing → s.phase ≠ .failed → (s.phase = .pending ↔ ∃ t, s.pending = some t)
  fits : ∀ t, s.pending = some t → s.Fits t
  /-- The live ticket is the newest, and its epoch the largest. -/
  newest : ∀ t, s.pending = some t → ∃ earlier, issued = earlier ++ [t] ∧ ∀ u ∈ earlier, u.epoch < t.epoch
  epochs : ∀ t ∈ issued, t.epoch ≤ s.epoch
  unfinished : ∀ t, s.pending = some t → s.finished = false
  /-- The next block starts at the last emitted token. -/
  seed : s.finished = false → s.seed = s.emitted.getLast?

namespace Bookkeeping

variable {prompt : List Token} {issued : List BlockTicket} {s : GreedySession}

/-- A new session. -/
theorem start {requestId : String} {seed : Token} {vocabSize : Int} {maxNewTokens : Nat} {eosIds : List Token}
    {neural : List String} {verifierRows : Nat} {preferFullSuffix lookupEnabled : Bool}
    (h : init requestId prompt seed vocabSize maxNewTokens eosIds neural verifierRows preferFullSuffix lookupEnabled
      = .ok s) : Bookkeeping prompt [] s := by
  obtain ⟨⟨⟩, hmax, h⟩ := bind_ok h
  obtain ⟨⟨⟩, -, h⟩ := bind_ok h
  obtain ⟨_, -, h⟩ := bind_ok h
  obtain ⟨d, hd, h⟩ := bind_ok h
  obtain ⟨d', hd', h⟩ := bind_ok h
  cases h
  rw [raiseIf_ok, Nat.not_lt] at hmax
  have hhist := (HybridDraft.init_ok hd).1
  refine ⟨by simp, by simp, by simpa using hmax, ?_, by simp, by simp, by simp, ?_, ?_, ?_, ?_, ?_⟩
  · simp only [HybridDraft.commitVerified_ok hd', HybridDraft.extend, LookupDraft.extend, hhist]
    exact LookupDraft.rtake_append_rtake _ _ _
  all_goals simp

/-- A change of phase keeps the books, unless it would make a session without a ticket pending, or take one with a
ticket out of `pending` other than into a commit or a failure. -/
theorem rephase (h : Bookkeeping prompt issued s) {phase : Phase}
    (hp : phase = s.phase ∨ phase = .failed ∨ phase = .committing ∨ s.pending = none ∧ phase ≠ .pending) :
    Bookkeeping prompt issued { s with phase } := by
  refine { h with phase := fun hc hf => ?_, fits := fun t ht => ?_ }
  · rcases hp with rfl | rfl | rfl | ⟨hn, hne⟩
    · exact h.phase hc hf
    · exact absurd rfl hf
    · exact absurd rfl hc
    · simp [hn, hne]
  · obtain ⟨h1, h2, h3, h4, h5⟩ := h.fits t ht
    exact ⟨h1, h2, h3, h4, h5⟩

/-- Issuing a fitting ticket at the next epoch. -/
theorem issue (h : Bookkeeping prompt issued s) {t : BlockTicket} (hfit : s.Fits t) (he : t.epoch = s.epoch + 1)
    (hf : s.finished = false) : Bookkeeping prompt (issued ++ [t]) (s.issued t) := by
  refine { h with phase := fun _ _ => by simp [GreedySession.issued], fits := ?_, newest := ?_, epochs := ?_,
                  unfinished := fun _ _ => hf }
  · rintro u hu
    cases hu
    obtain ⟨h1, h2, h3, h4, h5⟩ := hfit
    exact ⟨h1, h2, h3, h4, h5⟩
  · rintro u hu
    cases hu
    exact ⟨issued, rfl, fun v hv => by have := h.epochs v hv; omega⟩
  · intro u hu
    show u.epoch ≤ s.epoch + 1
    rcases List.mem_append.mp hu with hu | hu
    · have := h.epochs u hu; omega
    · rw [List.mem_singleton.mp hu, he]

/-- A published decision on a leading part of the live ticket. -/
theorem decide (h : Bookkeeping prompt issued s) {ticket : BlockTicket} {d : Decision} {n : Nat}
    {predictions : List Token} (ht : s.pending = some ticket)
    (hsel : Selected (ticket.proposals.take n) predictions s.vocabSize s.eosIds d) :
    Bookkeeping prompt issued (s.decided ticket d (s.drafter.extend d.emitted)) := by
  have hpos := hsel.emitted_pos
  have hle := hsel.emitted_le
  have hacc := hsel.accepted_le
  have hrows := hsel.stateRows
  have htake : (ticket.proposals.take n).length ≤ ticket.proposals.length := List.length_take_le' _ _
  have hbudget := (h.fits ticket ht).budget
  rw [BlockTicket.rows_eq] at hbudget
  obtain ⟨hp, h1, h2, hh, hd, ha, -, -, -, he, -, -⟩ := h
  have hempty : ¬∃ t, (s.decided ticket d (s.drafter.extend d.emitted)).pending = some t := by
    simp [decided]
  refine ⟨?_, ?_, ?_, ?_, ?_, ?_, fun _ _ => by simp [decided], ?_, ?_, he, ?_, fun hf => ?_⟩
  · simp only [decided, List.length_append]; omega
  · simp only [decided, List.length_append]; omega
  · simp only [decided, List.length_append]; omega
  · simp only [decided, HybridDraft.extend, LookupDraft.extend, hh, ← List.append_assoc]
    exact LookupDraft.rtake_append_rtake _ _ _
  · simp only [decided, List.length_append]; omega
  · simp only [decided, BlockTicket.rows_eq]; omega
  iterate 3 exact fun t ht => absurd ⟨t, ht⟩ hempty
  · simp only [decided, Bool.or_eq_false_iff] at hf ⊢
    have hne : d.emitted ≠ [] := List.ne_nil_of_length_pos hpos
    rw [hsel.nextInput hf.1, List.getLast?_append_of_ne_nil _ hne]

/-- Dropping the live ticket. -/
theorem drop (h : Bookkeeping prompt issued s) :
    Bookkeeping prompt issued { s with abortedBlocks := s.abortedBlocks + 1, pending := none, phase := .idle } :=
  { h with
    phase := fun _ _ => by simp
    fits := fun t ht => by cases ht
    newest := fun t ht => by cases ht
    unfinished := fun t ht => by cases ht }

/-- A ticket narrowed from the live one fits. -/
theorem fits_narrowed (h : Bookkeeping prompt issued s) {ticket t : BlockTicket} {rows : Nat}
    (ht : s.pending = some ticket) (hpos : t.position = ticket.position) (hseed : t.seed = ticket.seed)
    (hrows : t.rows = rows) (hmem : rows ∈ buckets) (hle : rows ≤ ticket.rows) : s.Fits t := by
  have hfit := h.fits ticket ht
  refine ⟨hpos.trans hfit.position, hseed.trans hfit.seed, hrows ▸ hmem, ?_, ?_⟩
  · rw [hrows]; exact hle.trans hfit.verifier
  · rw [hrows]; exact hle.trans hfit.budget

/-- An idle session holds no ticket. -/
theorem idle (h : Bookkeeping prompt issued s) (hp : s.phase = .idle ∨ s.phase = .preparing) : s.pending = none := by
  cases hpend : s.pending with
  | none => rfl
  | some t =>
    have := (h.phase (by rcases hp with hp | hp <;> simp [hp]) (by rcases hp with hp | hp <;> simp [hp])).mpr ⟨t, hpend⟩
    rcases hp with hp | hp <;> simp [hp] at this

/-- One call keeps the books, whether it returns or raises. -/
theorem apply (h : Bookkeeping prompt issued s) (op : Op) :
    Bookkeeping prompt (issued ++ (s.apply op).getD []) (s.apply op).obj := by
  have prep : ∀ {c r}, (c = s.beginPreparation r ∨ c = s.finishPreparation r ∨ c = s.failPreparation r) →
      Bookkeeping prompt (issued ++ (c.map fun _ => ([] : List BlockTicket)).getD [])
        (c.map fun _ => ([] : List BlockTicket)).obj := fun {c r} hc => by
    rcases s.preparation_cases r hc with ⟨e, rfl⟩ | ⟨phase, rfl, hp⟩
    · simpa using h
    · have hn : s.pending = none ∧ phase ≠ .pending := by
        rcases hp with ⟨-, hn, rfl⟩ | ⟨hp, rfl | rfl⟩
        · exact ⟨hn, by simp⟩
        · exact ⟨h.idle (Or.inr hp), by simp⟩
        · exact ⟨h.idle (Or.inr hp), by simp⟩
      simpa using h.rephase (Or.inr (Or.inr (Or.inr hn)))
  cases op with
  | beginPreparation r => exact prep (Or.inl rfl)
  | finishPreparation r => exact prep (Or.inr (Or.inl rfl))
  | failPreparation r => exact prep (Or.inr (Or.inr rfl))
  | propose r maxRows selected adapters ident =>
    rcases s.propose_cases r maxRows selected adapters ident with ⟨e, phase, hc, hp⟩ | ⟨t, hc, -, hf, he, hfit⟩
    · rw [GreedySession.apply, hc]
      simp only [Call.map_throw, Call.getD_throw, List.append_nil, Call.throw_obj]
      rcases hp with rfl | ⟨hi, rfl | rfl⟩
      · exact h
      · exact h.rephase (Or.inr (Or.inl rfl))
      · exact h.rephase (Or.inr (Or.inr (Or.inr ⟨h.idle (Or.inl hi), by simp⟩)))
    · rw [GreedySession.apply, hc]
      exact h.issue hfit he hf
  | narrow r ticket rows ident =>
    rcases s.narrow_cases r ticket rows ident with
      ⟨e, hc⟩ | ⟨t, hc, -, ht, he, hpos, hseed, -, hrows, hmem, hle⟩
    · rw [GreedySession.apply, hc]; simpa using h
    · rw [GreedySession.apply, hc]
      exact h.issue (h.fits_narrowed ht hpos hseed hrows hmem hle) he (h.unfinished ticket ht)
  | commit r ticket predictions publish maxRows =>
    rcases s.commit_cases r ticket predictions publish maxRows with
      ⟨e, phase, hc, hp⟩ | ⟨d, drafter, n, hc, -, ht, hsel, rfl⟩
    · rw [GreedySession.apply, hc]
      simp only [Call.map_throw, Call.getD_throw, List.append_nil, Call.throw_obj]
      exact h.rephase (hp.imp_right fun hp => Or.inl hp.2)
    · rw [GreedySession.apply, hc]
      simpa using h.decide ht hsel
  | abort r ticket restore =>
    rcases s.abort_cases r ticket restore with ⟨e, phase, hc, hp⟩ | ⟨hc, -⟩
    · rw [GreedySession.apply, hc]
      simp only [Call.map_throw, Call.getD_throw, List.append_nil, Call.throw_obj]
      exact h.rephase (hp.imp_right fun hp => Or.inl hp.2)
    · rw [GreedySession.apply, hc]
      simpa using h.drop
  | failVerification r ticket =>
    rcases s.failVerification_cases r ticket with ⟨e, hc⟩ | ⟨hc, -⟩
    · rw [GreedySession.apply, hc]; simpa using h
    · rw [GreedySession.apply, hc]
      simpa using h.rephase (Or.inr (Or.inl rfl))

/-- The books are in order while a callback runs. -/
theorem inside (h : Bookkeeping prompt issued s) {op : Op} {s' : GreedySession} (hs : s.inside op = some s') :
    Bookkeeping prompt issued s' := by
  cases op <;> simp only [GreedySession.inside, reduceCtorEq, Option.ite_none_right_eq_some, Option.some.injEq] at hs
  · obtain ⟨⟨hg, -⟩, rfl⟩ := hs
    obtain ⟨⟨⟩, -, hg⟩ := bind_ok hg
    obtain ⟨⟨⟩, hidle, -⟩ := bind_ok hg
    simp only [raiseIf_ok, not_or, ne_eq, not_not] at hidle
    exact h.rephase (Or.inr (Or.inr (Or.inr ⟨h.idle (Or.inl hidle.1), by simp⟩)))
  · obtain ⟨-, rfl⟩ := hs
    exact h.rephase (Or.inr (Or.inr (Or.inl rfl)))
  · obtain ⟨-, rfl⟩ := hs
    exact h.rephase (Or.inr (Or.inr (Or.inl rfl)))

end Bookkeeping

/-! ## Every reachable state -/

section Reach

variable {requestId : String} {prompt : List Token} {seed : Token} {vocabSize : Int} {maxNewTokens : Nat}
  {eosIds : List Token} {neural : List String} {verifierRows : Nat} {preferFullSuffix lookupEnabled : Bool}
  {s₀ s : GreedySession} {issued : List BlockTicket}

/-- **The books are in order in every reachable state.** -/
theorem reachable_bookkeeping
    (hinit : init requestId prompt seed vocabSize maxNewTokens eosIds neural verifierRows preferFullSuffix
      lookupEnabled = .ok s₀) (h : Reachable s₀ issued s) : Bookkeeping prompt issued s := by
  induction h with
  | start => exact Bookkeeping.start hinit
  | call op _ ih => exact ih.apply op
  | callback op _ hs ih => exact ih.inside hs

end Reach

/-- The session of request `r` with prompt `3` and seed `5`: four tokens at most, `9` ends the text. -/
def sample : GreedySession where
  drafter := ⟨true, 10, [], ⟨"r", 32768, 128, 15, false, false, [3, 5]⟩⟩
  requestId := "r"
  vocabSize := 10
  maxNewTokens := 4
  eosIds := [9]
  verifierRows := 16
  position := 1
  seed := some 5
  emitted := [5]
  finished := false
  phase := .idle
  epoch := 0
  pending := none
  committedBlockProposals := 0
  acceptedProposals := 0
  committedBlocks := 0
  committedDecodeTokens := 0
  abortedBlocks := 0

theorem sample_init : init "r" [3] 5 10 4 [9] [] 16 false true = .ok sample := by decide

/-- The first block of the sample session: the seed alone. -/
def sampleTicket : BlockTicket := ⟨0, "r", 1, 1, some 5, [], "target", 0⟩

/-- The sample session after its first proposal. -/
theorem sample_reachable : Reachable sample [sampleTicket] (sample.issued sampleTicket) :=
  Reachable.call (.propose "r" 4 none (fun _ _ _ _ => .ok []) 0) Reachable.start

/-- A session whose prompt repeats itself: prompt `1 2 3 1 2`, seed `3`, eight tokens at most, `8` ends the text. -/
def repeated : GreedySession where
  drafter := ⟨true, 10, [], ⟨"r", 32768, 128, 15, false, false, [1, 2, 3, 1, 2, 3]⟩⟩
  requestId := "r"
  vocabSize := 10
  maxNewTokens := 8
  eosIds := [8]
  verifierRows := 16
  position := 5
  seed := some 3
  emitted := [3]
  finished := false
  phase := .idle
  epoch := 0
  pending := none
  committedBlockProposals := 0
  acceptedProposals := 0
  committedBlocks := 0
  committedDecodeTokens := 0
  abortedBlocks := 0

theorem repeated_init : init "r" [1, 2, 3, 1, 2] 3 10 8 [8] [] 16 false true = .ok repeated := by decide

/-- Its first block, the same narrowed to two rows, and its second block. -/
def firstTicket : BlockTicket := ⟨0, "r", 1, 5, some 3, [1, 2, 3], "lookup", 3⟩

def narrowTicket : BlockTicket := ⟨1, "r", 2, 5, some 3, [1], "lookup", 1⟩

def secondTicket : BlockTicket := ⟨2, "r", 3, 7, some 2, [3, 1, 2], "lookup", 5⟩

/-- The calls up to the second block: the first is narrowed, verified to `1 2` and published. -/
def blockOps : List Op :=
  [.propose "r" 4 none (fun _ _ _ _ => .ok []) 0, .narrow "r" firstTicket 2 1,
    .commit "r" narrowTicket [1, 2] .returnsNone none, .propose "r" 4 none (fun _ _ _ _ => .ok []) 2]

/-- The session with its second block live. -/
def secondBlock : GreedySession := blockOps.foldl (fun s op => (s.apply op).obj) repeated

theorem second_reachable : Reachable repeated [firstTicket, narrowTicket, secondTicket] secondBlock := by
  have h1 : Reachable repeated [firstTicket] _ := Reachable.start.call (.propose "r" 4 none (fun _ _ _ _ => .ok []) 0)
  have h2 : Reachable repeated [firstTicket, narrowTicket] _ := h1.call (.narrow "r" firstTicket 2 1)
  have h3 : Reachable repeated [firstTicket, narrowTicket] _ :=
    h2.call (.commit "r" narrowTicket [1, 2] .returnsNone none)
  exact h3.call (.propose "r" 4 none (fun _ _ _ _ => .ok []) 2)

/-- The books after a publication that raised: the second block stays, in a failed session. -/
theorem reachable_bookkeeping_sample :
    Bookkeeping [1, 2, 3, 1, 2] [firstTicket, narrowTicket, secondTicket] { secondBlock with phase := .failed } ∧
      secondBlock.emitted = [3, 1, 2] ∧ secondBlock.pending = some secondTicket := by
  have hraised := second_reachable.call (.commit "r" secondTicket [3, 8, 0, 0] (.raises .typeError) none)
  exact ⟨reachable_bookkeeping repeated_init hraised, by decide, by decide⟩

/-- A failed verification leaves the ticket in a session that is no longer pending. -/
theorem failed_keeps_ticket :
    ¬∀ (requestId : String) (prompt : List Token) (seed : Token) (vocabSize : Int) (maxNewTokens : Nat)
      (eosIds : List Token) (neural : List String) (verifierRows : Nat) (preferFullSuffix lookupEnabled : Bool)
      (s₀ s : GreedySession) (issued : List BlockTicket),
      init requestId prompt seed vocabSize maxNewTokens eosIds neural verifierRows preferFullSuffix lookupEnabled
        = .ok s₀ → Reachable s₀ issued s →
      (s.phase = .pending ↔ (∃ t, s.pending = some t) ∧ s.phase ≠ .committing) := by
  intro h
  have := (h _ _ _ _ _ _ _ _ _ _ _ _ _ sample_init
    (sample_reachable.call (.failVerification "r" sampleTicket))).mpr ⟨⟨sampleTicket, rfl⟩, by decide⟩
  exact absurd this (by decide)

end GreedySession

end BlackholeQwen.Speculative
