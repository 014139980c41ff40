import BlackholeQwen.Lib.Runs
import BlackholeQwen.Lib.Greedy
import BlackholeQwen.Speculative.Bookkeeping

/-!
# Speculative decoding is lossless

A run of blocks on one session writes the target's own greedy text. `Decoding T prompt` is one returning call of such a
run: any draft, width, narrowing, cap or abort, where the predictions of a commit conform to the target `T`.
`Decoding.written` is the step lemma: the debt `Lib.Greedy.Written` is kept. `emitted_eq_continuation` is the result.
-/

namespace BlackholeQwen.Speculative

open Lib

namespace GreedySession

/-- A call of a decoding run that returns. -/
inductive Decoding (T : List Token → Token) (prompt : List Token) (s : GreedySession) : Op → GreedySession → Prop
  | propose {r : String} {maxRows : Nat} {selected : Option String} {adapters : Adapters} {ident : Nat}
      {t : BlockTicket} :
      (s.propose r maxRows selected adapters ident).result = .ok t →
      Decoding T prompt s (.propose r maxRows selected adapters ident)
        (s.propose r maxRows selected adapters ident).obj
  | narrow {r : String} {ticket t : BlockTicket} {rows ident : Nat} :
      (s.narrow r ticket rows ident).result = .ok t →
      Decoding T prompt s (.narrow r ticket rows ident) (s.narrow r ticket rows ident).obj
  | commit {r : String} {ticket : BlockTicket} {predictions : List Token} {publish : Callback} {maxRows : Option Nat}
      {d : Decision} :
      Greedy.Conforms T (prompt ++ s.emitted) ticket.proposals predictions →
      (s.commit r ticket predictions publish maxRows).result = .ok d →
      Decoding T prompt s (.commit r ticket predictions publish maxRows)
        (s.commit r ticket predictions publish maxRows).obj
  | abort {r : String} {ticket : BlockTicket} {restore : Callback} :
      (s.abort r ticket restore).result = .ok () →
      Decoding T prompt s (.abort r ticket restore) (s.abort r ticket restore).obj

/-- What a decoding run keeps: the books, and the debt to the continuation of the prompt. -/
structure Lossless (T : List Token → Token) (prompt : List Token) (maxNewTokens : Nat) (eosIds : List Token)
    (s : GreedySession) : Prop where
  books : ∃ issued, Bookkeeping prompt issued s
  budget : s.maxNewTokens = maxNewTokens
  eos : s.eosIds = eosIds
  written : Greedy.Written T (isEos eosIds) maxNewTokens prompt s.emitted s.finished

variable {T : List Token → Token} {prompt eosIds : List Token} {maxNewTokens : Nat} {s : GreedySession}

/-- A published decision on conforming predictions pays the next tokens of the debt. -/
theorem Lossless.decided (h : Lossless T prompt maxNewTokens eosIds s) {ticket : BlockTicket} {d : Decision} {n : Nat}
    {predictions : List Token} (ht : s.pending = some ticket)
    (hc : Greedy.Conforms T (prompt ++ s.emitted) ticket.proposals predictions)
    (hsel : Selected (ticket.proposals.take n) (predictions.take (n + 1)) s.vocabSize s.eosIds d) :
    Lossless T prompt maxNewTokens eosIds (s.decided ticket d (s.drafter.extend d.emitted)) := by
  obtain ⟨⟨issued, hb⟩, hmax, heos, hw⟩ := h
  refine ⟨⟨issued, hb.decide ht hsel⟩, hmax, heos, ?_⟩
  have hbudget := (hb.fits ticket ht).budget
  have htake : (ticket.proposals.take n).length ≤ ticket.proposals.length := List.length_take_le' _ _
  rw [BlockTicket.rows_eq, hmax] at hbudget
  rw [hb.unfinished ticket ht] at hw
  have hspec := hw.speculate (hc.take n) (by omega)
  have hs := hsel.speculate
  rw [heos] at hs
  rw [hs] at hspec
  simpa only [GreedySession.decided, hmax] using hspec

/-- One call keeps the debt. -/
theorem Decoding.written (h : Lossless T prompt maxNewTokens eosIds s) {op : Op} {s' : GreedySession}
    (hstep : Decoding T prompt s op s') : Lossless T prompt maxNewTokens eosIds s' := by
  obtain ⟨⟨issued, hb⟩, hmax, heos, hw⟩ := h
  cases hstep with
  | @propose r maxRows selected adapters ident t hr =>
    have hb' := hb.apply (.propose r maxRows selected adapters ident)
    rcases s.propose_cases r maxRows selected adapters ident with ⟨e, phase, hc, -⟩ | ⟨t', hc, -⟩
    · rw [hc] at hr; cases hr
    · rw [GreedySession.apply, hc] at hb'
      rw [hc]
      exact ⟨⟨_, hb'⟩, hmax, heos, hw⟩
  | @narrow r ticket t rows ident hr =>
    have hb' := hb.apply (.narrow r ticket rows ident)
    rcases s.narrow_cases r ticket rows ident with ⟨e, hc⟩ | ⟨t', hc, -⟩
    · rw [hc] at hr; cases hr
    · rw [GreedySession.apply, hc] at hb'
      rw [hc]
      exact ⟨⟨_, hb'⟩, hmax, heos, hw⟩
  | @commit r ticket predictions publish maxRows d hconf hr =>
    rcases s.commit_cases r ticket predictions publish maxRows with
      ⟨e, phase, hc, -⟩ | ⟨d', drafter, n, hc, -, ht, hsel, rfl⟩
    · rw [hc] at hr; cases hr
    · rw [hc]
      exact Lossless.decided ⟨⟨issued, hb⟩, hmax, heos, hw⟩ ht hconf hsel
  | @abort r ticket restore hr =>
    rcases s.abort_cases r ticket restore with ⟨e, phase, hc, -⟩ | ⟨hc, -⟩
    · rw [hc] at hr; cases hr
    · rw [hc]
      exact ⟨⟨issued, hb.drop⟩, hmax, heos, hw⟩

/-- A new session has emitted the target's first token. -/
theorem Lossless.start {requestId : String} {vocabSize : Int} {neural : List String} {verifierRows : Nat}
    {preferFullSuffix lookupEnabled : Bool}
    (hinit : init requestId prompt (T prompt) vocabSize maxNewTokens eosIds neural verifierRows preferFullSuffix
      lookupEnabled = .ok s) : Lossless T prompt maxNewTokens eosIds s := by
  have hb := Bookkeeping.start hinit
  obtain ⟨⟨⟩, hmax, h⟩ := bind_ok hinit
  obtain ⟨⟨⟩, -, h⟩ := bind_ok h
  obtain ⟨_, -, h⟩ := bind_ok h
  obtain ⟨d, -, h⟩ := bind_ok h
  obtain ⟨d', -, h⟩ := bind_ok h
  cases h
  rw [raiseIf_ok, Nat.not_lt] at hmax
  exact ⟨⟨[], hb⟩, rfl, rfl, Greedy.Written.seed hmax⟩

/-- **Whatever the drafts, widths, narrowings, caps and aborts, a session writes its target's greedy text**, and it is
finished exactly when that text ends. -/
theorem emitted_eq_continuation {requestId : String} {vocabSize : Int} {neural : List String} {verifierRows : Nat}
    {preferFullSuffix lookupEnabled : Bool} {s₀ : GreedySession} {ops : List Op}
    (hinit : init requestId prompt (T prompt) vocabSize maxNewTokens eosIds neural verifierRows preferFullSuffix
      lookupEnabled = .ok s₀)
    (hrun : Run (Decoding T prompt) s₀ ops s) :
    s.emitted = (Greedy.continuation T (isEos eosIds) maxNewTokens prompt).take s.emitted.length ∧
      (s.finished = true ↔ s.emitted = Greedy.continuation T (isEos eosIds) maxNewTokens prompt) ∧
      (s.finished = true ↔ (∃ t ∈ s.emitted, t ∈ eosIds) ∨ s.emitted.length = maxNewTokens) := by
  have h : Lossless T prompt maxNewTokens eosIds s :=
    Run.invariant_state (Lossless.start hinit) (fun hi hs => Decoding.written hi hs) hrun
  have hpre := h.written.take_eq
  have hstop := Greedy.eq_continuation_iff maxNewTokens hpre
  refine ⟨hpre, h.written.finished_iff, h.written.finished_iff.trans (hstop.trans ?_)⟩
  simp only [isEos, decide_eq_true_eq]

/-- A target that writes `3 1 2 3 8` after the prompt `1 2 3 1 2`, and `8` ever after. -/
def sampleTarget (ctx : List Token) : Token := [3, 1, 2, 3].getD (ctx.length - 5) 8

/-- The session after its second block: its cap leaves two of three drafts, the first is accepted, the second is not. -/
def sampleDecided : GreedySession := (secondBlock.commit "r" secondTicket [3, 8, 0, 0] .returnsNone (some 3)).obj

/-- Two drafted blocks: a narrowed one, accepted, and a capped one with a mismatch. -/
theorem sample_run : Run (Decoding sampleTarget [1, 2, 3, 1, 2]) repeated
    (blockOps ++ [.commit "r" secondTicket [3, 8, 0, 0] .returnsNone (some 3)]) sampleDecided := by
  have h1 : Run (Decoding sampleTarget [1, 2, 3, 1, 2]) repeated [.propose "r" 4 none (fun _ _ _ _ => .ok []) 0] _ :=
    Run.single (.propose (t := firstTicket) (by decide))
  have h2 : Decoding sampleTarget [1, 2, 3, 1, 2] _ (.narrow "r" firstTicket 2 1) _ :=
    .narrow (s := (repeated.propose "r" 4 none (fun _ _ _ _ => .ok []) 0).obj) (t := narrowTicket) (by decide)
  have h3 : Decoding sampleTarget [1, 2, 3, 1, 2] _ (.commit "r" narrowTicket [1, 2] .returnsNone none) _ :=
    .commit (s := (blockOps.take 2).foldl (fun s op => (s.apply op).obj) repeated) (d := ⟨[1, 2], 1, 2, some 2, false⟩)
      (by unfold Greedy.Conforms; decide) (by decide)
  have h4 : Decoding sampleTarget [1, 2, 3, 1, 2] _ (.propose "r" 4 none (fun _ _ _ _ => .ok []) 2) _ :=
    .propose (s := (blockOps.take 3).foldl (fun s op => (s.apply op).obj) repeated) (t := secondTicket) (by decide)
  have h5 : Decoding sampleTarget [1, 2, 3, 1, 2] secondBlock
      (.commit "r" secondTicket [3, 8, 0, 0] .returnsNone (some 3)) sampleDecided :=
    .commit (d := ⟨[3, 8], 1, 2, none, true⟩) (by unfold Greedy.Conforms; decide) (by decide)
  exact (((h1.snoc h2).snoc h3).snoc h4).snoc h5

/-- The session has written all of the target's text, `3 1 2 3 8`, and is finished. -/
theorem emitted_eq_continuation_sample :
    sampleDecided.emitted = [3, 1, 2, 3, 8] ∧ sampleDecided.acceptedProposals = 2 ∧ sampleDecided.finished = true ∧
      sampleDecided.emitted = Greedy.continuation sampleTarget (isEos [8]) 8 [1, 2, 3, 1, 2] := by
  have hfinished : sampleDecided.finished = true := by decide
  have h := emitted_eq_continuation repeated_init sample_run
  exact ⟨by decide, by decide, hfinished, h.2.1.mp hfinished⟩

end GreedySession

end BlackholeQwen.Speculative
