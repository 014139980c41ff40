import BlackholeQwen.Lib.Suffix
import BlackholeQwen.Speculative.LookupDraft
import Mathlib.Data.Prod.Lex

/-!
# The best lookup match (`lookup_draft.py`)

`propose_with_match` scans the earlier occurrences of the last token from the newest to the oldest. `score` orders them:
the length of the common suffix, capped; with `prefer_full_suffix` how much of the proposal is known; then the newer.
The scan keeps the best of the ends scanned so far (`Found`), and where it breaks no older end can win
(`scan_found`), so the proposal is what followed the best of them all (`lookup_best`).
-/

namespace BlackholeQwen.Speculative.LookupDraft

open Lib

variable (d : LookupDraft) (count : Nat)

/-- `limit`. -/
def limit : Nat := min d.matchLimit (d.history.length - 1)

/-- An earlier occurrence of the last token. -/
def Candidate (e : Nat) : Prop := d.history[e]? = d.history[d.history.length - 1]?

instance (e : Nat) : Decidable (d.Candidate e) := inferInstanceAs (Decidable (_ = _))

/-- The capped length of the longest common suffix of the history up to an end, and the history. -/
def suffixLength (e : Nat) : Nat := min d.limit (commonSuffix (d.history.take (e + 1)) d.history)

/-- With `prefer_full_suffix`, how many of the proposed tokens the history holds. -/
def known (e : Nat) : Nat := if d.preferFullSuffix then min count (d.history.length - 1 - e) else 0

/-- The order of the ends. -/
def score (e : Nat) : Nat ×ₗ Nat ×ₗ Nat := toLex (d.suffixLength e, toLex (d.known count e, e))

/-- The best end. -/
def BestEnd (e : Nat) : Prop := Best d.Candidate (d.score count) 0 (d.history.length - 1) e

variable {d count}

theorem score_le {e e' : Nat} : d.score count e ≤ d.score count e' ↔
    d.suffixLength e < d.suffixLength e' ∨ d.suffixLength e = d.suffixLength e' ∧
      (d.known count e < d.known count e' ∨ d.known count e = d.known count e' ∧ e ≤ e') := by
  rw [score, score, Prod.Lex.toLex_le_toLex, Prod.Lex.toLex_le_toLex]

theorem suffixLength_le (e : Nat) : d.suffixLength e ≤ d.limit := min_le_left _ _

/-! ## The inner loop -/

/-- The inner loop stops at the bound or where the tokens differ, and up to there they agree. -/
theorem matchLength_spec {history : List Token} {stop bound fuel length : Nat} (hle : length ≤ bound)
    (hfuel : bound ≤ length + fuel)
    (hagree : ∀ i < length, history[stop - i]? = history[history.length - 1 - i]?) :
    (∀ i < matchLength history stop bound fuel length, history[stop - i]? = history[history.length - 1 - i]?) ∧
    matchLength history stop bound fuel length ≤ bound ∧
    (matchLength history stop bound fuel length = bound ∨
      history[stop - matchLength history stop bound fuel length]? ≠
        history[history.length - 1 - matchLength history stop bound fuel length]?) := by
  induction fuel generalizing length with
  | zero => exact ⟨hagree, hle, Or.inl (by simp only [matchLength]; omega)⟩
  | succ fuel ih =>
    rw [matchLength]
    split
    · rename_i hnext
      refine ih hnext.1 (by omega) fun i hi => ?_
      rcases Nat.lt_succ_iff_lt_or_eq.mp hi with hi | rfl
      · exact hagree i hi
      · exact hnext.2
    · rename_i hstop
      refine ⟨hagree, hle, ?_⟩
      by_cases hb : length < bound
      · exact Or.inr fun heq => hstop ⟨hb, heq⟩
      · exact Or.inl (by omega)

/-- How far the tokens before an end agree with those before the end of the history. -/
theorem le_commonSuffix_take {e k : Nat} (he : e < d.history.length) :
    k ≤ commonSuffix (d.history.take (e + 1)) d.history ↔
      k ≤ e + 1 ∧ ∀ i < k, d.history[e - i]? = d.history[d.history.length - 1 - i]? := by
  have hlen : (d.history.take (e + 1)).length = e + 1 := by rw [List.length_take]; omega
  rw [le_commonSuffix, hlen]
  constructor
  · rintro ⟨hk, -, hagree⟩
    refine ⟨hk, fun i hi => ?_⟩
    have h := hagree i hi
    rwa [List.getElem?_take_of_lt (by omega), Nat.add_sub_cancel] at h
  · rintro ⟨hk, hagree⟩
    refine ⟨hk, by omega, fun i hi => ?_⟩
    rw [List.getElem?_take_of_lt (by omega), Nat.add_sub_cancel]
    exact hagree i hi

/-- **The inner loop finds the capped common suffix.** -/
theorem matchLength_eq {stop : Nat} (hlimit : 1 ≤ d.limit) (hstop : stop < d.history.length - 1)
    (hc : d.Candidate stop) :
    matchLength d.history stop (min d.limit (stop + 1)) (min d.limit (stop + 1)) 1 = d.suffixLength stop := by
  have hfirst : ∀ i < 1, d.history[stop - i]? = d.history[d.history.length - 1 - i]? := by
    intro i hi
    rw [Nat.lt_one_iff.mp hi]
    exact hc
  have hone : 1 ≤ min d.limit (stop + 1) := by omega
  obtain ⟨hagree, hbound, hend⟩ := matchLength_spec hone (Nat.le_add_left (min d.limit (stop + 1)) 1) hfirst
  generalize matchLength d.history stop (min d.limit (stop + 1)) (min d.limit (stop + 1)) 1 = k at hagree hbound hend
  have hk : k ≤ commonSuffix (d.history.take (stop + 1)) d.history :=
    (le_commonSuffix_take (by omega)).mpr ⟨by omega, hagree⟩
  refine Nat.le_antisymm (le_min (by omega) hk) ?_
  by_contra hlt
  rw [Nat.not_le] at hlt
  obtain ⟨hshort, hmore⟩ := (le_commonSuffix_take (k := k + 1) (by omega : stop < d.history.length)).mp
    (hlt.trans_le (min_le_right _ _))
  have hcap : k + 1 ≤ d.limit := hlt.trans_le (min_le_left _ _)
  rcases hend with hend | hend
  · omega
  · exact hend (hmore k (Nat.lt_succ_self k))

/-- An earlier occurrence has a suffix of at least its own token in common. -/
theorem one_le_suffixLength {stop : Nat} (hlimit : 1 ≤ d.limit) (hstop : stop < d.history.length - 1)
    (hc : d.Candidate stop) : 1 ≤ d.suffixLength stop := by
  refine le_min hlimit ((le_commonSuffix_take (by omega)).mpr ⟨by omega, fun i hi => ?_⟩)
  rw [Nat.lt_one_iff.mp hi]
  exact hc

/-! ## The scan -/

/-- What the scan holds once the ends from `lo` on are scanned. -/
def Found (d : LookupDraft) (count lo : Nat) : Nat × Option Nat → Prop
  | (length, none) => length = 0 ∧ ∀ e, lo ≤ e → e < d.history.length - 1 → ¬d.Candidate e
  | (length, some e) => length = d.suffixLength e ∧ Best d.Candidate (d.score count) lo (d.history.length - 1) e

/-- A match of the same length whose proposal is better known. -/
def longerSuffix (d : LookupDraft) (count stop length bestLength : Nat) (bestEnd : Option Nat) : Bool :=
  d.preferFullSuffix && (length == bestLength) && match bestEnd with
    | none => false
    | some e => decide (min count (d.history.length - e - 1) < min count (d.history.length - stop - 1))

/-- One round of the scan. -/
theorem scan_succ (stop bestLength : Nat) (bestEnd : Option Nat) :
    d.scan count (stop + 1) (bestLength, bestEnd) =
      if ¬d.Candidate stop then d.scan count stop (bestLength, bestEnd)
      else
        let length := matchLength d.history stop (min d.limit (stop + 1)) (min d.limit (stop + 1)) 1
        if bestLength < length ∨ d.longerSuffix count stop length bestLength bestEnd = true then
          if length = d.limit ∧ (d.preferFullSuffix = false ∨ count ≤ d.history.length - stop - 1) then
            (length, some stop)
          else d.scan count stop (length, some stop)
        else d.scan count stop (bestLength, bestEnd) := rfl

/-- The tie rule compares what is known of the proposals. -/
theorem longerSuffix_iff {stop length bestLength e : Nat} :
    d.longerSuffix count stop length bestLength (some e) = true ↔
      length = bestLength ∧ d.known count e < d.known count stop := by
  unfold longerSuffix known
  cases d.preferFullSuffix <;> simp [Nat.sub_right_comm]

/-- Where the scan breaks no older end can win. -/
theorem no_better {stop : Nat} (hlength : d.suffixLength stop = d.limit)
    (hknown : d.preferFullSuffix = false ∨ count ≤ d.history.length - stop - 1) :
    ∀ e < stop, d.Candidate e → d.score count e ≤ d.score count stop := by
  intro e he _
  rw [score_le]
  rcases Nat.lt_or_eq_of_le (hlength ▸ suffixLength_le e : d.suffixLength e ≤ d.suffixLength stop) with hlt | heq
  · exact Or.inl hlt
  refine Or.inr ⟨heq, ?_⟩
  have hle : d.known count e ≤ d.known count stop := by
    unfold known
    rcases hknown with hoff | hfull
    · rw [hoff]; rfl
    · split <;> omega
  rcases Nat.lt_or_eq_of_le hle with hlt | heq
  · exact Or.inl hlt
  · exact Or.inr ⟨heq, he.le⟩

/-- **The scan finds the best end.** -/
theorem scan_found (hlimit : 1 ≤ d.limit) {k : Nat} (hk : k ≤ d.history.length - 1) {best : Nat × Option Nat}
    (h : Found d count k best) : Found d count 0 (d.scan count k best) := by
  induction k generalizing best with
  | zero => exact h
  | succ stop ih =>
    obtain ⟨bestLength, bestEnd⟩ := best
    rw [scan_succ]
    split
    · rename_i hno
      refine ih (by omega) ?_
      cases bestEnd with
      | none =>
        refine ⟨h.1, fun e hlo hhi hc => ?_⟩
        rcases Nat.eq_or_lt_of_le hlo with rfl | hlt
        · exact hno hc
        · exact h.2 e hlt hhi hc
      | some e => exact ⟨h.1, h.2.skip hno⟩
    rename_i hc
    rw [not_not] at hc
    dsimp only
    rw [matchLength_eq hlimit (by omega) hc]
    have hone := one_le_suffixLength hlimit (by omega) hc
    split
    · rename_i hbetter
      have hbest : Best d.Candidate (d.score count) stop (d.history.length - 1) stop := by
        cases bestEnd with
        | none => exact .first (fun e hlo hhi => h.2 e hlo hhi) (by omega) hc
        | some e =>
          refine h.2.take hc (score_le.mpr ?_)
          rw [longerSuffix_iff, h.1] at hbetter
          rcases hbetter with hlt | ⟨heq, hlt⟩
          · exact Or.inl hlt
          · exact Or.inr ⟨heq.symm, Or.inl hlt⟩
      split
      · rename_i hbreak
        exact ⟨rfl, hbest.stop (no_better hbreak.1 hbreak.2)⟩
      · exact ih (by omega) ⟨rfl, hbest⟩
    · rename_i hworse
      rw [not_or] at hworse
      cases bestEnd with
      | none => exact absurd (h.1 ▸ hone) hworse.1
      | some e =>
        refine ih (by omega) ⟨h.1, h.2.keep (score_le.mpr ?_)⟩
        rw [longerSuffix_iff, h.1] at hworse
        have hlow := h.2.low
        omega

/-- **The proposal follows the best match.** For an open drafter with at least two tokens of history and a count in
range, what is proposed is what followed the best earlier occurrence of the last token, with the length of its match;
nothing is proposed exactly when there is none. -/
theorem lookup_best {requestId : String} (howner : d.checkOwner requestId = .ok ()) (hmatch : 1 ≤ d.matchLimit)
    (hhistory : 2 ≤ d.history.length) (hcount : 1 ≤ count ∧ count ≤ d.maxProposals) :
    ∃ r, d.proposeWithMatch requestId count = .ok r ∧
      (r = ([], 0) ↔ ∀ e < d.history.length - 1, ¬d.Candidate e) ∧
      ((∃ e < d.history.length - 1, d.Candidate e) → ∃ e, d.BestEnd count e ∧
        r = ((d.history.drop (e + 1)).take count, d.suffixLength e)) := by
  have hlimit : 1 ≤ d.limit := le_min hmatch (by omega)
  have hfound : Found d count 0 (d.scan count (d.history.length - 1) (0, none)) :=
    scan_found hlimit le_rfl ⟨rfl, fun e hlo hhi => by omega⟩
  have hcheck : (raiseIf (¬(1 ≤ count ∧ count ≤ d.maxProposals))
      (.valueError "Proposal count exceeds the configured verifier capacity")) = .ok () := by
    rw [raiseIf_ok, not_not]; exact hcount
  unfold proposeWithMatch
  rw [howner, hcheck]
  simp only [bind, Except.bind]
  rw [if_neg (by omega)]
  generalize d.scan count (d.history.length - 1) (0, none) = best at hfound ⊢
  obtain ⟨bestLength, bestEnd⟩ := best
  cases bestEnd with
  | none =>
    have hno : ∀ e < d.history.length - 1, ¬d.Candidate e := fun e he => hfound.2 e (Nat.zero_le _) he
    exact ⟨_, rfl, iff_of_true rfl hno, fun ⟨e, he, hc⟩ => absurd hc (hno e he)⟩
  | some e =>
    obtain ⟨rfl, hbest⟩ := hfound
    have hone := one_le_suffixLength hlimit hbest.high hbest.holds
    refine ⟨_, rfl, iff_of_false (fun h => ?_) fun h => h e hbest.high hbest.holds, fun _ => ⟨e, hbest, rfl⟩⟩
    have := (Prod.mk.inj h).2
    omega

/-- A drafter whose last token occurred twice before. -/
def sampleMatch : LookupDraft := ⟨"r", 32768, 128, 15, false, false, [1, 2, 3, 9, 2, 1, 2]⟩

/-- The older occurrence has the longer match. -/
theorem lookup_best_sample : sampleMatch.proposeWithMatch "r" 2 = .ok ([3, 9], 2) ∧
    ∃ e, sampleMatch.BestEnd 2 e ∧ sampleMatch.suffixLength e = 2 := by
  have howner : sampleMatch.checkOwner "r" = .ok () := rfl
  have hlength : 2 ≤ sampleMatch.history.length := by decide
  have hcount : 1 ≤ 2 ∧ 2 ≤ sampleMatch.maxProposals := by decide
  obtain ⟨r, hr, -, hbest⟩ := lookup_best howner (by decide) hlength hcount
  obtain ⟨e, he, hre⟩ := hbest ⟨1, by decide, by decide⟩
  have hrun : sampleMatch.proposeWithMatch "r" 2 = .ok ([3, 9], 2) := by rfl
  rw [hrun] at hr
  exact ⟨hrun, e, he, ((Prod.mk.inj ((Except.ok.inj hr).trans hre)).2).symm⟩

end BlackholeQwen.Speculative.LookupDraft
