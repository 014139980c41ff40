import Mathlib.Data.List.DropRight
import BlackholeQwen.Speculative.GreedyVerify

/-!
# Lookup proposals

`LookupDraft` is `lookup_draft.LookupDraft`: a bounded history of one request's tokens, and proposals copied from what
followed the longest earlier occurrence of its end. `lookupPropose_length` bounds a proposal; `rtake_append_rtake` is
why a bounded history is the end of the whole text.
-/

namespace BlackholeQwen.Speculative

open Lib

/-- `LookupDraft`. -/
structure LookupDraft where
  requestId : String
  historyLimit : Nat
  matchLimit : Nat
  maxProposals : Nat
  preferFullSuffix : Bool
  closed : Bool
  history : List Token
  deriving DecidableEq, Repr

namespace LookupDraft

/-- `LookupDraft.check_owner`. -/
def checkOwner (d : LookupDraft) (requestId : String) : Except PyError Unit :=
  raiseIf (d.closed = true ∨ requestId ≠ d.requestId) (.valueError "Closed or mismatched request identity")

/-- The history after more tokens: the last `history_limit` of them all. -/
def extend (d : LookupDraft) (tokens : List Token) : LookupDraft :=
  { d with history := (d.history ++ tokens).rtake d.historyLimit }

/-- `LookupDraft.commit`. -/
def commit (d : LookupDraft) (requestId : String) (acceptedTokens : List Token) : Except PyError LookupDraft := do
  d.checkOwner requestId
  raiseIf (acceptedTokens.any (fun t => t < 0) = true) (.valueError "Expected nonnegative integer token IDs")
  return d.extend acceptedTokens

/-- `LookupDraft.__init__`. -/
def init (requestId : String) (prompt : List Token) (historyLimit matchLimit maxProposals : Nat)
    (preferFullSuffix : Bool) : Except PyError LookupDraft := do
  raiseIf (requestId = "") (.valueError "A request identity is required")
  raiseIf (historyLimit < 2) (.valueError "history_limit must be at least two tokens")
  raiseIf (matchLimit < 1) (.valueError "match_limit must be positive")
  raiseIf (maxProposals ≠ 15 ∧ maxProposals ≠ 31) (.valueError "Explicit T16 or T32 proposal capacity required")
  commit ⟨requestId, historyLimit, matchLimit, maxProposals, preferFullSuffix, false, []⟩ requestId prompt

/-- The inner `while` of `propose_with_match`: how far the tokens before `stop` agree with the tokens before the end of
the history, `bound` at most; `fuel` counts the rounds left to `bound`. -/
def matchLength (history : List Token) (stop bound : Nat) : Nat → Nat → Nat
  | 0, length => length
  | fuel + 1, length =>
    if length < bound ∧ history[stop - length]? = history[history.length - 1 - length]? then
      matchLength history stop bound fuel (length + 1)
    else length

/-- The `for` loop of `propose_with_match` over the ends `k - 1, …, 0`, from the best match so far: its length, and
where it ends. -/
def scan (d : LookupDraft) (count : Nat) : Nat → Nat × Option Nat → Nat × Option Nat
  | 0, best => best
  | stop + 1, (bestLength, bestEnd) =>
    let history := d.history
    let limit := min d.matchLimit (history.length - 1)
    if history[stop]? ≠ history[history.length - 1]? then scan d count stop (bestLength, bestEnd)
    else
      let bound := min limit (stop + 1)
      let length := matchLength history stop bound bound 1
      let longerSuffix : Bool := d.preferFullSuffix && (length == bestLength) && match bestEnd with
        | none => false
        | some e => decide (min count (history.length - e - 1) < min count (history.length - stop - 1))
      if bestLength < length ∨ longerSuffix = true then
        if length = limit ∧ (d.preferFullSuffix = false ∨ count ≤ history.length - stop - 1) then (length, some stop)
        else scan d count stop (length, some stop)
      else scan d count stop (bestLength, bestEnd)

/-- `LookupDraft.propose_with_match`. -/
def proposeWithMatch (d : LookupDraft) (requestId : String) (count : Nat) : Except PyError (List Token × Nat) := do
  d.checkOwner requestId
  raiseIf (¬(1 ≤ count ∧ count ≤ d.maxProposals))
    (.valueError "Proposal count exceeds the configured verifier capacity")
  if d.history.length < 2 then return ([], 0)
  match d.scan count (d.history.length - 1) (0, none) with
  | (_, none) => return ([], 0)
  | (bestLength, some bestEnd) => return ((d.history.drop (bestEnd + 1)).take count, bestLength)

/-! ## What the calls do -/

theorem checkOwner_ok {d : LookupDraft} {requestId : String} (h : d.checkOwner requestId = .ok ()) :
    d.closed = false ∧ requestId = d.requestId := by
  simp only [checkOwner, raiseIf_ok, not_or, Bool.not_eq_true, ne_eq, not_not] at h
  exact h

/-- A commit that returns only extends the history. -/
theorem commit_ok {d d' : LookupDraft} {requestId : String} {tokens : List Token}
    (h : d.commit requestId tokens = .ok d') :
    d' = d.extend tokens ∧ d.closed = false ∧ requestId = d.requestId := by
  obtain ⟨⟨⟩, howner, h⟩ := bind_ok h
  obtain ⟨⟨⟩, -, h⟩ := bind_ok h
  cases h
  exact ⟨rfl, checkOwner_ok howner⟩

/-- The owner's commit of nonnegative tokens returns. -/
theorem commit_eq {d : LookupDraft} {tokens : List Token} (hopen : d.closed = false) (h : ∀ t ∈ tokens, 0 ≤ t) :
    d.commit d.requestId tokens = .ok (d.extend tokens) := by
  have hany : ¬tokens.any (fun t => decide (t < 0)) = true := by
    simp only [List.any_eq_true, decide_eq_true_eq, not_exists, not_and]
    exact fun t ht => Int.not_lt.mpr (h t ht)
  simp only [commit, checkOwner, raiseIf, hopen, if_neg hany, Bool.false_eq_true, ne_eq, not_true_eq_false, or_false,
    if_false]
  rfl

/-- Keeping the last `n` tokens of a text can be done as it grows. -/
theorem rtake_append_rtake (l m : List Token) (n : Nat) : (l.rtake n ++ m).rtake n = (l ++ m).rtake n := by
  simp only [List.rtake, List.length_append, List.length_drop]
  rw [← List.drop_append_of_le_length (by omega), List.drop_drop]
  congr 1
  omega

end LookupDraft

end BlackholeQwen.Speculative
