import BlackholeQwen.Speculative.LookupDraft

/-!
# Lookup first, then a neural adapter

`HybridDraft` is `hybrid_draft.HybridDraft`. The adapters are the environment's: `Adapters` is what each named adapter
answers during one call, given the request, the history and the count.
-/

namespace BlackholeQwen.Speculative

open Lib

/-- `Proposal`. -/
structure Proposal where
  source : String
  tokens : List Token
  matchLength : Nat
  deriving DecidableEq, Repr

/-- The answers of the neural adapters in one call: by name, of `adapter(request_id, history, count)`. -/
abbrev Adapters := String → String → List Token → Nat → Except PyError (List Token)

/-- `HybridDraft`; `neural` holds the names of the adapters. -/
structure HybridDraft where
  lookupEnabled : Bool
  vocabSize : Int
  neural : List String
  lookup : LookupDraft
  deriving DecidableEq, Repr

namespace HybridDraft

/-- `HybridDraft.validate`. -/
def validate (vocabSize : Int) (tokens : List Token) : Except PyError (List Token) := do
  raiseIf (tokens.any (fun t => !inVocab vocabSize t) = true) (.valueError "Token outside target vocabulary")
  return tokens

/-- `HybridDraft.__init__`, with the lookup options a session gives. -/
def init (requestId : String) (prompt : List Token) (vocabSize : Int) (neural : List String) (lookupEnabled : Bool)
    (maxProposals : Nat) (preferFullSuffix : Bool) : Except PyError HybridDraft := do
  raiseIf (vocabSize < 1) (.valueError "vocab_size must be positive")
  raiseIf (neural.any (fun name => name == "" || name == "lookup" || name == "target") = true)
    (.valueError "Expected named neural proposal callables")
  let prompt ← validate vocabSize prompt
  let lookup ← LookupDraft.init requestId prompt 32768 128 maxProposals preferFullSuffix
  return ⟨lookupEnabled, vocabSize, neural, lookup⟩

/-- The lookup half of `HybridDraft.propose`. -/
def lookupProposal (d : HybridDraft) (requestId : String) (count : Nat) : Except PyError (List Token × Nat) :=
  if d.lookupEnabled then d.lookup.proposeWithMatch requestId count else .ok ([], 0)

/-- `HybridDraft.propose`. -/
def propose (d : HybridDraft) (requestId : String) (count : Nat) (greedy verifierReady : Bool)
    (selected : Option String) (adapters : Adapters) : Except PyError Proposal := do
  d.lookup.checkOwner requestId
  raiseIf (¬(1 ≤ count ∧ count ≤ d.lookup.maxProposals))
    (.valueError "Proposal count exceeds the configured verifier capacity")
  if greedy ≠ true ∨ verifierReady ≠ true then return ⟨"target", [], 0⟩
  let (tokens, matchLength) ← d.lookupProposal requestId count
  if tokens ≠ [] then return ⟨"lookup", tokens, matchLength⟩
  match selected.filter (fun name => d.neural.contains name) with
  | none => return ⟨"target", [], 0⟩
  | some name =>
    let tokens ← adapters name requestId d.lookup.history count
    let tokens ← validate d.vocabSize tokens
    raiseIf (count < tokens.length) (.valueError "Neural proposal exceeds requested count")
    if tokens ≠ [] then return ⟨name, tokens, 0⟩
    return ⟨"target", [], 0⟩

/-- `HybridDraft.commit_verified`. -/
def commitVerified (d : HybridDraft) (requestId : String) (tokens : List Token) : Except PyError HybridDraft := do
  d.lookup.checkOwner requestId
  let tokens ← validate d.vocabSize tokens
  let lookup ← d.lookup.commit requestId tokens
  return { d with lookup }

/-- The drafter after a text has been committed. -/
def extend (d : HybridDraft) (tokens : List Token) : HybridDraft := { d with lookup := d.lookup.extend tokens }

/-! ## What the calls do -/

theorem validate_ok {vocabSize : Int} {tokens tokens' : List Token} (h : validate vocabSize tokens = .ok tokens') :
    tokens' = tokens := by
  obtain ⟨⟨⟩, -, h⟩ := bind_ok h
  cases h; rfl

/-- A commit that returns only extends the history. -/
theorem commitVerified_ok {d d' : HybridDraft} {requestId : String} {tokens : List Token}
    (h : d.commitVerified requestId tokens = .ok d') :
    d' = d.extend tokens := by
  obtain ⟨⟨⟩, -, h⟩ := bind_ok h
  obtain ⟨ts, hv, h⟩ := bind_ok h
  obtain ⟨l, hl, h⟩ := bind_ok h
  cases h
  rw [validate_ok hv] at hl
  rw [(LookupDraft.commit_ok hl).1, extend]

/-- The history of a new drafter is the end of the prompt. -/
theorem init_ok {requestId : String} {prompt : List Token} {vocabSize : Int} {neural : List String}
    {lookupEnabled : Bool} {maxProposals : Nat} {preferFullSuffix : Bool} {d : HybridDraft}
    (h : init requestId prompt vocabSize neural lookupEnabled maxProposals preferFullSuffix = .ok d) :
    d.lookup.history = prompt.rtake d.lookup.historyLimit ∧ d.lookup.historyLimit = 32768 := by
  obtain ⟨⟨⟩, -, h⟩ := bind_ok h
  obtain ⟨⟨⟩, -, h⟩ := bind_ok h
  obtain ⟨p, hp, h⟩ := bind_ok h
  obtain ⟨l, hl, h⟩ := bind_ok h
  cases h
  rw [validate_ok hp] at hl
  obtain ⟨⟨⟩, -, hl⟩ := bind_ok hl
  obtain ⟨⟨⟩, -, hl⟩ := bind_ok hl
  obtain ⟨⟨⟩, -, hl⟩ := bind_ok hl
  obtain ⟨⟨⟩, -, hl⟩ := bind_ok hl
  rw [(LookupDraft.commit_ok hl).1]
  simp only [LookupDraft.extend, List.nil_append, and_self]

end HybridDraft

end BlackholeQwen.Speculative
