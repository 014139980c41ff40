import BlackholeQwen.Serving.VllmContract

/-!
# The runner's view of a request

`serving_vllm_state.py` over the state of the pinned TT runner: the cached request states and the rows of the persistent
batch. Python's objects are references into a heap, since the code compares states and output lists by identity and a
row shares its output list with its request: `states` holds the cached states, `outputs` the output lists.

`apply_ok` says all that an applied output does; a refused one leaves the runner as it was (`apply_refused`).
-/

namespace BlackholeQwen.Serving

open Lib Speculative

/-- The identity of a cached request state. -/
abbrev StateRef := Nat

/-- The identity of an output list. -/
abbrev ListRef := Nat

/-- `CachedRequestState`. -/
structure CachedRequestState where
  reqId : String
  promptTokenIds : Option (List Token)
  outputTokenIds : ListRef
  numComputedTokens : Nat
  blockIds : List (List Nat)
  deriving DecidableEq, Repr

/-- The entries of the batch's arrays at one index: `req_output_token_ids`, `num_tokens`, `num_computed_tokens_cpu` and
the row of `token_ids_cpu`. -/
structure BatchRow where
  outputTokenIds : Option ListRef
  numTokens : Nat
  numComputedTokens : Nat
  tokenIds : List Token
  deriving DecidableEq, Repr

/-- The row with an output's tokens written behind its text. -/
def BatchRow.advance (row : BatchRow) (output : CommittedOutput) : BatchRow :=
  { row with
    tokenIds := row.tokenIds.take row.numTokens ++ output.tokenIds ++
      row.tokenIds.drop (row.numTokens + output.tokenIds.length)
    numTokens := row.numTokens + output.tokenIds.length
    numComputedTokens := output.position }

/-- `InputBatch`: no two requests share a row. `width` is `token_ids_cpu.shape[1]`. -/
structure InputBatch where
  numReqs : Nat
  reqIdToIndex : Dict String Nat
  rows : List BatchRow
  width : Nat
  apart : reqIdToIndex.values.Nodup
  deriving DecidableEq

/-- The runner. -/
structure Runner where
  requests : Dict String StateRef
  states : StateRef → CachedRequestState
  outputs : ListRef → List Token
  inputBatch : InputBatch
  maxModelLen : Nat
  vocabSize : Int

namespace Runner

/-- The output tokens of a cached state. -/
def outputOf (runner : Runner) (state : StateRef) : List Token := runner.outputs (runner.states state).outputTokenIds

/-- The row of a captured state, where the batch holds `users` rows, the row is among them and shares the state's output
list, and the prompt is known. The two errors are those of the two checks. -/
def boundRow (runner : Runner) (captured : StateRef) (requestId : String) (users : Nat) (identity binding : PyError) :
    Except PyError (Nat × BatchRow × List Token) := do
  raiseIf (runner.requests.get? requestId ≠ some captured ∨ runner.inputBatch.numReqs ≠ users) identity
  match runner.inputBatch.reqIdToIndex.get? requestId with
  | none => .error binding
  | some index =>
    raiseIf (users ≤ index) binding
    match runner.inputBatch.rows[index]? with
    | none => .error .indexError
    | some row =>
      raiseIf (row.outputTokenIds ≠ some (runner.states captured).outputTokenIds) binding
      match (runner.states captured).promptTokenIds with
      | none => .error binding
      | some prompt => .ok (index, row, prompt)

/-- `validate_runner_reservation`. -/
def validateRunnerReservation (runner : Runner) (captured : StateRef) (ticket : BlockTicket) (users : Nat) :
    Except PyError Unit := do
  let (_, row, prompt) ← runner.boundRow captured ticket.requestId users
    (.valueError "One live captured request and stable output binding required")
    (.valueError "One live captured request and stable output binding required")
  raiseIf (row.numTokens ≠ ticket.position + 1 ∨
      row.numTokens ≠ prompt.length + (runner.outputOf captured).length ∨
      row.numComputedTokens ≠ ticket.position ∨ (runner.states captured).numComputedTokens ≠ ticket.position)
    (.valueError "Runner and prepared target frontier differ before verification")
  raiseIf (runner.maxModelLen < row.numTokens + ticket.rows ∨
      runner.inputBatch.width < row.numTokens + ticket.rows)
    (.valueError "Runner storage cannot hold the maximum committed block")

/-- The tokens `apply_committed_output` accepts: bounded committed vocabulary ids, or a terminal empty output. -/
def tokensAllowed (runner : Runner) (output : CommittedOutput) : Except PyError Unit :=
  raiseIf (16 < output.tokenIds.length ∨ output.tokenIds.any (fun t => !inVocab runner.vocabSize t) = true ∨
      (output.cancelled = true ∧ output.tokenIds ≠ []) ∨ (output.tokenIds = [] ∧ output.finished = false))
    (.valueError "Only bounded committed global token IDs or terminal empty output allowed")

/-- The checks of `apply_committed_output`. The frontier is compared with one token added on both sides, since a count
of the source may go below zero. -/
def applyGuard (runner : Runner) (captured : StateRef) (output : CommittedOutput) (users : Nat) :
    Except PyError (Nat × BatchRow) := do
  let (index, row, prompt) ← runner.boundRow captured output.requestId users
    (.valueError "One live request with unchanged captured identity required")
    (.valueError "Stable single-request token row and shared output-list binding required")
  runner.tokensAllowed output
  raiseIf (row.numTokens ≠ prompt.length + (runner.outputOf captured).length ∨
      row.numComputedTokens + 1 ≠ row.numTokens ∨ (runner.states captured).numComputedTokens + 1 ≠ row.numTokens ∨
      output.position + 1 ≠ row.numTokens + output.tokenIds.length)
    (.valueError "Committed output must advance the exact pre-step target frontier once")
  raiseIf (runner.maxModelLen < row.numTokens + output.tokenIds.length ∨
      runner.inputBatch.width < row.numTokens + output.tokenIds.length)
    (.valueError "Committed block exceeds reserved runner token storage")
  return (index, row)

/-- The writes of `apply_committed_output`. -/
def write (runner : Runner) (captured : StateRef) (index : Nat) (row : BatchRow) (output : CommittedOutput) : Runner :=
  { runner with
    inputBatch := { runner.inputBatch with
      rows := runner.inputBatch.rows.set index (row.advance output) }
    outputs := Function.update runner.outputs (runner.states captured).outputTokenIds
      (runner.outputOf captured ++ output.tokenIds)
    states := Function.update runner.states captured
      { runner.states captured with numComputedTokens := output.position } }

/-- `apply_committed_output`. -/
def applyCommittedOutput (runner : Runner) (captured : StateRef) (output : CommittedOutput) (users : Nat) :
    Call Runner Unit :=
  Call.attempt (runner.applyGuard captured output users) runner fun (index, row) =>
  if output.tokenIds = [] then Call.ret runner ()
  else Call.ret (runner.write captured index row output) ()

/-! ## What the calls do -/

variable {runner : Runner} {captured : StateRef} {requestId : String} {users : Nat} {prompt : List Token}

/-- The row of a captured state in the batch. -/
structure Bound (runner : Runner) (captured : StateRef) (requestId : String) (users index : Nat) (row : BatchRow)
    (prompt : List Token) : Prop where
  identity : runner.requests.get? requestId = some captured
  count : runner.inputBatch.numReqs = users
  placed : runner.inputBatch.reqIdToIndex.get? requestId = some index
  within : index < users
  entry : runner.inputBatch.rows[index]? = some row
  shared : row.outputTokenIds = some (runner.states captured).outputTokenIds
  known : (runner.states captured).promptTokenIds = some prompt

/-- A bound row is what it says. -/
theorem boundRow_ok {identity binding : PyError} {index : Nat} {row : BatchRow}
    (h : runner.boundRow captured requestId users identity binding = .ok (index, row, prompt)) :
    Bound runner captured requestId users index row prompt := by
  obtain ⟨⟨⟩, hid, h⟩ := bind_ok h
  simp only [raiseIf_ok, not_or, ne_eq, not_not] at hid
  split at h
  · cases h
  rename_i i hi
  obtain ⟨⟨⟩, hle, h⟩ := bind_ok h
  rw [raiseIf_ok, Nat.not_le] at hle
  split at h
  · cases h
  rename_i w hw
  obtain ⟨⟨⟩, hshared, h⟩ := bind_ok h
  rw [raiseIf_ok, ne_eq, not_not] at hshared
  split at h
  · cases h
  rename_i p hp
  cases h
  exact ⟨hid.1, hid.2, hi, hle, hw, hshared, hp⟩

/-- A validated reservation: the row is bound, and all counters are at the ticket. -/
theorem validate_ok {ticket : BlockTicket} (h : runner.validateRunnerReservation captured ticket users = .ok ()) :
    ∃ index row prompt, Bound runner captured ticket.requestId users index row prompt ∧
      row.numTokens = ticket.position + 1 ∧ row.numTokens = prompt.length + (runner.outputOf captured).length ∧
      row.numComputedTokens = ticket.position ∧ (runner.states captured).numComputedTokens = ticket.position := by
  obtain ⟨⟨index, row, prompt⟩, hrow, h⟩ := bind_ok h
  obtain ⟨⟨⟩, hfront, -⟩ := bind_ok h
  simp only [raiseIf_ok, not_or, ne_eq, not_not] at hfront
  exact ⟨index, row, prompt, boundRow_ok hrow, hfront⟩

/-- An accepted output: the row is bound, and the output continues its frontier. -/
theorem applyGuard_ok {output : CommittedOutput} {index : Nat} {row : BatchRow}
    (h : runner.applyGuard captured output users = .ok (index, row)) :
    ∃ prompt, Bound runner captured output.requestId users index row prompt ∧
      row.numTokens = prompt.length + (runner.outputOf captured).length ∧
      row.numComputedTokens + 1 = row.numTokens ∧ (runner.states captured).numComputedTokens + 1 = row.numTokens ∧
      output.position + 1 = row.numTokens + output.tokenIds.length := by
  obtain ⟨⟨i, r, prompt⟩, hrow, h⟩ := bind_ok h
  obtain ⟨⟨⟩, -, h⟩ := bind_ok h
  obtain ⟨⟨⟩, hfront, h⟩ := bind_ok h
  obtain ⟨⟨⟩, -, h⟩ := bind_ok h
  cases h
  simp only [raiseIf_ok, not_or, ne_eq, not_not] at hfront
  exact ⟨prompt, boundRow_ok hrow, hfront⟩

/-- `apply_committed_output` refuses and changes nothing, or was accepted and wrote its tokens, if it has any. -/
theorem apply_cases (runner : Runner) (captured : StateRef) (output : CommittedOutput) (users : Nat) :
    (∃ e, runner.applyGuard captured output users = .error e ∧
      runner.applyCommittedOutput captured output users = Call.throw runner e) ∨
    ∃ index row, runner.applyGuard captured output users = .ok (index, row) ∧
      runner.applyCommittedOutput captured output users =
        Call.ret (if output.tokenIds = [] then runner else runner.write captured index row output) () := by
  unfold applyCommittedOutput
  rcases Call.attempt_cases (runner.applyGuard captured output users) runner _ with ⟨e, he, h⟩ | ⟨⟨i, r⟩, hg, h⟩
  · exact Or.inl ⟨e, he, h⟩
  · refine Or.inr ⟨i, r, hg, ?_⟩
    rw [h]
    split_ifs <;> rfl

/-- **A refused output leaves the runner exactly as it was.** -/
theorem apply_refused {output : CommittedOutput} {e : PyError}
    (h : (runner.applyCommittedOutput captured output users).result = .error e) :
    (runner.applyCommittedOutput captured output users).obj = runner := by
  rcases runner.apply_cases captured output users with ⟨e', -, hc⟩ | ⟨i, r, -, hc⟩
  · rw [hc]; rfl
  · rw [hc] at h; cases h

/-- The output list of a written state. -/
@[simp] theorem outputOf_write (index : Nat) (row : BatchRow) (output : CommittedOutput) :
    (runner.write captured index row output).outputOf captured = runner.outputOf captured ++ output.tokenIds := by
  simp [write, outputOf]

/-- The runner and the session agree on a request whose text is this prompt and this output: the row spells the text,
both counters are at its last token. -/
structure InStep (runner : Runner) (captured : StateRef) (requestId : String) (prompt output : List Token)
    (position : Nat) : Prop where
  agree : ∃ index row, Bound runner captured requestId 1 index row prompt ∧
    row.tokenIds.take row.numTokens = prompt ++ runner.outputOf captured ∧
    row.numTokens = prompt.length + (runner.outputOf captured).length ∧ row.numComputedTokens + 1 = row.numTokens ∧
    (runner.states captured).numComputedTokens + 1 = row.numTokens ∧ position + 1 = row.numTokens
  written : runner.outputOf captured = output

/-- **An applied output advances the runner in step**: a row that spells the text spells the longer text afterwards, and
both counters are at the output's position. -/
theorem apply_ok {output : CommittedOutput}
    (h : (runner.applyCommittedOutput captured output 1).result = .ok ())
    (hprompt : (runner.states captured).promptTokenIds = some prompt)
    (htext : ∀ index row, Bound runner captured output.requestId 1 index row prompt →
      row.numTokens = prompt.length + (runner.outputOf captured).length →
      row.tokenIds.take row.numTokens = prompt ++ runner.outputOf captured) :
    InStep (runner.applyCommittedOutput captured output 1).obj captured output.requestId prompt
      (runner.outputOf captured ++ output.tokenIds) output.position := by
  rcases runner.apply_cases captured output 1 with ⟨e, -, hc⟩ | ⟨index, row, hguard, hc⟩
  · rw [hc] at h; cases h
  obtain ⟨p, hb, hlen, hrow, hstate, hpos⟩ := applyGuard_ok hguard
  obtain rfl : p = prompt := Option.some.inj (hb.known.symm.trans hprompt)
  have hspell := htext index row hb hlen
  rw [hc, Call.ret_obj]
  by_cases hnil : output.tokenIds = []
  · rw [if_pos hnil]
    refine ⟨⟨index, row, hb, hspell, hlen, hrow, hstate, ?_⟩, by simp [hnil]⟩
    simpa [hnil] using hpos
  · rw [if_neg hnil]
    obtain ⟨h1, h2, h3, h4, h5, h6, h7⟩ := hb
    have hset : (runner.inputBatch.rows.set index (row.advance output))[index]? = some (row.advance output) :=
      List.getElem?_set_self (List.getElem?_eq_some_iff.mp h5).1
    refine ⟨⟨index, row.advance output, ⟨h1, h2, h3, h4, hset, ?_, ?_⟩, ?_, ?_, hpos, ?_, hpos⟩,
      outputOf_write index row output⟩
    · simpa [write, BatchRow.advance] using h6
    · simpa [write] using h7
    · have hfull : (row.tokenIds.take row.numTokens).length = row.numTokens := by
        rw [hspell, List.length_append, hlen]
      rw [outputOf_write, ← List.append_assoc, ← hspell]
      exact List.take_left' (by rw [List.length_append, hfull]; rfl)
    · rw [outputOf_write, List.length_append]
      show row.numTokens + output.tokenIds.length = _
      omega
    · simpa [write, BatchRow.advance] using hpos

end Runner

end BlackholeQwen.Serving
