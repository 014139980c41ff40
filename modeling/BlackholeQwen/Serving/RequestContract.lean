import BlackholeQwen.Lib.Call
import Mathlib.Algebra.Order.Field.Rat
import Mathlib.Data.Rat.Cast.Order
import Mathlib.Tactic.NormNum

/-!
# The request contract at the edge and in the engine

Three validators read a request's sampling parameters: `enforce_request` at the edge (`serving_c2_contract.py`), which
coerces them to the greedy contract and clamps `max_tokens`; `validate_request_sampling` (`serving_fast_policy.py`) and
`request_budget` (`serving_request_factory.py`) in the engine, after the prefill. What the edge lets through, the engine
takes (`edge_implies_engine`).
-/

namespace BlackholeQwen.Serving

open Lib

/-! ## The parameters -/

/-- vLLM's `SamplingParams`, as far as the three read them; `primaryEos` is `_eos_token_id`. -/
structure SamplingParams where
  n : Int
  temperature : Rat
  topP : Rat
  topK : Int
  minP : Rat
  presencePenalty : Rat
  frequencyPenalty : Rat
  repetitionPenalty : Rat
  seed : Option Int
  maxTokens : Option Int
  minTokens : Int
  ignoreEos : Bool
  logprobs : Option Int
  promptLogprobs : Option Int
  stop : List String
  stopTokenIds : List Int
  structuredOutputs : Option String
  logitBias : List (Int × Rat)
  allowedTokenIds : List Int
  badWords : List String
  primaryEos : Option Int
  deriving DecidableEq

/-- A profile's value where a number is due: an integer, another number (a bool counts as one), or neither. The texts
are their `repr`. -/
inductive Setting
  | int (n : Int)
  | real (x : Rat) (text : String)
  | other (text : String)
  deriving DecidableEq

/-- `repr`. -/
def Setting.text : Setting → String
  | .int n => toString n
  | .real _ text => text
  | .other text => text

/-- An integer from 1 to the output budget, the check on `min_answer_tokens` and on `default_max_tokens`. -/
def Setting.upTo (name : String) (budget : Int) (value : Setting) : Except PyError Int :=
  let refused := PyError.valueError (name ++ " must be an integer from 1 to the output budget " ++ toString budget ++
    ", got " ++ value.text)
  match value with
  | .int n => if 1 ≤ n ∧ n ≤ budget then .ok n else .error refused
  | .real _ _ => .error refused
  | .other _ => .error refused

/-- An argument of `min`. -/
def Setting.number : Setting → Except PyError Rat
  | .int n => .ok n
  | .real x _ => .ok x
  | .other _ => .error .typeError

/-- What `request_limits` reads of a profile: `int()` of `QWEN_FAST_OUTPUT_BUDGET`, the three optional limits, and
`max-model-len` where that is an integer. -/
structure RequestProfile where
  budget : Except PyError Int
  maxPromptTokens : Option Setting
  minAnswerTokens : Option Setting
  defaultMaxTokens : Option Setting
  maxModelLen : Option Int

/-- What `request_limits` returns. -/
structure RequestLimits where
  budget : Int
  maxPromptTokens : Option Setting
  minAnswerTokens : Option Setting
  defaultMaxTokens : Option Int

/-! ## The edge -/

/-- The answer room that every admitted prompt keeps: `min_answer_tokens`, or the whole budget. -/
def answerRoom (budget : Int) : Option Setting → Except PyError Int
  | none => .ok budget
  | some value => value.upTo "min_answer_tokens" budget

/-- `prompt_room`. -/
def promptRoom (maxModelLen budget : Int) (maxPromptTokens minAnswerTokens : Option Setting) : Except PyError Rat := do
  let room := maxModelLen - (← answerRoom budget minAnswerTokens)
  match maxPromptTokens with
  | none => return room
  | some value => return min (room : Rat) (← value.number)

/-- `omitted_max_tokens`. -/
def omittedMaxTokens (maxTokens promptTokens : Option Int) (maxModelLen : Int) : Bool :=
  match maxTokens with
  | none => true
  | some maxTokens => promptTokens.any fun promptTokens => maxTokens = maxModelLen - promptTokens

/-- The text of the prompt limit's `ContractError`; `%d` cuts a limit that is no integer. -/
def promptLimitText (promptTokens : Int) (room : Rat) (budget : Int) (minAnswerTokens : Option Setting) : String :=
  "prompt of " ++ toString promptTokens ++ " tokens exceeds the " ++ toString (room.num.tdiv room.den) ++
    "-token prompt limit of this model (" ++
    match minAnswerTokens with
    | none => toString budget ++ "-token output budget)"
    | some value => "at least " ++ value.text ++ " tokens of answer room)"

/-- The refusals of `enforce_request`, in order. -/
def enforceRefusals (p : SamplingParams) (promptTokens : Option Int) (maxModelLen : Int) (limits : RequestLimits)
    (eosIds : List Int) : Except PyError Unit := do
  raiseIf (p.n ≠ 1) (.valueError "n must be 1 on this model")
  raiseIf (p.logprobs ≠ none ∨ p.promptLogprobs ≠ none) (.valueError "logprobs are not supported on this model")
  raiseIf (p.structuredOutputs ≠ none)
    (.valueError ("structured output (response_format, or tool_choice \"required\" or a named tool) is not " ++
      "supported on this model; use tool_choice \"auto\""))
  raiseIf (p.logitBias ≠ [] ∨ p.allowedTokenIds ≠ [] ∨ p.badWords ≠ [])
    (.valueError "logit_bias, allowed_token_ids and bad_words are not supported on this model")
  raiseIf (p.stop ≠ []) (.valueError "stop strings are not supported on this model")
  raiseIf (p.minTokens ≠ 0) (.valueError "min_tokens is not supported on this model")
  raiseIf (¬∀ token ∈ p.stopTokenIds, token ∈ eosIds)
    (.valueError "stop_token_ids other than the model end-of-sequence tokens are not supported")
  let room ← promptRoom maxModelLen limits.budget limits.maxPromptTokens limits.minAnswerTokens
  match promptTokens with
  | none => return ()
  | some promptTokens =>
    raiseIf (room < promptTokens) (.valueError (promptLimitText promptTokens room limits.budget limits.minAnswerTokens))

/-- The greedy contract. -/
def greedy (p : SamplingParams) : SamplingParams :=
  { p with
    temperature := 0, topP := 1, topK := 0, minP := 0, presencePenalty := 0, frequencyPenalty := 0
    repetitionPenalty := 1, seed := none }

/-- `limit`: the budget, within what the prompt leaves of the context. -/
def tokenLimit (budget maxModelLen : Int) (promptTokens : Option Int) : Int :=
  match promptTokens with
  | none => budget
  | some promptTokens => min budget (maxModelLen - promptTokens)

/-- `max_tokens` under the limit. -/
def clampedMaxTokens (limit : Int) : Option Int → Int
  | none => limit
  | some maxTokens => if limit < maxTokens then limit else maxTokens

/-- The `max_tokens` of a coerced request. -/
def coercedMaxTokens (maxTokens promptTokens : Option Int) (maxModelLen limit : Int) : Option Int → Int
  | some default =>
    if omittedMaxTokens maxTokens promptTokens maxModelLen then min default limit else clampedMaxTokens limit maxTokens
  | none => clampedMaxTokens limit maxTokens

/-- `enforce_request`. -/
def enforceRequest (p : SamplingParams) (promptTokens : Option Int) (maxModelLen : Int) (limits : RequestLimits)
    (eosIds : List Int) : Except PyError SamplingParams := do
  enforceRefusals p promptTokens maxModelLen limits eosIds
  return { greedy p with
    maxTokens := some (coercedMaxTokens p.maxTokens promptTokens maxModelLen
      (tokenLimit limits.budget maxModelLen promptTokens) limits.defaultMaxTokens) }

/-- The check on `default_max_tokens`. -/
def checkDefault (budget : Int) : Option Setting → Except PyError (Option Int)
  | none => .ok none
  | some value => do return some (← value.upTo "default_max_tokens" budget)

/-- The check on the room, made where `max-model-len` is an integer. -/
def checkRoom (profile : RequestProfile) (budget : Int) : Except PyError Unit :=
  match profile.maxModelLen with
  | none => .ok ()
  | some maxModelLen => do
    let room ← promptRoom maxModelLen budget profile.maxPromptTokens profile.minAnswerTokens
    raiseIf (room < 1) (.valueError "The profile admits no prompt at all")

/-- `request_limits`. -/
def requestLimits (profile : RequestProfile) : Except PyError RequestLimits := do
  let budget ← profile.budget
  let default ← checkDefault budget profile.defaultMaxTokens
  checkRoom profile budget
  return ⟨budget, profile.maxPromptTokens, profile.minAnswerTokens, default⟩

/-! ## The engine -/

/-- `MAXIMUM_PROMPT_TOKENS`. -/
def MAXIMUM_PROMPT_TOKENS : Int := 1048576

/-- `validate_request_sampling`, at an `OUTPUT_BUDGET`. -/
def validateRequestSampling (outputBudget : Int) (p : SamplingParams) (promptTokens : Int) (eosIds : List Int) :
    Except PyError Unit := do
  raiseIf ((¬∀ token ∈ eosIds, 0 ≤ token) ∨ (¬∀ token ∈ p.stopTokenIds, token ∈ eosIds) ∨
      ¬∀ token ∈ p.primaryEos, token ∈ eosIds)
    (.valueError "Only target-snapshot EOS stop tokens are supported")
  raiseIf (promptTokens < 1 ∨ MAXIMUM_PROMPT_TOKENS < promptTokens ∨ p.temperature ≠ 0 ∨ p.n ≠ 1 ∨
      (¬∃ maxTokens ∈ p.maxTokens, 1 ≤ maxTokens ∧ maxTokens ≤ outputBudget) ∨ p.minTokens ≠ 0 ∨ p.logprobs ≠ none ∨
      p.promptLogprobs ≠ none ∨ p.presencePenalty ≠ 0 ∨ p.frequencyPenalty ≠ 0 ∨ p.repetitionPenalty ≠ 1 ∨
      p.stop ≠ [] ∨ p.structuredOutputs ≠ none ∨ p.logitBias ≠ [] ∨ p.allowedTokenIds ≠ [] ∨ p.badWords ≠ [])
    (.valueError ("Fast serving requires a greedy single-sequence request with an unpenalised sampler and at most " ++
      toString outputBudget ++ " output tokens"))

/-- `request_budget`, at an `OUTPUT_BUDGET`. -/
def requestBudget (outputBudget : Int) (p : SamplingParams) (promptTokens capacity : Int) (ceiling : Option Int) :
    Except PyError Int := do
  let ceiling := ceiling.getD outputBudget
  match p.maxTokens with
  | none => .error (.valueError
      "Integer max_tokens, prompt length, page capacity and ceiling required for a request budget")
  | some maxTokens => do
    raiseIf (maxTokens < 1 ∨ ceiling < 1 ∨ ¬(1 ≤ promptTokens ∧ promptTokens < capacity))
      (.valueError ("A request budget needs max_tokens >= 1 and a prompt inside its page capacity; max_tokens=" ++
        toString maxTokens ++ " prompt=" ++ toString promptTokens ++ " capacity=" ++ toString capacity))
    return min maxTokens (min ceiling (capacity - promptTokens))

/-! ## What the checks leave -/

theorem Setting.upTo_ok {name : String} {budget : Int} {value : Setting} {n : Int}
    (h : value.upTo name budget = .ok n) : value = .int n ∧ 1 ≤ n ∧ n ≤ budget := by
  cases value with
  | int m =>
    simp only [Setting.upTo] at h
    split at h
    · rename_i hm
      cases h
      exact ⟨rfl, hm⟩
    · cases h
  | real x text => cases h
  | other text => cases h

theorem answerRoom_ok {budget answer : Int} {minAnswerTokens : Option Setting} (hpos : 1 ≤ budget)
    (h : answerRoom budget minAnswerTokens = .ok answer) :
    1 ≤ answer ∧ answer ≤ budget ∧ (∀ n, minAnswerTokens = some (.int n) → n = answer) ∧
      (minAnswerTokens = none → budget = answer) := by
  cases minAnswerTokens with
  | none =>
    cases h
    exact ⟨hpos, le_rfl, nofun, fun _ => rfl⟩
  | some value =>
    obtain ⟨rfl, h1, h2⟩ := Setting.upTo_ok h
    refine ⟨h1, h2, fun n hn => ?_, nofun⟩
    cases hn
    rfl

/-- `max_prompt_tokens` can only lower the room. -/
theorem promptRoom_ok {maxModelLen budget : Int} {maxPromptTokens minAnswerTokens : Option Setting} {room : Rat}
    (h : promptRoom maxModelLen budget maxPromptTokens minAnswerTokens = .ok room) :
    ∃ answer, answerRoom budget minAnswerTokens = .ok answer ∧ room ≤ ((maxModelLen - answer : Int) : Rat) := by
  obtain ⟨answer, hanswer, h⟩ := bind_ok h
  refine ⟨answer, hanswer, ?_⟩
  cases maxPromptTokens with
  | none =>
    cases h
    exact le_rfl
  | some value =>
    obtain ⟨x, -, h⟩ := bind_ok h
    cases h
    exact min_le_left _ _

theorem requestLimits_ok {profile : RequestProfile} {limits : RequestLimits} (h : requestLimits profile = .ok limits) :
    limits.maxPromptTokens = profile.maxPromptTokens ∧ limits.minAnswerTokens = profile.minAnswerTokens ∧
      ∀ default ∈ limits.defaultMaxTokens, 1 ≤ default ∧ default ≤ limits.budget := by
  obtain ⟨budget, -, h⟩ := bind_ok h
  obtain ⟨default, hdefault, h⟩ := bind_ok h
  obtain ⟨-, -, h⟩ := bind_ok h
  cases h
  refine ⟨rfl, rfl, fun n hn => ?_⟩
  cases hn
  cases hvalue : profile.defaultMaxTokens with
  | none => rw [hvalue] at hdefault; cases hdefault
  | some value =>
    rw [hvalue] at hdefault
    obtain ⟨m, hm, hdefault⟩ := bind_ok hdefault
    cases hdefault
    exact (Setting.upTo_ok hm).2

/-- What the edge refused nothing of. -/
structure Enforced (p : SamplingParams) (eosIds : List Int) : Prop where
  n : p.n = 1
  logprobs : p.logprobs = none
  promptLogprobs : p.promptLogprobs = none
  structured : p.structuredOutputs = none
  logitBias : p.logitBias = []
  allowed : p.allowedTokenIds = []
  badWords : p.badWords = []
  stop : p.stop = []
  minTokens : p.minTokens = 0
  stopTokens : ∀ token ∈ p.stopTokenIds, token ∈ eosIds

theorem enforceRefusals_ok {p : SamplingParams} {promptTokens maxModelLen : Int} {limits : RequestLimits}
    {eosIds : List Int} (h : enforceRefusals p (some promptTokens) maxModelLen limits eosIds = .ok ()) :
    Enforced p eosIds ∧
      ∃ room, promptRoom maxModelLen limits.budget limits.maxPromptTokens limits.minAnswerTokens = .ok room ∧
        (promptTokens : Rat) ≤ room := by
  obtain ⟨_, hn, h⟩ := bind_ok h
  obtain ⟨_, hlogprobs, h⟩ := bind_ok h
  obtain ⟨_, hstructured, h⟩ := bind_ok h
  obtain ⟨_, hbias, h⟩ := bind_ok h
  obtain ⟨_, hstop, h⟩ := bind_ok h
  obtain ⟨_, hmin, h⟩ := bind_ok h
  obtain ⟨_, htokens, h⟩ := bind_ok h
  obtain ⟨room, hroom, h⟩ := bind_ok h
  simp only [raiseIf_ok, not_or, not_not] at hn hlogprobs hstructured hbias hstop hmin htokens h
  exact ⟨⟨hn, hlogprobs.1, hlogprobs.2, hstructured, hbias.1, hbias.2.1, hbias.2.2, hstop, hmin, htokens⟩,
    room, hroom, not_lt.mp h⟩

/-! ## The clamp -/

theorem clampedMaxTokens_bounds {limit : Int} {maxTokens : Option Int} (hlimit : 1 ≤ limit)
    (hasked : ∀ asked ∈ maxTokens, 1 ≤ asked) :
    1 ≤ clampedMaxTokens limit maxTokens ∧ clampedMaxTokens limit maxTokens ≤ limit ∧
      ∀ asked ∈ maxTokens, clampedMaxTokens limit maxTokens ≤ asked := by
  cases maxTokens with
  | none => exact ⟨hlimit, le_rfl, nofun⟩
  | some asked =>
    have h1 := hasked asked rfl
    simp only [clampedMaxTokens, Option.mem_some_iff, forall_eq']
    split <;> omega

/-- The coerced `max_tokens` is at least 1, within the limit and what the client asked. -/
theorem coercedMaxTokens_bounds {maxTokens default : Option Int} {promptTokens maxModelLen limit : Int}
    (hlimit : 1 ≤ limit) (hroom : limit ≤ maxModelLen - promptTokens) (hasked : ∀ asked ∈ maxTokens, 1 ≤ asked)
    (hdefault : ∀ n ∈ default, 1 ≤ n) :
    1 ≤ coercedMaxTokens maxTokens (some promptTokens) maxModelLen limit default ∧
      coercedMaxTokens maxTokens (some promptTokens) maxModelLen limit default ≤ limit ∧
      ∀ asked ∈ maxTokens, coercedMaxTokens maxTokens (some promptTokens) maxModelLen limit default ≤ asked := by
  cases default with
  | none => exact clampedMaxTokens_bounds hlimit hasked
  | some n =>
    have hn := hdefault n rfl
    simp only [coercedMaxTokens]
    split
    · rename_i homitted
      refine ⟨le_min hn hlimit, min_le_right _ _, fun asked hmem => ?_⟩
      cases hmem
      -- A client that asked for the whole context left is read as omitting it.
      have hfull : asked = maxModelLen - promptTokens := by simpa [omittedMaxTokens] using homitted
      exact hfull ▸ le_trans (min_le_right _ _) hroom
    · exact clampedMaxTokens_bounds hlimit hasked

/-! ## The engine's checks -/

theorem validateRequestSampling_ok {p : SamplingParams} {outputBudget promptTokens maxTokens : Int} {eosIds : List Int}
    (hp : Enforced p eosIds) (heos : ∀ token ∈ eosIds, 0 ≤ token) (hprimary : ∀ token ∈ p.primaryEos, token ∈ eosIds)
    (hprompt : 1 ≤ promptTokens ∧ promptTokens ≤ MAXIMUM_PROMPT_TOKENS)
    (hmax : 1 ≤ maxTokens ∧ maxTokens ≤ outputBudget) :
    validateRequestSampling outputBudget { greedy p with maxTokens := some maxTokens } promptTokens eosIds =
      .ok () := by
  have hids : raiseIf ((¬∀ token ∈ eosIds, 0 ≤ token) ∨ (¬∀ token ∈ p.stopTokenIds, token ∈ eosIds) ∨
      ¬∀ token ∈ p.primaryEos, token ∈ eosIds)
      (.valueError "Only target-snapshot EOS stop tokens are supported") = .ok () := by
    rw [raiseIf_ok, not_or, not_or, not_not, not_not, not_not]
    exact ⟨heos, hp.stopTokens, hprimary⟩
  refine (congrArg (· >>= _) hids).trans ?_
  simp only [greedy]
  refine raiseIf_ok.mpr ?_
  simp only [hp.n, hp.logprobs, hp.promptLogprobs, hp.structured, hp.logitBias, hp.allowed, hp.badWords, hp.stop,
    hp.minTokens, Option.mem_some_iff, exists_eq_left', ne_eq, not_true_eq_false, or_false, false_or]
  omega

theorem requestBudget_ok {p : SamplingParams} {outputBudget promptTokens capacity maxTokens : Int}
    (hasked : p.maxTokens = some maxTokens) (hmax : 1 ≤ maxTokens ∧ maxTokens ≤ outputBudget)
    (hprompt : 1 ≤ promptTokens) (hroom : promptTokens + maxTokens ≤ capacity) :
    requestBudget outputBudget p promptTokens capacity none = .ok maxTokens := by
  simp only [requestBudget, hasked, Option.getD_none]
  rw [raiseIf, if_neg (by omega)]
  have hmin : min maxTokens (min outputBudget (capacity - promptTokens)) = maxTokens := by omega
  exact congrArg Except.ok hmin

/-- **Main result.** What `enforce_request` returns, the engine takes: the sampling parameters, and their `max_tokens`
as the budget at any capacity that holds the context. -/
theorem edge_implies_engine {profile : RequestProfile} {limits : RequestLimits} {p p' : SamplingParams}
    {maxModelLen outputBudget promptTokens : Int} {eosIds : List Int}
    (hlimits : requestLimits profile = .ok limits) (hbudget : limits.budget = outputBudget)
    (hpositive : 1 ≤ outputBudget)
    (hmaximum : ∀ room,
      promptRoom maxModelLen limits.budget profile.maxPromptTokens profile.minAnswerTokens = .ok room →
      room ≤ MAXIMUM_PROMPT_TOKENS)
    (heos : ∀ token ∈ eosIds, 0 ≤ token)
    (hprimary : ∀ token ∈ p.primaryEos, token ∈ eosIds) (hasked : ∀ asked ∈ p.maxTokens, 1 ≤ asked)
    (hprompt : 1 ≤ promptTokens) (h : enforceRequest p (some promptTokens) maxModelLen limits eosIds = .ok p') :
    validateRequestSampling outputBudget p' promptTokens eosIds = .ok () ∧
      ∃ maxTokens, p'.maxTokens = some maxTokens ∧ 1 ≤ maxTokens ∧ maxTokens ≤ outputBudget ∧
        promptTokens + maxTokens ≤ maxModelLen ∧
        (∀ n, profile.minAnswerTokens = some (.int n) → n ≤ tokenLimit limits.budget maxModelLen (some promptTokens)) ∧
        (profile.minAnswerTokens = none → outputBudget ≤ tokenLimit limits.budget maxModelLen (some promptTokens)) ∧
        (∀ asked ∈ p.maxTokens, maxTokens ≤ asked) ∧
        ∀ capacity, maxModelLen ≤ capacity →
          requestBudget outputBudget p' promptTokens capacity none = .ok maxTokens := by
  obtain ⟨hmaxPrompt, hminAnswer, hdefault⟩ := requestLimits_ok hlimits
  obtain ⟨_, hrefusals, h⟩ := bind_ok h
  cases h
  obtain ⟨henforced, room, hroom, hfits⟩ := enforceRefusals_ok hrefusals
  rw [hmaxPrompt, hminAnswer] at hroom
  obtain ⟨answer, hanswer, hle⟩ := promptRoom_ok hroom
  obtain ⟨hanswer1, hanswerBudget, hmin, hwhole⟩ := answerRoom_ok (hbudget ▸ hpositive) hanswer
  -- The prompt leaves the answer room, and stays below the engine's own maximum.
  have hleaves : promptTokens ≤ maxModelLen - answer := by exact_mod_cast hfits.trans hle
  have hbelow : promptTokens ≤ MAXIMUM_PROMPT_TOKENS := by exact_mod_cast hfits.trans (hmaximum room hroom)
  have hlimit : tokenLimit limits.budget maxModelLen (some promptTokens) =
      min limits.budget (maxModelLen - promptTokens) := rfl
  have hanswerLimit : answer ≤ tokenLimit limits.budget maxModelLen (some promptTokens) := by omega
  have hbudgetLimit : tokenLimit limits.budget maxModelLen (some promptTokens) ≤ outputBudget := by omega
  have hcontext : tokenLimit limits.budget maxModelLen (some promptTokens) ≤ maxModelLen - promptTokens := by omega
  obtain ⟨h1, h2, h3⟩ := coercedMaxTokens_bounds (hanswer1.trans hanswerLimit) hcontext hasked
    fun n hn => (hdefault n hn).1
  have hmax := And.intro h1 (h2.trans hbudgetLimit)
  refine ⟨validateRequestSampling_ok henforced heos hprimary ⟨hprompt, hbelow⟩ hmax, _, rfl, hmax.1, hmax.2, by omega,
    fun n hn => ?_, fun hn => ?_, h3, fun capacity hcapacity => requestBudget_ok rfl hmax hprompt (by omega)⟩
  · exact hmin n hn ▸ hanswerLimit
  · have hall := hwhole hn
    omega

/-- A request of a served profile: its whole context is asked for, and the default answers. -/
theorem edge_implies_engine_sample :
    let profile : RequestProfile := ⟨.ok 16384, some (.int 123136), some (.int 8192), some (.int 8192), some 131328⟩
    let limits : RequestLimits := ⟨16384, some (.int 123136), some (.int 8192), some 8192⟩
    let p : SamplingParams := ⟨1, 7 / 10, 1, 0, 0, 0, 0, 1, some 3, some 31328, 0, false, none, none, [], [7], none,
      [], [], [], some 7⟩
    let p' : SamplingParams := { greedy p with maxTokens := some 8192 }
    requestLimits profile = .ok limits ∧ enforceRequest p (some 100000) 131328 limits [7] = .ok p' ∧
      validateRequestSampling 16384 p' 100000 [7] = .ok () := by
  intro profile limits p p'
  have henforced : enforceRequest p (some 100000) 131328 limits [7] = .ok p' := by decide +kernel
  have hlimits : requestLimits profile = .ok limits := rfl
  refine ⟨hlimits, henforced, (edge_implies_engine hlimits rfl ?_ ?_ ?_ ?_ ?_ ?_ henforced).1⟩
  · decide
  · intro room hroom
    cases hroom
    norm_num [MAXIMUM_PROMPT_TOKENS]
  · decide
  · decide
  · decide
  · decide

end BlackholeQwen.Serving
