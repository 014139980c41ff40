import BlackholeQwen.Serving.Quarantine
import BlackholeQwen.Serving.RequestContract

/-!
# The prefill-to-decode lifecycle (`serving_lifecycle.py`)

`FastServingLifecycle`: one request in its prefill, behind the shared gate and with a capture open, and the requests
that the worker's hook decodes (`FastWorkerHook`, `serving_worker_hook.py`, as far as its registry goes).

- `execute`: the finished requests are released, decoders and prefill apart; then the step is the next chunk of the
  prefill, an admission, or nothing of the lifecycle's own.
- `sample`: the seed of a prefill. It ends the request, or hands it to the hook.

What the plugin, the factories and the hook's own devices answer is the environment's. The registry of the request
quarantine is shared with the scheduler, which may change it between two calls.
-/

namespace BlackholeQwen.Serving.Lifecycle

open Lib Speculative
open Quarantine (Holder)

/-! ## What a step is -/

/-- A request that a step schedules for the first time; `promptTokens` is the length of its token ids, if it has any. -/
structure NewRequestData where
  reqId : String
  promptTokens : Option Nat
  numComputedTokens : Int
  mmFeatures : Bool
  promptEmbeds : Bool
  loraRequest : Bool
  samplingParams : SamplingParams

/-- `SchedulerOutput`, as far as the lifecycle reads it. -/
structure ScheduledStep where
  newReqs : List NewRequestData
  cachedReqIds : List String
  finishedReqIds : List String
  numScheduledTokens : Dict String Nat
  totalNumScheduledTokens : Nat
  specDecodeTokens : Dict String (List Token)
  structuredOutput : Bool
  encoderInputs : Dict String (List Nat)

/-- The step, as the quarantine reads it. -/
def ScheduledStep.quarantined (step : ScheduledStep) : Quarantine.ScheduledStep :=
  ⟨some step.finishedReqIds, some step.cachedReqIds, some step.numScheduledTokens⟩

/-- `ModelRunnerOutput`. -/
structure RunnerOutput where
  reqIds : List String
  sampledTokenIds : List (List Token)
  deriving DecidableEq, Repr

/-- The runner's state of a request. -/
structure RequestState where
  reqId : String
  outputTokenIds : List Token
  maxTokens : Option Int
  promptTokens : Option Nat

/-! ## What the lifecycle holds -/

/-- A prefill capture, by identity; `segmentSlot` is the slot that its last chunk wrote, where it says. -/
structure Capture where
  ident : Nat
  complete : Bool
  closed : Bool
  recordsPrefixRoute : Bool
  segmentSlot : Option Int
  deriving DecidableEq, Repr

/-- The bridge of a request. -/
structure Bridge where
  requestId : String
  deriving DecidableEq, Repr

/-- `FastWorkerHook`, by identity: its bridges, and whether it has a packed step. -/
structure Hook where
  ident : Nat
  bridges : Dict String Bridge
  packedStep : Bool
  closed : Bool

/-- What a lifecycle is built with. `quarantine` is the shared registry, if its consumer could be installed. -/
structure Config where
  eosIds : List Token
  outputBudget : Int
  maxModelLen : Option Nat
  anyRequest : Bool
  sticky : Bool
  packedStep : Bool
  idle : Bool
  quarantine : Option Holder

/-- `FastServingLifecycle`; `gate` is the shared holder's `held`, and `notes` counts the residents displaced by a
prefill. -/
structure FastServingLifecycle where
  config : Config
  requestId : Option String
  gate : Option String
  capture : Option Capture
  decodingId : Option String
  decodingIds : List String
  hook : Option Hook
  prefillPending : Bool
  failed : Bool
  closed : Bool
  ignoreEos : Bool
  chunkInFlight : Bool
  chunkDeferred : List Bool
  refused : Option String
  quarantine : Option Holder
  displaced : Nat

/-- `committed_grant`: a grant, with its boundary if that is an integer. -/
abbrev Grant : Type := Option (Option Int)

/-- What a chunk leaves: the plugin's output, and the capture's ledger and slot. -/
structure ChunkRan where
  output : Option RunnerOutput
  complete : Bool
  segmentSlot : Option Int

/-- What `_execute` meets. `legacy` is `QWEN_FAST_LEGACY_CONTINUATION_ORDER`; `detach` and `hookClose` are what the
hook's own devices answer to a detach and a close; `chunk` runs a chunk under the capture, whole or a segment. -/
structure ExecuteEnv where
  legacy : Bool
  detach : String → Except PyError Unit
  hookClose : Except PyError Unit
  captureClose : Except PyError Unit
  idle : Except PyError Unit
  grant : String → Grant
  captureFactory : Nat → Nat → Except PyError Capture
  chunk : Bool → Except PyError ChunkRan
  execute : Except PyError (Option RunnerOutput)

/-- Why a bridge is not built: this request's own terms, or anything else. -/
inductive BridgeFailure
  | refused (reason : String)
  | raised (e : PyError)
  deriving DecidableEq, Repr

/-- What `_sample` meets. The runner keeps its states under their requests' ids; `hookInit` stands for the checks of the
runner that a new hook makes. -/
structure SampleEnv where
  sample : Except PyError (Option RunnerOutput)
  captureClose : Except PyError Unit
  states : String → Except PyError RequestState
  bridge : RequestState → Except BridgeFailure Unit
  hookInit : Except PyError Unit
  hookIdent : Nat
  keyed : ∀ id state, states id = .ok state → state.reqId = id

/-! ## The hook -/

namespace Hook

/-- `FastWorkerHook.attach`. -/
def attach (h : Hook) (bridge : Bridge) : Call Hook Unit :=
  Call.attempt (do
      raiseIf (h.closed = true ∨ h.packedStep = false)
        (.valueError "An open hook on the same runner with a packed step is required")
      raiseIf (bridge.requestId ∈ h.bridges.keys) (.valueError "That request already decodes on this worker")) h
    fun _ => Call.ret { h with bridges := h.bridges.set bridge.requestId bridge } ()

/-- `FastWorkerHook.detach`; `released` is what closing the bridge and releasing its proposals answer. -/
def detach (h : Hook) (id : String) (released : Except PyError Unit) : Call Hook Unit :=
  Call.attempt (raiseIf (id ∉ h.bridges.keys) (.valueError "That request does not decode on this worker")) h fun _ =>
  Call.attempt released { h with bridges := h.bridges.erase id } fun _ =>
  Call.ret { h with bridges := h.bridges.erase id } ()

/-- `FastWorkerHook.close`. -/
def close (h : Hook) (released : Except PyError Unit) : Call Hook Unit :=
  if h.closed then Call.ret h ()
  else Call.attempt released h fun _ => Call.ret { h with bridges := Dict.empty, closed := true } ()

end Hook

namespace FastServingLifecycle

/-- `FastServingLifecycle.__init__`. -/
def start (config : Config) : FastServingLifecycle where
  config
  requestId := none
  gate := none
  capture := none
  decodingId := none
  decodingIds := []
  hook := none
  prefillPending := false
  failed := false
  closed := false
  ignoreEos := false
  chunkInFlight := false
  chunkDeferred := []
  refused := none
  quarantine := if config.anyRequest then config.quarantine else none
  displaced := 0

/-- The setter of `request_id`, which publishes the gate. -/
def setRequestId (s : FastServingLifecycle) (id : Option String) : FastServingLifecycle :=
  { s with requestId := id, gate := id }

/-- `_check`. -/
def check (s : FastServingLifecycle) : Except PyError Unit :=
  raiseIf (s.failed = true ∨ s.closed = true) (.valueError "Serving lifecycle is failed or closed")

/-- `except BaseException: self.failed = True; raise`. -/
def orFail {α : Type} (c : Call FastServingLifecycle α) : Call FastServingLifecycle α :=
  match c.result with
  | .ok _ => c
  | .error e => Call.throw { c.obj with failed := true } e

/-- `note_prefill`. -/
def notePrefill (s : FastServingLifecycle) : FastServingLifecycle := { s with displaced := s.displaced + 1 }

/-! ## Releases -/

/-- `self.hook.detach` of a finished decoder, while others decode; `decoding_id` then names the last of them. -/
def detachDecoder (env : ExecuteEnv) (s : FastServingLifecycle) (h : Hook) (id : String) :
    Call FastServingLifecycle Unit :=
  ((h.detach id (env.detach id)).onto fun h => { s with hook := some h }).bind fun s _ =>
  if s.decodingId = some id then
    match s.decodingIds.getLast? with
    | none => Call.throw s .indexError
    | some last => Call.ret { s with decodingId := some last } ()
  else Call.ret s ()

/-- One finished decoder. -/
def finishDecoder (env : ExecuteEnv) (s : FastServingLifecycle) (id : String) : Call FastServingLifecycle Unit :=
  match s.hook with
  | none => Call.ret { s with decodingIds := s.decodingIds.erase id } ()
  | some h =>
    if 1 < h.bridges.items.length then detachDecoder env { s with decodingIds := s.decodingIds.erase id } h id
    else Call.ret { s with decodingIds := s.decodingIds.erase id } ()

/-- The finished decoders in turn. -/
def finishDecoders (env : ExecuteEnv) : List String → FastServingLifecycle → Call FastServingLifecycle Unit
  | [], s => Call.ret s ()
  | id :: ids, s => (finishDecoder env s id).bind fun s _ => finishDecoders env ids s

/-- The decoding side, cleared. -/
def clearDecoders (s : FastServingLifecycle) : FastServingLifecycle :=
  { s with hook := none, decodingId := none, decodingIds := [] }

/-- `_release_decoders`. -/
def releaseDecoders (env : ExecuteEnv) (s : FastServingLifecycle) : Call FastServingLifecycle Unit :=
  match s.hook with
  | none => Call.ret s.clearDecoders ()
  | some h => ((h.close env.hookClose).onto fun h => { s with hook := some h }).bind fun s _ =>
      Call.ret s.clearDecoders ()

/-- The prefill side, cleared. -/
def clearPrefill (s : FastServingLifecycle) : FastServingLifecycle := { s with capture := none }.setRequestId none

/-- `_release_prefill`. -/
def releasePrefill (env : ExecuteEnv) (s : FastServingLifecycle) : Call FastServingLifecycle Unit :=
  Call.attempt (raiseIf (s.prefillPending = true) (.valueError "Cannot release a pending native sampler")) s fun _ =>
  match s.capture with
  | none => Call.ret s.clearPrefill ()
  | some _ => Call.attempt env.captureClose s fun _ => Call.ret s.clearPrefill ()

/-- Whether an id that may be absent is among the finished. -/
def isFinished (id : Option String) (finished : List String) : Bool := id.any (· ∈ finished)

/-- The two releases of a step: of its finished decoders, and of its prefill. -/
def releaseFinished (env : ExecuteEnv) (s : FastServingLifecycle) (finished : List String) :
    Call FastServingLifecycle Unit :=
  (finishDecoders env (s.decodingIds.filter (· ∈ finished)) s).bind fun s _ =>
  (if isFinished s.decodingId finished = true ∧ s.decodingIds = [] then releaseDecoders env s
    else Call.ret s ()).bind fun s _ =>
  if isFinished s.requestId finished then releasePrefill env s else Call.ret s ()

/-! ## Chunks -/

/-- `repr` of a bool. -/
def reprBool (b : Bool) : String := if b then "True" else "False"

/-- `_after_prefill_chunk`. -/
def afterPrefillChunk (s : FastServingLifecycle) (result : Option RunnerOutput) (whole : Bool) :
    Call FastServingLifecycle (Option RunnerOutput) :=
  Call.attempt (raiseIf (s.chunkDeferred.getLast?.any (· ≠ result.isNone))
    (.valueError ("Prefill chunk changed sampler behaviour mid-prompt: deferred=" ++ reprBool result.isNone ++
      " after " ++ reprList (s.chunkDeferred.map reprBool)))) s fun _ =>
  if whole = false ∧ s.capture.any Capture.complete = false then
    Call.ret { s with chunkDeferred := s.chunkDeferred ++ [result.isNone], chunkInFlight := true } result
  else if result.isNone = false then
    Call.throw { s with chunkDeferred := s.chunkDeferred ++ [result.isNone] }
      (.valueError "Expected native prefill deferred sampler on the final chunk")
  else Call.ret { s with
    chunkDeferred := s.chunkDeferred ++ [result.isNone]
    chunkInFlight := false
    prefillPending := true } none

/-- The capture after a chunk. -/
def ranChunk (s : FastServingLifecycle) (ran : ChunkRan) : FastServingLifecycle :=
  { s with capture := s.capture.map fun c => { c with complete := ran.complete, segmentSlot := ran.segmentSlot } }

/-- `_displace_after_continuation`: only a chunk that wrote another slot than 0 leaves the resident alone. -/
def displaceAfterContinuation (s : FastServingLifecycle) : FastServingLifecycle :=
  if (s.capture.bind Capture.segmentSlot).any (0 < ·) then s else s.notePrefill

/-- `_is_continuation`. -/
def isContinuation (s : FastServingLifecycle) (step : ScheduledStep) : Bool :=
  s.capture.any (fun c => !c.complete) && step.newReqs.isEmpty &&
    s.requestId.any (fun id => step.cachedReqIds = [id]) && step.totalNumScheduledTokens ≠ 0

/-- `_continue_prefill`. -/
def continuePrefill (env : ExecuteEnv) (s : FastServingLifecycle) :
    Call FastServingLifecycle (Option RunnerOutput) :=
  Call.attempt (env.chunk false) s fun ran =>
  (s.ranChunk ran).displaceAfterContinuation.afterPrefillChunk ran.output false

/-! ## Admission -/

/-- `RESUME_CHUNK`. -/
abbrev RESUME_CHUNK : Nat := 2048

/-- Why a hit is not one that a grant vouches for. -/
def resumeProblems (grant : Grant) (computed prompt : Int) (chunk : Option Nat) : List String :=
  (match grant with
    | none => ["no committed prefix grant"]
    | some granted => if granted = some computed then [] else
        ["the committed grant is at Q=" ++ (granted.map toString).getD "None"]) ++
  (if computed % RESUME_CHUNK ≠ 0 then ["R is not a " ++ toString RESUME_CHUNK ++ "-token boundary"] else []) ++
  (if prompt - RESUME_CHUNK < computed then
    ["R is above the prompt minus " ++ toString RESUME_CHUNK ++ " (the draft window)"] else []) ++
  (if chunk.map Int.ofNat = some (prompt - computed) then [] else
    ["the step carries " ++ (chunk.map toString).getD "None" ++ " of the " ++ toString (prompt - computed) ++
      " tokens after R"])

/-- `_granted_resume`: where a new request's prefill resumes. -/
def grantedResume (env : ExecuteEnv) (new : NewRequestData) (chunk : Option Nat) : Except PyError Int :=
  match new.promptTokens with
  | none => .ok 0
  | some prompt =>
    if new.numComputedTokens ≤ 0 then .ok 0
    else if resumeProblems (env.grant new.reqId) new.numComputedTokens prompt chunk ≠ [] then
      .error (.valueError ("Sticky admission refused: req=" ++ reprId new.reqId ++ " R=" ++
        toString new.numComputedTokens ++ " P=" ++ toString prompt ++ ": " ++
        "; ".intercalate (resumeProblems (env.grant new.reqId) new.numComputedTokens prompt chunk)))
    else .ok new.numComputedTokens

/-- A request that is admitted: where its prefill resumes, its first chunk, and its refused sampling contract, if
the quarantine will end it. -/
structure Admitted where
  new : NewRequestData
  prompt : Nat
  resume : Nat
  chunk : Nat
  refused : Option String

/-- `repr` of a dict of lists. -/
def reprDict {α : Type} [ToString α] (d : Dict String (List α)) : String :=
  "\x7b" ++ ", ".intercalate (d.items.map fun p => reprId p.1 ++ ": " ++ reprList (p.2.map toString)) ++ "\x7d"

/-- The refusal of a step that is no admission. -/
def stepShapeError (s : FastServingLifecycle) (step : ScheduledStep) : PyError :=
  .valueError ("Fast serving requires one complete fresh prefill: prefill_slot=" ++
    (s.requestId.map reprId).getD "None" ++ " new=" ++ reprList (step.newReqs.map fun new => reprId new.reqId) ++
    " cached=" ++ reprList (step.cachedReqIds.map reprId) ++ " spec=" ++ reprDict step.specDecodeTokens ++
    " structured=" ++ reprBool step.structuredOutput ++ " encoder=" ++ reprDict step.encoderInputs)

/-- The shape of an admitting step. -/
def stepShape (s : FastServingLifecycle) (step : ScheduledStep) : Except PyError NewRequestData :=
  match step.newReqs with
  | [new] =>
    if s.requestId ≠ none ∨ step.cachedReqIds ≠ [] ∨ step.specDecodeTokens.items ≠ [] ∨ step.structuredOutput = true ∨
        step.encoderInputs.items ≠ [] then .error (s.stepShapeError step)
    else .ok new
  | _ => .error (s.stepShapeError step)

/-- The refusal of a request that cannot be admitted. -/
def requestShapeError (step : ScheduledStep) (new : NewRequestData) : PyError :=
  .valueError ("Text-only uncached prompt, whole or first chunk, required: computed=" ++
    toString new.numComputedTokens ++ " chunk=" ++
    ((step.numScheduledTokens.get? new.reqId).map toString).getD "None" ++ " prompt=" ++
    (new.promptTokens.map toString).getD "None" ++ " total=" ++ toString step.totalNumScheduledTokens)

/-- The shape of an admitted request. -/
def requestShape (step : ScheduledStep) (new : NewRequestData) (resume : Int) : Except PyError (Nat × Nat) :=
  match new.promptTokens, step.numScheduledTokens.get? new.reqId with
  | some prompt, some chunk =>
    if new.numComputedTokens ≠ resume ∨ new.mmFeatures = true ∨ new.promptEmbeds = true ∨ new.loraRequest = true ∨
        step.numScheduledTokens.keys ≠ [new.reqId] ∨ ¬(1 ≤ chunk ∧ (chunk : Int) ≤ prompt - resume) ∨
        step.totalNumScheduledTokens ≠ chunk then .error (requestShapeError step new)
    else .ok (prompt, chunk)
  | _, _ => .error (requestShapeError step new)

/-- A refusal of the sampling contract: the engine's, or with a quarantine the request's own. -/
def samplingRefusal (s : FastServingLifecycle) (new : NewRequestData) (prompt : Nat) :
    Except PyError (Option String) :=
  match validateRequestSampling s.config.outputBudget new.samplingParams prompt s.config.eosIds with
  | .ok () => .ok none
  | .error (.valueError text) =>
    if s.quarantine.isSome then .ok (some ("sampling contract: " ++ text)) else .error (.valueError text)
  | .error e => .error e

/-- What an admission checks. -/
def admission (env : ExecuteEnv) (s : FastServingLifecycle) (step : ScheduledStep) : Except PyError Admitted := do
  let new ← s.stepShape step
  let resume ← if s.config.sticky then grantedResume env new (step.numScheduledTokens.get? new.reqId) else .ok 0
  let shape ← requestShape step new resume
  let refused ← s.samplingRefusal new shape.1
  return ⟨new, shape.1, resume.toNat, shape.2, refused⟩

/-- The request is in its prefill. -/
def admitted (s : FastServingLifecycle) (a : Admitted) : FastServingLifecycle :=
  { s with ignoreEos := a.new.samplingParams.ignoreEos, refused := a.refused }.setRequestId (some a.new.reqId)

/-- It holds its capture. -/
def capturing (s : FastServingLifecycle) (c : Capture) : FastServingLifecycle :=
  { s with capture := some { c with closed := false } }

/-- Its first chunk is about to run. -/
def opened (s : FastServingLifecycle) (c : Capture) : FastServingLifecycle :=
  { s.capturing c with chunkDeferred := [], chunkInFlight := false }.notePrefill

/-- A step that admits a request, and runs its first chunk. -/
def admitFresh (env : ExecuteEnv) (s : FastServingLifecycle) (step : ScheduledStep) :
    Call FastServingLifecycle (Option RunnerOutput) :=
  Call.attempt (s.admission env step) s fun a =>
  Call.attempt (env.captureFactory a.prompt a.resume) (s.admitted a) fun c =>
  Call.attempt (raiseIf (a.resume ≠ 0 ∧ c.recordsPrefixRoute = false)
    (.valueError ("Sticky admission of " ++ reprId a.new.reqId ++ " at " ++ toString a.resume ++
      ": the prefill capture does not record the prefix-reuse route"))) ((s.admitted a).capturing c) fun _ =>
  Call.attempt (env.chunk (a.resume + a.chunk = a.prompt)) ((s.admitted a).opened c) fun ran =>
  (((s.admitted a).opened c).ranChunk ran).afterPrefillChunk ran.output (a.resume + a.chunk = a.prompt)

/-! ## `_execute` -/

/-- Requests that were registered and are still scheduled. -/
def checkStranded (s : FastServingLifecycle) (step : ScheduledStep) : Call FastServingLifecycle Unit :=
  match s.quarantine with
  | none => Call.ret s ()
  | some h =>
    Call.attempt (raiseIf ((h.unconsumed step.quarantined).1 ≠ [])
      (.valueError ("Quarantined requests " ++ reprList ((h.unconsumed step.quarantined).1.map reprId) ++
        " are still scheduled: the scheduler never aborted them (request quarantine consumer on " ++
        h.installed.getD "None" ++ " did not run)"))) { s with quarantine := some (h.unconsumed step.quarantined).2 }
      fun _ => Call.ret { s with quarantine := some (h.unconsumed step.quarantined).2 } ()

/-- An idle moment: nothing decodes, nothing is in its prefill, and the step schedules nothing. -/
def idleMoment (env : ExecuteEnv) (s : FastServingLifecycle) (step : ScheduledStep) : Call FastServingLifecycle Unit :=
  if s.config.idle = true ∧ s.hook.isNone = true ∧ s.requestId = none ∧ step.totalNumScheduledTokens = 0 then
    Call.attempt env.idle s fun _ => Call.ret s ()
  else Call.ret s ()

/-- `self.original_execute`. -/
def delegate (env : ExecuteEnv) (s : FastServingLifecycle) : Call FastServingLifecycle (Option RunnerOutput) :=
  Call.attempt env.execute s fun out => Call.ret s out

/-- A step that no branch before has taken. -/
def admitStep (env : ExecuteEnv) (s : FastServingLifecycle) (step : ScheduledStep) :
    Call FastServingLifecycle (Option RunnerOutput) :=
  if env.legacy = true ∧ s.isContinuation step = true then continuePrefill env s
  else if step.newReqs = [] then delegate env s
  else admitFresh env s step

/-- Where a step goes once what finished is released. -/
def route (env : ExecuteEnv) (s : FastServingLifecycle) (step : ScheduledStep) :
    Call FastServingLifecycle (Option RunnerOutput) :=
  if env.legacy = false ∧ s.isContinuation step = true then continuePrefill env s
  else if s.hook.isSome then
    if step.newReqs = [] ∨ step.cachedReqIds ≠ [] then delegate env s else admitStep env s step
  else if step.totalNumScheduledTokens = 0 then delegate env s
  else admitStep env s step

/-- The `try` of `_execute`. -/
def executeBody (env : ExecuteEnv) (s : FastServingLifecycle) (step : ScheduledStep) :
    Call FastServingLifecycle (Option RunnerOutput) :=
  Call.attempt (raiseIf (s.prefillPending = true)
    (.valueError "Prefill must be sampled before another execution")) s fun _ =>
  (checkStranded s step).bind fun s _ =>
  (releaseFinished env s step.finishedReqIds).bind fun s _ =>
  (idleMoment env s step).bind fun s _ => route env s step

/-- `_execute`. -/
def execute (env : ExecuteEnv) (s : FastServingLifecycle) (step : ScheduledStep) :
    Call FastServingLifecycle (Option RunnerOutput) :=
  Call.attempt s.check s fun _ => orFail (executeBody env s step)

/-! ## `_sample` -/

/-- `_end_at_seed`. -/
def endAtSeed (env : SampleEnv) (s : FastServingLifecycle) (result : Option RunnerOutput) :
    Call FastServingLifecycle (Option RunnerOutput) :=
  match s.capture with
  | none => Call.throw s .attributeError
  | some _ => Call.attempt env.captureClose s fun _ => Call.ret { s.clearPrefill with refused := none } result

/-- `_quarantine_request`. -/
def quarantineRequest (env : SampleEnv) (s : FastServingLifecycle) (result : Option RunnerOutput) (reason : String) :
    Call FastServingLifecycle (Option RunnerOutput) :=
  match s.quarantine with
  | none => Call.throw s .attributeError
  | some h => ((h.register (match s.requestId with | some id => .str id | none => .other) reason).onto
      fun h => { s with quarantine := some h }).bind fun s _ => endAtSeed env s result

/-- `_terminal_at_seed`. -/
def terminalAtSeed (s : FastServingLifecycle) (state : RequestState) : Option String :=
  match state.maxTokens with
  | some n =>
    if n ≤ state.outputTokenIds.length then some ("max_tokens " ++ toString n ++ " reached at the first token")
    else contextAtSeed
  | none => contextAtSeed
where
  contextAtSeed : Option String :=
    match state.promptTokens, s.config.maxModelLen with
    | some prompt, some len =>
      if len ≤ prompt + state.outputTokenIds.length then
        some ("context " ++ toString len ++ " reached at the first token")
      else none
    | _, _ => none

/-- The hook that decodes a request: a new one, or the one there is. -/
def attachBridge (env : SampleEnv) (s : FastServingLifecycle) (bridge : Bridge) : Call FastServingLifecycle Unit :=
  match s.hook with
  | none => Call.attempt env.hookInit s fun _ =>
    Call.ret { s with
      hook := some ⟨env.hookIdent, Dict.empty.set bridge.requestId bridge, s.config.packedStep, false⟩ } ()
  | some h => (h.attach bridge).onto fun h => { s with hook := some h }

/-- The request leaves its prefill and decodes. -/
def handOver (s : FastServingLifecycle) : FastServingLifecycle :=
  { s with decodingIds := s.decodingIds ++ s.requestId.toList, decodingId := s.requestId, capture := none }.setRequestId
    none

/-- The hand-over of a prefilled request to the hook. -/
def bridgeRequest (env : SampleEnv) (s : FastServingLifecycle) (state : RequestState) (result : Option RunnerOutput) :
    Call FastServingLifecycle (Option RunnerOutput) :=
  match env.bridge state with
  | .error (.refused reason) =>
    if s.quarantine.isSome then quarantineRequest env s result ("bridge refused: " ++ reason)
    else Call.throw s (.valueError reason)
  | .error (.raised e) => Call.throw s e
  | .ok () => (attachBridge env s ⟨state.reqId⟩).bind fun s _ => Call.ret s.handOver result

/-- What a seed comes to. -/
def seeded (env : SampleEnv) (s : FastServingLifecycle) (state : RequestState) (result : Option RunnerOutput) :
    Call FastServingLifecycle (Option RunnerOutput) :=
  if state.outputTokenIds.head?.any (· ∈ s.config.eosIds) = true ∧ s.ignoreEos = false then
    match s.capture with
    | none => Call.throw s .attributeError
    | some _ => Call.attempt env.captureClose s fun _ => Call.ret s.clearPrefill result
  else if s.config.anyRequest = true ∧ (s.terminalAtSeed state).isSome = true then endAtSeed env s result
  else match s.config.anyRequest, s.refused with
    | true, some reason => quarantineRequest env s result reason
    | _, _ => bridgeRequest env s state result

/-- The seed that a sampled prefill commits. -/
def checkSeed (env : SampleEnv) (s : FastServingLifecycle) (result : Option RunnerOutput) :
    Except PyError RequestState :=
  match result, s.requestId with
  | some out, some id =>
    if out.reqIds = [id] then
      match out.sampledTokenIds with
      | [[token]] => env.states id >>= fun state =>
        if state.outputTokenIds ≠ [token] then
          .error (.valueError "Native prefill output and runner state disagree")
        else .ok state
      | _ => .error (.valueError "Exactly one committed prefill seed required")
    else .error (.valueError "Exactly one committed prefill seed required")
  | _, _ => .error (.valueError "Exactly one committed prefill seed required")

/-- The `try` of `_sample`. -/
def sampleBody (env : SampleEnv) (s : FastServingLifecycle) (grammar : Bool) :
    Call FastServingLifecycle (Option RunnerOutput) :=
  if s.chunkInFlight then Call.attempt env.sample s fun out => Call.ret s out
  else
    Call.attempt (raiseIf (s.prefillPending = false ∨ grammar = true)
      (.valueError "Only an unstructured pending prefill may use native sampling")) s fun _ =>
    Call.attempt env.sample s fun result =>
    Call.attempt (checkSeed env { s with prefillPending := false } result) { s with prefillPending := false }
      fun state => seeded env { s with prefillPending := false } state result

/-- `_sample`; `grammar` says that there is a grammar output. -/
def sample (env : SampleEnv) (s : FastServingLifecycle) (grammar : Bool) :
    Call FastServingLifecycle (Option RunnerOutput) :=
  Call.attempt s.check s fun _ => orFail (sampleBody env s grammar)

end FastServingLifecycle

end BlackholeQwen.Serving.Lifecycle
