import BlackholeQwen.Lib.Call
import Mathlib.Algebra.Group.Nat.Defs
import Mathlib.Data.Finset.Basic

/-!
# The DRAM admission hold

The hold of `serving_prefill_admission.py`: the bytes an arrival needs (`dramNeed`, `parkedNeed`), the terms a reading
of the pool can be short of (`splitShort`), the predicate the worker parks (`dramPredicate`), the request it is asked
about (`bindingRequest` of `admissionCandidates`), and `dramHold`, which decides whether that request waits
(`dramHold_iff`, `dramPredicate_holds`).

Bytes are integers. What is logged is a `Line`, the values of its template in their order.
-/

namespace BlackholeQwen.Serving

open Lib

/-! ## The need -/

abbrev MEGABYTE : Int := 1000000
abbrev ENGINE_BUILD_BYTES : Int := 800 * MEGABYTE
abbrev ENGINE_BUILD_MARGIN_BYTES : Int := 200 * MEGABYTE
abbrev PREFILL_TRANSIENT_BYTES : Int := 300 * MEGABYTE
abbrev PREFILL_TRANSIENT_FROM : Int := 2048
abbrev PREFILL_RESIDUE_BYTES : Int := 100 * MEGABYTE
abbrev STRANDED_BYTES : Int := 300 * MEGABYTE
abbrev LARGEST_BUFFER_BYTES : Int := 128 * MEGABYTE
abbrev TRACE_CONTIGUOUS_BYTES : Int := 44 * MEGABYTE
abbrev SINGLE_TRACE_BYTES : Int := 4 * MEGABYTE

/-- `SPLIT_TERMS`. -/
inductive SplitTerm
  | free | contiguous | trace
  deriving DecidableEq, Repr

/-- `engine_build_peak`. -/
def engineBuildPeak : Int := ENGINE_BUILD_BYTES + ENGINE_BUILD_MARGIN_BYTES

/-- `_reserve`. -/
def checkReserve (reserve : Int) : Except PyError Int := do
  raiseIf (reserve < 0)
    (.valueError ("A non-negative integer DRAM reserve in bytes is required, got " ++ toString reserve))
  return reserve

/-- `prefill_transient`; `none` is a length that cannot be read. -/
def prefillTransient (promptTokens : Option Int) : Int :=
  if promptTokens.all (PREFILL_TRANSIENT_FROM ≤ ·) then PREFILL_TRANSIENT_BYTES else 0

/-- `dram_need`. -/
def dramNeed (promptTokens : Option Int) (reserve : Int) : Except PyError Int := do
  return engineBuildPeak + prefillTransient promptTokens + (← checkReserve reserve)

/-- The terms of an arrival whose slot holds a parked engine. -/
structure ParkedTerms where
  rebind : Int
  single : Int
  deriving DecidableEq, Repr

/-- `_parked_bytes`. -/
def parkedBytes (terms : ParkedTerms) : Except PyError Int := do
  raiseIf (terms.rebind < 0 ∨ terms.single < 0)
    (.valueError ("Non-negative integer rebind and single-capture bytes are required, got " ++
      toString terms.rebind ++ " and " ++ toString terms.single))
  return terms.rebind + terms.single

/-- `parked_need`. -/
def parkedNeed (promptTokens : Option Int) (reserve : Int) (terms : ParkedTerms) : Except PyError Int := do
  return prefillTransient promptTokens + (← parkedBytes terms) + (← checkReserve reserve)

/-- `parked_trace_need`. -/
def parkedTraceNeed (single : Int) : Int := if single = 0 then 0 else SINGLE_TRACE_BYTES

/-- `contiguous_need`. -/
def contiguousNeed (reserve : Int) : Except PyError Int := do
  return (← checkReserve reserve) + LARGEST_BUFFER_BYTES

/-- `prefill_residue`. -/
def prefillResidue (promptTokens : Option Int) : Int := max (prefillTransient promptTokens) PREFILL_RESIDUE_BYTES

/-- `admission_contiguous_need`. -/
def admissionContiguousNeed (promptTokens : Option Int) (reserve : Int) : Except PyError Int := do
  return (← contiguousNeed reserve) + prefillResidue promptTokens

/-- An optional term of `split_short`: its default where it is not given. -/
def givenTerm (what : String) (default : Except PyError Int) : Option Int → Except PyError Int
  | none => default
  | some term =>
    if term < 0 then .error (.valueError ("A non-negative integer " ++ what ++ " in bytes is required, got " ++
      toString term))
    else .ok term

/-- `split_short`; `none` for `contiguous` and `traceNeed` stands for the defaults. -/
def splitShort (free largest need reserve : Int) (traceLargest contiguous traceNeed : Option Int) :
    Except PyError (List SplitTerm) := do
  let contiguous ← givenTerm "contiguous need" (contiguousNeed reserve) contiguous
  let traceNeed ← givenTerm "trace-region need" (.ok TRACE_CONTIGUOUS_BYTES) traceNeed
  return (if free - STRANDED_BYTES < need then [SplitTerm.free] else []) ++
    (if largest < contiguous then [SplitTerm.contiguous] else []) ++
    (if traceLargest.any (· < traceNeed) then [SplitTerm.trace] else [])

/-! ## The reading -/

/-- One chip of `dram_statistics`. -/
structure ChipStatistics where
  free : Int
  largestFree : Int
  deriving DecidableEq, Repr

/-- What a pool's statistics answer: a list over the chips, or why there is none. -/
structure PoolStatistics where
  dram : Except String (List ChipStatistics)
  trace : Except String (List Int)

/-- `min` of a generator. -/
def minimum : List Int → Except String Int
  | [] => .error "ValueError: min() iterable argument is empty"
  | n :: ns => .ok (ns.foldl min n)

/-- `trace_largest_free`. -/
def traceLargestFree (pool : PoolStatistics) : Except String Int := do minimum (← pool.trace)

/-- The smallest values over the chips. -/
structure DramReading where
  free : Int
  largestFree : Int
  traceLargestFree : Option Int
  deriving DecidableEq, Repr

/-- `dram_reading`. -/
def dramReading (pool : PoolStatistics) : Except String DramReading := do
  let report ← pool.dram
  let free ← minimum (report.map ChipStatistics.free)
  let largest ← minimum (report.map ChipStatistics.largestFree)
  return ⟨free, largest, (traceLargestFree pool).toOption⟩

/-- The `detail` of an answer; `none` where the key is absent or its value is. -/
structure DramDetail where
  largestFree : Option Int
  need : Int
  unavailable : Option String
  free : Option Int
  traceLargestFree : Option Int
  short : Option (List SplitTerm)
  parked : Option ParkedTerms
  deriving DecidableEq, Repr

/-- A predicate that can be registered: whether the prompt is admitted, and the detail. It may raise. -/
abbrev DramPredicate := Option Int → Except PyError (Bool × DramDetail)

/-- The `need` of `admits`: the parked terms' where there are some. -/
def admissionNeed (promptTokens : Option Int) (reserve : Int) : Option ParkedTerms → Except PyError Int
  | none => dramNeed promptTokens reserve
  | some terms => parkedNeed promptTokens reserve terms

/-- The `admits` of `dram_predicate`; `parked` is what the parked terms answer, `.ok none` without them. -/
def admits (pool : PoolStatistics) (reserve : Int) (parked : Except PyError (Option ParkedTerms)) : DramPredicate :=
  fun promptTokens => do
    let terms ← parked
    let need ← admissionNeed promptTokens reserve terms
    match dramReading pool with
    | .error reason => return (true, ⟨none, need, some reason, none, none, none, terms⟩)
    | .ok reading => do
      let contiguous ← admissionContiguousNeed promptTokens reserve
      let short ← splitShort reading.free reading.largestFree need reserve reading.traceLargestFree (some contiguous)
        (terms.map fun terms => parkedTraceNeed terms.single)
      return (short.isEmpty,
        ⟨some reading.largestFree, need, none, some reading.free, reading.traceLargestFree, some short, terms⟩)

/-- `dram_predicate`. -/
def dramPredicate (pool : PoolStatistics) (reserve : Int) (parked : Except PyError (Option ParkedTerms)) :
    Except PyError DramPredicate := do
  let _ ← checkReserve reserve
  return admits pool reserve parked

/-! ## The request it is asked about -/

/-- A request, as the scheduler holds it. What changes while it is held is in the scheduler's state. -/
structure Request where
  requestId : String
  promptTokens : Option Int
  deriving DecidableEq, Repr

/-- The scan of one queue in `admission_candidates`: the requests up to the first that is not blocked, and whether
there is one. -/
def scanQueue (blocked : Request → Bool) : List Request → List Request × Bool
  | [] => ([], false)
  | request :: queue =>
    if blocked request then (request :: (scanQueue blocked queue).1, (scanQueue blocked queue).2)
    else ([request], true)

/-- `admission_candidates`: `skipped_waiting` before `waiting`. -/
def admissionCandidates (blocked : Request → Bool) (skipped : Option (List Request)) (waiting : List Request) :
    List Request :=
  if (scanQueue blocked (skipped.getD [])).2 then (scanQueue blocked (skipped.getD [])).1
  else (scanQueue blocked (skipped.getD [])).1 ++ (scanQueue blocked waiting).1

/-- The order of `length` in `binding_request`: a length that cannot be read is the longest. -/
def shorter : Option Int → Option Int → Bool
  | none, _ => false
  | some _, none => true
  | some m, some n => m < n

/-- `binding_request`: the first of the longest. -/
def bindingRequest : List Request → Option Request
  | [] => none
  | request :: requests =>
    some (requests.foldl
      (fun best next => if shorter best.promptTokens next.promptTokens then next else best) request)

/-! ## The hold -/

/-- A log line, with the values of its template. -/
inductive LogLine
  | unavailable (requestId : String) (reason : Except PyError (Option String))
  | released (prompt : Option Int) (largest need : Int) (requestId : String) (free trace : Option Int)
  | fit (prompt : Option Int) (largest need : Int) (requestId : String) (decodes : Nat) (free trace : Option Int)
  | deferred (prompt : Option Int) (largest need : Int) (requestId : String) (finished : Finset String)
      (free : Option Int) (short : Option (List SplitTerm))
  | lifted (prompt : Option Int) (largest need : Int) (requestId : String) (free : Option Int)
      (short : Option (List SplitTerm))
  | hold (prompt : Option Int) (largest need : Int) (requestId : String) (decodes : Nat) (free trace : Option Int)
      (short : Option (List SplitTerm))
  | carried (finished : Finset String)
  | live
  | decision (partials decodes : Nat) (gateHeld : Bool) (allowed : Nat) (hidden : Bool)

/-- The key of a noted line. -/
inductive NoteKey
  | unavailable (requestId : String)
  | fit (requestId : String)
  | deferred (requestId : String) (finished : Finset String)
  | lifted (requestId : String)
  deriving DecidableEq

/-- The `state` of the wrapper, and what it has logged. -/
structure WrapState where
  live : Bool
  seen : List (Nat × Nat × Bool × Nat × Bool)
  dramHeld : Option (String × Nat)
  dramNoted : Option NoteKey
  log : List LogLine

namespace WrapState

/-- Log a line. -/
def logged (w : WrapState) (line : LogLine) : WrapState := { w with log := w.log ++ [line] }

/-- `_note`. -/
def note (w : WrapState) (key : NoteKey) (line : LogLine) : WrapState :=
  if w.dramNoted = some key then w else { w with dramNoted := some key }.logged line

end WrapState

/-- `dram_hold`, for the candidates of this step and the ids that finished since the last. -/
def dramHold (predicate : Option DramPredicate) (candidates : List Request) (finished : Finset String) (decodes : Nat)
    (w : WrapState) : Bool × WrapState :=
  match predicate, bindingRequest candidates with
  | none, _ => (false, w)
  | some _, none => (false, w)
  | some predicate, some request =>
    match predicate request.promptTokens with
    | .error e => (false, w.note (.unavailable request.requestId) (.unavailable request.requestId (.error e)))
    | .ok (ok, detail) =>
      match detail.largestFree with
      | none =>
        (false, w.note (.unavailable request.requestId) (.unavailable request.requestId (.ok detail.unavailable)))
      | some largest =>
        if ok then
          if w.dramHeld.any (·.1 = request.requestId) then
            (false, { w with dramHeld := none }.logged (.released request.promptTokens largest detail.need
              request.requestId detail.free detail.traceLargestFree))
          else
            (false, w.note (.fit request.requestId) (.fit request.promptTokens largest detail.need request.requestId
              decodes detail.free detail.traceLargestFree))
        else if finished ≠ ∅ then
          (true, w.note (.deferred request.requestId finished) (.deferred request.promptTokens largest detail.need
            request.requestId finished detail.free detail.short))
        else if decodes = 0 then
          (false, { w with dramHeld := none }.note (.lifted request.requestId) (.lifted request.promptTokens largest
            detail.need request.requestId detail.free detail.short))
        else if w.dramHeld ≠ some (request.requestId, decodes) then
          (true, { w with dramHeld := some (request.requestId, decodes) }.logged (.hold request.promptTokens largest
            detail.need request.requestId decodes detail.free detail.traceLargestFree detail.short))
        else (true, w)

/-- The registered predicate refuses the binding request, on a reading. -/
def Refuses (predicate : Option DramPredicate) (candidates : List Request) : Prop :=
  ∃ p request detail, predicate = some p ∧ bindingRequest candidates = some request ∧
    p request.promptTokens = .ok (false, detail) ∧ detail.largestFree ≠ none

/-- **A hold waits for something**: the predicate refuses, and a decode runs or a finish is not reported yet; and then
it holds. -/
theorem dramHold_iff {predicate : Option DramPredicate} {candidates : List Request} {finished : Finset String}
    {decodes : Nat} {w : WrapState} : (dramHold predicate candidates finished decodes w).1 = true ↔
    Refuses predicate candidates ∧ (0 < decodes ∨ finished ≠ ∅) := by
  unfold dramHold Refuses
  cases predicate with
  | none => simp
  | some p =>
    cases hb : bindingRequest candidates with
    | none => simp
    | some request =>
      cases hp : p request.promptTokens with
      | error e => simp [hp]
      | ok answer =>
        obtain ⟨ok, detail⟩ := answer
        cases hl : detail.largestFree with
        | none => simp [hp, hl]
        | some largest =>
          cases ok with
          | true => simp only [hp, hl]; split_ifs <;> simp_all
          | false => simp only [hp, hl]; split_ifs <;> simp_all <;> omega

/-- What the worker registers refuses only on a reading. -/
theorem dramPredicate_reads {pool : PoolStatistics} {reserve : Int} {parked : Except PyError (Option ParkedTerms)}
    {predicate : DramPredicate} {promptTokens : Option Int} {detail : DramDetail}
    (hregistered : dramPredicate pool reserve parked = .ok predicate)
    (hrefused : predicate promptTokens = .ok (false, detail)) : detail.largestFree ≠ none := by
  obtain ⟨_, -, hregistered⟩ := bind_ok hregistered
  cases hregistered
  obtain ⟨terms, -, hrefused⟩ := bind_ok hrefused
  obtain ⟨need, -, hrefused⟩ := bind_ok hrefused
  cases hr : dramReading pool with
  | error reason => rw [hr] at hrefused; cases hrefused
  | ok reading =>
    rw [hr] at hrefused
    obtain ⟨contiguous, -, hrefused⟩ := bind_ok hrefused
    obtain ⟨short, -, hrefused⟩ := bind_ok hrefused
    simp only [pure, Except.pure, Except.ok.injEq, Prod.mk.injEq] at hrefused
    simp [← hrefused.2]

/-- **The worker's predicate holds an arrival by its refusal alone**, as long as something is awaited. -/
theorem dramPredicate_holds {pool : PoolStatistics} {reserve : Int} {parked : Except PyError (Option ParkedTerms)}
    {predicate : DramPredicate} {candidates : List Request} {finished : Finset String} {decodes : Nat} {w : WrapState}
    (hregistered : dramPredicate pool reserve parked = .ok predicate) :
    (dramHold (some predicate) candidates finished decodes w).1 = true ↔
      (∃ request detail, bindingRequest candidates = some request ∧
        predicate request.promptTokens = .ok (false, detail)) ∧ (0 < decodes ∨ finished ≠ ∅) := by
  rw [dramHold_iff]
  refine and_congr_left fun _ => ⟨?_, ?_⟩
  · rintro ⟨_, request, detail, ⟨⟩, hbinding, hrefused, -⟩
    exact ⟨request, detail, hbinding, hrefused⟩
  · rintro ⟨request, detail, hbinding, hrefused⟩
    exact ⟨predicate, request, detail, rfl, hbinding, hrefused, dramPredicate_reads hregistered hrefused⟩

end BlackholeQwen.Serving
