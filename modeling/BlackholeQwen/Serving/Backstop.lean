import BlackholeQwen.Serving.DramAdmission

/-!
# The backstop after the prefill (`dram_backstop` of `serving_request_factory.py`)

The admission asks a reading of the pool for three terms before a prompt's prefill (`admits_iff`), the backstop for
three after it (`dramBackstop_iff`). The contiguous term carries the prefill's residue, the free term only its
transient. So a long prompt, whose transient is its residue, is never refused after the prefill that it was admitted
for; a short one is, where the free bytes leave less than the residue (`admitted_kept_iff`).
-/

namespace BlackholeQwen.Serving

open Lib

/-! ## The need -/

/-- `backstop_need`. -/
def backstopNeed (reserve : Int) : Except PyError Int := do
  return engineBuildPeak + (← checkReserve reserve)

/-- `parked_backstop_need`. -/
def parkedBackstopNeed (reserve : Int) (terms : ParkedTerms) : Except PyError Int := do
  return (← parkedBytes terms) + (← checkReserve reserve)

/-- The `need` of `dram_backstop`: the parked terms' where there are some. -/
def requiredNeed (reserve : Int) : Option ParkedTerms → Except PyError Int
  | none => backstopNeed reserve
  | some terms => parkedBackstopNeed reserve terms

/-- A term's name. -/
def SplitTerm.text : SplitTerm → String
  | .free => "free"
  | .contiguous => "contiguous"
  | .trace => "trace"

/-- The text of the backstop's `RequestRefused`. -/
def refusedText (reading : DramReading) (need : Int) (short : List SplitTerm) (parked : Bool) : String :=
  "DRAM backstop: short of " ++ String.intercalate "+" (short.map SplitTerm.text) ++ " on the smallest chip (free " ++
    toString reading.free ++ " bytes less " ++ toString STRANDED_BYTES ++ " stranded, largest free block " ++
    toString reading.largestFree ++ ", trace region largest free block " ++
    (reading.traceLargestFree.map toString).getD "None" ++ ") for the " ++
    (if parked then "parked rebind peak" else "engine build peak") ++ " plus the reserve (" ++ toString need ++
    " bytes)"

/-- `dram_backstop`: the largest free block, or `none` where the pool cannot be read. -/
def dramBackstop (pool : PoolStatistics) (reserve : Int) (parked : Option ParkedTerms) :
    Except PyError (Option Int) := do
  let need ← requiredNeed reserve parked
  match dramReading pool with
  | .error _ => return none
  | .ok reading => do
    let short ← splitShort reading.free reading.largestFree need reserve reading.traceLargestFree none
      (parked.map fun terms => parkedTraceNeed terms.single)
    raiseIf (short ≠ []) (.valueError (refusedText reading need short parked.isSome))
    return some reading.largestFree

/-! ## The terms -/

/-- What an arrival takes once its prefill has run: the engine's build, or the rebind of a parked one. -/
def arrivalBytes : Option ParkedTerms → Int
  | none => engineBuildPeak
  | some terms => terms.rebind + terms.single

/-- The trace-region block of an arrival. -/
def arrivalTrace : Option ParkedTerms → Int
  | none => TRACE_CONTIGUOUS_BYTES
  | some terms => parkedTraceNeed terms.single

/-- The reserve and the parked terms are non-negative: no check raises. -/
structure Priced (reserve : Int) (parked : Option ParkedTerms) : Prop where
  reserve : 0 ≤ reserve
  parked : ∀ terms ∈ parked, 0 ≤ terms.rebind ∧ 0 ≤ terms.single

/-- A reading holds the three terms. -/
structure DramReading.Holds (r : DramReading) (need contiguous trace : Int) : Prop where
  free : need ≤ r.free - STRANDED_BYTES
  contiguous : contiguous ≤ r.largestFree
  trace : ∀ largest ∈ r.traceLargestFree, trace ≤ largest

theorem checkReserve_ok {reserve n : Int} : checkReserve reserve = .ok n ↔ 0 ≤ reserve ∧ n = reserve := by
  unfold checkReserve
  by_cases h : reserve < 0
  · simp [raiseIf, h, bind, Except.bind]
  · simp [raiseIf, h, bind, Except.bind, pure, Except.pure, eq_comm, not_lt.mp h]

theorem parkedBytes_ok {terms : ParkedTerms} {n : Int} :
    parkedBytes terms = .ok n ↔ (0 ≤ terms.rebind ∧ 0 ≤ terms.single) ∧ n = terms.rebind + terms.single := by
  unfold parkedBytes
  by_cases h : terms.rebind < 0 ∨ terms.single < 0
  · simp only [raiseIf, h, bind, Except.bind]
    simp
    omega
  · simp only [raiseIf, h, bind, Except.bind, pure, Except.pure]
    simp [eq_comm]
    omega

theorem contiguousNeed_ok {reserve n : Int} :
    contiguousNeed reserve = .ok n ↔ 0 ≤ reserve ∧ n = reserve + LARGEST_BUFFER_BYTES := by
  constructor
  · intro h
    obtain ⟨m, hm, h⟩ := bind_ok h
    cases h
    obtain ⟨hr, rfl⟩ := checkReserve_ok.mp hm
    exact ⟨hr, rfl⟩
  · rintro ⟨hr, rfl⟩
    rw [contiguousNeed, checkReserve_ok.mpr ⟨hr, rfl⟩]
    rfl

theorem prefillResidue_pos (prompt : Option Int) : 0 < prefillResidue prompt :=
  lt_max_of_lt_right (by decide)

/-- The admission's need is the arrival's, the prefill's transient and the reserve. -/
theorem admissionNeed_ok {prompt : Option Int} {reserve n : Int} {parked : Option ParkedTerms} :
    admissionNeed prompt reserve parked = .ok n ↔
      Priced reserve parked ∧ n = arrivalBytes parked + prefillTransient prompt + reserve := by
  cases parked with
  | none =>
    constructor
    · intro h
      obtain ⟨m, hm, h⟩ := bind_ok h
      cases h
      obtain ⟨hr, rfl⟩ := checkReserve_ok.mp hm
      exact ⟨⟨hr, by simp⟩, rfl⟩
    · rintro ⟨hp, rfl⟩
      rw [admissionNeed, dramNeed, checkReserve_ok.mpr ⟨hp.reserve, rfl⟩]
      rfl
  | some terms =>
    constructor
    · intro h
      obtain ⟨b, hb, h⟩ := bind_ok h
      obtain ⟨m, hm, h⟩ := bind_ok h
      cases h
      obtain ⟨hr, rfl⟩ := checkReserve_ok.mp hm
      obtain ⟨ht, rfl⟩ := parkedBytes_ok.mp hb
      exact ⟨⟨hr, by simpa using ht⟩, by rw [arrivalBytes]; omega⟩
    · rintro ⟨hp, rfl⟩
      rw [admissionNeed, parkedNeed, parkedBytes_ok.mpr ⟨hp.parked terms rfl, rfl⟩]
      simp only [bind, Except.bind, checkReserve_ok.mpr ⟨hp.reserve, rfl⟩, pure, Except.pure, arrivalBytes]
      congr 1
      omega

/-- The backstop's need is the arrival's and the reserve. -/
theorem requiredNeed_ok {reserve n : Int} {parked : Option ParkedTerms} :
    requiredNeed reserve parked = .ok n ↔ Priced reserve parked ∧ n = arrivalBytes parked + reserve := by
  cases parked with
  | none =>
    constructor
    · intro h
      obtain ⟨m, hm, h⟩ := bind_ok h
      cases h
      obtain ⟨hr, rfl⟩ := checkReserve_ok.mp hm
      exact ⟨⟨hr, by simp⟩, rfl⟩
    · rintro ⟨hp, rfl⟩
      rw [requiredNeed, backstopNeed, checkReserve_ok.mpr ⟨hp.reserve, rfl⟩]
      rfl
  | some terms =>
    constructor
    · intro h
      obtain ⟨b, hb, h⟩ := bind_ok h
      obtain ⟨m, hm, h⟩ := bind_ok h
      cases h
      obtain ⟨hr, rfl⟩ := checkReserve_ok.mp hm
      obtain ⟨ht, rfl⟩ := parkedBytes_ok.mp hb
      exact ⟨⟨hr, by simpa using ht⟩, rfl⟩
    · rintro ⟨hp, rfl⟩
      rw [requiredNeed, parkedBackstopNeed, parkedBytes_ok.mpr ⟨hp.parked terms rfl, rfl⟩]
      simp only [bind, Except.bind, checkReserve_ok.mpr ⟨hp.reserve, rfl⟩, pure, Except.pure, arrivalBytes]

theorem parkedTraceNeed_nonneg (single : Int) : 0 ≤ parkedTraceNeed single := by
  unfold parkedTraceNeed; split <;> decide

/-- The trace term of an arrival, as `split_short` takes it. -/
theorem givenTerm_trace (parked : Option ParkedTerms) :
    givenTerm "trace-region need" (.ok TRACE_CONTIGUOUS_BYTES) (parked.map fun terms => parkedTraceNeed terms.single) =
      .ok (arrivalTrace parked) := by
  cases parked with
  | none => rfl
  | some terms => exact if_neg (not_lt.mpr (parkedTraceNeed_nonneg terms.single))

/-- A reading is short of no term where it holds them. -/
theorem splitShort_nil {r : DramReading} {need reserve contiguous trace : Int} {given traceNeed : Option Int}
    (hcontiguous : givenTerm "contiguous need" (contiguousNeed reserve) given = .ok contiguous)
    (htrace : givenTerm "trace-region need" (.ok TRACE_CONTIGUOUS_BYTES) traceNeed = .ok trace) :
    ∃ short, splitShort r.free r.largestFree need reserve r.traceLargestFree given traceNeed = .ok short ∧
      (short = [] ↔ r.Holds need contiguous trace) := by
  unfold splitShort
  rw [hcontiguous, htrace]
  refine ⟨_, rfl, ?_⟩
  have hsplit : ∀ (p : Prop) [Decidable p] (term : SplitTerm), (if p then [term] else []) = [] ↔ ¬p := by
    intro p _ term
    split <;> simp [*]
  rw [List.append_eq_nil_iff, List.append_eq_nil_iff, hsplit, hsplit, hsplit, not_lt, not_lt]
  constructor
  · rintro ⟨⟨hfree, hlargest⟩, hthird⟩
    refine ⟨hfree, hlargest, fun largest hl => ?_⟩
    rw [Option.mem_def.mp hl] at hthird
    simpa using hthird
  · rintro ⟨hfree, hlargest, hthird⟩
    refine ⟨⟨hfree, hlargest⟩, fun hany => ?_⟩
    rw [Option.any_eq_true] at hany
    obtain ⟨largest, hl, hlt⟩ := hany
    exact absurd (hthird largest hl) (not_le.mpr (by simpa using hlt))

/-- **The admission** of a prompt on a readable pool: the arrival, the prefill's transient and the reserve of the free
bytes; the reserve, the largest buffer and the prefill's residue of the largest block. -/
theorem admits_iff {pool : PoolStatistics} {r : DramReading} (hr : dramReading pool = .ok r) {prompt : Option Int}
    {reserve : Int} {parked : Option ParkedTerms} :
    (∃ detail, admits pool reserve (.ok parked) prompt = .ok (true, detail)) ↔ Priced reserve parked ∧
      r.Holds (arrivalBytes parked + prefillTransient prompt + reserve)
        (reserve + LARGEST_BUFFER_BYTES + prefillResidue prompt) (arrivalTrace parked) := by
  have hcontiguous (hp : Priced reserve parked) : admissionContiguousNeed prompt reserve =
      .ok (reserve + LARGEST_BUFFER_BYTES + prefillResidue prompt) := by
    rw [admissionContiguousNeed, contiguousNeed_ok.mpr ⟨hp.reserve, rfl⟩]
    rfl
  have hgiven (hp : Priced reserve parked) : givenTerm "contiguous need" (contiguousNeed reserve)
      (some (reserve + LARGEST_BUFFER_BYTES + prefillResidue prompt)) =
        .ok (reserve + LARGEST_BUFFER_BYTES + prefillResidue prompt) := by
    have h1 := hp.reserve
    have h2 := prefillResidue_pos prompt
    exact if_neg (by simp only [LARGEST_BUFFER_BYTES, MEGABYTE]; omega)
  constructor
  · rintro ⟨detail, h⟩
    obtain ⟨terms, hterms, h⟩ := bind_ok h
    cases hterms
    obtain ⟨need, hneed, h⟩ := bind_ok h
    obtain ⟨hp, rfl⟩ := admissionNeed_ok.mp hneed
    rw [hr] at h
    obtain ⟨contiguous, hc, h⟩ := bind_ok h
    rw [hcontiguous hp] at hc
    cases hc
    obtain ⟨short, hshort, h⟩ := bind_ok h
    obtain ⟨short', hshort', hnil⟩ := splitShort_nil (r := r) (hgiven hp) (givenTerm_trace parked)
    rw [hshort'] at hshort
    cases hshort
    have hempty : short.isEmpty = true := congrArg Prod.fst (Except.ok.inj h)
    exact ⟨hp, hnil.mp (List.isEmpty_iff.mp hempty)⟩
  · rintro ⟨hp, hholds⟩
    obtain ⟨short, hshort, hnil⟩ := splitShort_nil (r := r) (hgiven hp) (givenTerm_trace parked)
    obtain rfl := hnil.mpr hholds
    refine ⟨⟨some r.largestFree, arrivalBytes parked + prefillTransient prompt + reserve, none, some r.free,
      r.traceLargestFree, some [], parked⟩, ?_⟩
    simp only [admits, bind, Except.bind, admissionNeed_ok.mpr ⟨hp, rfl⟩, hr, hcontiguous hp, hshort, pure, Except.pure]
    rfl

/-- **The backstop** on a readable pool: the arrival and the reserve of the free bytes, the reserve and the largest
buffer of the largest block. -/
theorem dramBackstop_iff {pool : PoolStatistics} {r : DramReading} (hr : dramReading pool = .ok r) {reserve : Int}
    {parked : Option ParkedTerms} :
    dramBackstop pool reserve parked = .ok (some r.largestFree) ↔ Priced reserve parked ∧
      r.Holds (arrivalBytes parked + reserve) (reserve + LARGEST_BUFFER_BYTES) (arrivalTrace parked) := by
  have hgiven (hp : Priced reserve parked) : givenTerm "contiguous need" (contiguousNeed reserve) none =
      .ok (reserve + LARGEST_BUFFER_BYTES) := contiguousNeed_ok.mpr ⟨hp.reserve, rfl⟩
  constructor
  · intro h
    obtain ⟨need, hneed, h⟩ := bind_ok h
    obtain ⟨hp, rfl⟩ := requiredNeed_ok.mp hneed
    rw [hr] at h
    obtain ⟨short, hshort, h⟩ := bind_ok h
    obtain ⟨short', hshort', hnil⟩ := splitShort_nil (r := r) (hgiven hp) (givenTerm_trace parked)
    rw [hshort'] at hshort
    cases hshort
    obtain ⟨_, hraise, -⟩ := bind_ok h
    exact ⟨hp, hnil.mp (not_not.mp (raiseIf_ok.mp hraise))⟩
  · rintro ⟨hp, hholds⟩
    obtain ⟨short, hshort, hnil⟩ := splitShort_nil (r := r) (hgiven hp) (givenTerm_trace parked)
    obtain rfl := hnil.mpr hholds
    simp only [dramBackstop, bind, Except.bind, requiredNeed_ok.mpr ⟨hp, rfl⟩, hr, hshort, pure, Except.pure]
    rfl

/-! ## The request that binds -/

theorem shorter_asymm {a b : Option Int} (h : shorter a b = true) : shorter b a = false := by
  cases a <;> cases b <;> simp_all [shorter]
  omega

theorem shorter_trans {a b c : Option Int} (hab : shorter b a = false) (hbc : shorter c b = false) :
    shorter c a = false := by
  cases a <;> cases b <;> cases c <;> simp_all [shorter]
  omega

/-- The scan for the longest, from the best so far. -/
theorem foldl_longest (rest : List Request) (best : Request) :
    shorter (rest.foldl (fun best next => if shorter best.promptTokens next.promptTokens then next else best)
        best).promptTokens best.promptTokens = false ∧
      ∀ c ∈ rest, shorter (rest.foldl
        (fun best next => if shorter best.promptTokens next.promptTokens then next else best) best).promptTokens
          c.promptTokens = false := by
  induction rest generalizing best with
  | nil => exact ⟨by cases h : best.promptTokens <;> simp [shorter, h], fun c hc => nomatch hc⟩
  | cons next rest ih =>
    rw [List.foldl_cons, List.forall_mem_cons]
    by_cases h : shorter best.promptTokens next.promptTokens = true
    · obtain ⟨hnext, hrest⟩ := ih next
      rw [if_pos h]
      exact ⟨shorter_trans (shorter_asymm h) hnext, hnext, hrest⟩
    · obtain ⟨hbest, hrest⟩ := ih best
      rw [if_neg h]
      exact ⟨hbest, shorter_trans (Bool.eq_false_iff.mpr h) hbest, hrest⟩

/-- The binding request is none of the candidates' shorter. -/
theorem bindingRequest_longest {candidates : List Request} {request : Request}
    (h : bindingRequest candidates = some request) :
    ∀ c ∈ candidates, shorter request.promptTokens c.promptTokens = false := by
  cases candidates with
  | nil => cases h
  | cons first rest =>
    cases h
    obtain ⟨hfirst, hrest⟩ := foldl_longest rest first
    exact List.forall_mem_cons.mpr ⟨hfirst, hrest⟩

/-- A prompt that is not shorter needs no less. -/
theorem prefillTransient_mono {a b : Option Int} (h : shorter a b = false) :
    prefillTransient b ≤ prefillTransient a := by
  cases a with
  | none => unfold prefillTransient; split <;> decide
  | some m =>
    cases b with
    | none => cases h
    | some n =>
      have hle : n ≤ m := by simpa [shorter] using h
      unfold prefillTransient
      simp only [Option.all_some, decide_eq_true_eq]
      split_ifs <;> first | omega | decide

/-- **Who binds is admitted last**: where the binding request is admitted, so is every candidate. -/
theorem admits_candidates {pool : PoolStatistics} {reserve : Int} {parked : Except PyError (Option ParkedTerms)}
    {candidates : List Request} {request : Request} (h : bindingRequest candidates = some request)
    (hlet : ∃ detail, admits pool reserve parked request.promptTokens = .ok (true, detail)) :
    ∀ c ∈ candidates, ∃ detail, admits pool reserve parked c.promptTokens = .ok (true, detail) := by
  intro c hc
  have hlonger := prefillTransient_mono (bindingRequest_longest h c hc)
  cases parked with
  | error e => obtain ⟨_, h⟩ := hlet; cases h
  | ok parked =>
    cases hr : dramReading pool with
    | error reason =>
      obtain ⟨detail, hd⟩ := hlet
      obtain ⟨_, hterms, hd⟩ := bind_ok hd
      cases hterms
      obtain ⟨need, hneed, -⟩ := bind_ok hd
      refine ⟨⟨none, arrivalBytes parked + prefillTransient c.promptTokens + reserve, some reason, none, none, none,
        parked⟩, ?_⟩
      simp only [admits, bind, Except.bind, admissionNeed_ok.mpr ⟨(admissionNeed_ok.mp hneed).1, rfl⟩, hr]
      rfl
    | ok r =>
      obtain ⟨hp, hholds⟩ := (admits_iff hr).mp hlet
      refine (admits_iff hr).mpr ⟨hp, ?_, ?_, hholds.trace⟩
      · have := hholds.free
        omega
      · have hresidue : prefillResidue c.promptTokens ≤ prefillResidue request.promptTokens :=
          max_le_max_right _ hlonger
        have := hholds.contiguous
        omega

/-! ## The backstop after the prefill -/

/-- A prefill took at most so many bytes of the free total, and at most as many of the largest block. -/
structure Taken (bytes : Int) (before after : DramReading) : Prop where
  free : before.free - bytes ≤ after.free ∧ after.free ≤ before.free
  largest : before.largestFree - bytes ≤ after.largestFree ∧ after.largestFree ≤ before.largestFree
  trace : after.traceLargestFree = before.traceLargestFree

/-- The backstop keeps the prompt, whatever the prefill took within its residue. -/
def Kept (reserve : Int) (parked : Option ParkedTerms) (prompt : Option Int) (before : DramReading) : Prop :=
  ∀ pool after, dramReading pool = .ok after → Taken (prefillResidue prompt) before after →
    dramBackstop pool reserve parked = .ok (some after.largestFree)

theorem admitted_kept {pool : PoolStatistics} {r : DramReading} (hr : dramReading pool = .ok r) {prompt : Option Int}
    {reserve : Int} {parked : Option ParkedTerms}
    (hlet : ∃ detail, admits pool reserve (.ok parked) prompt = .ok (true, detail)) :
    Kept reserve parked prompt r ↔ arrivalBytes parked + reserve + prefillResidue prompt ≤ r.free - STRANDED_BYTES := by
  obtain ⟨hp, hholds⟩ := (admits_iff hr).mp hlet
  have hpos := prefillResidue_pos prompt
  constructor
  · intro hkept
    -- the prefill takes all of its residue from the largest block
    have hafter : dramReading
        ⟨.ok [⟨r.free - prefillResidue prompt, r.largestFree - prefillResidue prompt⟩], pool.trace⟩ =
          .ok ⟨r.free - prefillResidue prompt, r.largestFree - prefillResidue prompt, r.traceLargestFree⟩ := by
      have htrace : (traceLargestFree pool).toOption = r.traceLargestFree := by
        obtain ⟨report, -, h⟩ := bind_ok hr
        obtain ⟨free, -, h⟩ := bind_ok h
        obtain ⟨largest, -, h⟩ := bind_ok h
        cases h
        rfl
      rw [← htrace]
      rfl
    have hkept := hkept _ _ hafter ⟨⟨le_rfl, by dsimp only; omega⟩, ⟨le_rfl, by dsimp only; omega⟩, rfl⟩
    have hfree : _ ≤ r.free - prefillResidue prompt - STRANDED_BYTES := ((dramBackstop_iff hafter).mp hkept).2.free
    omega
  · intro hfree pool' after hafter htaken
    refine (dramBackstop_iff hafter).mpr ⟨hp, ?_, ?_, htaken.trace ▸ hholds.trace⟩
    · have := htaken.free.1
      omega
    · have := htaken.largest.1
      have := hholds.contiguous
      omega

/-- A prompt with a transient keeps its residue in the free term too. -/
theorem prefillResidue_long {prompt : Option Int} (h : ∀ n ∈ prompt, PREFILL_TRANSIENT_FROM ≤ n) :
    prefillResidue prompt = prefillTransient prompt := by
  have hall : prompt.all (PREFILL_TRANSIENT_FROM ≤ ·) = true := by
    cases prompt with
    | none => rfl
    | some n => simpa using h n rfl
  rw [prefillResidue, prefillTransient, if_pos hall]
  rfl

theorem prefillResidue_short {n : Int} (h : n < PREFILL_TRANSIENT_FROM) :
    prefillResidue (some n) = PREFILL_RESIDUE_BYTES := by
  rw [prefillResidue, prefillTransient, if_neg (by simpa using h)]
  rfl

/-- **When the backstop keeps a prompt that the admission let in**: the prompt is long, or its length cannot be read, or
the free bytes it was admitted on leave the residue beside the backstop's need. And where the binding request of the
waiting ones is admitted, all of them are. -/
theorem admitted_kept_iff (pool : PoolStatistics) (reserve : Int) (parked : Option ParkedTerms) :
    (∀ r prompt, dramReading pool = .ok r →
      (∃ detail, admits pool reserve (.ok parked) prompt = .ok (true, detail)) →
      (Kept reserve parked prompt r ↔ (∀ n ∈ prompt, PREFILL_TRANSIENT_FROM ≤ n) ∨
        arrivalBytes parked + reserve + PREFILL_RESIDUE_BYTES ≤ r.free - STRANDED_BYTES)) ∧
    ∀ blocked skipped waiting request,
      bindingRequest (admissionCandidates blocked skipped waiting) = some request →
      (∃ detail, admits pool reserve (.ok parked) request.promptTokens = .ok (true, detail)) →
      ∀ c ∈ admissionCandidates blocked skipped waiting,
        ∃ detail, admits pool reserve (.ok parked) c.promptTokens = .ok (true, detail) := by
  refine ⟨fun r prompt hr hlet => ?_, fun blocked skipped waiting request h hlet =>
    admits_candidates h hlet⟩
  rw [admitted_kept hr hlet]
  by_cases hlong : ∀ n ∈ prompt, PREFILL_TRANSIENT_FROM ≤ n
  · refine iff_of_true ?_ (.inl hlong)
    have := ((admits_iff hr).mp hlet).2.free
    rw [prefillResidue_long hlong]
    omega
  · rw [or_iff_right hlong]
    simp only [not_forall, not_le] at hlong
    obtain ⟨n, hn, hshort⟩ := hlong
    rw [Option.mem_def.mp hn, prefillResidue_short hshort]

/-! ## A prompt of 2047 tokens -/

/-- The reading that the prompt is admitted on. -/
def samplePool : PoolStatistics := ⟨.ok [⟨1570000000, 1475800000⟩], .ok [49000000]⟩

/-- The reading after its prefill took 86.9 MB. -/
def samplePrefilled : PoolStatistics := ⟨.ok [⟨1483100000, 1388900000⟩], .ok [49000000]⟩

theorem admitted_kept_iff_sample :
    (∃ detail, admits samplePool 268435456 (.ok (some ⟨100000000, 0⟩)) (some 2047) = .ok (true, detail)) ∧
      Kept 268435456 (some ⟨100000000, 0⟩) (some 2047) ⟨1570000000, 1475800000, some 49000000⟩ :=
  ⟨⟨_, rfl⟩, ((admitted_kept_iff samplePool 268435456 (some ⟨100000000, 0⟩)).1 _ (some 2047) rfl ⟨_, rfl⟩).mpr
    (.inr (by decide))⟩

/-- **A short prompt refused after its prefill**: the free term of its admission has no room for what the prefill
takes. -/
theorem short_prompt_refused :
    (∃ detail, admits samplePool 268435456 (.ok none) (some 2047) = .ok (true, detail)) ∧
      dramReading samplePool = .ok ⟨1570000000, 1475800000, some 49000000⟩ ∧
      dramReading samplePrefilled = .ok ⟨1483100000, 1388900000, some 49000000⟩ ∧
      Taken (prefillResidue (some 2047)) ⟨1570000000, 1475800000, some 49000000⟩
        ⟨1483100000, 1388900000, some 49000000⟩ ∧
      ∃ text, dramBackstop samplePrefilled 268435456 none = .error (.valueError text) :=
  ⟨⟨_, rfl⟩, rfl, rfl, ⟨by decide, by decide, rfl⟩, ⟨_, rfl⟩⟩

end BlackholeQwen.Serving
