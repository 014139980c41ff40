import BlackholeQwen.Serving.FastRequest
import BlackholeQwen.Lib.Dict

/-!
# The scheduler contract of one request

`serving_vllm_contract.py`: the ticket a request has prepared, and what a scheduled step must say to be admitted for it.
`Matches` is the admission condition, `admit_ok` that nothing else is admitted.
-/

namespace BlackholeQwen.Serving

open Lib Speculative GreedySession

/-- `scheduler_output.scheduled_cached_reqs`. -/
structure CachedRequestData where
  reqIds : List String
  resumedReqIds : List String
  numComputedTokens : List Nat
  newBlockIds : List (Option (List (List Nat)))
  deriving DecidableEq

/-- `SchedulerOutput`; `scheduledNewReqs` holds the request ids of the new requests. -/
structure SchedulerOutput where
  scheduledNewReqs : List String
  finishedReqIds : List String
  preemptedReqIds : List String
  hasStructuredOutputRequests : Bool
  scheduledEncoderInputs : Dict String (List Nat)
  scheduledCachedReqs : CachedRequestData
  numScheduledTokens : Dict String Nat
  totalNumScheduledTokens : Nat
  scheduledSpecDecodeTokens : Dict String (List Token)
  deriving DecidableEq

/-- `DraftTokenIds`. -/
structure DraftTokenIds where
  reqIds : List String
  draftTokenIds : List (List Token)
  deriving DecidableEq, Repr

/-- `ModelRunnerOutput`: the fields the bridge fills. -/
structure ModelRunnerOutput where
  reqIds : List String
  reqIdToIndex : List (String × Nat)
  sampledTokenIds : List (List Token)
  deriving DecidableEq, Repr

/-- `prepared_ticket`. -/
def preparedTicket (request : FastRequest) : Except PyError BlockTicket :=
  match request.session.pending with
  | some ticket =>
    if request.closed = true ∨ request.cancelled = true ∨ request.busy = true ∨ request.session.phase ≠ .pending ∨
        request.engine ≠ .idle ∨ ticket.requestId ≠ request.session.requestId ∨
        ticket.position ≠ request.session.position then
      .error (.valueError "Live prepared request ticket required before scheduler admission")
    else .ok ticket
  | none => .error (.valueError "Live prepared request ticket required before scheduler admission")

/-- `draft_token_ids`. -/
def draftTokenIds (request : FastRequest) : Except PyError DraftTokenIds := do
  let ticket ← preparedTicket request
  return ⟨[ticket.requestId], [ticket.proposals]⟩

/-- `'%r' % (values,)` of a list, given the text of each value. -/
def reprList (values : List String) : String := "[" ++ String.intercalate ", " values ++ "]"

/-- `repr` of a request id, which holds no quotes and no escapes. -/
def reprId (id : String) : String := "'" ++ id ++ "'"

/-- `sorted(ids, key=str)`. -/
def sortedIds (ids : List String) : List String := ids.mergeSort (fun a b => decide (a ≤ b))

/-- `step_refusals`. -/
def stepRefusals (scheduled : SchedulerOutput) (live : List String) : List String :=
  (if scheduled.scheduledNewReqs = [] then [] else
    ["new=" ++ reprList (scheduled.scheduledNewReqs.map reprId)]) ++
  (if scheduled.finishedReqIds.filter (· ∈ live) = [] then [] else
    ["finished=" ++ reprList ((sortedIds (scheduled.finishedReqIds.filter (· ∈ live))).map reprId)]) ++
  (if scheduled.preemptedReqIds = [] then [] else
    ["preempted=" ++ reprList ((sortedIds scheduled.preemptedReqIds).map reprId)]) ++
  (if scheduled.hasStructuredOutputRequests then ["structured_output=True"] else []) ++
  (if scheduled.scheduledEncoderInputs.items = [] then [] else
    ["encoder_inputs=\x7b" ++ String.intercalate ", " (scheduled.scheduledEncoderInputs.items.map fun p =>
      reprId p.1 ++ ": " ++ reprList (p.2.map toString)) ++ "\x7d"])

/-- `found` of `admit_scheduler_output`. -/
def admitRefusals (ticket : BlockTicket) (scheduled : SchedulerOutput) : List String :=
  stepRefusals scheduled [ticket.requestId] ++
  (if scheduled.scheduledCachedReqs.reqIds = [ticket.requestId] then [] else
    ["cached=" ++ reprList (scheduled.scheduledCachedReqs.reqIds.map reprId) ++ " expected=" ++
      reprList [reprId ticket.requestId]]) ++
  (if ticket.requestId ∈ scheduled.scheduledCachedReqs.resumedReqIds then
    ["resumed=" ++ reprId ticket.requestId] else []) ++
  (if scheduled.scheduledCachedReqs.numComputedTokens = [ticket.position] then [] else
    ["frontier=" ++ reprList (scheduled.scheduledCachedReqs.numComputedTokens.map toString) ++
      " ticket_position=" ++ toString ticket.position])

/-- `expected` of `admit_scheduler_output`: the ticket's drafts, where it has any. -/
def expectedDrafts (ticket : BlockTicket) : List (String × List Token) :=
  if 1 < ticket.rows then [(ticket.requestId, ticket.proposals)] else []

/-- `admit_scheduler_output`. -/
def admitSchedulerOutput (request : FastRequest) (scheduled : SchedulerOutput) : Except PyError BlockTicket := do
  let ticket ← preparedTicket request
  raiseIf (admitRefusals ticket scheduled ≠ [])
    (.valueError ("Single resident decode request at the exact scheduled frontier required: " ++
      String.intercalate "; " (admitRefusals ticket scheduled)))
  raiseIf (scheduled.numScheduledTokens.keys ≠ [ticket.requestId] ∨
      scheduled.numScheduledTokens.get? ticket.requestId ≠ some ticket.rows ∨
      scheduled.totalNumScheduledTokens ≠ ticket.rows)
    (.valueError "Scheduler must reserve the complete prepared verifier block")
  raiseIf (scheduled.scheduledSpecDecodeTokens.items ≠ expectedDrafts ticket)
    (.valueError "Scheduled draft tokens differ from the prepared proposal")
  return ticket

/-- `model_runner_output`. -/
def modelRunnerOutput (output : CommittedOutput) : ModelRunnerOutput :=
  ⟨[output.requestId], [(output.requestId, 0)], [output.tokenIds]⟩

/-! ## Admission -/

/-- The request holds a live prepared ticket. -/
structure Prepared (request : FastRequest) (ticket : BlockTicket) : Prop where
  open_ : request.closed = false
  live : request.cancelled = false
  free : request.busy = false
  phase : request.session.phase = .pending
  engine : request.engine = .idle
  pending : request.session.pending = some ticket
  owner : ticket.requestId = request.session.requestId
  position : ticket.position = request.session.position

/-- The schedule is the one step a prepared request waits for: this request alone, neither new nor resumed nor preempted
nor finished, at its frontier, with the whole block reserved and the ticket's own drafts. -/
structure Matches (request : FastRequest) (scheduled : SchedulerOutput) (ticket : BlockTicket) : Prop where
  prepared : Prepared request ticket
  new : scheduled.scheduledNewReqs = []
  unfinished : ticket.requestId ∉ scheduled.finishedReqIds
  preempted : scheduled.preemptedReqIds = []
  structured : scheduled.hasStructuredOutputRequests = false
  encoder : scheduled.scheduledEncoderInputs.items = []
  cached : scheduled.scheduledCachedReqs.reqIds = [ticket.requestId]
  resumed : ticket.requestId ∉ scheduled.scheduledCachedReqs.resumedReqIds
  frontier : scheduled.scheduledCachedReqs.numComputedTokens = [ticket.position]
  counts : scheduled.numScheduledTokens.keys = [ticket.requestId]
  reserved : scheduled.numScheduledTokens.get? ticket.requestId = some ticket.rows
  total : scheduled.totalNumScheduledTokens = ticket.rows
  drafts : scheduled.scheduledSpecDecodeTokens.items = expectedDrafts ticket

/-- A prepared ticket is live. -/
theorem preparedTicket_ok {request : FastRequest} {ticket : BlockTicket} :
    preparedTicket request = .ok ticket ↔ Prepared request ticket := by
  unfold preparedTicket
  constructor
  · intro h
    split at h
    · rename_i t ht
      split_ifs at h with hbad
      cases h
      simp only [not_or, ne_eq, not_not, Bool.not_eq_true] at hbad
      obtain ⟨h1, h2, h3, h4, h5, h6, h7⟩ := hbad
      exact ⟨h1, h2, h3, h4, h5, ht, h6, h7⟩
    · cases h
  · intro h
    rw [h.pending]
    simp [h.open_, h.live, h.free, h.phase, h.engine, h.owner, h.position]

/-- Nothing to refuse: every condition of the admission holds. -/
theorem admitRefusals_eq_nil {ticket : BlockTicket} {scheduled : SchedulerOutput} :
    admitRefusals ticket scheduled = [] ↔
      scheduled.scheduledNewReqs = [] ∧ ticket.requestId ∉ scheduled.finishedReqIds ∧
      scheduled.preemptedReqIds = [] ∧ scheduled.hasStructuredOutputRequests = false ∧
      scheduled.scheduledEncoderInputs.items = [] ∧
      scheduled.scheduledCachedReqs.reqIds = [ticket.requestId] ∧
      ticket.requestId ∉ scheduled.scheduledCachedReqs.resumedReqIds ∧
      scheduled.scheduledCachedReqs.numComputedTokens = [ticket.position] := by
  have hfin : scheduled.finishedReqIds.filter (· ∈ [ticket.requestId]) = [] ↔
      ticket.requestId ∉ scheduled.finishedReqIds := by
    rw [List.filter_eq_nil_iff]
    constructor
    · intro h hmem
      exact h _ hmem (by simp)
    · intro h a ha
      simp only [List.mem_singleton, decide_eq_true_eq]
      rintro rfl
      exact h ha
  simp only [admitRefusals, stepRefusals, List.append_eq_nil_iff, ite_eq_left_iff, ite_eq_right_iff,
    List.cons_ne_self, imp_false, not_not, Bool.not_eq_true, hfin, and_assoc]

/-- **Exactly the schedule of the prepared ticket is admitted.** -/
theorem admit_ok {request : FastRequest} {scheduled : SchedulerOutput} {ticket : BlockTicket} :
    admitSchedulerOutput request scheduled = .ok ticket ↔ Matches request scheduled ticket := by
  constructor
  · intro h
    obtain ⟨t, hp, h⟩ := bind_ok h
    obtain ⟨⟨⟩, hfound, h⟩ := bind_ok h
    obtain ⟨⟨⟩, hcounts, h⟩ := bind_ok h
    obtain ⟨⟨⟩, hdrafts, h⟩ := bind_ok h
    cases h
    simp only [raiseIf_ok, not_or, ne_eq, not_not] at hfound hcounts hdrafts
    obtain ⟨h1, h2, h3, h4, h5, h6, h7, h8⟩ := admitRefusals_eq_nil.mp hfound
    exact ⟨preparedTicket_ok.mp hp, h1, h2, h3, h4, h5, h6, h7, h8, hcounts.1, hcounts.2.1, hcounts.2.2, hdrafts⟩
  · intro h
    have hfound := admitRefusals_eq_nil.mpr
      ⟨h.new, h.unfinished, h.preempted, h.structured, h.encoder, h.cached, h.resumed, h.frontier⟩
    unfold admitSchedulerOutput
    rw [preparedTicket_ok.mpr h.prepared]
    simp [bind, Except.bind, raiseIf, hfound, h.counts, h.reserved, h.total, h.drafts, pure, Except.pure]

end BlackholeQwen.Serving
