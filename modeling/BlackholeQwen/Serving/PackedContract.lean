import BlackholeQwen.Serving.VllmContract
import Mathlib.Algebra.GroupWithZero.Nat

/-!
# The scheduler contract of a packed step

`serving_vllm_packed.py`: one scheduled step carries the verifier block of every live request, in the scheduler's
order. `SchedulerOutput.restrict` is the step as one request sees it, and `packed_admission` says that a packed step is
admitted exactly where each request's own part is.
-/

namespace BlackholeQwen.Serving

open Lib Speculative GreedySession

/-- An entry of an admitted step. -/
structure ScheduledEntry where
  requestId : String
  request : FastRequest
  ticket : BlockTicket

/-- `by_id`: the live requests and their tickets. -/
def liveTickets : List FastRequest → Dict String (FastRequest × BlockTicket) →
    Except PyError (Dict String (FastRequest × BlockTicket))
  | [], byId => .ok byId
  | request :: requests, byId => do
    let ticket ← preparedTicket request
    raiseIf (ticket.requestId ∈ byId.keys) (.valueError "Two live requests claim one request id")
    liveTickets requests (byId.set ticket.requestId (request, ticket))

/-- `found` of `ordered_tickets`. -/
def packedRefusals (scheduled : SchedulerOutput) (live : List String) : List String :=
  stepRefusals scheduled live ++
  (if scheduled.scheduledCachedReqs.reqIds = [] then ["no cached request"]
    else if scheduled.scheduledCachedReqs.reqIds.Nodup then []
    else ["duplicate order=" ++ reprList (scheduled.scheduledCachedReqs.reqIds.map reprId)])

/-- The refusal of a step whose requests are not the prepared ones. -/
def packedSetError (order prepared : List String) : PyError :=
  .valueError ("The scheduled requests and the prepared requests must be the same set: scheduled_only=" ++
    reprList ((sortedIds (order.filter (· ∉ prepared))).map reprId) ++ " prepared_only=" ++
    reprList ((sortedIds (prepared.filter (· ∉ order))).map reprId) ++ " scheduled=" ++
    reprList (order.map reprId) ++ " prepared=" ++ reprList ((sortedIds prepared).map reprId))

/-- The entry of a scheduled request at its frontier. -/
def scheduledEntry (byId : Dict String (FastRequest × BlockTicket)) (cached : CachedRequestData)
    (row : String × Nat) : Except PyError ScheduledEntry :=
  match byId.get? row.1 with
  | none => .error .keyError
  | some (request, ticket) => do
    raiseIf (row.1 ∈ cached.resumedReqIds ∨ row.2 ≠ ticket.position)
      (.valueError ("Resident decode requests at the exact scheduled frontier required: request=" ++ reprId row.1 ++
        " resumed=" ++ (if row.1 ∈ cached.resumedReqIds then "True" else "False") ++ " frontier=" ++ toString row.2 ++
        " ticket_position=" ++ toString ticket.position ++ " order=" ++ reprList (cached.reqIds.map reprId)))
    return ⟨row.1, request, ticket⟩

/-- `ordered_tickets`. -/
def orderedTickets (requests : List FastRequest) (scheduled : SchedulerOutput) :
    Except PyError (List ScheduledEntry) := do
  let byId ← liveTickets requests Dict.empty
  raiseIf (packedRefusals scheduled byId.keys ≠ [])
    (.valueError ("Resident decode requests at the exact scheduled frontier required: " ++
      String.intercalate "; " (packedRefusals scheduled byId.keys)))
  raiseIf (¬((∀ id ∈ byId.keys, id ∈ scheduled.scheduledCachedReqs.reqIds) ∧
      ∀ id ∈ scheduled.scheduledCachedReqs.reqIds, id ∈ byId.keys))
    (packedSetError scheduled.scheduledCachedReqs.reqIds byId.keys)
  raiseIf (scheduled.scheduledCachedReqs.numComputedTokens.length ≠ scheduled.scheduledCachedReqs.reqIds.length)
    (.valueError "One computed-token frontier per scheduled request required")
  (scheduled.scheduledCachedReqs.reqIds.zip scheduled.scheduledCachedReqs.numComputedTokens).mapM
    (scheduledEntry byId scheduled.scheduledCachedReqs)

/-- `expected_counts`. -/
def expectedCounts (entries : List ScheduledEntry) : Dict String Nat :=
  Dict.ofList (entries.map fun entry => (entry.requestId, entry.ticket.rows))

/-- `expected_proposals`. -/
def expectedProposals (entries : List ScheduledEntry) : Dict String (List Token) :=
  Dict.ofList ((entries.filter fun entry => 1 < entry.ticket.rows).map fun entry =>
    (entry.requestId, entry.ticket.proposals))

/-- `admit_packed_scheduler_output`. -/
def admitPackedSchedulerOutput (requests : List FastRequest) (scheduled : SchedulerOutput) :
    Except PyError (List ScheduledEntry) := do
  let entries ← orderedTickets requests scheduled
  raiseIf (¬scheduled.numScheduledTokens.Same (expectedCounts entries) ∨
      scheduled.totalNumScheduledTokens ≠ (expectedCounts entries).values.sum)
    (.valueError "Scheduler must reserve the complete prepared verifier block for every request")
  raiseIf (¬scheduled.scheduledSpecDecodeTokens.Same (expectedProposals entries))
    (.valueError "Scheduled draft tokens differ from the prepared proposals")
  return entries

/-! ## One request's part of a step -/

/-- The values that a parallel list has beside an id. -/
def beside {ν : Type} (ids : List String) (values : List ν) (id : String) : List ν :=
  ((ids.zip values).filter fun row => row.1 = id).map Prod.snd

/-- The step as one request sees it: its cached id, frontier, count, proposals and total. -/
def SchedulerOutput.restrict (scheduled : SchedulerOutput) (id : String) : SchedulerOutput :=
  { scheduled with
    scheduledCachedReqs :=
      { scheduled.scheduledCachedReqs with
        reqIds := scheduled.scheduledCachedReqs.reqIds.filter (· = id)
        numComputedTokens :=
          beside scheduled.scheduledCachedReqs.reqIds scheduled.scheduledCachedReqs.numComputedTokens id
        newBlockIds := beside scheduled.scheduledCachedReqs.reqIds scheduled.scheduledCachedReqs.newBlockIds id }
    numScheduledTokens := scheduled.numScheduledTokens.only id
    totalNumScheduledTokens := (scheduled.numScheduledTokens.get? id).getD 0
    scheduledSpecDecodeTokens := scheduled.scheduledSpecDecodeTokens.only id }

/-- What a packed step must say: the requests once each, with a frontier each, in maps that name no other and a total
that is the sum; and for each request a part that is admitted for it. -/
structure PackedMatches (requests : List FastRequest) (scheduled : SchedulerOutput) : Prop where
  nonempty : scheduled.scheduledCachedReqs.reqIds ≠ []
  nodup : scheduled.scheduledCachedReqs.reqIds.Nodup
  perm : scheduled.scheduledCachedReqs.reqIds.Perm (requests.map fun request => request.session.requestId)
  frontiers : scheduled.scheduledCachedReqs.numComputedTokens.length = scheduled.scheduledCachedReqs.reqIds.length
  counts : ∀ id ∈ scheduled.numScheduledTokens.keys, id ∈ scheduled.scheduledCachedReqs.reqIds
  drafts : ∀ id ∈ scheduled.scheduledSpecDecodeTokens.keys, id ∈ scheduled.scheduledCachedReqs.reqIds
  total : scheduled.totalNumScheduledTokens = scheduled.numScheduledTokens.values.sum
  each : ∀ request ∈ requests, ∃ ticket,
    admitSchedulerOutput request (scheduled.restrict request.session.requestId) = .ok ticket

/-! ## The live tickets -/

/-- The live tickets are those of the requests, under their ids. -/
structure LiveTickets (requests : List FastRequest) (byId : Dict String (FastRequest × BlockTicket)) : Prop where
  keys : byId.keys = requests.map fun request => request.session.requestId
  owned : ∀ id request ticket, byId.get? id = some (request, ticket) →
    request ∈ requests ∧ request.session.requestId = id ∧ Prepared request ticket

/-- The live tickets, from any tickets before. -/
theorem liveTickets_from {requests : List FastRequest} {before byId : Dict String (FastRequest × BlockTicket)}
    (h : liveTickets requests before = .ok byId) :
    byId.keys = before.keys ++ requests.map (fun request => request.session.requestId) ∧
      ∀ id request ticket, byId.get? id = some (request, ticket) → before.get? id = some (request, ticket) ∨
        request ∈ requests ∧ request.session.requestId = id ∧ Prepared request ticket := by
  induction requests generalizing before with
  | nil =>
    cases h
    exact ⟨(List.append_nil _).symm, fun _ _ _ hget => Or.inl hget⟩
  | cons request requests ih =>
    obtain ⟨ticket, hticket, h⟩ := bind_ok h
    obtain ⟨⟨⟩, hnew, h⟩ := bind_ok h
    rw [raiseIf_ok] at hnew
    have hprepared := preparedTicket_ok.mp hticket
    obtain ⟨hkeys, howned⟩ := ih h
    constructor
    · rw [hkeys, Dict.keys_set_new _ _ hnew, hprepared.owner, List.append_assoc]
      rfl
    · intro id other t hget
      rcases howned id other t hget with hget | ⟨hmem, hid, hp⟩
      · by_cases hid : id = ticket.requestId
        · subst hid
          rw [Dict.get?_set_self] at hget
          cases hget
          exact Or.inr ⟨List.mem_cons_self, hprepared.owner.symm, hprepared⟩
        · rw [Dict.get?_set_of_ne _ _ hid] at hget
          exact Or.inl hget
      · exact Or.inr ⟨List.mem_cons_of_mem _ hmem, hid, hp⟩

theorem liveTickets_ok {requests : List FastRequest} {byId : Dict String (FastRequest × BlockTicket)}
    (h : liveTickets requests Dict.empty = .ok byId) : LiveTickets requests byId := by
  obtain ⟨hkeys, howned⟩ := liveTickets_from h
  refine ⟨hkeys, fun id request ticket hget => ?_⟩
  rcases howned id request ticket hget with hempty | howned
  · cases hempty
  · exact howned

/-- Prepared requests with distinct ids have their tickets. -/
theorem liveTickets_total {requests : List FastRequest} {before : Dict String (FastRequest × BlockTicket)}
    (hprepared : ∀ request ∈ requests, ∃ ticket, Prepared request ticket)
    (hnd : (before.keys ++ requests.map fun request => request.session.requestId).Nodup) :
    ∃ byId, liveTickets requests before = .ok byId := by
  induction requests generalizing before with
  | nil => exact ⟨before, rfl⟩
  | cons request requests ih =>
    obtain ⟨ticket, hticket⟩ := hprepared request List.mem_cons_self
    have hnew : ticket.requestId ∉ before.keys := by
      rw [hticket.owner]
      intro hmem
      exact (List.disjoint_of_nodup_append hnd) hmem List.mem_cons_self
    obtain ⟨byId, hbyId⟩ := @ih (before.set ticket.requestId (request, ticket))
      (fun other hother => hprepared other (List.mem_cons_of_mem _ hother)) (by
        rw [Dict.keys_set_new _ _ hnew, hticket.owner, List.append_assoc]
        exact hnd)
    refine ⟨byId, ?_⟩
    unfold liveTickets
    rw [preparedTicket_ok.mpr hticket]
    exact (raiseIf_bind hnew).trans hbyId

/-! ## What each side asks of a request -/

/-- A step that concerns live requests only: nothing of it is new, preempted, structured or an encoder's, and none of
the live has finished. -/
structure Plain (scheduled : SchedulerOutput) (live : List String) : Prop where
  new : scheduled.scheduledNewReqs = []
  unfinished : ∀ id ∈ live, id ∉ scheduled.finishedReqIds
  preempted : scheduled.preemptedReqIds = []
  structured : scheduled.hasStructuredOutputRequests = false
  encoder : scheduled.scheduledEncoderInputs.items = []

theorem stepRefusals_eq_nil {scheduled : SchedulerOutput} {live : List String} :
    stepRefusals scheduled live = [] ↔ Plain scheduled live := by
  have hfinished : scheduled.finishedReqIds.filter (· ∈ live) = [] ↔ ∀ id ∈ live, id ∉ scheduled.finishedReqIds := by
    rw [List.filter_eq_nil_iff]
    simp only [decide_eq_true_eq]
    exact ⟨fun h id hlive hmem => h id hmem hlive, fun h id hmem hlive => h id hlive hmem⟩
  unfold stepRefusals
  simp only [List.append_eq_nil_iff, ite_eq_left_iff, ite_eq_right_iff, imp_false, not_not,
    Bool.not_eq_true, hfinished, and_assoc, List.cons_ne_self]
  exact ⟨fun ⟨h1, h2, h3, h4, h5⟩ => ⟨h1, h2, h3, h4, h5⟩, fun h => ⟨h.1, h.2, h.3, h.4, h.5⟩⟩

theorem packedRefusals_eq_nil {scheduled : SchedulerOutput} {live : List String} :
    packedRefusals scheduled live = [] ↔ Plain scheduled live ∧ scheduled.scheduledCachedReqs.reqIds ≠ [] ∧
      scheduled.scheduledCachedReqs.reqIds.Nodup := by
  unfold packedRefusals
  rw [List.append_eq_nil_iff, stepRefusals_eq_nil]
  refine and_congr_right fun _ => ?_
  split
  · rename_i hnil
    simp [hnil]
  · rename_i hne
    split <;> simp_all

/-- The step reserves a request's own ticket at its frontier. -/
structure Reserves (scheduled : SchedulerOutput) (id : String) (ticket : BlockTicket) : Prop where
  resumed : id ∉ scheduled.scheduledCachedReqs.resumedReqIds
  frontier : (id, ticket.position) ∈
    scheduled.scheduledCachedReqs.reqIds.zip scheduled.scheduledCachedReqs.numComputedTokens
  count : scheduled.numScheduledTokens.get? id = some ticket.rows
  drafts : scheduled.scheduledSpecDecodeTokens.get? id = if 1 < ticket.rows then some ticket.proposals else none

theorem fst_zip_sublist {ν : Type} (ids : List String) (values : List ν) :
    ((ids.zip values).map Prod.fst).Sublist ids := by
  induction ids generalizing values with
  | nil => exact List.Sublist.slnil
  | cons id ids ih =>
    cases values with
    | nil => exact List.nil_sublist _
    | cons value values => exact (ih values).cons_cons id

/-- The ids beside their values, as a dictionary. -/
def rowsOf {ν : Type} {ids : List String} (hnd : ids.Nodup) (values : List ν) : Dict String ν :=
  ⟨ids.zip values, (fst_zip_sublist ids values).nodup hnd⟩

theorem beside_eq {ν : Type} {ids : List String} (hnd : ids.Nodup) {values : List ν} {id : String} {value : ν} :
    beside ids values id = [value] ↔ (id, value) ∈ ids.zip values := by
  have hitems := Dict.items_only (rowsOf hnd values) id
  have hbeside : beside ids values id = ((rowsOf hnd values).get? id).toList := by
    show (((rowsOf hnd values).only id).items).map Prod.snd = _
    rw [hitems, List.map_map]
    exact List.map_id _
  have hmem : (rowsOf hnd values).get? id = some value ↔ (id, value) ∈ ids.zip values := Dict.get?_eq_some_iff
  rw [hbeside, ← hmem]
  cases (rowsOf hnd values).get? id <;> simp

/-- **A request's part of a step is admitted exactly where the step is plain and reserves its ticket.** -/
theorem restrict_admitted {request : FastRequest} {scheduled : SchedulerOutput} {ticket : BlockTicket}
    (hnd : scheduled.scheduledCachedReqs.reqIds.Nodup) :
    admitSchedulerOutput request (scheduled.restrict request.session.requestId) = .ok ticket ↔
      Prepared request ticket ∧ Plain scheduled [request.session.requestId] ∧
        Reserves scheduled request.session.requestId ticket := by
  rw [admit_ok]
  have hkeys : ∀ {ν : Type} (d : Dict String ν) (id : String), (d.only id).keys = (d.get? id).toList.map fun _ => id :=
    fun d id => by
      show ((d.only id).items).map Prod.fst = _
      rw [Dict.items_only, List.map_map]
      rfl
  constructor
  · intro h
    have howner := h.prepared.owner
    have hfrontier := h.frontier
    have hcount := h.reserved
    have hdrafts := h.drafts
    rw [howner] at hcount
    refine ⟨h.prepared, ⟨h.new, fun id hid => ?_, h.preempted, h.structured, h.encoder⟩,
      ⟨howner ▸ h.resumed, (beside_eq hnd).mp hfrontier, ?_, ?_⟩⟩
    · rw [List.mem_singleton.mp hid, ← howner]
      exact h.unfinished
    · rw [← hcount]
      exact (Dict.get?_only_self _ _).symm
    · have hitems := Dict.items_only scheduled.scheduledSpecDecodeTokens request.session.requestId
      change (scheduled.scheduledSpecDecodeTokens.only request.session.requestId).items = _ at hdrafts
      rw [hitems] at hdrafts
      unfold expectedDrafts at hdrafts
      split at hdrafts <;> rename_i hrows
      · rw [if_pos hrows]
        cases hget : scheduled.scheduledSpecDecodeTokens.get? request.session.requestId <;> rw [hget] at hdrafts
        · cases hdrafts
        · simp only [Option.toList_some, List.map_cons, List.map_nil, List.cons.injEq, Prod.mk.injEq, and_true]
            at hdrafts
          rw [hdrafts.2]
      · rw [if_neg hrows]
        cases hget : scheduled.scheduledSpecDecodeTokens.get? request.session.requestId
        · rfl
        · rw [hget] at hdrafts
          exact absurd hdrafts (List.cons_ne_nil _ _)
  · rintro ⟨hprepared, hplain, hreserves⟩
    have howner := hprepared.owner
    have hmem : request.session.requestId ∈ scheduled.scheduledCachedReqs.reqIds :=
      (List.of_mem_zip hreserves.frontier).1
    refine ⟨hprepared, hplain.new, ?_, hplain.preempted, hplain.structured, hplain.encoder, ?_, ?_, ?_, ?_, ?_, ?_, ?_⟩
    · rw [howner]
      exact hplain.unfinished _ (List.mem_singleton.mpr rfl)
    · rw [howner]
      show scheduled.scheduledCachedReqs.reqIds.filter (· = request.session.requestId) = _
      rw [List.filter_eq, List.count_eq_one_of_mem hnd hmem]
      rfl
    · rw [howner]
      exact hreserves.resumed
    · exact (beside_eq hnd).mpr hreserves.frontier
    · show (scheduled.numScheduledTokens.only request.session.requestId).keys = _
      rw [hkeys, hreserves.count, howner]
      rfl
    · rw [howner]
      exact (Dict.get?_only_self _ _).trans hreserves.count
    · show (scheduled.numScheduledTokens.get? request.session.requestId).getD 0 = _
      rw [hreserves.count]
      rfl
    · show (scheduled.scheduledSpecDecodeTokens.only request.session.requestId).items = _
      rw [Dict.items_only, hreserves.drafts]
      unfold expectedDrafts
      split
      · rw [howner]
        rfl
      · rfl

/-! ## The entries -/

section Entries

variable {requests : List FastRequest} {scheduled : SchedulerOutput} {entries : List ScheduledEntry}

/-- What the entries of a step are: the scheduled requests in order, each with its own live ticket at its frontier. -/
structure Ordered (requests : List FastRequest) (scheduled : SchedulerOutput) (entries : List ScheduledEntry) :
    Prop where
  nonempty : scheduled.scheduledCachedReqs.reqIds ≠ []
  nodup : scheduled.scheduledCachedReqs.reqIds.Nodup
  perm : scheduled.scheduledCachedReqs.reqIds.Perm (requests.map fun request => request.session.requestId)
  frontiers : scheduled.scheduledCachedReqs.numComputedTokens.length = scheduled.scheduledCachedReqs.reqIds.length
  plain : Plain scheduled scheduled.scheduledCachedReqs.reqIds
  ids : entries.map (·.requestId) = scheduled.scheduledCachedReqs.reqIds
  own : ∀ entry ∈ entries, entry.request ∈ requests ∧ entry.request.session.requestId = entry.requestId ∧
    Prepared entry.request entry.ticket
  resumed : ∀ entry ∈ entries, entry.requestId ∉ scheduled.scheduledCachedReqs.resumedReqIds
  frontier : ∀ entry ∈ entries, (entry.requestId, entry.ticket.position) ∈
    scheduled.scheduledCachedReqs.reqIds.zip scheduled.scheduledCachedReqs.numComputedTokens

theorem scheduledEntry_ok {byId : Dict String (FastRequest × BlockTicket)} {cached : CachedRequestData}
    {row : String × Nat} {entry : ScheduledEntry} :
    scheduledEntry byId cached row = .ok entry ↔ byId.get? row.1 = some (entry.request, entry.ticket) ∧
      row = (entry.requestId, entry.ticket.position) ∧ row.1 ∉ cached.resumedReqIds := by
  obtain ⟨id, position⟩ := row
  unfold scheduledEntry
  constructor
  · intro h
    split at h
    · cases h
    · rename_i request ticket hget
      obtain ⟨⟨⟩, hlive, h⟩ := bind_ok h
      rw [raiseIf_ok] at hlive
      cases h
      have hposition : position = ticket.position := not_not.mp fun hne => hlive (Or.inr hne)
      exact ⟨hget, by rw [hposition], fun hr => hlive (Or.inl hr)⟩
  · rintro ⟨hget, hrow, hresumed⟩
    cases hrow
    rw [hget]
    exact raiseIf_bind (by simp [hresumed])

/-- The scheduled requests and the live ones are the same. -/
theorem perm_of_mem {order ids : List String} (hnd : order.Nodup) (hids : ids.Nodup)
    (h : (∀ id ∈ ids, id ∈ order) ∧ ∀ id ∈ order, id ∈ ids) : order.Perm ids :=
  (List.perm_ext_iff_of_nodup hnd hids).mpr fun id => ⟨h.2 id, h.1 id⟩

theorem orderedTickets_ok (h : orderedTickets requests scheduled = .ok entries) :
    Ordered requests scheduled entries := by
  obtain ⟨byId, hbyId, h⟩ := bind_ok h
  obtain ⟨⟨⟩, hfound, h⟩ := bind_ok h
  obtain ⟨⟨⟩, hset, h⟩ := bind_ok h
  obtain ⟨⟨⟩, hlen, h⟩ := bind_ok h
  simp only [raiseIf_ok, ne_eq, not_not] at hfound hset hlen
  have hlive := liveTickets_ok hbyId
  obtain ⟨hplain, hne, hnd⟩ := packedRefusals_eq_nil.mp hfound
  have hperm := perm_of_mem hnd byId.nodup hset
  have hentry : ∀ entry ∈ entries, byId.get? entry.requestId = some (entry.request, entry.ticket) ∧
      (entry.requestId, entry.ticket.position) ∈
        scheduled.scheduledCachedReqs.reqIds.zip scheduled.scheduledCachedReqs.numComputedTokens ∧
      entry.requestId ∉ scheduled.scheduledCachedReqs.resumedReqIds := by
    intro entry hmem
    obtain ⟨row, hrow, hok⟩ := (mem_mapM h).mp hmem
    obtain ⟨hget, rfl, hresumed⟩ := scheduledEntry_ok.mp hok
    exact ⟨hget, hrow, hresumed⟩
  refine ⟨hne, hnd, hlive.keys ▸ hperm, hlen, ⟨hplain.new, fun id hid => hplain.unfinished id (hset.2 id hid),
    hplain.preempted, hplain.structured, hplain.encoder⟩, ?_, fun entry hmem => ?_,
    fun entry hmem => (hentry entry hmem).2.2, fun entry hmem => (hentry entry hmem).2.1⟩
  · -- the entries follow the scheduler's rows
    obtain ⟨hlength, hget⟩ := mapM_get h
    rw [List.length_zip, hlen, Nat.min_self] at hlength
    refine List.ext_getElem? fun i => ?_
    cases hi : scheduled.scheduledCachedReqs.reqIds[i]? with
    | none =>
      rw [List.getElem?_eq_none_iff] at hi ⊢
      rw [List.length_map]
      omega
    | some id =>
      obtain ⟨hlt, hid⟩ := List.getElem?_eq_some_iff.mp hi
      have hrow : (scheduled.scheduledCachedReqs.reqIds.zip scheduled.scheduledCachedReqs.numComputedTokens)[i]? =
          some (id, scheduled.scheduledCachedReqs.numComputedTokens[i]) := by
        rw [List.getElem?_eq_getElem (by rw [List.length_zip]; omega), List.getElem_zip, hid]
      obtain ⟨entry, hentry, hok⟩ := hget i _ hrow
      rw [List.getElem?_map, hentry]
      obtain ⟨-, hpair, -⟩ := scheduledEntry_ok.mp hok
      rw [Prod.mk.injEq] at hpair
      exact congrArg some hpair.1.symm
  · obtain ⟨hget, -, -⟩ := hentry entry hmem
    exact hlive.owned _ _ _ hget

/-- A step of prepared requests, each at its frontier, has its entries. -/
theorem orderedTickets_total (hne : scheduled.scheduledCachedReqs.reqIds ≠ [])
    (hnd : scheduled.scheduledCachedReqs.reqIds.Nodup)
    (hperm : scheduled.scheduledCachedReqs.reqIds.Perm (requests.map fun request => request.session.requestId))
    (hlen : scheduled.scheduledCachedReqs.numComputedTokens.length = scheduled.scheduledCachedReqs.reqIds.length)
    (hplain : Plain scheduled scheduled.scheduledCachedReqs.reqIds)
    (heach : ∀ request ∈ requests, ∃ ticket, Prepared request ticket ∧
      request.session.requestId ∉ scheduled.scheduledCachedReqs.resumedReqIds ∧
      (request.session.requestId, ticket.position) ∈
        scheduled.scheduledCachedReqs.reqIds.zip scheduled.scheduledCachedReqs.numComputedTokens) :
    ∃ entries, orderedTickets requests scheduled = .ok entries := by
  obtain ⟨byId, hbyId⟩ := @liveTickets_total requests Dict.empty
    (fun request hmem => (heach request hmem).imp fun _ h => h.1) (hperm.nodup_iff.mp hnd)
  have hlive := liveTickets_ok hbyId
  have hset : ∀ id, id ∈ byId.keys ↔ id ∈ scheduled.scheduledCachedReqs.reqIds := fun id => by
    rw [hlive.keys]
    exact hperm.mem_iff.symm
  have hfound : packedRefusals scheduled byId.keys = [] :=
    packedRefusals_eq_nil.mpr ⟨⟨hplain.new, fun id hid => hplain.unfinished id ((hset id).mp hid), hplain.preempted,
      hplain.structured, hplain.encoder⟩, hne, hnd⟩
  have hrows : ∀ row ∈ scheduled.scheduledCachedReqs.reqIds.zip scheduled.scheduledCachedReqs.numComputedTokens,
      ∃ entry, scheduledEntry byId scheduled.scheduledCachedReqs row = .ok entry := by
    rintro ⟨id, position⟩ hrow
    obtain ⟨request, hmem, hid⟩ := List.mem_map.mp (hperm.subset (List.of_mem_zip hrow).1)
    obtain ⟨ticket, hprepared, hresumed, hfrontier⟩ := heach request hmem
    rw [hid] at hresumed hfrontier
    -- the ids are distinct, so the row and the ticket are at one position
    have hrow' : (rowsOf hnd scheduled.scheduledCachedReqs.numComputedTokens).get? id = some position :=
      Dict.get?_eq_some_iff.mpr hrow
    rw [show (rowsOf hnd scheduled.scheduledCachedReqs.numComputedTokens).get? id = some ticket.position from
      Dict.get?_eq_some_iff.mpr hfrontier, Option.some.injEq] at hrow'
    obtain ⟨⟨other, t⟩, hget⟩ := Option.isSome_iff_exists.mp
      (Dict.isSome_get?.mpr ((hset id).mpr (List.of_mem_zip hrow).1))
    obtain ⟨hother, hid', hprepared'⟩ := hlive.owned _ _ _ hget
    have hsame : other = request := List.inj_on_of_nodup_map (hperm.nodup_iff.mp hnd) hother hmem (hid'.trans hid.symm)
    subst hsame
    have ht : t = ticket := Option.some.inj (hprepared'.pending.symm.trans hprepared.pending)
    subst ht
    exact ⟨⟨id, other, t⟩, scheduledEntry_ok.mpr ⟨hget, by rw [hrow'], hresumed⟩⟩
  obtain ⟨entries, hentries⟩ := mapM_total.mpr hrows
  refine ⟨entries, ?_⟩
  unfold orderedTickets
  rw [hbyId]
  refine (raiseIf_bind (not_not.mpr hfound)).trans ?_
  refine (raiseIf_bind (not_not.mpr ⟨fun id hid => (hset id).mp hid, fun id hid => (hset id).mpr hid⟩)).trans ?_
  exact (raiseIf_bind (not_not.mpr hlen)).trans hentries

/-! ## Counts and proposals -/

theorem Ordered.keys_nodup (h : Ordered requests scheduled entries) : (entries.map (·.requestId)).Nodup :=
  h.ids ▸ h.nodup

/-- The entry of a live request. -/
theorem Ordered.entry_of (h : Ordered requests scheduled entries) {request : FastRequest} (hmem : request ∈ requests) :
    ∃ entry ∈ entries, entry.request = request ∧ entry.requestId = request.session.requestId := by
  have hid : request.session.requestId ∈ entries.map (·.requestId) := by
    rw [h.ids]
    exact h.perm.symm.subset (List.mem_map.mpr ⟨request, hmem, rfl⟩)
  obtain ⟨entry, hentry, hid⟩ := List.mem_map.mp hid
  obtain ⟨hother, hown, -⟩ := h.own entry hentry
  exact ⟨entry, hentry, List.inj_on_of_nodup_map (h.perm.nodup_iff.mp h.nodup) hother hmem (hown.trans hid), hid⟩

/-- The counts are the expected ones: each request's own block, and no other's. -/
theorem counts_same (h : Ordered requests scheduled entries) :
    scheduled.numScheduledTokens.Same (expectedCounts entries) ↔
      (∀ entry ∈ entries, scheduled.numScheduledTokens.get? entry.requestId = some entry.ticket.rows) ∧
        ∀ id ∈ scheduled.numScheduledTokens.keys, id ∈ scheduled.scheduledCachedReqs.reqIds := by
  have hkeys : ((entries.map fun entry => (entry.requestId, entry.ticket.rows)).map Prod.fst) =
      scheduled.scheduledCachedReqs.reqIds := by
    rw [List.map_map, ← h.ids]
    rfl
  unfold expectedCounts
  rw [Dict.same_ofList (hkeys ▸ h.nodup), hkeys, List.forall_mem_map]

/-- The proposals are the expected ones: those of each request that has any, and no other's. -/
theorem drafts_same (h : Ordered requests scheduled entries) :
    scheduled.scheduledSpecDecodeTokens.Same (expectedProposals entries) ↔
      (∀ entry ∈ entries, scheduled.scheduledSpecDecodeTokens.get? entry.requestId =
        if 1 < entry.ticket.rows then some entry.ticket.proposals else none) ∧
        ∀ id ∈ scheduled.scheduledSpecDecodeTokens.keys, id ∈ scheduled.scheduledCachedReqs.reqIds := by
  have hkeys : (((entries.filter fun entry => 1 < entry.ticket.rows).map fun entry =>
      (entry.requestId, entry.ticket.proposals)).map Prod.fst) =
      (entries.filter fun entry => 1 < entry.ticket.rows).map (·.requestId) := by
    rw [List.map_map]
    rfl
  have hnd : ((entries.filter fun entry => 1 < entry.ticket.rows).map (·.requestId)).Nodup :=
    (List.filter_sublist.map _).nodup h.keys_nodup
  unfold expectedProposals
  rw [Dict.same_ofList (hkeys ▸ hnd), hkeys, List.forall_mem_map]
  simp only [List.mem_filter, decide_eq_true_eq, and_imp]
  constructor
  · rintro ⟨hitems, hown⟩
    refine ⟨fun entry hentry => ?_, fun id hid => ?_⟩
    · split
      · rename_i hrows
        exact hitems entry hentry hrows
      · rename_i hrows
        refine Dict.get?_eq_none_iff.mpr fun hid => ?_
        obtain ⟨other, hother, heq⟩ := List.mem_map.mp (hown _ hid)
        obtain ⟨hother, hlong⟩ := List.mem_filter.mp hother
        have hsame : other = entry := List.inj_on_of_nodup_map h.keys_nodup hother hentry heq
        rw [hsame] at hlong
        exact hrows (of_decide_eq_true hlong)
    · obtain ⟨entry, hentry, rfl⟩ := List.mem_map.mp (hown id hid)
      rw [← h.ids]
      exact List.mem_map.mpr ⟨entry, (List.mem_filter.mp hentry).1, rfl⟩
  · rintro ⟨heach, hown⟩
    refine ⟨fun entry hentry hrows => (heach entry hentry).trans (if_pos hrows), fun id hid => ?_⟩
    have hmem := hown id hid
    rw [← h.ids] at hmem
    obtain ⟨entry, hentry, rfl⟩ := List.mem_map.mp hmem
    refine List.mem_map.mpr ⟨entry, List.mem_filter.mpr ⟨hentry, ?_⟩, rfl⟩
    by_contra hrows
    have hnone := heach entry hentry
    rw [if_neg fun hlong => hrows (decide_eq_true hlong), Dict.get?_eq_none_iff] at hnone
    exact hnone hid

/-- What an admitted step says. -/
theorem admitPacked_ok (h : admitPackedSchedulerOutput requests scheduled = .ok entries) :
    Ordered requests scheduled entries ∧ scheduled.numScheduledTokens.Same (expectedCounts entries) ∧
      scheduled.totalNumScheduledTokens = scheduled.numScheduledTokens.values.sum ∧
      scheduled.scheduledSpecDecodeTokens.Same (expectedProposals entries) := by
  obtain ⟨entries', hordered, h⟩ := bind_ok h
  obtain ⟨⟨⟩, hcounts, h⟩ := bind_ok h
  obtain ⟨⟨⟩, hdrafts, h⟩ := bind_ok h
  cases h
  simp only [raiseIf_ok, not_or, ne_eq, not_not] at hcounts hdrafts
  obtain ⟨hsame, htotal⟩ := hcounts
  exact ⟨orderedTickets_ok hordered, hsame, htotal.trans (hsame.perm.map Prod.snd).sum_eq.symm, hdrafts⟩

/-- **A packed step is admitted exactly where each request's own part is.** -/
theorem admitPacked_iff : (∃ entries, admitPackedSchedulerOutput requests scheduled = .ok entries) ↔
    PackedMatches requests scheduled := by
  constructor
  · rintro ⟨entries, h⟩
    obtain ⟨hordered, hcounts, htotal, hdrafts⟩ := admitPacked_ok h
    obtain ⟨hcount, hcountKeys⟩ := (counts_same hordered).mp hcounts
    obtain ⟨hdraft, hdraftKeys⟩ := (drafts_same hordered).mp hdrafts
    refine ⟨hordered.nonempty, hordered.nodup, hordered.perm, hordered.frontiers, hcountKeys, hdraftKeys, htotal,
      fun request hmem => ?_⟩
    obtain ⟨entry, hentry, rfl, hid⟩ := hordered.entry_of hmem
    obtain ⟨-, -, hprepared⟩ := hordered.own entry hentry
    refine ⟨entry.ticket, (restrict_admitted hordered.nodup).mpr ⟨hprepared, ⟨hordered.plain.new, fun id hlive => ?_,
      hordered.plain.preempted, hordered.plain.structured, hordered.plain.encoder⟩, ?_⟩⟩
    · rw [List.mem_singleton.mp hlive]
      exact hordered.plain.unfinished _ (hordered.perm.symm.subset (List.mem_map.mpr ⟨_, hmem, rfl⟩))
    · rw [← hid]
      exact ⟨hordered.resumed entry hentry, hordered.frontier entry hentry, hcount entry hentry, hdraft entry hentry⟩
  · intro h
    have heach : ∀ request ∈ requests, ∃ ticket, Prepared request ticket ∧
        Plain scheduled [request.session.requestId] ∧ Reserves scheduled request.session.requestId ticket :=
      fun request hmem => (h.each request hmem).imp fun _ hadmitted => (restrict_admitted h.nodup).mp hadmitted
    have hids : ∀ id ∈ scheduled.scheduledCachedReqs.reqIds, ∃ request ∈ requests, request.session.requestId = id :=
      fun id hid => List.mem_map.mp (h.perm.subset hid)
    obtain ⟨first, hfirst⟩ := List.exists_mem_of_ne_nil _ h.nonempty
    obtain ⟨request, hmem, -⟩ := hids first hfirst
    obtain ⟨-, -, hplain, -⟩ := heach request hmem
    have hall : Plain scheduled scheduled.scheduledCachedReqs.reqIds := by
      refine ⟨hplain.new, fun id hid => ?_, hplain.preempted, hplain.structured, hplain.encoder⟩
      obtain ⟨other, hother, rfl⟩ := hids id hid
      obtain ⟨-, -, hothers, -⟩ := heach other hother
      exact hothers.unfinished _ (List.mem_singleton.mpr rfl)
    obtain ⟨entries, hentries⟩ := orderedTickets_total h.nonempty h.nodup h.perm h.frontiers hall
      fun request hmem => (heach request hmem).imp fun _ hr => ⟨hr.1, hr.2.2.resumed, hr.2.2.frontier⟩
    have hordered := orderedTickets_ok hentries
    have hreserves : ∀ entry ∈ entries, Reserves scheduled entry.requestId entry.ticket := by
      intro entry hentry
      obtain ⟨hmem, hid, hprepared⟩ := hordered.own entry hentry
      obtain ⟨ticket, hticket, -, hreserve⟩ := heach entry.request hmem
      rw [Option.some.inj (hprepared.pending.symm.trans hticket.pending), ← hid]
      exact hreserve
    have hcounts := (counts_same hordered).mpr ⟨fun entry hentry => (hreserves entry hentry).count, h.counts⟩
    have hdrafts := (drafts_same hordered).mpr ⟨fun entry hentry => (hreserves entry hentry).drafts, h.drafts⟩
    have htotal := h.total.trans (hcounts.perm.map Prod.snd).sum_eq
    refine ⟨entries, ?_⟩
    unfold admitPackedSchedulerOutput
    rw [hentries]
    refine (raiseIf_bind (not_or.mpr ⟨not_not.mpr hcounts, not_not.mpr htotal⟩)).trans ?_
    exact raiseIf_bind (not_not.mpr hdrafts)

end Entries

/-! ## The claim -/

/-- On a single request the two contracts ask the same. -/
theorem packed_single {request : FastRequest} {scheduled : SchedulerOutput} :
    PackedMatches [request] scheduled ↔ ∃ ticket, admitSchedulerOutput request scheduled = .ok ticket := by
  constructor
  · intro h
    obtain ⟨ticket, hadmitted⟩ := h.each request List.mem_cons_self
    obtain ⟨hprepared, hplain, hreserves⟩ := (restrict_admitted h.nodup).mp hadmitted
    have hids : scheduled.scheduledCachedReqs.reqIds = [request.session.requestId] := List.perm_singleton.mp h.perm
    have howner := hprepared.owner
    obtain ⟨position, hposition⟩ : ∃ position, scheduled.scheduledCachedReqs.numComputedTokens = [position] :=
      List.length_eq_one_iff.mp (by rw [h.frontiers, hids]; rfl)
    have hfrontier := hreserves.frontier
    rw [hids, hposition, List.zip_cons_cons, List.zip_nil_left, List.mem_singleton, Prod.mk.injEq] at hfrontier
    have honly : ∀ {ν : Type} {d : Dict String ν}, (∀ id ∈ d.keys, id ∈ scheduled.scheduledCachedReqs.reqIds) →
        d.items = (d.get? request.session.requestId).toList.map (Prod.mk request.session.requestId) := by
      intro ν d hd
      refine Dict.items_single fun id hid => ?_
      have hmem := hd id hid
      rw [hids] at hmem
      exact List.mem_singleton.mp hmem
    have hcounts := honly h.counts
    have hdrafts := honly h.drafts
    rw [hreserves.count] at hcounts
    rw [hreserves.drafts] at hdrafts
    refine ⟨ticket, admit_ok.mpr ⟨hprepared, hplain.new, ?_, hplain.preempted, hplain.structured, hplain.encoder,
      ?_, ?_, ?_, ?_, ?_, ?_, ?_⟩⟩
    · rw [howner]
      exact hplain.unfinished _ (List.mem_singleton.mpr rfl)
    · rw [hids, howner]
    · rw [howner]
      exact hreserves.resumed
    · rw [hposition, hfrontier.2]
    · show scheduled.numScheduledTokens.items.map Prod.fst = _
      rw [hcounts, howner]
      rfl
    · rw [howner]
      exact hreserves.count
    · rw [h.total]
      show (scheduled.numScheduledTokens.items.map Prod.snd).sum = _
      rw [hcounts]
      simp
    · rw [hdrafts]
      unfold expectedDrafts
      split
      · rw [howner]
        rfl
      · rfl
  · rintro ⟨ticket, hadmitted⟩
    have h := admit_ok.mp hadmitted
    have howner := h.prepared.owner
    have hids : scheduled.scheduledCachedReqs.reqIds = [request.session.requestId] := by rw [h.cached, howner]
    have hkeys : scheduled.numScheduledTokens.keys = [request.session.requestId] := by rw [h.counts, howner]
    have hitems := Dict.items_single (k := request.session.requestId) fun id hid => by
      rw [hkeys] at hid
      exact List.mem_singleton.mp hid
    rw [show scheduled.numScheduledTokens.get? request.session.requestId = some ticket.rows by
      rw [← howner]; exact h.reserved] at hitems
    have hdraft : scheduled.scheduledSpecDecodeTokens.get? request.session.requestId =
        if 1 < ticket.rows then some ticket.proposals else none := by
      have hdrafts := h.drafts
      unfold expectedDrafts at hdrafts
      split at hdrafts <;> rename_i hrows
      · rw [if_pos hrows, Dict.get?_eq_some_iff, hdrafts, howner]
        exact List.mem_singleton.mpr rfl
      · rw [if_neg hrows]
        refine Dict.get?_eq_none_iff.mpr fun hid => ?_
        obtain ⟨_, hmem⟩ := Dict.mem_keys.mp hid
        rw [hdrafts] at hmem
        cases hmem
    have hnd : scheduled.scheduledCachedReqs.reqIds.Nodup := hids ▸ List.nodup_singleton _
    refine ⟨by rw [hids]; exact List.cons_ne_nil _ _, hnd, by rw [hids]; exact List.Perm.refl _, ?_, fun id hid => ?_,
      fun id hid => ?_, ?_, fun other hother => ?_⟩
    · rw [hids, h.frontier]
      rfl
    · rw [hids, ← hkeys]
      exact hid
    · obtain ⟨_, hmem⟩ := Dict.mem_keys.mp hid
      rw [h.drafts] at hmem
      unfold expectedDrafts at hmem
      split at hmem
      · rw [List.mem_singleton, Prod.mk.injEq] at hmem
        rw [hids, hmem.1, howner]
        exact List.mem_singleton.mpr rfl
      · cases hmem
    · rw [h.total]
      show _ = (scheduled.numScheduledTokens.items.map Prod.snd).sum
      rw [hitems]
      simp
    · rw [List.mem_singleton.mp hother]
      refine ⟨ticket, (restrict_admitted hnd).mpr ⟨h.prepared, ⟨h.new, fun id hid => ?_, h.preempted, h.structured,
        h.encoder⟩, ?_⟩⟩
      · rw [List.mem_singleton.mp hid, ← howner]
        exact h.unfinished
      · refine ⟨howner ▸ h.resumed, ?_, howner ▸ h.reserved, hdraft⟩
        rw [hids, h.frontier]
        exact List.mem_singleton.mpr rfl

/-- **Main result.** A packed step is admitted if and only if the cached ids are the requests' ids, each once and at
least one, with a frontier each, in maps that name no other request and with the sum as the total, and each request's
own part of the step is admitted for it; the entries are then in the scheduler's order, each with its request's own live
ticket. For one request the two contracts admit the same steps. -/
theorem packed_admission (requests : List FastRequest) (scheduled : SchedulerOutput) :
    ((∃ entries, admitPackedSchedulerOutput requests scheduled = .ok entries) ↔ PackedMatches requests scheduled) ∧
      (∀ entries, admitPackedSchedulerOutput requests scheduled = .ok entries →
        entries.map (·.requestId) = scheduled.scheduledCachedReqs.reqIds ∧
        ∀ entry ∈ entries, entry.request ∈ requests ∧ entry.request.session.requestId = entry.requestId ∧
          preparedTicket entry.request = .ok entry.ticket) ∧
      ∀ request, (∃ entries, admitPackedSchedulerOutput [request] scheduled = .ok entries) ↔
        ∃ ticket, admitSchedulerOutput request scheduled = .ok ticket := by
  refine ⟨admitPacked_iff, fun entries h => ?_, fun request => admitPacked_iff.trans packed_single⟩
  obtain ⟨hordered, -⟩ := admitPacked_ok h
  refine ⟨hordered.ids, fun entry hentry => ?_⟩
  obtain ⟨hmem, hid, hprepared⟩ := hordered.own entry hentry
  exact ⟨hmem, hid, preparedTicket_ok.mpr hprepared⟩

end BlackholeQwen.Serving
