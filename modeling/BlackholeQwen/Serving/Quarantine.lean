import BlackholeQwen.Lib.Call
import BlackholeQwen.Lib.Runs
import BlackholeQwen.Serving.VllmContract

/-!
# Request quarantine

`serving_request_quarantine.py`. The worker registers a request it refuses; the wrapped `update_from_output` of the
scheduler then finishes every registered request as `FINISHED_ABORTED` and marks its output.

The scheduler is vLLM's and not part of the repository: `SchedulerApi` is what is called of it, `SchedulerApi.Lawful`
what vLLM promises of these calls. `abortOne` is the loop's body, and the `fold_*` lemmas say what the whole loop does
to the calls made, to the requests known and to the outputs. `Registered` reads off the events so far which requests are
waiting for an update, and `Kept` is what a run keeps of them.
-/

namespace BlackholeQwen.Serving.Quarantine

open Lib

/-! ## vLLM's types -/

/-- `RequestStatus`. -/
inductive RequestStatus
  | waiting | running | finishedStopped | finishedLengthCapped | finishedAborted
  deriving DecidableEq, Repr

/-- `FinishReason`. -/
inductive FinishReason
  | stop | length | abort
  deriving DecidableEq, Repr

/-- `EngineCoreOutput`. -/
structure EngineCoreOutput where
  requestId : String
  newTokenIds : List Nat
  finishReason : Option FinishReason
  deriving DecidableEq, Repr

/-- What `update_from_output` returns: the outputs of each client, or one batch for all. -/
inductive Outputs
  | perClient (batches : Dict Nat (List EngineCoreOutput))
  | single (outputs : List EngineCoreOutput)

/-- A request, as far as the quarantine reads it; `none` where it has no `client_index`. -/
structure Request where
  clientIndex : Option Nat
  deriving DecidableEq, Repr

/-- `getattr(request, 'client_index', 0)`. -/
def Request.client (r : Request) : Nat := r.clientIndex.getD 0

/-- The step a scheduler hands to the worker. `none` where the attribute is absent or, for the counts, no `dict`. -/
structure ScheduledStep where
  finishedReqIds : Option (List String)
  cachedReqIds : Option (List String)
  numScheduledTokens : Option (Dict String Nat)

namespace ScheduledStep

/-- The requests finished since the step before. -/
def finished (s : ScheduledStep) : List String := s.finishedReqIds.getD []

/-- The requests the step schedules again. -/
def named (s : ScheduledStep) : List String :=
  s.cachedReqIds.getD [] ++ (s.numScheduledTokens.map Dict.keys).getD []

end ScheduledStep

namespace Outputs

/-- Where the outputs of a client are: in the batch of its index, or in the only one. -/
def key (outs : Outputs) (client : Nat) : Option Nat :=
  match outs with
  | perClient _ => some client
  | single _ => none

/-- The outputs at a key. -/
def batch : Outputs → Option Nat → List EngineCoreOutput
  | perClient batches, some client => (batches.get? client).getD []
  | single outputs, none => outputs
  | _, _ => []

/-- The inner loop of `abort_quarantined`: the first output of the request is marked, or one is appended. -/
def markOrAdd (id : String) : List EngineCoreOutput → List EngineCoreOutput
  | [] => [⟨id, [], some .abort⟩]
  | o :: os => if o.requestId = id then { o with finishReason := some .abort } :: os else o :: markOrAdd id os

/-- The request ended in the batch of its client, which is made if there is none. -/
def abort (outs : Outputs) (client : Nat) (id : String) : Outputs :=
  match outs with
  | perClient batches => perClient (batches.set client (markOrAdd id ((batches.get? client).getD [])))
  | single outputs => single (markOrAdd id outputs)

/-- The outputs of a request once it has ended: its own, marked, or one without tokens. -/
def ended (id : String) : List EngineCoreOutput → List EngineCoreOutput
  | [] => [⟨id, [], some .abort⟩]
  | o :: os => { o with finishReason := some .abort } :: os

@[simp] theorem key_abort (outs : Outputs) (client : Nat) (id : String) : (outs.abort client id).key = outs.key := by
  cases outs <;> rfl

/-- Only the batch of the request's client changes. -/
theorem batch_abort (outs : Outputs) (client : Nat) (id : String) (k : Option Nat) :
    (outs.abort client id).batch k = if k = outs.key client then markOrAdd id (outs.batch k) else outs.batch k := by
  cases outs with
  | single outputs => cases k <;> simp [abort, key, batch]
  | perClient batches =>
    cases k with
    | none => simp [abort, key, batch]
    | some c =>
      by_cases hc : c = client
      · subst hc; simp [abort, key, batch]
      · simp [abort, key, batch, hc, Dict.get?_set_of_ne]

/-- Outputs that are not the request's are unchanged, and stand in the same order. -/
theorem filter_markOrAdd {id : String} {p : EngineCoreOutput → Bool} (hp : ∀ o, o.requestId = id → p o = false)
    (b : List EngineCoreOutput) : (markOrAdd id b).filter p = b.filter p := by
  induction b with
  | nil => simp [markOrAdd, hp]
  | cons o os ih =>
    unfold markOrAdd
    by_cases ho : o.requestId = id
    · rw [if_pos ho, List.filter_cons, List.filter_cons, hp o ho, hp { o with finishReason := some .abort } ho]
      rfl
    · rw [if_neg ho, List.filter_cons, List.filter_cons, ih]

/-- The request's own outputs are ended. -/
theorem filter_markOrAdd_self (id : String) (b : List EngineCoreOutput) :
    (markOrAdd id b).filter (·.requestId = id) = ended id (b.filter (·.requestId = id)) := by
  induction b with
  | nil => simp [markOrAdd, ended]
  | cons o os ih =>
    unfold markOrAdd
    by_cases ho : o.requestId = id
    · simp [ho, ended]
    · simp [ho, ih]

end Outputs

/-! ## The scheduler -/

/-- The scheduler: the requests it knows, and the calls it answers. `ι` is what a step of the engine hands to
`update_from_output`. -/
structure SchedulerApi (σ ι : Type) where
  requests : σ → Dict String Request
  addRequest : σ → String → Request → σ
  finishRequests : σ → String → RequestStatus → σ
  schedule : σ → σ × ScheduledStep
  updateFromOutput : σ → ι → σ × Outputs

variable {σ ι : Type}

/-- What vLLM promises of its scheduler: `finish_requests` removes the named request, `update_from_output` removes what
it finishes and answers at most once for a request, in the batch of the request's client, and a step schedules requests
the scheduler knows and names as finished requests it has removed. -/
structure SchedulerApi.Lawful (api : SchedulerApi σ ι) : Prop where
  add : ∀ s id r id', (api.requests (api.addRequest s id r)).get? id' =
    if id' = id then some r else (api.requests s).get? id'
  finish : ∀ s id status id', (api.requests (api.finishRequests s id status)).get? id' =
    if id' = id then none else (api.requests s).get? id'
  schedule : ∀ s id, (api.requests (api.schedule s).1).get? id = (api.requests s).get? id
  scheduled : ∀ s, ∀ id ∈ (api.schedule s).2.named, id ∈ (api.requests s).keys
  finished : ∀ s, ∀ id ∈ (api.schedule s).2.finished, id ∉ (api.requests s).keys
  removes : ∀ s i id r, (api.requests (api.updateFromOutput s i).1).get? id = some r →
    (api.requests s).get? id = some r
  once : ∀ s i k, (((api.updateFromOutput s i).2.batch k).map EngineCoreOutput.requestId).Nodup
  own : ∀ s i k, ∀ o ∈ (api.updateFromOutput s i).2.batch k, ∀ r, (api.requests s).get? o.requestId = some r →
    k = (api.updateFromOutput s i).2.key r.client

/-! ## The quarantine -/

/-- What `register` is passed as a request id. -/
inductive IdValue
  | str (id : String) | other
  deriving DecidableEq, Repr

/-- `holder()`: the class that `install` wrapped, and the requests registered with their reasons. -/
structure Holder where
  installed : Option String
  pending : Dict String String

/-- `register`. -/
def Holder.register (h : Holder) (value : IdValue) (reason : String) : Call Holder Unit :=
  match value with
  | .other => .throw h (.valueError "A request id is required to quarantine a request")
  | .str id =>
    if id = "" then .throw h (.valueError "A request id is required to quarantine a request")
    else if h.installed = none then
      .throw h (.valueError ("No scheduler consumes the request quarantine; refusing to strand " ++ reprId id))
    else .ret { h with pending := h.pending.set id reason } ()

/-- `unconsumed`: the registered requests that this step schedules, and the registry without those it has finished. -/
def Holder.unconsumed (h : Holder) (step : ScheduledStep) : List String × Holder :=
  if h.pending.items = [] then ([], h)
  else
    let pending := (h.pending.keys.filter (· ∈ step.finished)).foldl Dict.erase h.pending
    (sortedIds (pending.keys.filter (· ∈ step.named)), { h with pending })

/-- What the loop of `abort_quarantined` changes, and the calls of `finish_requests` it makes. -/
structure Ending (σ : Type) where
  scheduler : σ
  outputs : Outputs
  calls : List (String × RequestStatus)

/-- One request of the loop. -/
def abortOne (api : SchedulerApi σ ι) (e : Ending σ) (id : String) : Ending σ :=
  match (api.requests e.scheduler).get? id with
  | none => e
  | some request =>
    { scheduler := api.finishRequests e.scheduler id .finishedAborted
      outputs := e.outputs.abort request.client id
      calls := e.calls ++ [(id, .finishedAborted)] }

/-- `abort_quarantined`. -/
def abortQuarantined (api : SchedulerApi σ ι) (h : Holder) (scheduler : σ) (outputs : Outputs) : Holder × Ending σ :=
  if h.pending.items = [] then (h, ⟨scheduler, outputs, []⟩)
  else ({ h with pending := Dict.empty }, h.pending.keys.foldl (abortOne api) ⟨scheduler, outputs, []⟩)

/-- `update_from_output` as `install` wraps it. -/
def updateFromOutput (api : SchedulerApi σ ι) (h : Holder) (scheduler : σ) (i : ι) : Holder × Ending σ :=
  abortQuarantined api h (api.updateFromOutput scheduler i).1 (api.updateFromOutput scheduler i).2

/-! ## The loop -/

/-- The registered requests that the scheduler knows. -/
def known (api : SchedulerApi σ ι) (s : σ) (ids : List String) : List String :=
  ids.filter fun id => ((api.requests s).get? id).isSome

section Loop

variable {api : SchedulerApi σ ι}

theorem abortOne_none {e : Ending σ} {id : String} (h : (api.requests e.scheduler).get? id = none) :
    abortOne api e id = e := by
  unfold abortOne; rw [h]

theorem abortOne_some {e : Ending σ} {id : String} {r : Request} (h : (api.requests e.scheduler).get? id = some r) :
    abortOne api e id =
      ⟨api.finishRequests e.scheduler id .finishedAborted, e.outputs.abort r.client id,
        e.calls ++ [(id, .finishedAborted)]⟩ := by
  unfold abortOne; rw [h]

/-- The request is no longer known; the others are as before. -/
theorem abortOne_requests (h : api.Lawful) (e : Ending σ) (id id' : String) :
    (api.requests (abortOne api e id).scheduler).get? id' =
      if id' = id then none else (api.requests e.scheduler).get? id' := by
  cases hr : (api.requests e.scheduler).get? id with
  | none =>
    rw [abortOne_none hr]
    split
    · rename_i heq; rw [heq, hr]
    · rfl
  | some r => rw [abortOne_some hr]; exact h.finish ..

theorem fold_requests (h : api.Lawful) (ids : List String) (e : Ending σ) (id : String) :
    (api.requests (ids.foldl (abortOne api) e).scheduler).get? id =
      if id ∈ ids then none else (api.requests e.scheduler).get? id := by
  induction ids generalizing e with
  | nil => simp
  | cons a ids ih =>
    rw [List.foldl_cons, ih, abortOne_requests h]
    by_cases ha : id = a <;> by_cases hm : id ∈ ids <;> simp [ha, hm]

/-- Each registered request that the scheduler knows is finished, in the order of registration. -/
theorem fold_calls (h : api.Lawful) {ids : List String} (hnd : ids.Nodup) (e : Ending σ) :
    (ids.foldl (abortOne api) e).calls =
      e.calls ++ (known api e.scheduler ids).map fun id => (id, .finishedAborted) := by
  induction ids generalizing e with
  | nil => simp [known]
  | cons a ids ih =>
    obtain ⟨ha, hnd⟩ := List.nodup_cons.mp hnd
    -- finishing one request leaves the others as known as they were
    have hrest : known api (abortOne api e a).scheduler ids = known api e.scheduler ids := by
      refine List.filter_congr fun id hid => ?_
      have hne : id ≠ a := fun heq => ha (heq ▸ hid)
      rw [abortOne_requests h, if_neg hne]
    rw [List.foldl_cons, ih hnd, hrest]
    cases hr : (api.requests e.scheduler).get? a with
    | none => rw [abortOne_none hr]; simp [known, hr]
    | some r => rw [abortOne_some hr]; simp [known, hr]

@[simp] theorem fold_key (ids : List String) (e : Ending σ) :
    (ids.foldl (abortOne api) e).outputs.key = e.outputs.key := by
  induction ids generalizing e with
  | nil => rfl
  | cons a ids ih =>
    rw [List.foldl_cons, ih]
    cases hr : (api.requests e.scheduler).get? a with
    | none => rw [abortOne_none hr]
    | some r => rw [abortOne_some hr]; exact Outputs.key_abort ..

/-- Outputs of other requests are unchanged, and stand in the same order. -/
theorem fold_other {p : EngineCoreOutput → Bool} {ids : List String} (h : api.Lawful) (hnd : ids.Nodup) (e : Ending σ)
    (hp : ∀ o, o.requestId ∈ known api e.scheduler ids → p o = false) (k : Option Nat) :
    ((ids.foldl (abortOne api) e).outputs.batch k).filter p = (e.outputs.batch k).filter p := by
  induction ids generalizing e with
  | nil => rfl
  | cons a ids ih =>
    obtain ⟨ha, hnd⟩ := List.nodup_cons.mp hnd
    rw [List.foldl_cons, ih hnd]
    · cases hr : (api.requests e.scheduler).get? a with
      | none => rw [abortOne_none hr]
      | some r =>
        rw [abortOne_some hr, Outputs.batch_abort]
        split
        · exact Outputs.filter_markOrAdd (fun o ho => hp o (by simp [known, ho, hr])) _
        · rfl
    · intro o ho
      simp only [known, List.mem_filter, abortOne_requests h] at ho
      refine hp o (List.mem_filter.mpr ⟨List.mem_cons_of_mem _ ho.1, ?_⟩)
      split at ho
      · simp at ho
      · exact ho.2

/-- A registered request that the scheduler knows ends in the batch of its client. -/
theorem fold_own (h : api.Lawful) {ids : List String} (hnd : ids.Nodup) (e : Ending σ) {id : String} (hid : id ∈ ids)
    {r : Request} (hr : (api.requests e.scheduler).get? id = some r) (k : Option Nat) :
    ((ids.foldl (abortOne api) e).outputs.batch k).filter (·.requestId = id) =
      if k = e.outputs.key r.client then Outputs.ended id ((e.outputs.batch k).filter (·.requestId = id))
      else (e.outputs.batch k).filter (·.requestId = id) := by
  induction ids generalizing e with
  | nil => cases hid
  | cons a ids ih =>
    obtain ⟨ha, hnds⟩ := List.nodup_cons.mp hnd
    rw [List.foldl_cons]
    by_cases hne : id = a
    · subst hne
      rw [fold_other h hnds]
      · rw [abortOne_some hr, Outputs.batch_abort]
        split
        · exact Outputs.filter_markOrAdd_self ..
        · rfl
      · intro o ho
        exact decide_eq_false fun heq => ha (heq ▸ (List.mem_filter.mp ho).1)
    · have hmem := (List.mem_cons.mp hid).resolve_left hne
      rw [ih hnds (abortOne api e a) hmem (by rw [abortOne_requests h, if_neg hne, hr])]
      cases hra : (api.requests e.scheduler).get? a with
      | none => rw [abortOne_none hra]
      | some ra =>
        have hother : ((e.outputs.abort ra.client a).batch k).filter (·.requestId = id) =
            (e.outputs.batch k).filter (·.requestId = id) := by
          rw [Outputs.batch_abort]
          split
          · exact Outputs.filter_markOrAdd (fun o ho => decide_eq_false fun heq => hne (heq.symm.trans ho)) _
          · rfl
        simp only [abortOne_some hra, Outputs.key_abort, hother]

/-- The loop over no requests does nothing. -/
theorem abortQuarantined_eq (api : SchedulerApi σ ι) (h : Holder) (scheduler : σ) (outputs : Outputs) :
    abortQuarantined api h scheduler outputs =
      ({ h with pending := Dict.empty }, h.pending.keys.foldl (abortOne api) ⟨scheduler, outputs, []⟩) := by
  unfold abortQuarantined
  split
  · rename_i hnil
    obtain ⟨installed, ⟨items, hnd⟩⟩ := h
    obtain rfl : items = [] := hnil
    rfl
  · rfl

/-- What stays registered was registered, and has not finished. -/
theorem mem_unconsumed_pending {h : Holder} {s : ScheduledStep} {id : String} :
    id ∈ (h.unconsumed s).2.pending.keys ↔ id ∈ h.pending.keys ∧ id ∉ s.finished := by
  have hfold : ∀ (ids : List String) (d : Dict String String),
      id ∈ (ids.foldl Dict.erase d).keys ↔ id ∈ d.keys ∧ id ∉ ids := by
    intro ids
    induction ids with
    | nil => simp
    | cons a ids ih => intro d; rw [List.foldl_cons, ih, Dict.mem_keys_erase, List.mem_cons]; tauto
  unfold Holder.unconsumed
  split
  · rename_i hnil
    simp [Dict.keys, hnil]
  · rw [hfold, List.mem_filter]
    simp only [decide_eq_true_eq]
    tauto

/-- A request that `unconsumed` names is registered, scheduled, and has not finished. -/
theorem mem_unconsumed {h : Holder} {s : ScheduledStep} {id : String} (hid : id ∈ (h.unconsumed s).1) :
    id ∈ h.pending.keys ∧ id ∈ s.named ∧ id ∉ s.finished := by
  have hpending := @mem_unconsumed_pending h s id
  unfold Holder.unconsumed at hid hpending
  split at hid
  · cases hid
  · rename_i hnil
    rw [if_neg hnil] at hpending
    simp only [sortedIds, List.mem_mergeSort, List.mem_filter] at hid
    obtain ⟨hmem, hnot⟩ := hpending.mp hid.1
    exact ⟨hmem, of_decide_eq_true hid.2, hnot⟩

@[simp] theorem unconsumed_installed (h : Holder) (s : ScheduledStep) :
    (h.unconsumed s).2.installed = h.installed := by
  unfold Holder.unconsumed; split <;> rfl

end Loop

/-! ## Runs -/

/-- The scheduler and the registry of a process, the calls of `finish_requests` the quarantine has made, and the
requests a step has named as finished. -/
structure World (σ : Type) where
  holder : Holder
  scheduler : σ
  calls : List (String × RequestStatus)
  told : List String

/-- What happens between the two: a request arrives, the worker registers one, the wrapped `update_from_output` answers,
a client aborts one, and the next step is scheduled and checked. -/
inductive Event (ι : Type)
  | arrive (id : String) (request : Request)
  | register (value : IdValue) (reason : String)
  | update (i : ι) (outputs : Outputs)
  | clientAbort (id : String)
  | nextStep (step : ScheduledStep) (stranded : List String)

/-- The requests registered since the last update. -/
def registered (events : List (Event ι)) : List String :=
  events.foldl (fun ids e => match e with
    | .update _ _ => []
    | .register (.str id) _ => if id = "" then ids else ids ++ [id]
    | _ => ids) []

namespace World

/-- The registry before any event. -/
def Start (w : World σ) : Prop := w.holder.pending = Dict.empty ∧ w.calls = [] ∧ w.told = []

/-- The wrapped `update_from_output`. -/
def update (api : SchedulerApi σ ι) (w : World σ) (i : ι) : World σ :=
  let u := updateFromOutput api w.holder w.scheduler i
  { w with holder := u.1, scheduler := u.2.scheduler, calls := w.calls ++ u.2.calls }

/-- One event. A request id that a step has named as finished, or that the quarantine has ended, does not arrive
again. -/
def Step (api : SchedulerApi σ ι) (w : World σ) (e : Event ι) (w' : World σ) : Prop :=
  match e with
  | .arrive id request => id ∉ w.told ∧ id ∉ w.calls.map Prod.fst ∧
    w' = { w with scheduler := api.addRequest w.scheduler id request }
  | .register value reason => w' = { w with holder := (w.holder.register value reason).obj }
  | .update i outputs => w.holder.installed ≠ none ∧
    outputs = (updateFromOutput api w.holder w.scheduler i).2.outputs ∧ w' = w.update api i
  | .clientAbort id => w' = { w with scheduler := api.finishRequests w.scheduler id .finishedAborted }
  | .nextStep step stranded => step = (api.schedule w.scheduler).2 ∧ stranded = (w.holder.unconsumed step).1 ∧
    w' = { w with
      holder := (w.holder.unconsumed step).2
      scheduler := (api.schedule w.scheduler).1
      told := w.told ++ step.finished }

/-- What a run keeps: what is pending was registered since the last update, a registered request that is not pending was
named as finished, and what was named as finished or ended is not known again. -/
structure Kept (api : SchedulerApi σ ι) (events : List (Event ι)) (w : World σ) : Prop where
  pending : ∀ id ∈ w.holder.pending.keys, id ∈ registered events
  waiting : w.holder.installed ≠ none → ∀ id ∈ registered events, id ∈ w.holder.pending.keys ∨ id ∈ w.told
  told : ∀ id ∈ w.told, id ∉ (api.requests w.scheduler).keys
  ended : ∀ id ∈ w.calls.map Prod.fst, id ∉ (api.requests w.scheduler).keys
  once : (w.calls.map Prod.fst).Nodup
  status : ∀ call ∈ w.calls, call.2 = .finishedAborted

variable {api : SchedulerApi σ ι} {events : List (Event ι)} {w w' : World σ} {e : Event ι}

theorem registered_snoc (events : List (Event ι)) (e : Event ι) :
    registered (events ++ [e]) = match e with
      | .update _ _ => []
      | .register (.str id) _ => if id = "" then registered events else registered events ++ [id]
      | _ => registered events := by
  simp only [registered, List.foldl_append, List.foldl_cons, List.foldl_nil]

/-- What the scheduler knows after a wrapped update: what it knew after its own, without what was registered. -/
theorem update_requests (h : api.Lawful) (w : World σ) (i : ι) (id : String) :
    (api.requests (w.update api i).scheduler).get? id =
      if id ∈ w.holder.pending.keys then none
      else (api.requests (api.updateFromOutput w.scheduler i).1).get? id := by
  unfold update updateFromOutput
  rw [abortQuarantined_eq]
  exact fold_requests h ..

theorem update_calls (h : api.Lawful) (w : World σ) (i : ι) :
    (w.update api i).calls = w.calls ++
      (known api (api.updateFromOutput w.scheduler i).1 w.holder.pending.keys).map
        fun id => (id, .finishedAborted) := by
  have hcalls := fold_calls h w.holder.pending.nodup
    (⟨(api.updateFromOutput w.scheduler i).1, (api.updateFromOutput w.scheduler i).2, []⟩ : Ending σ)
  unfold update updateFromOutput
  rw [abortQuarantined_eq]
  exact congrArg (w.calls ++ ·) hcalls

@[simp] theorem update_holder (api : SchedulerApi σ ι) (w : World σ) (i : ι) :
    (w.update api i).holder = { w.holder with pending := Dict.empty } := by
  unfold update updateFromOutput
  rw [abortQuarantined_eq]

/-- The scheduler's own update makes nothing known. -/
theorem notMem_after (h : api.Lawful) {s : σ} {id : String} (i : ι) (hid : id ∉ (api.requests s).keys) :
    id ∉ (api.requests (api.updateFromOutput s i).1).keys := by
  intro hmem
  obtain ⟨r, hr⟩ := Option.isSome_iff_exists.mp (Dict.isSome_get?.mpr hmem)
  exact hid (Dict.mem_keys_of_get? (h.removes _ _ _ _ hr))

/-- The events that leave the registry alone keep what a run keeps, if nothing gone is known again. -/
theorem Kept.moved (hk : Kept api events w) (scheduler : σ) (hreg : registered (events ++ [e]) = registered events)
    (hgone : ∀ id, id ∈ w.told ∨ id ∈ w.calls.map Prod.fst → id ∉ (api.requests scheduler).keys) :
    Kept api (events ++ [e]) { w with scheduler } where
  pending := by rw [hreg]; exact hk.pending
  waiting := by rw [hreg]; exact hk.waiting
  told id hid := hgone id (Or.inl hid)
  ended id hid := hgone id (Or.inr hid)
  once := hk.once
  status := hk.status

theorem Kept.gone (hk : Kept api events w) {id : String} (hid : id ∈ w.told ∨ id ∈ w.calls.map Prod.fst) :
    id ∉ (api.requests w.scheduler).keys :=
  hid.elim (hk.told id) (hk.ended id)

/-- A request registered. -/
theorem Kept.register (hk : Kept api events w) (value : IdValue) (reason : String) :
    Kept api (events ++ [.register value reason]) { w with holder := (w.holder.register value reason).obj } := by
  have hreg := registered_snoc events (.register value reason)
  cases value with
  | other => exact { hk with pending := by rw [hreg]; exact hk.pending, waiting := by rw [hreg]; exact hk.waiting }
  | str id =>
    by_cases hid : id = ""
    · simp only [hid, if_true] at hreg
      have hobj : (w.holder.register (.str id) reason).obj = w.holder := by simp [Holder.register, hid]
      rw [hobj]
      exact { hk with pending := by rw [hid, hreg]; exact hk.pending, waiting := by rw [hid, hreg]; exact hk.waiting }
    · simp only [hid, if_false] at hreg
      by_cases hin : w.holder.installed = none
      · have hobj : (w.holder.register (.str id) reason).obj = w.holder := by simp [Holder.register, hid, hin]
        rw [hobj]
        exact { hk with
          pending := fun id' h' => by rw [hreg]; exact List.mem_append_left _ (hk.pending id' h')
          waiting := fun hne => absurd hin hne }
      · have hobj : (w.holder.register (.str id) reason).obj =
            { w.holder with pending := w.holder.pending.set id reason } := by simp [Holder.register, hid, hin]
        rw [hobj]
        refine { hk with pending := fun id' h' => ?_, waiting := fun hne id' h' => ?_ }
        · rw [hreg, List.mem_append, List.mem_singleton]
          exact (Dict.mem_keys_set.mp h').imp_left (hk.pending id')
        · rw [hreg, List.mem_append, List.mem_singleton] at h'
          rcases h' with h' | rfl
          · exact (hk.waiting hne id' h').imp_left fun h => Dict.mem_keys_set.mpr (Or.inl h)
          · exact Or.inl (Dict.mem_keys_set.mpr (Or.inr rfl))

/-- A wrapped update. -/
theorem Kept.update (h : api.Lawful) (hk : Kept api events w) (i : ι) (outputs : Outputs) :
    Kept api (events ++ [.update i outputs]) (w.update api i) := by
  have hreg := registered_snoc events (.update i outputs)
  have hkeys : ∀ id, id ∈ w.holder.pending.keys ∨ id ∉ (api.requests w.scheduler).keys →
      id ∉ (api.requests (w.update api i).scheduler).keys := by
    intro id hid
    rw [← Dict.get?_eq_none_iff, update_requests h]
    split
    · rfl
    · rename_i hnp
      exact Dict.get?_eq_none_iff.mpr (notMem_after h i (hid.resolve_left hnp))
  have hcalls := update_calls h w i
  refine ⟨?_, ?_, ?_, ?_, ?_, ?_⟩
  · simp [Dict.keys]
  · rw [hreg]; intro _ id hid; cases hid
  · exact fun id hid => hkeys id (Or.inr (hk.told id hid))
  · intro id hid
    rw [hcalls, List.map_append, List.mem_append] at hid
    rcases hid with hid | hid
    · exact hkeys id (Or.inr (hk.ended id hid))
    · simp only [List.map_map, List.mem_map, Function.comp_apply] at hid
      obtain ⟨_, hid, rfl⟩ := hid
      exact hkeys _ (Or.inl (List.mem_of_mem_filter hid))
  · -- what is ended now was still known, so it was not ended before
    rw [hcalls, List.map_append, List.map_map, List.nodup_append]
    refine ⟨hk.once, ?_, ?_⟩
    · rw [show (Prod.fst ∘ fun id : String => (id, RequestStatus.finishedAborted)) = id from rfl, List.map_id]
      exact w.holder.pending.nodup.filter _
    · rintro a ha b hb rfl
      simp only [List.mem_map, Function.comp_apply] at hb
      obtain ⟨_, hb, rfl⟩ := hb
      exact notMem_after h i (hk.ended _ ha) (Dict.isSome_get?.mp (by simpa using (List.mem_filter.mp hb).2))
  · intro call hcall
    rw [hcalls, List.mem_append] at hcall
    rcases hcall with hcall | hcall
    · exact hk.status call hcall
    · obtain ⟨_, -, rfl⟩ := List.mem_map.mp hcall
      rfl

/-- The next step. -/
theorem Kept.nextStep (h : api.Lawful) (hk : Kept api events w) (stranded : List String) :
    Kept api (events ++ [.nextStep (api.schedule w.scheduler).2 stranded])
      { w with
        holder := (w.holder.unconsumed (api.schedule w.scheduler).2).2
        scheduler := (api.schedule w.scheduler).1
        told := w.told ++ (api.schedule w.scheduler).2.finished } := by
  have hreg := registered_snoc events (.nextStep (api.schedule w.scheduler).2 stranded)
  have hkeys : ∀ id, id ∉ (api.requests w.scheduler).keys → id ∉ (api.requests (api.schedule w.scheduler).1).keys := by
    intro id hid
    rwa [← Dict.get?_eq_none_iff, h.schedule, Dict.get?_eq_none_iff]
  refine ⟨?_, ?_, ?_, fun id hid => hkeys id (hk.ended id hid), hk.once, hk.status⟩
  · intro id hid
    rw [hreg]
    exact hk.pending id (mem_unconsumed_pending.mp hid).1
  · intro hne id hid
    rw [hreg] at hid
    rw [unconsumed_installed] at hne
    by_cases hfin : id ∈ (api.schedule w.scheduler).2.finished
    · exact Or.inr (List.mem_append_right _ hfin)
    · exact (hk.waiting hne id hid).imp (fun hp => mem_unconsumed_pending.mpr ⟨hp, hfin⟩) (List.mem_append_left _)
  · intro id hid
    rcases List.mem_append.mp hid with hid | hid
    · exact hkeys id (hk.told id hid)
    · exact hkeys id (h.finished _ id hid)

/-- Every event keeps it. -/
theorem Kept.step (h : api.Lawful) (hk : Kept api events w) (hs : Step api w e w') : Kept api (events ++ [e]) w' := by
  cases e with
  | arrive id request =>
    obtain ⟨htold, hcalls, rfl⟩ := hs
    refine hk.moved _ (registered_snoc ..) fun id' hgone => ?_
    rw [← Dict.get?_eq_none_iff, h.add, if_neg, Dict.get?_eq_none_iff]
    · exact hk.gone hgone
    · rintro rfl; exact hgone.elim htold hcalls
  | register value reason => obtain rfl := hs; exact hk.register value reason
  | update i outputs => obtain ⟨-, -, rfl⟩ := hs; exact hk.update h i outputs
  | clientAbort id =>
    obtain rfl := hs
    refine hk.moved _ (registered_snoc ..) fun id' hgone => ?_
    rw [← Dict.get?_eq_none_iff, h.finish]
    split
    · rfl
    · exact Dict.get?_eq_none_iff.mpr (hk.gone hgone)
  | nextStep step stranded => obtain ⟨rfl, -, rfl⟩ := hs; exact hk.nextStep h stranded

/-- Every run keeps it. -/
theorem Kept.run (h : api.Lawful) {w₀ : World σ} (h₀ : w₀.Start) (hrun : Run (Step api) w₀ events w) :
    Kept api events w := by
  refine hrun.invariant (P := Kept api) ?_ fun _ hk hs => hk.step h hs
  obtain ⟨hp, hc, ht⟩ := h₀
  constructor <;> simp [hp, hc, ht, registered, Dict.keys]

/-- What a registered request that the scheduler knows comes to in the outputs of an update that answered `before`. -/
structure Answered (before outputs : Outputs) (id : String) (client : Nat) : Prop where
  elsewhere : ∀ k, k ≠ outputs.key client → (outputs.batch k).filter (·.requestId = id) = []
  one : ∃ o, (outputs.batch (outputs.key client)).filter (·.requestId = id) = [o] ∧ o.finishReason = some .abort ∧
    ((∃ o₀, (before.batch (before.key client)).filter (·.requestId = id) = [o₀] ∧
        o = { o₀ with finishReason := some .abort }) ∨
      (before.batch (before.key client)).filter (·.requestId = id) = [] ∧ o.newTokenIds = [])

/-- What a wrapped update does after these events: the registered requests that the scheduler still knows are finished
once each, they and no others end in the outputs, and nothing stays registered. -/
structure EndsOnce (api : SchedulerApi σ ι) (events : List (Event ι)) (w : World σ) (i : ι) (outputs : Outputs)
    (w' : World σ) : Prop where
  calls : ∃ now : List String, now.Nodup ∧ w'.calls = w.calls ++ now.map (fun id => (id, .finishedAborted)) ∧
    ∀ id, id ∈ now ↔ id ∈ registered events ∧ id ∈ (api.requests (api.updateFromOutput w.scheduler i).1).keys
  requests : ∀ id, (api.requests w'.scheduler).get? id =
    if id ∈ registered events then none else (api.requests (api.updateFromOutput w.scheduler i).1).get? id
  answered : ∀ id ∈ registered events, ∀ r, (api.requests (api.updateFromOutput w.scheduler i).1).get? id = some r →
    Answered (api.updateFromOutput w.scheduler i).2 outputs id r.client
  unchanged : ∀ k, (outputs.batch k).filter (fun o => ¬(o.requestId ∈ registered events ∧
      o.requestId ∈ (api.requests (api.updateFromOutput w.scheduler i).1).keys)) =
    ((api.updateFromOutput w.scheduler i).2.batch k).filter (fun o => ¬(o.requestId ∈ registered events ∧
      o.requestId ∈ (api.requests (api.updateFromOutput w.scheduler i).1).keys))
  pending : w'.holder.pending = Dict.empty

/-- What the scheduler still knows is pending exactly if it was registered since the last update. -/
theorem Kept.pending_iff (h : api.Lawful) (hk : Kept api events w) (hin : w.holder.installed ≠ none) {i : ι}
    {id : String} (hid : id ∈ (api.requests (api.updateFromOutput w.scheduler i).1).keys) :
    id ∈ w.holder.pending.keys ↔ id ∈ registered events := by
  refine ⟨hk.pending id, fun hreg => (hk.waiting hin id hreg).resolve_right fun htold => ?_⟩
  exact notMem_after h i (hk.told id htold) hid

/-- The one output of a pending request. -/
theorem answered (h : api.Lawful) (w : World σ) (i : ι) {id : String} (hid : id ∈ w.holder.pending.keys) {r : Request}
    (hr : (api.requests (api.updateFromOutput w.scheduler i).1).get? id = some r) :
    Answered (api.updateFromOutput w.scheduler i).2 (updateFromOutput api w.holder w.scheduler i).2.outputs id
      r.client := by
  have hnd : w.holder.pending.keys.Nodup := w.holder.pending.nodup
  have hkey : (updateFromOutput api w.holder w.scheduler i).2.outputs.key =
      (api.updateFromOutput w.scheduler i).2.key := by
    unfold updateFromOutput
    rw [abortQuarantined_eq]
    exact fold_key ..
  have hown : ∀ k, ((updateFromOutput api w.holder w.scheduler i).2.outputs.batch k).filter (·.requestId = id) =
      if k = (api.updateFromOutput w.scheduler i).2.key r.client then
        Outputs.ended id (((api.updateFromOutput w.scheduler i).2.batch k).filter (·.requestId = id))
      else ((api.updateFromOutput w.scheduler i).2.batch k).filter (·.requestId = id) := by
    unfold updateFromOutput
    rw [abortQuarantined_eq]
    exact fold_own h hnd _ hid hr
  constructor
  · intro k hk
    rw [hkey] at hk
    rw [hown, if_neg hk, List.filter_eq_nil_iff]
    intro o ho heq
    -- the scheduler answers in the batch of the request's client
    obtain rfl := of_decide_eq_true heq
    exact hk (h.own _ _ k o ho r (h.removes _ _ _ _ hr))
  · rw [hkey, hown, if_pos rfl]
    generalize hb : (api.updateFromOutput w.scheduler i).2.batch
      ((api.updateFromOutput w.scheduler i).2.key r.client) = b
    have hnd : (b.map EngineCoreOutput.requestId).Nodup := hb ▸ h.once ..
    cases hf : b.filter (·.requestId = id) with
    | nil => exact ⟨⟨id, [], some .abort⟩, rfl, rfl, Or.inr ⟨rfl, rfl⟩⟩
    | cons o os =>
      -- and once
      have hos : os = [] := by
        have hsub := (List.filter_sublist (l := b) (p := fun o => decide (o.requestId = id))).map
          EngineCoreOutput.requestId |>.nodup hnd
        rw [hf] at hsub
        have hmem : ∀ x ∈ o :: os, x.requestId = id := fun x hx => by
          rw [← hf] at hx
          exact of_decide_eq_true (List.mem_filter.mp hx).2
        cases os with
        | nil => rfl
        | cons x os =>
          simp only [List.map_cons, List.nodup_cons, List.mem_cons, not_or] at hsub
          exact absurd ((hmem o List.mem_cons_self).trans (hmem x (by simp)).symm) hsub.1.1
      subst hos
      exact ⟨{ o with finishReason := some .abort }, rfl, rfl, Or.inl ⟨o, rfl, rfl⟩⟩

/-- A wrapped update after a run. -/
theorem Kept.endsOnce (h : api.Lawful) (hk : Kept api events w) {i : ι} {outputs : Outputs}
    (hs : Step api w (.update i outputs) w') : EndsOnce api events w i outputs w' := by
  obtain ⟨hin, rfl, rfl⟩ := hs
  refine ⟨⟨known api (api.updateFromOutput w.scheduler i).1 w.holder.pending.keys, ?_, update_calls h w i, ?_⟩, ?_, ?_,
    ?_, by rw [update_holder]⟩
  · exact w.holder.pending.nodup.filter _
  · intro id
    rw [known, List.mem_filter, Dict.isSome_get?]
    exact ⟨fun hid => ⟨(hk.pending_iff h hin hid.2).mp hid.1, hid.2⟩,
      fun hid => ⟨(hk.pending_iff h hin hid.2).mpr hid.1, hid.2⟩⟩
  · intro id
    rw [update_requests h]
    by_cases hid : id ∈ (api.requests (api.updateFromOutput w.scheduler i).1).keys
    · simp only [hk.pending_iff h hin hid]
    · simp only [Dict.get?_eq_none_iff.mpr hid, ite_self]
  · exact fun id hid r hr => answered h w i ((hk.pending_iff h hin (Dict.mem_keys_of_get? hr)).mpr hid) hr
  · intro k
    unfold updateFromOutput
    rw [abortQuarantined_eq]
    refine fold_other h w.holder.pending.nodup _ (fun o ho => ?_) k
    rw [known, List.mem_filter, Dict.isSome_get?] at ho
    simp only [decide_eq_false_iff_not, not_not]
    exact ⟨hk.pending o.requestId ho.1, ho.2⟩

/-- **The quarantine ends each registered request once.** After any run, an update finishes the requests registered
since the last one that the scheduler still knows and ends each in one output of its own client, and leaves the others
and their outputs alone; a next step names only requests registered since the last update that it schedules and has not
finished; and over the run no request is finished twice. -/
theorem quarantine_once (h : api.Lawful) {w₀ : World σ} (h₀ : w₀.Start) (hrun : Run (Step api) w₀ events w) :
    (∀ i outputs w', Step api w (.update i outputs) w' → EndsOnce api events w i outputs w') ∧
    (∀ step stranded w', Step api w (.nextStep step stranded) w' → ∀ id ∈ stranded, id ∈ registered events ∧
      id ∈ step.named ∧ id ∉ step.finished ∧ id ∈ (api.requests w.scheduler).keys) ∧
    (w.calls.map Prod.fst).Nodup ∧ ∀ call ∈ w.calls, call.2 = .finishedAborted := by
  have hk := Kept.run h h₀ hrun
  refine ⟨fun i outputs w' hs => hk.endsOnce h hs, ?_, hk.once, hk.status⟩
  rintro step stranded w' ⟨rfl, rfl, -⟩ id hid
  obtain ⟨hpending, hnamed, hnot⟩ := mem_unconsumed hid
  exact ⟨hk.pending id hpending, hnamed, hnot, h.scheduled _ id hnamed⟩

/-- A scheduler that answers every request it knows with one token, and finishes those that stop. -/
def sampleApi : SchedulerApi (Dict String Request) (List String) where
  requests s := s
  addRequest s id r := s.set id r
  finishRequests s id _ := s.erase id
  schedule s := (s, ⟨none, some s.keys, none⟩)
  updateFromOutput s stops :=
    (stops.foldl Dict.erase s,
      .single (s.keys.map fun id => ⟨id, [7], if id ∈ stops then some .stop else none⟩))

theorem sampleApi_lawful : sampleApi.Lawful where
  add s id r id' := by
    by_cases h : id' = id
    · subst h; simp [sampleApi]
    · simp [sampleApi, h, Dict.get?_set_of_ne]
  finish s id status id' := by
    by_cases h : id' = id
    · subst h; simp [sampleApi]
    · simp [sampleApi, h, Dict.get?_erase_of_ne]
  schedule _ _ := rfl
  scheduled s id h := by simpa [sampleApi, ScheduledStep.named] using h
  finished s id h := by simp [sampleApi, ScheduledStep.finished] at h
  removes s stops id r h := by
    show s.get? id = some r
    induction stops generalizing s with
    | nil => exact h
    | cons a stops ih =>
      have hrest := Dict.get?_eq_some_iff.mp (ih (s.erase a) h)
      exact Dict.get?_eq_some_iff.mpr (Dict.mem_erase.mp hrest).1
  once s stops k := by
    cases k with
    | some _ => simp [sampleApi, Outputs.batch]
    | none =>
      show ((s.keys.map _).map _).Nodup
      rw [List.map_map]
      exact (List.map_id s.keys).symm ▸ s.nodup
  own s stops k o ho r _ := by
    cases k with
    | some _ => cases ho
    | none => rfl

/-- Two requests, the second of which stops in the update that ends the first; both were registered. -/
def sampleWorld : World (Dict String Request) where
  holder := ⟨some "vllm_tt_plugin.scheduler.TTScheduler", Dict.empty⟩
  scheduler := Dict.ofList [("a", ⟨some 0⟩), ("b", ⟨none⟩)]
  calls := []
  told := []

/-- The requests registered. -/
def sampleRegistered : World (Dict String Request) :=
  { sampleWorld with holder := { sampleWorld.holder with pending := Dict.ofList [("a", "refused"), ("b", "refused")] } }

theorem quarantine_once_sample :
    (sampleRegistered.update sampleApi ["b"]).calls = [("a", .finishedAborted)] ∧
    EndsOnce sampleApi [.register (.str "a") "refused", .register (.str "b") "refused"] sampleRegistered ["b"]
      (.single [⟨"a", [7], some .abort⟩, ⟨"b", [7], some .stop⟩]) (sampleRegistered.update sampleApi ["b"]) := by
  have hfirst : Step sampleApi sampleWorld (.register (.str "a") "refused")
      { sampleWorld with holder := { sampleWorld.holder with pending := Dict.ofList [("a", "refused")] } } := rfl
  have hrun : Run (Step sampleApi) sampleWorld [.register (.str "a") "refused", .register (.str "b") "refused"]
      sampleRegistered := .append (.single hfirst) (.single rfl)
  exact ⟨rfl, (quarantine_once sampleApi_lawful ⟨rfl, rfl, rfl⟩ hrun).1 _ _ _ ⟨by decide, rfl, rfl⟩⟩

end World

end BlackholeQwen.Serving.Quarantine
