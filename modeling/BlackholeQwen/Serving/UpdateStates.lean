import Mathlib.Data.List.Sort
import BlackholeQwen.Serving.VllmState

/-!
# The plugin's update of its states

`_update_states` of the pinned plugin's model runner: finished and unscheduled requests leave the persistent batch, the
scheduled ones get their new frontier and blocks, and those without a row are added again. The batch's own methods are
not part of the repository: `InputBatchOps` stands for them, `InputBatchOps.Lawful` for what the update relies on.

`updateStates_ok` says what a returned update leaves of the one request a schedule names: the identity of its state, its
prompt, its output list, and the text of its row.
-/

namespace BlackholeQwen.Serving

open Lib Speculative

/-- The methods of the plugin's `InputBatch`, its `apply_cached_req_state_update`, and the assignment of
`build_cached_request_state` to a new request. -/
structure InputBatchOps where
  removeRequest : InputBatch → String → InputBatch × Option Nat
  addRequest : InputBatch → CachedRequestState → List Token → Option Nat → Except PyError InputBatch
  condense : InputBatch → List Nat → Except PyError InputBatch
  applyCachedReqStateUpdate : CachedRequestState → Nat → Option (List (List Nat)) → Bool → CachedRequestState
  buildCachedRequestState : Runner → String → Runner

/-- What a row says of its request's text: the shared output list, the count, and the counted tokens. -/
structure RowText where
  outputTokenIds : Option ListRef
  numTokens : Nat
  tokens : List Token
  deriving DecidableEq, Repr

/-- The text of a row. -/
def BatchRow.text (row : BatchRow) : RowText := ⟨row.outputTokenIds, row.numTokens, row.tokenIds.take row.numTokens⟩

/-- The text of a request's row. -/
def InputBatch.rowText (b : InputBatch) (id : String) : Option RowText :=
  (b.reqIdToIndex.get? id).bind fun index => (b.rows[index]?).map BatchRow.text

/-- The text of a newly added row: the prompt and the output of its state. -/
def CachedRequestState.rowText (state : CachedRequestState) (output : List Token) : RowText :=
  ⟨some state.outputTokenIds, (state.promptTokenIds.getD [] ++ output).length,
    state.promptTokenIds.getD [] ++ output⟩

/-- The batch keeps the rows of the requests it is not asked about; `remove_request` returns the freed row, a request is
added at the row given with the text of its state, and condensing moves rows without changing them, where the rows it is
told are free are free. A cached state's update does not touch its text. -/
structure InputBatchOps.Lawful (ops : InputBatchOps) : Prop where
  remove_text : ∀ (b : InputBatch) (id other : String), other ≠ id →
    (ops.removeRequest b other).1.rowText id = b.rowText id
  remove_index : ∀ (b : InputBatch) (id : String), (ops.removeRequest b id).2 = b.reqIdToIndex.get? id
  remove_rows : ∀ (b : InputBatch) (id : String), ∀ index ∈ (ops.removeRequest b id).1.reqIdToIndex.values,
    index ∈ b.reqIdToIndex.values ∧ b.reqIdToIndex.get? id ≠ some index
  add_text : ∀ {b b' : InputBatch} {state : CachedRequestState} {output : List Token} {at_ : Option Nat},
    ops.addRequest b state output at_ = .ok b' → b'.rowText state.reqId = some (state.rowText output)
  add_rows : ∀ {b b' : InputBatch} {state : CachedRequestState} {output : List Token} {index : Nat},
    ops.addRequest b state output (some index) = .ok b' → ∀ other ∈ b'.reqIdToIndex.values,
      other ∈ b.reqIdToIndex.values ∨ other = index
  condense_text : ∀ {b b' : InputBatch} {free : List Nat}, (∀ index ∈ free, index ∉ b.reqIdToIndex.values) →
    ops.condense b free = .ok b' → ∀ id, b'.rowText id = b.rowText id
  cached_state : ∀ (state : CachedRequestState) (n : Nat) (blocks : Option (List (List Nat))) (resumed : Bool),
    (ops.applyCachedReqStateUpdate state n blocks resumed).reqId = state.reqId ∧
    (ops.applyCachedReqStateUpdate state n blocks resumed).promptTokenIds = state.promptTokenIds ∧
    (ops.applyCachedReqStateUpdate state n blocks resumed).outputTokenIds = state.outputTokenIds

namespace Runner

variable (ops : InputBatchOps)

/-- The removal of finished requests; the freed rows are collected. -/
def removeFinished (b : InputBatch) (removed : List Nat) : List String → InputBatch × List Nat
  | [] => (b, removed)
  | id :: ids =>
    removeFinished (ops.removeRequest b id).1 (removed ++ (ops.removeRequest b id).2.toList) ids

/-- The removal of unscheduled requests, each of which has a row. -/
def removeUnscheduled (b : InputBatch) (removed : List Nat) : List String → Call InputBatch (List Nat)
  | [] => Call.ret b removed
  | id :: ids =>
    match (ops.removeRequest b id).2 with
    | none => Call.throw (ops.removeRequest b id).1 (.assertionError "")
    | some index => removeUnscheduled (ops.removeRequest b id).1 (removed ++ [index]) ids

/-- The loop over the running and resumed requests; those without a row are collected. -/
def updateCached (runner : Runner) (data : CachedRequestData) (toAdd : List String) :
    List String → Nat → Call Runner (List String)
  | [], _ => Call.ret runner toAdd
  | id :: ids, i =>
    match runner.requests.get? id with
    | none => Call.throw runner .keyError
    | some ref =>
      match data.numComputedTokens[i]?, data.newBlockIds[i]? with
      | some n, some blocks =>
        let states := Function.update runner.states ref
          (ops.applyCachedReqStateUpdate (runner.states ref) n blocks (decide (id ∈ data.resumedReqIds)))
        match runner.inputBatch.reqIdToIndex.get? id with
        | none => updateCached { runner with states } data (toAdd ++ [id]) ids (i + 1)
        | some index =>
          match runner.inputBatch.rows[index]? with
          | none => Call.throw { runner with states } .indexError
          | some row =>
            updateCached
              { runner with
                states
                inputBatch := { runner.inputBatch with
                  rows := runner.inputBatch.rows.set index { row with numComputedTokens := n } } }
              data toAdd ids (i + 1)
      | _, _ => Call.throw runner .indexError

/-- The loop that adds requests to the batch, the smallest freed row first; `removed` is in descending order. -/
def addAll (runner : Runner) : List String → List Nat → Call Runner (List Nat)
  | [], removed => Call.ret runner removed
  | id :: ids, removed =>
    match runner.requests.get? id with
    | none => Call.throw runner .keyError
    | some ref =>
      Call.attempt (ops.addRequest runner.inputBatch (runner.states ref) (runner.outputOf ref) removed.getLast?) runner
        fun inputBatch => addAll { runner with inputBatch } ids removed.dropLast

/-- The unscheduled requests of the batch, in the batch's order; the order of a set is the interpreter's choice. -/
def unscheduled (b : InputBatch) (scheduled : SchedulerOutput) : List String :=
  b.reqIdToIndex.keys.filter (· ∉ scheduled.numScheduledTokens.keys)

/-- The removals: finished requests leave the runner, finished and unscheduled ones the batch. The value is the list of
the freed rows. -/
def removals (runner : Runner) (scheduled : SchedulerOutput) : Call Runner (List Nat) :=
  (removeUnscheduled ops (removeFinished ops runner.inputBatch [] scheduled.finishedReqIds).1
    (removeFinished ops runner.inputBatch [] scheduled.finishedReqIds).2
    (unscheduled (removeFinished ops runner.inputBatch [] scheduled.finishedReqIds).1 scheduled)).onto
    fun inputBatch =>
      { runner with requests := scheduled.finishedReqIds.foldl Dict.erase runner.requests, inputBatch }

/-- The additions, and the condensing of what is left of the freed rows. -/
def additions (runner : Runner) (ids : List String) (removed : List Nat) : Call Runner Unit :=
  (addAll ops runner ids removed).bind fun runner removed =>
  if removed = [] then Call.ret runner ()
  else Call.attempt (ops.condense runner.inputBatch removed) runner fun inputBatch =>
    Call.ret { runner with inputBatch } ()

/-- `_update_states`, on the fields modelled here. -/
def updateStates (runner : Runner) (scheduled : SchedulerOutput) : Call Runner Unit :=
  (removals ops runner scheduled).bind fun runner removed =>
  (updateCached ops (scheduled.scheduledNewReqs.foldl ops.buildCachedRequestState runner)
    scheduled.scheduledCachedReqs [] scheduled.scheduledCachedReqs.reqIds 0).bind fun runner resumed =>
  additions ops runner (scheduled.scheduledNewReqs ++ resumed) (removed.insertionSort (· ≥ ·))

/-! ## What an update leaves -/

/-- The identities and the texts of the cached states are the same. -/
structure SameTexts (runner runner' : Runner) : Prop where
  outputs : runner'.outputs = runner.outputs
  reqId : ∀ ref, (runner'.states ref).reqId = (runner.states ref).reqId
  promptTokenIds : ∀ ref, (runner'.states ref).promptTokenIds = (runner.states ref).promptTokenIds
  outputTokenIds : ∀ ref, (runner'.states ref).outputTokenIds = (runner.states ref).outputTokenIds

theorem SameTexts.refl (runner : Runner) : SameTexts runner runner := ⟨rfl, fun _ => rfl, fun _ => rfl, fun _ => rfl⟩

theorem SameTexts.trans {a b c : Runner} (h : SameTexts a b) (h' : SameTexts b c) : SameTexts a c :=
  ⟨h'.outputs.trans h.outputs, fun ref => (h'.reqId ref).trans (h.reqId ref),
    fun ref => (h'.promptTokenIds ref).trans (h.promptTokenIds ref),
    fun ref => (h'.outputTokenIds ref).trans (h.outputTokenIds ref)⟩

theorem SameTexts.outputOf {a b : Runner} (h : SameTexts a b) (ref : StateRef) : b.outputOf ref = a.outputOf ref := by
  simp only [Runner.outputOf, h.outputs, h.outputTokenIds]

variable {ops} {runner : Runner}

/-- A state update of one cached state keeps the texts. -/
theorem sameTexts_update (hops : ops.Lawful) (runner : Runner) (ref : StateRef) (n : Nat)
    (blocks : Option (List (List Nat))) (resumed : Bool) (inputBatch : InputBatch) :
    SameTexts runner { runner with
      states := Function.update runner.states ref
        (ops.applyCachedReqStateUpdate (runner.states ref) n blocks resumed)
      inputBatch } := by
  obtain ⟨h1, h2, h3⟩ := hops.cached_state (runner.states ref) n blocks resumed
  refine ⟨rfl, fun r => ?_, fun r => ?_, fun r => ?_⟩ <;>
  · by_cases hr : r = ref
    · subst hr; simp [*]
    · simp [hr]

/-- Writing a computed count leaves the texts of the rows. -/
theorem rowText_set {b : InputBatch} {index n : Nat} {row : BatchRow} (hrow : b.rows[index]? = some row) (id : String) :
    ({ b with rows := b.rows.set index { row with numComputedTokens := n } } : InputBatch).rowText id
      = b.rowText id := by
  unfold InputBatch.rowText
  cases b.reqIdToIndex.get? id with
  | none => rfl
  | some i =>
    show Option.map BatchRow.text ((b.rows.set index { row with numComputedTokens := n })[i]?) =
      Option.map BatchRow.text b.rows[i]?
    by_cases hi : index = i
    · subst hi
      rw [List.getElem?_set_self (List.getElem?_eq_some_iff.mp hrow).1, hrow]
      rfl
    · rw [List.getElem?_set_ne hi]

/-- The loop over the cached requests keeps the requests and all texts. -/
theorem updateCached_obj (hops : ops.Lawful) (data : CachedRequestData) (ids : List String) :
    ∀ (runner : Runner) (toAdd : List String) (i : Nat),
      (updateCached ops runner data toAdd ids i).obj.requests = runner.requests ∧
      SameTexts runner (updateCached ops runner data toAdd ids i).obj ∧
      (updateCached ops runner data toAdd ids i).obj.inputBatch.reqIdToIndex = runner.inputBatch.reqIdToIndex ∧
      ∀ id, (updateCached ops runner data toAdd ids i).obj.inputBatch.rowText id = runner.inputBatch.rowText id := by
  induction ids with
  | nil => exact fun runner _ _ => ⟨rfl, .refl runner, rfl, fun _ => rfl⟩
  | cons id ids ih =>
    intro runner toAdd i
    unfold updateCached
    split
    · exact ⟨rfl, .refl runner, rfl, fun _ => rfl⟩
    rename_i ref href
    split
    · rename_i n blocks hn hblocks
      simp only
      split
      · obtain ⟨h1, h2, h3, h4⟩ := ih { runner with
          states := Function.update runner.states ref
            (ops.applyCachedReqStateUpdate (runner.states ref) n blocks (decide (id ∈ data.resumedReqIds))) }
          (toAdd ++ [id]) (i + 1)
        exact ⟨h1, (sameTexts_update hops runner ref n blocks _ _).trans h2, h3, h4⟩
      · split
        · exact ⟨rfl, sameTexts_update hops runner ref n blocks _ _, rfl, fun _ => rfl⟩
        · rename_i index hindex _ row hrow
          obtain ⟨h1, h2, h3, h4⟩ := ih { runner with
            states := Function.update runner.states ref
              (ops.applyCachedReqStateUpdate (runner.states ref) n blocks (decide (id ∈ data.resumedReqIds)))
            inputBatch := { runner.inputBatch with
              rows := runner.inputBatch.rows.set index { row with numComputedTokens := n } } } toAdd (i + 1)
          exact ⟨h1, (sameTexts_update hops runner ref n blocks _ _).trans h2, h3,
            fun id' => (h4 id').trans (rowText_set hrow id')⟩
    · exact ⟨rfl, .refl runner, rfl, fun _ => rfl⟩

/-- One cached request that was updated has a state, and is added exactly if it has no row. -/
theorem updateCached_single {data : CachedRequestData} {id : String} {toAdd : List String}
    (h : (updateCached ops runner data [] [id] 0).result = .ok toAdd) :
    (∃ ref, runner.requests.get? id = some ref) ∧
      (toAdd = [] ∨ toAdd = [id] ∧ runner.inputBatch.rowText id = none) := by
  unfold updateCached at h
  split at h
  · cases h
  rename_i ref href
  refine ⟨⟨ref, href⟩, ?_⟩
  split at h
  · simp only at h
    split at h
    · rename_i hindex
      obtain rfl := Except.ok.inj h
      exact Or.inr ⟨rfl, by simp [InputBatch.rowText, hindex]⟩
    · split at h
      · cases h
      · exact Or.inl (Except.ok.inj h).symm
  · cases h

/-- Adding requests only changes the batch. -/
theorem addAll_obj (ops : InputBatchOps) (ids : List String) : ∀ (runner : Runner) (removed : List Nat),
    ∃ inputBatch, (addAll ops runner ids removed).obj = { runner with inputBatch } := by
  induction ids with
  | nil => exact fun runner _ => ⟨runner.inputBatch, rfl⟩
  | cons id ids ih =>
    intro runner removed
    unfold addAll
    split
    · exact ⟨runner.inputBatch, rfl⟩
    rename_i ref href
    rcases Call.attempt_cases
      (ops.addRequest runner.inputBatch (runner.states ref) (runner.outputOf ref) removed.getLast?) runner _ with
      ⟨e, -, h⟩ | ⟨b, -, h⟩ <;> rw [h]
    · exact ⟨runner.inputBatch, rfl⟩
    · exact ih _ _

/-- So do the additions. -/
theorem additions_obj (ops : InputBatchOps) (runner : Runner) (ids : List String) (removed : List Nat) :
    ∃ inputBatch, (additions ops runner ids removed).obj = { runner with inputBatch } := by
  unfold additions
  obtain ⟨b, hb⟩ := addAll_obj ops ids runner removed
  refine Call.bind_obj (P := fun r => ∃ inputBatch, r = { runner with inputBatch }) ⟨b, hb⟩ fun rest _ => ?_
  rw [hb]
  split_ifs
  · exact ⟨b, rfl⟩
  · refine Call.attempt_obj (P := fun r => ∃ inputBatch, r = { runner with inputBatch }) ⟨b, rfl⟩ fun b' _ => ?_
    exact ⟨b', rfl⟩

/-- Rows that are free: listed once, and no request's. -/
structure Free (b : InputBatch) (removed : List Nat) : Prop where
  nodup : removed.Nodup
  free : ∀ index ∈ removed, index ∉ b.reqIdToIndex.values

/-- A removed request's row becomes free. -/
theorem Free.remove (hops : ops.Lawful) {b : InputBatch} {removed : List Nat} (h : Free b removed) (id : String) :
    Free (ops.removeRequest b id).1 (removed ++ (ops.removeRequest b id).2.toList) := by
  have hrows := hops.remove_rows b id
  rw [hops.remove_index]
  cases hid : b.reqIdToIndex.get? id with
  | none =>
    simp only [Option.toList_none, List.append_nil]
    exact ⟨h.nodup, fun i hi hv => h.free i hi (hrows i hv).1⟩
  | some index =>
    have hmem : index ∈ b.reqIdToIndex.values :=
      List.mem_map.mpr ⟨(id, index), Dict.get?_eq_some_iff.mp hid, rfl⟩
    refine ⟨?_, fun i hi hv => ?_⟩
    · simp only [Option.toList_some]
      rw [List.nodup_append]
      refine ⟨h.nodup, by simp, fun i hi j hj => ?_⟩
      rw [List.mem_singleton.mp hj]
      rintro rfl
      exact h.free i hi hmem
    · simp only [Option.toList_some, List.mem_append, List.mem_singleton] at hi
      rcases hi with hi | rfl
      · exact h.free i hi (hrows i hv).1
      · exact (hrows i hv).2 hid

/-- The removal of finished requests frees rows and keeps the text of every other request. -/
theorem removeFinished_spec (hops : ops.Lawful) {id : String} (ids : List String) :
    ∀ (b : InputBatch) (removed : List Nat), Free b removed → id ∉ ids →
      Free (removeFinished ops b removed ids).1 (removeFinished ops b removed ids).2 ∧
      (removeFinished ops b removed ids).1.rowText id = b.rowText id := by
  induction ids with
  | nil => exact fun b removed h _ => ⟨h, rfl⟩
  | cons other ids ih =>
    intro b removed h hid
    simp only [List.mem_cons, not_or] at hid
    obtain ⟨h1, h2⟩ := ih _ _ (h.remove hops other) hid.2
    exact ⟨h1, h2.trans (hops.remove_text b id other (Ne.symm hid.1))⟩

/-- So does the removal of unscheduled requests, where it returns. -/
theorem removeUnscheduled_spec (hops : ops.Lawful) {id : String} (ids : List String) :
    ∀ (b : InputBatch) (removed removed' : List Nat), Free b removed → id ∉ ids →
      (removeUnscheduled ops b removed ids).result = .ok removed' →
      Free (removeUnscheduled ops b removed ids).obj removed' ∧
      (removeUnscheduled ops b removed ids).obj.rowText id = b.rowText id := by
  induction ids with
  | nil =>
    intro b removed removed' h _ hr
    obtain rfl := Except.ok.inj hr
    exact ⟨h, rfl⟩
  | cons other ids ih =>
    intro b removed removed' h hid hr
    simp only [List.mem_cons, not_or] at hid
    unfold removeUnscheduled at hr ⊢
    have hfree := h.remove hops other
    split at hr
    · cases hr
    · rename_i index hindex
      rw [hindex] at hfree
      obtain ⟨h1, h2⟩ := ih _ _ _ hfree hid.2 hr
      exact ⟨h1, h2.trans (hops.remove_text b id other (Ne.symm hid.1))⟩

/-- A batch row is kept by additions that add nothing. -/
theorem additions_nil (hops : ops.Lawful) {removed : List Nat} (hfree : Free runner.inputBatch removed)
    (h : (additions ops runner [] removed).result = .ok ()) (id : String) :
    (additions ops runner [] removed).obj.inputBatch.rowText id = runner.inputBatch.rowText id := by
  by_cases hr : removed = []
  · simp [additions, addAll, hr]
  · have hcall : additions ops runner [] removed =
        Call.attempt (ops.condense runner.inputBatch removed) runner fun inputBatch =>
          Call.ret { runner with inputBatch } () := by
      simp [additions, addAll, hr]
    rw [hcall] at h ⊢
    obtain ⟨b, hb, hc⟩ := Call.of_attempt h
    rw [hc]
    exact hops.condense_text hfree.free hb id

/-- A request without a row is added with the text of its state. -/
theorem additions_single (hops : ops.Lawful) {id : String} {ref : StateRef} {removed : List Nat}
    (hreq : runner.requests.get? id = some ref) (hid : (runner.states ref).reqId = id)
    (hfree : Free runner.inputBatch removed) (h : (additions ops runner [id] removed).result = .ok ()) :
    (additions ops runner [id] removed).obj.inputBatch.rowText id =
        some ((runner.states ref).rowText (runner.outputOf ref)) := by
  have hcall : additions ops runner [id] removed =
      Call.attempt (ops.addRequest runner.inputBatch (runner.states ref) (runner.outputOf ref) removed.getLast?) runner
        fun inputBatch => additions ops { runner with inputBatch } [] removed.dropLast := by
    simp only [additions, addAll, hreq]
    cases ops.addRequest runner.inputBatch (runner.states ref) (runner.outputOf ref) removed.getLast? <;> simp
  rw [hcall] at h ⊢
  obtain ⟨b, hadd, hc⟩ := Call.of_attempt h
  rw [hc] at h ⊢
  have hrest : Free b removed.dropLast := by
    refine ⟨hfree.nodup.sublist (List.dropLast_sublist _), fun index hindex hv => ?_⟩
    cases hlast : removed.getLast? with
    | none =>
      rw [List.getLast?_eq_none_iff.mp hlast] at hindex
      cases hindex
    | some last =>
      rw [hlast] at hadd
      rcases hops.add_rows hadd index hv with hv | rfl
      · exact hfree.free index (List.dropLast_subset _ hindex) hv
      · have hnodup := hfree.nodup
        rw [← List.dropLast_append_getLast? index (Option.mem_def.mpr hlast), List.nodup_append] at hnodup
        exact hnodup.2.2 index hindex index (by simp) rfl
  rw [additions_nil hops hrest h, ← hid]
  exact hops.add_text hadd

/-- Popping finished requests keeps every other one. -/
theorem get?_foldl_erase {id : String} (ids : List String) : ∀ (d : Dict String StateRef), id ∉ ids →
    (ids.foldl Dict.erase d).get? id = d.get? id := by
  induction ids with
  | nil => exact fun _ _ => rfl
  | cons other ids ih =>
    intro d hid
    simp only [List.mem_cons, not_or] at hid
    rw [List.foldl_cons, ih _ hid.2, Dict.get?_erase_of_ne _ hid.1]

/-- The removals only change which requests there are, and the batch. -/
theorem removals_obj (ops : InputBatchOps) (runner : Runner) (scheduled : SchedulerOutput) :
    SameTexts runner (removals ops runner scheduled).obj := ⟨rfl, fun _ => rfl, fun _ => rfl, fun _ => rfl⟩

/-- Whatever an update does, it keeps the texts of the cached states, where it builds no new ones. -/
theorem updateStates_sameTexts (hops : ops.Lawful) (runner : Runner) {scheduled : SchedulerOutput}
    (hnew : scheduled.scheduledNewReqs = []) : SameTexts runner (runner.updateStates ops scheduled).obj := by
  unfold updateStates
  refine Call.bind_obj (P := SameTexts runner) (removals_obj ops runner scheduled) fun removed _ => ?_
  have hcached := ((removals_obj ops runner scheduled).trans (updateCached_obj hops
    scheduled.scheduledCachedReqs scheduled.scheduledCachedReqs.reqIds (removals ops runner scheduled).obj [] 0).2.1)
  rw [hnew, List.foldl_nil]
  refine Call.bind_obj (P := SameTexts runner) hcached fun resumed _ => ?_
  obtain ⟨b, hb⟩ := additions_obj ops (updateCached ops (removals ops runner scheduled).obj
    scheduled.scheduledCachedReqs [] scheduled.scheduledCachedReqs.reqIds 0).obj ([] ++ resumed)
    (removed.insertionSort (· ≥ ·))
  rw [hb]
  exact hcached.trans ⟨rfl, fun _ => rfl, fun _ => rfl, fun _ => rfl⟩

/-- The schedule names one request, which is neither new nor finished. -/
structure Names (scheduled : SchedulerOutput) (id : String) : Prop where
  new : scheduled.scheduledNewReqs = []
  unfinished : id ∉ scheduled.finishedReqIds
  cached : scheduled.scheduledCachedReqs.reqIds = [id]
  counts : scheduled.numScheduledTokens.keys = [id]

/-- **A returned update leaves the request it names alone**: the identity of its state, and its row's text, or the text
of its state where it had no row. -/
theorem updateStates_ok (hops : ops.Lawful) {scheduled : SchedulerOutput} {id : String} (hn : Names scheduled id)
    (h : (runner.updateStates ops scheduled).result = .ok ()) :
    ∃ ref, runner.requests.get? id = some ref ∧
      (runner.updateStates ops scheduled).obj.requests.get? id = some ref ∧
      ((runner.states ref).reqId = id →
        (runner.updateStates ops scheduled).obj.inputBatch.rowText id = runner.inputBatch.rowText id ∨
        (runner.updateStates ops scheduled).obj.inputBatch.rowText id =
          some ((runner.states ref).rowText (runner.outputOf ref))) := by
  obtain ⟨removed, hremoved, hc⟩ := Call.of_bind h
  have hup : runner.updateStates ops scheduled = _ := hc
  rw [hup, hn.new, hn.cached, List.foldl_nil] at h ⊢
  -- the removals: every other request may go, this one stays with its row
  have hstart : Free runner.inputBatch [] := ⟨List.nodup_nil, fun _ h => (by cases h)⟩
  obtain ⟨hfree₁, htext₁⟩ := removeFinished_spec hops scheduled.finishedReqIds runner.inputBatch [] hstart hn.unfinished
  have hun : id ∉ unscheduled (removeFinished ops runner.inputBatch [] scheduled.finishedReqIds).1 scheduled := by
    simp [unscheduled, hn.counts]
  obtain ⟨hfree₂, htext₂⟩ := removeUnscheduled_spec hops _ _ _ removed hfree₁ hun hremoved
  have hreq₂ : (removals ops runner scheduled).obj.requests.get? id = runner.requests.get? id :=
    get?_foldl_erase _ _ hn.unfinished
  -- its state is updated in place
  obtain ⟨resumed, hresumed, hc⟩ := Call.of_bind h
  rw [hc] at h ⊢
  obtain ⟨⟨ref, href⟩, hadds⟩ := updateCached_single hresumed
  obtain ⟨hreq₃, hsame, hindex₃, htext₃⟩ := updateCached_obj hops scheduled.scheduledCachedReqs [id]
    (removals ops runner scheduled).obj [] 0
  have hsame' := (removals_obj ops runner scheduled).trans hsame
  have hfree₃ : Free
      (updateCached ops (removals ops runner scheduled).obj scheduled.scheduledCachedReqs [] [id] 0).obj.inputBatch
      (removed.insertionSort (· ≥ ·)) := by
    refine ⟨(List.perm_insertionSort _ _).nodup_iff.mpr hfree₂.nodup, fun index hindex => ?_⟩
    rw [hindex₃]
    exact hfree₂.free index ((List.perm_insertionSort _ _).mem_iff.mp hindex)
  obtain ⟨b, hb⟩ := additions_obj ops
    (updateCached ops (removals ops runner scheduled).obj scheduled.scheduledCachedReqs [] [id] 0).obj ([] ++ resumed)
    (removed.insertionSort (· ≥ ·))
  refine ⟨ref, hreq₂ ▸ href, ?_, fun hid => ?_⟩
  · rw [hb]
    show Dict.get? (updateCached ops (removals ops runner scheduled).obj _ [] [id] 0).obj.requests id = some ref
    rw [hreq₃]; exact href
  -- and it is added again where it had no row
  · rw [List.nil_append] at h ⊢
    rcases hadds with rfl | ⟨rfl, -⟩
    · refine Or.inl ?_
      rw [additions_nil hops hfree₃ h, htext₃]
      exact htext₂.trans htext₁
    · refine Or.inr ?_
      rw [additions_single hops (hreq₃ ▸ href) ((hsame'.reqId ref).trans hid) hfree₃ h, hsame'.outputOf]
      simp only [CachedRequestState.rowText, hsame'.promptTokenIds, hsame'.outputTokenIds]

end Runner

/-! ## A batch that satisfies the laws -/

/-- A row that holds no request. -/
def BatchRow.blank : BatchRow := ⟨none, 0, 0, []⟩

/-- A batch without a request. -/
def InputBatch.remove (b : InputBatch) (id : String) : InputBatch :=
  { b with
    numReqs := b.numReqs - (b.reqIdToIndex.get? id).toList.length
    reqIdToIndex := b.reqIdToIndex.erase id
    apart := b.apart.sublist (List.filter_sublist.map Prod.snd) }

/-- A batch with a new request at a free row. -/
def InputBatch.add (b : InputBatch) (id : String) (index : Nat) (row : BatchRow)
    (h : b.reqIdToIndex.get? id = none ∧ index ∉ b.reqIdToIndex.values) : InputBatch :=
  { b with
    numReqs := b.numReqs + 1
    reqIdToIndex := b.reqIdToIndex.set id index
    rows := (b.rows ++ List.replicate (index + 1 - b.rows.length) BatchRow.blank).set index row
    apart := by
      rw [Dict.values, Dict.items_set_new index h.1, List.map_append, List.nodup_append]
      refine ⟨b.apart, by simp, fun i hi j hj => ?_⟩
      simp only [List.map_cons, List.map_nil, List.mem_singleton] at hj
      rintro rfl
      exact h.2 (hj ▸ hi) }

/-- A batch whose rows stay where they are: a new request goes to the freed row it is given, or behind all rows. -/
def sampleOps : InputBatchOps where
  removeRequest b id := (b.remove id, b.reqIdToIndex.get? id)
  addRequest b state output at_ :=
    if h : b.reqIdToIndex.get? state.reqId = none ∧ at_.getD b.rows.length ∉ b.reqIdToIndex.values then
      .ok (b.add state.reqId (at_.getD b.rows.length)
        ⟨some state.outputTokenIds, (state.promptTokenIds.getD [] ++ output).length, state.numComputedTokens,
          state.promptTokenIds.getD [] ++ output⟩ h)
    else .error (.assertionError "")
  condense b _ := .ok b
  applyCachedReqStateUpdate state n blocks resumed :=
    { state with
      numComputedTokens := n
      blockIds := match blocks with
        | none => state.blockIds
        | some new => if resumed then new else List.zipWith (· ++ ·) state.blockIds new }
  buildCachedRequestState runner _ := runner

theorem sampleOps_lawful : sampleOps.Lawful where
  remove_text b id other h := by
    simp only [sampleOps, InputBatch.rowText, InputBatch.remove, Dict.get?_erase_of_ne _ (Ne.symm h)]
  remove_index b id := rfl
  remove_rows b id index h := by
    obtain ⟨⟨other, i⟩, hmem, rfl⟩ := List.mem_map.mp h
    obtain ⟨hmem, hne⟩ := Dict.mem_erase.mp hmem
    refine ⟨List.mem_map.mpr ⟨_, hmem, rfl⟩, fun hid => hne ?_⟩
    have := List.inj_on_of_nodup_map b.apart hmem (Dict.get?_eq_some_iff.mp hid) rfl
    exact congrArg Prod.fst this
  add_text {b b' state output at_} h := by
    simp only [sampleOps] at h
    split_ifs at h with hfree
    obtain rfl := Except.ok.inj h
    have hlt : at_.getD b.rows.length < (b.rows ++
        List.replicate (at_.getD b.rows.length + 1 - b.rows.length) BatchRow.blank).length := by
      rw [List.length_append, List.length_replicate]
      omega
    simp only [InputBatch.rowText, InputBatch.add, Dict.get?_set_self, Option.bind_some,
      List.getElem?_set_self hlt, Option.map_some, BatchRow.text, CachedRequestState.rowText, List.take_length]
  add_rows {b b' state output index} h other hother := by
    simp only [sampleOps, Option.getD_some] at h
    split_ifs at h with hfree
    obtain rfl := Except.ok.inj h
    simp only [InputBatch.add, Dict.values, Dict.items_set_new index hfree.1, List.map_append, List.map_cons,
      List.map_nil, List.mem_append, List.mem_singleton] at hother
    exact hother
  condense_text {b b' free} _ h id := by rw [← Except.ok.inj h]
  cached_state state n blocks resumed := ⟨rfl, rfl, rfl⟩

end BlackholeQwen.Serving
