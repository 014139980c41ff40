import BlackholeQwen.Lib.Dict
import BlackholeQwen.Prefill.Continuation

/-!
# Generations of interleaved prompts

`ledger`, `identities`, `release_requests` and `submit` of `optimisation/sim/interleave.py`: the runner stamps each
prompt with a generation that its controller takes for the epoch, and drops it when the request is preempted or
finished.

`Kept` bounds every epoch by the counter and says that a generation that is over is not current; `Fresh` is what a
release leaves for the requests it names, and what every later event keeps.
-/

namespace BlackholeQwen.Prefill.Continuation

open Lib

/-- What does not change: the two flags, the backend, the scheduler's token budget and `request_specific_rope`. -/
structure RunnerConfig where
  flags : String × String
  backend : Backend
  maxNumBatchedTokens : Nat
  requestSpecificRope : Bool

/-- `enabled`. -/
def enabled (flags : String × String) : Except PyError Bool :=
  if flags.1 ∉ ["0", "1"] ∨ flags.2 ∉ ["0", "1"] ∨ flags.1 ≠ flags.2 then
    .error (.valueError "Continuation and interleaving flags must both be 0 or both be 1")
  else .ok (flags.1 = "1")

/-- The runner: the scratch of its model, its generations and their counter, and the `mrope_position_delta` of its
requests. The controller is made at the first prefill; until then it has no owner, as a new one. -/
structure Runner where
  scratch : Scratch
  generations : Dict String (Int × Bool)
  nextGeneration : Int
  requests : Dict String Int

/-- `TTModelInput`, as far as `submit` reads it; the mask is `missing` where it is `None`. -/
structure ModelInput where
  prefillRequestIdentity : Option (List Owner)
  performDeviceSampling : Bool
  blockTablesPerLayer : Bool
  intermediatePrefillMask : Field Scalar
  kwargs : Args

/-- `bool(marker[0])`. -/
def Scalar.truthy : Scalar → Bool
  | .int n => n ≠ 0
  | .bool b => b
  | .tensor _ [value] => value ≠ 0
  | _ => true

/-- The marker that `submit` requires. -/
def ModelInput.marker (i : ModelInput) : Except PyError Scalar :=
  match i.intermediatePrefillMask with
  | .row [marker] => .ok marker
  | .unsized => .error .typeError
  | _ => .error (.valueError "Missing explicit intermediate-prefill marker")

/-- The keyword arguments that `submit` passes on. -/
def ModelInput.args (i : ModelInput) (owner : Owner) : Args :=
  { i.kwargs with
    metadata := { i.kwargs.metadata with
      requestIds := .row [.str owner.1]
      requestEpochs := .row [.int owner.2]
      intermediatePrefillMask := i.intermediatePrefillMask } }

namespace Runner

variable {ω : Type}

/-- The runner with no prompt yet. -/
def init (requests : Dict String Int) : Runner := ⟨Scratch.init, Dict.empty, 0, requests⟩

/-- A generation for the request, if it has none. -/
def issue (r : Runner) (id : String) : Runner :=
  match r.generations.get? id with
  | some _ => r
  | none =>
    { r with
      nextGeneration := r.nextGeneration + 1
      generations := r.generations.set id (r.nextGeneration + 1, false) }

/-- `generations[request_id][0]`. -/
def epoch (r : Runner) (id : String) : Int := ((r.generations.get? id).map Prod.fst).getD 0

/-- `identities`. -/
def identities (cfg : RunnerConfig) (r : Runner) (ids : List String) : Call Runner (Option (List Owner)) :=
  Call.attempt (enabled cfg.flags) r fun on =>
    if on = false then .ret r none
    else match ids with
      | [id] => .ret (r.issue id) (some [(id, (r.issue id).epoch id)])
      | _ => .throw r (.valueError "Continuation prefill must contain exactly one request")

/-- The scratch taken back from an owner among the dead. -/
def cancelDead (r : Runner) (dead : List String) (wait drain : Except PyError Unit) : Call Runner Unit :=
  match r.scratch.controller.active with
  | none => .ret r ()
  | some a =>
    if a.owner.1 ∈ dead then
      Call.attempt wait r fun _ => (r.scratch.cancel a.owner drain).onto fun scratch => { r with scratch }
    else .ret r ()

/-- `release_requests`. -/
def releaseRequests (cfg : RunnerConfig) (r : Runner) (finished : List String) (preempted : Option (List String))
    (wait drain : Except PyError Unit) : Call Runner Unit :=
  Call.attempt (enabled cfg.flags) r fun on =>
    if on = false then .ret r ()
    else
      let dead := finished ++ preempted.getD []
      (r.cancelDead dead wait drain).bind fun r _ =>
        .ret { r with generations := dead.foldl Dict.erase r.generations } ()

/-- The checks of `submit`. -/
def submitGuard (cfg : RunnerConfig) (r : Runner) (i : ModelInput) : Except PyError (Owner × Scalar) :=
  match i.prefillRequestIdentity with
  | some [owner] => do
    raiseIf (r.generations.get? owner.1 ≠ some (owner.2, false))
      (.valueError "Stale or already completed prefill submission")
    raiseIf (i.performDeviceSampling = true ∨ i.blockTablesPerLayer = true)
      (.valueError "Continuation v1 requires host sampling and a uniform page table")
    let marker ← i.marker
    raiseIf (cfg.maxNumBatchedTokens ≠ cfg.backend.chunkSize)
      (.valueError "Scheduler token budget does not match captured model chunk")
    return (owner, marker)
  | _ => .error (.valueError "Missing scheduler-captured prefill identity")

/-- What `submit` does with the output of a prefill: logits and position deltas. -/
def deliver (cfg : RunnerConfig) (r : Runner) (id : String) (output : ω × List Int) :
    Call Runner (ω × Option (List Int)) :=
  if cfg.requestSpecificRope = true then
    match output.2, r.requests.get? id with
    | [], _ => .throw r .indexError
    | _, none => .throw r .keyError
    | delta :: _, some _ => .ret { r with requests := r.requests.set id delta } (output.1, none)
  else .ret r (output.1, some output.2)

/-- `submit`. -/
def submit (cfg : RunnerConfig) (r : Runner) (i : ModelInput) (wait : Except PyError Unit)
    (run : Except PyError (ω × List Int)) : Call Runner (ω × Option (List Int)) :=
  Call.attempt (r.submitGuard cfg i) r fun p =>
    Call.attempt wait r fun _ =>
      ((r.scratch.forward cfg.backend (i.args p.1) run).onto fun scratch => { r with scratch }).bind fun r output =>
        let r := if p.2.truthy = true then r else { r with generations := r.generations.set p.1.1 (p.1.2, true) }
        r.deliver cfg p.1.1 output

end Runner

/-- An entry after which its owner's prompt is over: a final run that returned, or a cancellation. -/
def Entry.ends : Entry → Prop
  | .ran k returned => returned = true ∧ k.final = true
  | .cancelled _ => True

/-! ## What a submitted chunk is -/

/-- The owner of a submitted chunk is the identity submitted, and it is final exactly if its marker is false. -/
theorem ModelInput.args_chunk {b : Backend} {i : ModelInput} {owner : Owner} {m : Scalar} {k : Chunk}
    (hm : i.marker = .ok m) (h : (i.args owner).chunk b = .ok k) : k.owner = owner ∧ k.final = !m.truthy := by
  obtain ⟨id, epoch, m', hid, hepoch, howner, hm', hmarker⟩ := Args.chunk_identity h
  have hrow : i.intermediatePrefillMask = .row [m] := by
    unfold marker at hm
    split at hm
    · rename_i heq; rw [heq, Except.ok.inj hm]
    · cases hm
    · cases hm
  constructor
  · obtain ⟨rfl, rfl⟩ := identity_ok howner
    exact Prod.ext (RequestId.str.inj (Except.ok.inj hid)).symm (Scalar.int.inj (Except.ok.inj hepoch)).symm
  · simp only [args, hrow, Field.first] at hm'
    obtain rfl := Except.ok.inj hm'
    unfold Continuation.marker at hmarker
    split at hmarker
    · have := Except.ok.inj hmarker
      simp only [Scalar.truthy, this, Bool.not_not]
    · have := Except.ok.inj hmarker
      simp only [Scalar.truthy, this, Bool.not_not]
    · cases hmarker

namespace Runner

variable {ω : Type} {cfg : RunnerConfig} {r r' : Runner}

/-- A submission past its checks: the current generation of its request, and the marker it passes on. -/
theorem submitGuard_ok {i : ModelInput} {p : Owner × Scalar} (h : r.submitGuard cfg i = .ok p) :
    r.generations.get? p.1.1 = some (p.1.2, false) ∧ i.marker = .ok p.2 := by
  unfold submitGuard at h
  split at h
  · obtain ⟨_, hcurrent, h⟩ := bind_ok h
    obtain ⟨_, -, h⟩ := bind_ok h
    obtain ⟨m, hm, h⟩ := bind_ok h
    obtain ⟨_, -, h⟩ := bind_ok h
    obtain rfl := Except.ok.inj h
    rw [raiseIf_ok, not_not] at hcurrent
    exact ⟨hcurrent, hm⟩
  · cases h

/-- A new generation is one more than any before. -/
theorem issue_get? (r : Runner) (id id' : String) :
    (r.issue id).generations.get? id' = r.generations.get? id' ∧ (r.issue id).nextGeneration = r.nextGeneration ∨
    id' = id ∧ (r.issue id).generations.get? id' = some (r.nextGeneration + 1, false) ∧
      (r.issue id).nextGeneration = r.nextGeneration + 1 ∨
    id' ≠ id ∧ (r.issue id).generations.get? id' = r.generations.get? id' ∧
      (r.issue id).nextGeneration = r.nextGeneration + 1 := by
  unfold issue
  cases r.generations.get? id with
  | some _ => exact Or.inl ⟨rfl, rfl⟩
  | none =>
    by_cases h : id' = id
    · exact Or.inr (Or.inl ⟨h, by rw [h, Dict.get?_set_self], rfl⟩)
    · exact Or.inr (Or.inr ⟨h, Dict.get?_set_of_ne _ _ h, rfl⟩)

@[simp] theorem issue_scratch (r : Runner) (id : String) : (r.issue id).scratch = r.scratch := by
  unfold issue; split <;> rfl

/-- `identities` was refused, or captured the current generation of one request. -/
theorem identities_cases (hon : enabled cfg.flags = .ok true) (r : Runner) (ids : List String) :
    (∃ e, r.identities cfg ids = .throw r e) ∨
    ∃ id, r.identities cfg ids = .ret (r.issue id) (some [(id, (r.issue id).epoch id)]) := by
  unfold identities
  rw [hon, Call.attempt_ok, if_neg (by decide)]
  split
  · exact Or.inr ⟨_, rfl⟩
  · exact Or.inl ⟨_, rfl⟩

/-- `release_requests` raised and released nothing, or dropped the generations of the dead, and took the scratch back
from its owner if that was one of them. -/
theorem releaseRequests_cases (hon : enabled cfg.flags = .ok true) (r : Runner) (finished : List String)
    (preempted : Option (List String)) (wait drain : Except PyError Unit) :
    (∃ e, r.releaseRequests cfg finished preempted wait drain = .throw r e) ∨
    ∃ scratch, r.releaseRequests cfg finished preempted wait drain =
        .ret { r with
          scratch
          generations := (finished ++ preempted.getD []).foldl Dict.erase r.generations } () ∧
      (scratch = r.scratch ∨ ∃ owner, owner.1 ∈ finished ++ preempted.getD [] ∧
        r.scratch.controller.active.map Active.owner = some owner ∧
        scratch = ⟨stateAfter cfg.backend (some (.cancelled owner)), r.scratch.log ++ [.cancelled owner]⟩) := by
  unfold releaseRequests cancelDead
  rw [hon, Call.attempt_ok, if_neg (by decide)]
  cases ha : r.scratch.controller.active with
  | none => exact Or.inr ⟨r.scratch, rfl, Or.inl rfl⟩
  | some a =>
    simp only
    by_cases hdead : a.owner.1 ∈ finished ++ preempted.getD []
    · rw [if_pos hdead]
      cases wait with
      | error e => exact Or.inl ⟨e, rfl⟩
      | ok u =>
        rcases Scratch.cancel_cases cfg.backend r.scratch a.owner drain with ⟨e, hc⟩ | ⟨-, hc⟩
        · exact Or.inl ⟨e, by rw [Call.attempt_ok, hc]; rfl⟩
        · exact Or.inr ⟨_, by rw [Call.attempt_ok, hc]; rfl, Or.inr ⟨a.owner, hdead, rfl, rfl⟩⟩
    · rw [if_neg hdead]
      exact Or.inr ⟨r.scratch, rfl, Or.inl rfl⟩

/-- Delivering an output changes neither the scratch nor the generations. -/
theorem deliver_frame (r : Runner) (id : String) (output : ω × List Int) :
    (r.deliver cfg id output).obj.scratch = r.scratch ∧ (r.deliver cfg id output).obj.generations = r.generations ∧
      (r.deliver cfg id output).obj.nextGeneration = r.nextGeneration := by
  unfold deliver
  split
  · split <;> exact ⟨rfl, rfl, rfl⟩
  · exact ⟨rfl, rfl, rfl⟩

/-- `submit` was refused and left everything as it was, or ran a chunk of the current generation of its request; a final
run that returned marks it. -/
theorem submit_cases (r : Runner) (i : ModelInput) (wait : Except PyError Unit) (run : Except PyError (ω × List Int)) :
    (r.submit cfg i wait run).obj = r ∨
    ∃ a k returned, r.generations.get? k.owner.1 = some (k.owner.2, false) ∧
      r.scratch.controller.admission cfg.backend a = .ok k ∧
      (r.submit cfg i wait run).obj.scratch =
        ⟨stateAfter cfg.backend (some (.ran k returned)), r.scratch.log ++ [.ran k returned]⟩ ∧
      (r.submit cfg i wait run).obj.nextGeneration = r.nextGeneration ∧
      (r.submit cfg i wait run).obj.generations =
        if returned = true ∧ k.final = true then r.generations.set k.owner.1 (k.owner.2, true) else r.generations := by
  unfold submit
  rcases Call.attempt_cases (r.submitGuard cfg i) r _ with ⟨e, -, h⟩ | ⟨p, hp, h⟩ <;> rw [h]
  · exact Or.inl rfl
  cases wait with
  | error e => exact Or.inl rfl
  | ok u =>
    rw [Call.attempt_ok]
    obtain ⟨hcurrent, hmarker⟩ := submitGuard_ok hp
    rcases Scratch.forward_cases cfg.backend r.scratch (i.args p.1) run with
      ⟨e, hf⟩ | ⟨k, returned, hk, hobj, hres, hret⟩
    · rw [hf]; exact Or.inl rfl
    have hchunk := Controller.admission_chunk hk
    obtain ⟨howner, hfinal⟩ := ModelInput.args_chunk hmarker hchunk
    refine Or.inr ⟨i.args p.1, k, returned, by rw [howner]; exact hcurrent, hk, ?_⟩
    rcases Call.bind_cases ((r.scratch.forward cfg.backend (i.args p.1) run).onto
      fun scratch => { r with scratch }) _ with ⟨e, he, hb⟩ | ⟨output, ho, hb⟩ <;> rw [hb]
    · -- the run raised
      rw [Call.onto_result, hres] at he
      have hraised : returned = false := by
        rcases Bool.eq_false_or_eq_true returned with h | h
        · obtain ⟨out, hout⟩ := hret.mp h
          rw [he] at hout; cases hout
        · exact h
      subst hraised
      exact ⟨hobj, rfl, by simp⟩
    · rw [Call.onto_result, hres] at ho
      obtain rfl : returned = true := hret.mpr ⟨output, ho⟩
      rw [(deliver_frame _ _ _).1, (deliver_frame _ _ _).2.1, (deliver_frame _ _ _).2.2, howner, hfinal]
      cases htruthy : p.2.truthy with
      | true => exact ⟨hobj, rfl, by simp⟩
      | false => exact ⟨hobj, rfl, by simp⟩

/-! ## The generations of a run -/

/-- What every sequence of calls keeps: epochs are bounded by the counter, the generation of a prompt that is over is
not current, and no chunk of one follows. -/
structure Kept (cfg : RunnerConfig) (r : Runner) : Prop where
  tracked : r.scratch.Tracked cfg.backend
  issued : ∀ id epoch spent, r.generations.get? id = some (epoch, spent) → epoch ≤ r.nextGeneration
  bounded : ∀ e ∈ r.scratch.log, e.owner.2 ≤ r.nextGeneration
  ended : ∀ e ∈ r.scratch.log, e.ends → r.generations.get? e.owner.1 ≠ some (e.owner.2, false)
  unrepeated : ∀ pre e post, r.scratch.log = pre ++ e :: post → e.ends →
    ∀ k returned, .ran k returned ∈ post → k.owner ≠ e.owner

/-- A captured generation. -/
theorem Kept.issue (h : Kept cfg r) (id : String) : Kept cfg (r.issue id) := by
  have hnext : r.nextGeneration ≤ (r.issue id).nextGeneration := by
    rcases r.issue_get? id id with ⟨-, h⟩ | ⟨-, -, h⟩ | ⟨-, -, h⟩ <;> omega
  refine ⟨by rw [issue_scratch]; exact h.tracked, fun id' epoch spent hg => ?_, fun e he => ?_, fun e he hends => ?_, by
    rw [issue_scratch]; exact h.unrepeated⟩
  · rcases r.issue_get? id id' with ⟨h', -⟩ | ⟨-, h', hn⟩ | ⟨-, h', -⟩ <;> rw [h'] at hg
    · exact Int.le_trans (h.issued _ _ _ hg) hnext
    · cases hg; omega
    · exact Int.le_trans (h.issued _ _ _ hg) hnext
  · rw [issue_scratch] at he
    exact Int.le_trans (h.bounded e he) hnext
  · rw [issue_scratch] at he
    rcases r.issue_get? id e.owner.1 with ⟨h', -⟩ | ⟨-, h', -⟩ | ⟨-, h', -⟩ <;> rw [h']
    · exact h.ended e he hends
    · intro heq
      have hbound := h.bounded e he
      have := congrArg Prod.fst (Option.some.inj heq)
      simp only at this
      omega
    · exact h.ended e he hends

/-- One more entry of the log, by an owner that is the current one, or that the log names already. -/
theorem Kept.unrepeated_snoc (h : Kept cfg r) {x : Entry}
    (hx : ∀ k returned, x = .ran k returned → r.generations.get? k.owner.1 = some (k.owner.2, false))
    (pre : List Entry) (e : Entry) (post : List Entry) (hlog : r.scratch.log ++ [x] = pre ++ e :: post)
    (hends : e.ends) (k : Chunk) (returned : Bool) (hk : .ran k returned ∈ post) : k.owner ≠ e.owner := by
  rcases List.eq_nil_or_concat post with rfl | ⟨post, y, rfl⟩
  · cases hk
  have hlog' : r.scratch.log ++ [x] = (pre ++ e :: post) ++ [y] := hlog.trans (by simp)
  obtain ⟨hr, hy⟩ := List.append_inj' hlog' rfl
  obtain rfl := List.singleton_inj.mp hy
  rw [List.concat_eq_append, List.mem_append, List.mem_singleton] at hk
  rcases hk with hk | hk
  · exact h.unrepeated pre e post hr hends k returned hk
  · intro heq
    have hcurrent := hx k returned hk.symm
    rw [heq] at hcurrent
    exact h.ended e (by rw [hr]; simp) hends hcurrent

/-- An owner that holds the scratch is in the log. -/
theorem Kept.active_le (h : Kept cfg r) {owner : Owner}
    (howner : r.scratch.controller.active.map Active.owner = some owner) : owner.2 ≤ r.nextGeneration := by
  obtain ⟨p, returned, hp, rfl, -⟩ := h.tracked.cancelled howner
  exact h.bounded _ (List.mem_of_getLast? hp)

/-- A release that returned. -/
theorem Kept.release (h : Kept cfg r) {dead : List String} {scratch : Scratch}
    (hs : scratch = r.scratch ∨ ∃ owner, owner.1 ∈ dead ∧ r.scratch.controller.active.map Active.owner = some owner ∧
      scratch = ⟨stateAfter cfg.backend (some (.cancelled owner)), r.scratch.log ++ [.cancelled owner]⟩) :
    Kept cfg { r with scratch, generations := dead.foldl Dict.erase r.generations } := by
  have hissued : ∀ id epoch spent, (dead.foldl Dict.erase r.generations).get? id = some (epoch, spent) →
      epoch ≤ r.nextGeneration := by
    intro id epoch spent hg
    rw [Dict.get?_foldl_erase] at hg
    split at hg
    · cases hg
    · exact h.issued _ _ _ hg
  have hover : ∀ e ∈ r.scratch.log, e.ends →
      (dead.foldl Dict.erase r.generations).get? e.owner.1 ≠ some (e.owner.2, false) := by
    intro e he hends
    rw [Dict.get?_foldl_erase]
    split
    · simp
    · exact h.ended e he hends
  rcases hs with rfl | ⟨owner, hdead, howner, rfl⟩
  · exact ⟨h.tracked, hissued, h.bounded, hover, h.unrepeated⟩
  · refine ⟨h.tracked.snoc (h.tracked.cancelled howner), hissued, fun e he => ?_, fun e he hends => ?_,
      h.unrepeated_snoc fun k returned hk => by cases hk⟩
    · rcases List.mem_append.mp he with he | he
      · exact h.bounded e he
      · obtain rfl := List.mem_singleton.mp he
        exact h.active_le howner
    · rcases List.mem_append.mp he with he | he
      · exact hover e he hends
      · obtain rfl := List.mem_singleton.mp he
        rw [Dict.get?_foldl_erase]
        simp [Entry.owner, hdead]

/-- A chunk that ran. -/
theorem Kept.submit (h : Kept cfg r) (i : ModelInput) (wait : Except PyError Unit)
    (run : Except PyError (ω × List Int)) : Kept cfg (r.submit cfg i wait run).obj := by
  rcases submit_cases r i wait run with hr | ⟨a, k, returned, hcurrent, hk, hscratch, hnext, hgen⟩
  · rw [hr]; exact h
  -- only the flag of the chunk's own generation may change
  have hget : ∀ id, (r.submit cfg i wait run).obj.generations.get? id = r.generations.get? id ∨
      id = k.owner.1 ∧ (r.submit cfg i wait run).obj.generations.get? id = some (k.owner.2, true) := by
    intro id
    rw [hgen]
    split
    · by_cases hid : id = k.owner.1
      · exact Or.inr ⟨hid, by rw [hid, Dict.get?_set_self]⟩
      · exact Or.inl (Dict.get?_set_of_ne _ _ hid)
    · exact Or.inl rfl
  refine ⟨?_, fun id epoch spent hg => ?_, fun e he => ?_, fun e he hends => ?_, ?_⟩
  · rw [hscratch]
    exact h.tracked.snoc (h.tracked.admitted hk returned)
  · rw [hnext]
    rcases hget id with hg' | ⟨rfl, hg'⟩ <;> rw [hg'] at hg
    · exact h.issued _ _ _ hg
    · cases hg; exact h.issued _ _ _ hcurrent
  · rw [hnext]
    rw [hscratch] at he
    rcases List.mem_append.mp he with he | he
    · exact h.bounded e he
    · obtain rfl := List.mem_singleton.mp he
      exact h.issued _ _ _ hcurrent
  · rw [hscratch] at he
    rcases hget e.owner.1 with hg' | ⟨-, hg'⟩ <;> rw [hg']
    · rcases List.mem_append.mp he with he | he
      · exact h.ended e he hends
      · -- a final run that returned has marked its generation
        obtain rfl := List.mem_singleton.mp he
        have hends : returned = true ∧ k.final = true := hends
        change (r.submit cfg i wait run).obj.generations.get? k.owner.1 = _ at hg'
        rw [hgen, if_pos hends, Dict.get?_set_self] at hg'
        rw [← hg']
        simp
    · simp
  · rw [hscratch]
    refine h.unrepeated_snoc fun k' returned' hk' => ?_
    obtain ⟨rfl, -⟩ := Entry.ran.inj hk'
    exact hcurrent

/-- A call on the runner; what the backend and the pending steps answer is part of it, and what a capture or a release
returned. -/
inductive Event (ω : Type)
  | identities (ids : List String) (result : Except PyError (Option (List Owner)))
  | release (finished : List String) (preempted : Option (List String)) (wait drain : Except PyError Unit)
      (result : Except PyError Unit)
  | submit (i : ModelInput) (wait : Except PyError Unit) (run : Except PyError (ω × List Int))

/-- One call. -/
def Step (cfg : RunnerConfig) (r : Runner) (e : Event ω) (r' : Runner) : Prop :=
  match e with
  | .identities ids result => result = (r.identities cfg ids).result ∧ r' = (r.identities cfg ids).obj
  | .release finished preempted wait drain result =>
    result = (r.releaseRequests cfg finished preempted wait drain).result ∧
      r' = (r.releaseRequests cfg finished preempted wait drain).obj
  | .submit i wait run => r' = (r.submit cfg i wait run).obj

theorem Kept.step (hon : enabled cfg.flags = .ok true) (h : Kept cfg r) {e : Event ω} (hs : Step cfg r e r') :
    Kept cfg r' := by
  cases e with
  | identities ids result =>
    obtain ⟨-, rfl⟩ := hs
    rcases identities_cases hon r ids with ⟨e, hi⟩ | ⟨id, hi⟩ <;> rw [hi]
    · exact h
    · exact h.issue id
  | release finished preempted wait drain result =>
    obtain ⟨-, rfl⟩ := hs
    rcases releaseRequests_cases hon r finished preempted wait drain with ⟨e, hr⟩ | ⟨scratch, hr, hscratch⟩ <;> rw [hr]
    · exact h
    · exact h.release hscratch
  | submit i wait run => obtain rfl := hs; exact h.submit i wait run

theorem Kept.init (cfg : RunnerConfig) (requests : Dict String Int) : Kept cfg (Runner.init requests) := by
  refine ⟨.init, ?_, ?_, ?_, ?_⟩
  · intro id epoch spent hg; cases hg
  · intro e he; cases he
  · intro e he; cases he
  · intro pre e post hlog; simp [Runner.init, Scratch.init] at hlog

theorem Kept.run (hon : enabled cfg.flags = .ok true) {requests : Dict String Int} {events : List (Event ω)}
    (h : Run (Step cfg) (Runner.init requests) events r) : Kept cfg r :=
  h.invariant_state (.init cfg requests) fun ht hs => ht.step hon hs

/-- What a release leaves for the requests it names, from the counter `n` and the log it left on: their generations are
newer than any before, and so are those their chunks run under. -/
structure Fresh (dead : List String) (n : Int) (log : List Entry) (r : Runner) : Prop where
  counter : n ≤ r.nextGeneration
  newer : ∀ id ∈ dead, ∀ epoch spent, r.generations.get? id = some (epoch, spent) → n < epoch
  log : ∃ later, r.scratch.log = log ++ later ∧ ∀ k returned, .ran k returned ∈ later → k.owner.1 ∈ dead → n < k.owner.2

theorem Fresh.issue {dead : List String} {n : Int} {log : List Entry} (h : Fresh dead n log r) (id : String) :
    Fresh dead n log (r.issue id) := by
  have hcounter := h.counter
  refine ⟨?_, fun id' hid' epoch spent hg => ?_, by rw [issue_scratch]; exact h.log⟩
  · rcases r.issue_get? id id with ⟨-, h⟩ | ⟨-, -, h⟩ | ⟨-, -, h⟩ <;> omega
  · rcases r.issue_get? id id' with ⟨h', -⟩ | ⟨-, h', -⟩ | ⟨-, h', -⟩ <;> rw [h'] at hg
    · exact h.newer id' hid' _ _ hg
    · cases hg; omega
    · exact h.newer id' hid' _ _ hg

theorem Fresh.step (hon : enabled cfg.flags = .ok true) {dead : List String} {n : Int} {log : List Entry}
    (h : Fresh dead n log r) {e : Event ω} (hs : Step cfg r e r') : Fresh dead n log r' := by
  obtain ⟨later, hlog, hlater⟩ := h.log
  cases e with
  | identities ids result =>
    obtain ⟨-, rfl⟩ := hs
    rcases identities_cases hon r ids with ⟨e, hi⟩ | ⟨id, hi⟩ <;> rw [hi]
    · exact h
    · exact h.issue id
  | release finished preempted wait drain result =>
    obtain ⟨-, rfl⟩ := hs
    rcases releaseRequests_cases hon r finished preempted wait drain with ⟨e, hr⟩ | ⟨scratch, hr, hscratch⟩ <;> rw [hr]
    · exact h
    refine ⟨h.counter, fun id hid epoch spent hg => ?_, ?_⟩
    · simp only [Call.ret_obj, Dict.get?_foldl_erase] at hg
      split at hg
      · cases hg
      · exact h.newer id hid _ _ hg
    · rcases hscratch with rfl | ⟨owner, -, -, rfl⟩
      · exact h.log
      · refine ⟨later ++ [.cancelled owner], by simp [hlog], fun k returned hk => ?_⟩
        simp only [List.mem_append, List.mem_singleton, reduceCtorEq, or_false] at hk
        exact hlater k returned hk
  | submit i wait run =>
    obtain rfl := hs
    rcases submit_cases r i wait run with hr | ⟨a, k, returned, hcurrent, -, hscratch, hnext, hgen⟩
    · rw [hr]; exact h
    refine ⟨by rw [hnext]; exact h.counter, fun id hid epoch spent hg => ?_, ?_⟩
    · rw [hgen] at hg
      split at hg
      · by_cases heq : id = k.owner.1
        · subst heq
          rw [Dict.get?_set_self] at hg
          cases hg
          exact h.newer _ hid _ _ hcurrent
        · rw [Dict.get?_set_of_ne _ _ heq] at hg
          exact h.newer id hid _ _ hg
      · exact h.newer id hid _ _ hg
    · refine ⟨later ++ [.ran k returned], by rw [hscratch]; simp [hlog], fun k' returned' hk' hdead => ?_⟩
      rcases List.mem_append.mp hk' with hk' | hk'
      · exact hlater k' returned' hk' hdead
      · obtain ⟨rfl, -⟩ := Entry.ran.inj (List.mem_singleton.mp hk')
        exact h.newer _ hdead _ _ hcurrent

/-- A release that returned. -/
theorem Fresh.of_release (hon : enabled cfg.flags = .ok true) {finished : List String}
    {preempted : Option (List String)} {wait drain : Except PyError Unit}
    (hok : (r.releaseRequests cfg finished preempted wait drain).result = .ok ()) :
    Fresh (finished ++ preempted.getD []) r.nextGeneration
      (r.releaseRequests cfg finished preempted wait drain).obj.scratch.log
      (r.releaseRequests cfg finished preempted wait drain).obj := by
  rcases releaseRequests_cases hon r finished preempted wait drain with ⟨e, hr⟩ | ⟨scratch, hr, -⟩ <;> rw [hr] at hok ⊢
  · cases hok
  refine ⟨Int.le_refl _, fun id hid epoch spent hg => ?_, [], by simp, fun k returned hk => by cases hk⟩
  simp only [Call.ret_obj, Dict.get?_foldl_erase, if_pos hid] at hg
  cases hg

theorem Kept.epoch_le {id : String} (h : Kept cfg (r.issue id)) :
    (r.issue id).epoch id ≤ (r.issue id).nextGeneration := by
  obtain ⟨p, hp⟩ : ∃ p, (r.issue id).generations.get? id = some p := by
    unfold Runner.issue
    cases hid : r.generations.get? id with
    | none => exact ⟨_, Dict.get?_set_self ..⟩
    | some p => exact ⟨p, hid⟩
  have := h.issued id p.1 p.2 hp
  rwa [show (r.issue id).epoch id = p.1 by rw [Runner.epoch, hp]; rfl]

/-- Every captured epoch is bounded by the counter. -/
theorem captured_le (hon : enabled cfg.flags = .ok true) {requests : Dict String Int} {events : List (Event ω)}
    (h : Run (Step cfg) (Runner.init requests) events r) :
    ∀ ids owners, .identities ids (.ok (some owners)) ∈ events → ∀ o ∈ owners, o.2 ≤ r.nextGeneration := by
  refine (h.invariant (P := fun events r => Kept cfg r ∧ ∀ ids owners,
    .identities ids (.ok (some owners)) ∈ events → ∀ o ∈ owners, o.2 ≤ r.nextGeneration)
    ⟨.init cfg requests, fun ids owners hmem => by cases hmem⟩ fun {events t e u} _ hp hs => ?_).2
  obtain ⟨hk, hle⟩ := hp
  have hfresh : Fresh [] t.nextGeneration t.scratch.log t :=
    ⟨Int.le_refl _, fun id hid => (by cases hid), [], by simp, fun k returned hmem => (by cases hmem)⟩
  have hcounter := (hfresh.step hon hs).counter
  have hk' := hk.step hon hs
  refine ⟨hk', fun ids owners hmem o ho => ?_⟩
  rcases List.mem_append.mp hmem with hmem | hmem
  · exact Int.le_trans (hle ids owners hmem o ho) hcounter
  · obtain rfl := List.mem_singleton.mp hmem
    obtain ⟨hres, rfl⟩ := hs
    rcases identities_cases hon t ids with ⟨e, hi⟩ | ⟨id, hi⟩ <;> rw [hi] at hres hk' ⊢
    · cases hres
    · obtain rfl := Option.some.inj (Except.ok.inj hres)
      obtain rfl := List.mem_singleton.mp ho
      exact hk'.epoch_le

/-- A release that returned, and what runs after it. -/
theorem restarts (hon : enabled cfg.flags = .ok true) {requests : Dict String Int} {before after : List (Event ω)}
    (hrun : Run (Step cfg) (Runner.init requests) before r) {finished : List String}
    {preempted : Option (List String)} {wait drain : Except PyError Unit}
    (hs : Step cfg r (.release finished preempted wait drain (.ok ()) : Event ω) r') {r'' : Runner}
    (hafter : Run (Step cfg) r' after r'') :
    ∃ later, r''.scratch.log = r'.scratch.log ++ later ∧
      ∀ pre k returned post, later = pre ++ .ran k returned :: post → k.owner.1 ∈ finished ++ preempted.getD [] →
        (∀ e ∈ r'.scratch.log, e.owner.2 < k.owner.2) ∧
        (∀ ids owners, .identities ids (.ok (some owners)) ∈ before → ∀ o ∈ owners, o.2 < k.owner.2) ∧
        ((∀ e ∈ pre, e.owner ≠ k.owner) → k.start = 0) := by
  have hk' := (Kept.run hon hrun).step hon hs
  have hcaptured := captured_le hon hrun
  obtain ⟨hres, rfl⟩ := hs
  have hfresh := Fresh.of_release hon hres.symm
  have hnext : (r.releaseRequests cfg finished preempted wait drain).obj.nextGeneration = r.nextGeneration := by
    rcases releaseRequests_cases hon r finished preempted wait drain with ⟨e, hr⟩ | ⟨scratch, hr, -⟩ <;> rw [hr] <;> rfl
  have hend := hafter.invariant_state hfresh fun ht hs => ht.step hon hs
  have hkept := hafter.invariant_state hk' fun ht hs => ht.step hon hs
  obtain ⟨later, hlog, hnewer⟩ := hend.log
  refine ⟨later, hlog, fun pre k returned post hlater hdead => ?_⟩
  have hlt := hnewer k returned (by rw [hlater]; simp) hdead
  have hbound : ∀ e ∈ (r.releaseRequests cfg finished preempted wait drain).obj.scratch.log, e.owner.2 < k.owner.2 :=
    fun e he => by have := hk'.bounded e he; rw [hnext] at this; omega
  refine ⟨hbound, fun ids owners hmem o ho => by have := hcaptured ids owners hmem o ho; omega, fun hfirst => ?_⟩
  by_contra hpos
  obtain ⟨p, hp, -, hc⟩ := hkept.tracked.runsOnce.continues
    ((r.releaseRequests cfg finished preempted wait drain).obj.scratch.log ++ pre) k returned post
    (by rw [hlog, hlater, List.append_assoc]) (Nat.pos_of_ne_zero hpos)
  rcases List.mem_append.mp (List.mem_of_getLast? hp) with hmem | hmem
  · have := hbound _ hmem
    rw [show Entry.owner (.ran p true) = p.owner from rfl, ← hc.owner] at this
    omega
  · exact hfirst _ hmem hc.owner.symm

/-- **Prefill continuation runs each prompt's chunks once, in order.** After any calls of the controller the log is of
runs that continue one another up to a final run or a cancellation, a returned final run leaves no owner, and a call
that does not reach the device changes nothing. After any calls of the runner no chunk follows the end of its owner's
prompt, and a request that a release has dropped runs again only from 0, under an epoch newer than any run or captured
before. -/
theorem continuation_once (hon : enabled cfg.flags = .ok true) :
    (∀ (events : List (ScratchEvent ω)) s, Run (Scratch.Step cfg.backend) Scratch.init events s →
      RunsOnce cfg.backend s.log ∧
      ∀ pre k, s.log = pre ++ [.ran k true] → k.final = true → s.controller.active = none) ∧
    (∀ (s : Scratch) a (run : Except PyError ω), (s.forward cfg.backend a run).obj.log = s.log →
      (s.forward cfg.backend a run).obj = s) ∧
    (∀ (s : Scratch) owner drain, (s.cancel owner drain).obj.log = s.log → (s.cancel owner drain).obj = s) ∧
    ∀ requests (before : List (Event ω)) r, Run (Step cfg) (Runner.init requests) before r →
      RunsOnce cfg.backend r.scratch.log ∧
      (∀ pre e post, r.scratch.log = pre ++ e :: post → e.ends →
        ∀ k returned, .ran k returned ∈ post → k.owner ≠ e.owner) ∧
      ∀ finished preempted wait drain r', Step cfg r (.release finished preempted wait drain (.ok ()) : Event ω) r' →
        ∀ (after : List (Event ω)) r'', Run (Step cfg) r' after r'' →
          ∃ later, r''.scratch.log = r'.scratch.log ++ later ∧
            ∀ pre k returned post, later = pre ++ .ran k returned :: post →
              k.owner.1 ∈ finished ++ preempted.getD [] →
              (∀ e ∈ r'.scratch.log, e.owner.2 < k.owner.2) ∧
              (∀ ids owners, .identities ids (.ok (some owners)) ∈ before → ∀ o ∈ owners, o.2 < k.owner.2) ∧
              ((∀ e ∈ pre, e.owner ≠ k.owner) → k.start = 0) := by
  refine ⟨fun events s hrun => ?_, fun s a run h => Scratch.forward_unchanged a run h,
    fun s owner drain h => Scratch.cancel_unchanged cfg.backend owner drain h, fun requests before r hrun => ?_⟩
  · have ht := Scratch.Tracked.run hrun
    exact ⟨ht.runsOnce, fun pre k hlog hfinal => ht.final hlog hfinal⟩
  · have hk := Kept.run hon hrun
    exact ⟨hk.tracked.runsOnce, hk.unrepeated, fun finished preempted wait drain r' hs after r'' hafter =>
      restarts hon hrun hs hafter⟩

/-- A backend of chunks of two tokens. -/
def sampleConfig : RunnerConfig where
  flags := ("1", "1")
  backend := ⟨2, 1, 8, 1, 8, 8, 100, by decide, by decide⟩
  maxNumBatchedTokens := 2
  requestSpecificRope := false

/-- A submission of `[start, stop)` of a prompt of three tokens, under this epoch. -/
def sampleInput (epoch : Int) (start stop : Nat) (intermediate : Bool) : ModelInput where
  prefillRequestIdentity := some [("a", epoch)]
  performDeviceSampling := false
  blockTablesPerLayer := false
  intermediatePrefillMask := .row [.bool intermediate]
  kwargs :=
    { tokens := ⟨some [[5, 6, 7]], true, .int64⟩
      pageTable := ⟨some [[0, 1, 2]], true, .int32⟩
      promptLens := .row [.int stop]
      metadata := ⟨.row [.int start], .missing, .missing, .missing, .row [.int 0], .none, .none, false⟩ }

/-- That submission, by a device that runs it. -/
def sampleSubmit (epoch : Int) (start stop : Nat) (intermediate : Bool) : Event Unit :=
  .submit (sampleInput epoch start stop intermediate) (.ok ()) (.ok ((), []))

/-- The chunk `[0, 2)` of the prompt, under this epoch. -/
def sampleHead (epoch : Int) : Chunk := ⟨("a", epoch), [5, 6], .int64, [0, 1, 2], .int32, 0, 2, false, 0⟩

/-- The final chunk `[2, 3)`. -/
def sampleTail (epoch : Int) : Chunk := ⟨("a", epoch), [5, 6, 7], .int64, [0, 1, 2], .int32, 2, 3, true, 0⟩

/-- The runner after the prompt's first chunk. -/
def sampleStarted : Runner :=
  (((init Dict.empty).identities sampleConfig ["a"]).obj.submit sampleConfig (sampleInput 1 0 2 true) (.ok ())
    (.ok ((), []))).obj

theorem sampleStarted_run : Run (Step sampleConfig) (init Dict.empty)
    [.identities ["a"] (.ok (some [("a", 1)])), sampleSubmit 1 0 2 true] sampleStarted :=
  (Run.single ⟨rfl, rfl⟩).snoc rfl

/-- The runner after a release of the request, whose drain answers this. -/
def sampleReleased (drain : Except PyError Unit) : Runner :=
  (sampleStarted.releaseRequests sampleConfig [] (some ["a"]) (.ok ()) drain).obj

/-- The runner after a prompt was preempted and has run again, under a new generation. -/
def sampleResumed : Runner :=
  ((((sampleReleased (.ok ())).identities sampleConfig ["a"]).obj.submit sampleConfig (sampleInput 2 0 2 true) (.ok ())
    (.ok ((), []))).obj.submit sampleConfig (sampleInput 2 2 3 false) (.ok ()) (.ok ((), []))).obj

/-- The sample runs a chunk, is released while it owns the scratch, and runs its two chunks under the next epoch. -/
theorem continuation_once_sample :
    (sampleResumed.scratch.log =
        [.ran (sampleHead 1) true, .cancelled ("a", 1), .ran (sampleHead 2) true, .ran (sampleTail 2) true] ∧
      RunsOnce sampleConfig.backend sampleResumed.scratch.log) ∧
    ∃ later, sampleResumed.scratch.log = (sampleReleased (.ok ())).scratch.log ++ later ∧
      ∀ pre k returned post, later = pre ++ .ran k returned :: post → k.owner.1 ∈ [] ++ (some ["a"]).getD [] →
        (∀ e ∈ (sampleReleased (.ok ())).scratch.log, e.owner.2 < k.owner.2) ∧
        (∀ ids owners, .identities ids (.ok (some owners)) ∈
          [.identities ["a"] (.ok (some [("a", 1)])), sampleSubmit 1 0 2 true] → ∀ o ∈ owners, o.2 < k.owner.2) ∧
        ((∀ e ∈ pre, e.owner ≠ k.owner) → k.start = 0) := by
  obtain ⟨-, -, -, hrunner⟩ := @continuation_once Unit sampleConfig (by decide)
  have hreleased : Step sampleConfig sampleStarted
      (.release [] (some ["a"]) (.ok ()) (.ok ()) (.ok ()) : Event Unit) (sampleReleased (.ok ())) := ⟨rfl, rfl⟩
  have hafter : Run (Step sampleConfig) (sampleReleased (.ok ()))
      [.identities ["a"] (.ok (some [("a", 2)])), sampleSubmit 2 0 2 true, sampleSubmit 2 2 3 false] sampleResumed :=
    ((Run.single ⟨rfl, rfl⟩).snoc rfl).snoc rfl
  have hwhole := (sampleStarted_run.snoc hreleased).append hafter
  exact ⟨⟨by decide, (hrunner _ _ _ hwhole).1⟩,
    (hrunner _ _ _ sampleStarted_run).2.2 _ _ _ _ _ hreleased _ _ hafter⟩

/-- **A release whose drain raised drops nothing**: the preempted request goes on at 2, under its old epoch. -/
theorem raised_release_continues :
    Run (Step sampleConfig) (init Dict.empty)
      [.identities ["a"] (.ok (some [("a", 1)])), sampleSubmit 1 0 2 true,
        .release [] (some ["a"]) (.ok ()) (.error (.runtimeError "drain")) (.error (.runtimeError "drain")),
        sampleSubmit 1 2 3 false]
      ((sampleReleased (.error (.runtimeError "drain"))).submit sampleConfig (sampleInput 1 2 3 false) (.ok ())
        (.ok ((), []))).obj ∧
    ((sampleReleased (.error (.runtimeError "drain"))).submit sampleConfig (sampleInput 1 2 3 false) (.ok ())
      (.ok ((), []))).obj.scratch.log = [.ran (sampleHead 1) true, .ran (sampleTail 1) true] := by
  have hraised : Step sampleConfig sampleStarted
      (.release [] (some ["a"]) (.ok ()) (.error (.runtimeError "drain")) (.error (.runtimeError "drain")) : Event Unit)
      (sampleReleased (.error (.runtimeError "drain"))) := ⟨rfl, rfl⟩
  exact ⟨(sampleStarted_run.snoc hraised).snoc rfl, by decide⟩

end Runner

end BlackholeQwen.Prefill.Continuation
