import BlackholeQwen.Lib.Runs
import BlackholeQwen.Gdn.Records
import BlackholeQwen.Lib.Indices

/-!
# A replay runs over whole carries

The runs of a packed block: `commit_user` in any order of the users, tokens read of `commit_serial`, fences completed
elsewhere, `note_round_fence` with a token that such a fence followed, flushes of the deferred publications, replays and
`close`, with round fences off or on (`Step`).

- `Guarded`: what every reachable world keeps. The queue is sealed by the serial (`Lib.Line.Sealed`), a block that is
  ready has an empty queue and is not poisoned, the keys of `decisions` are the users decided since the last completed
  replay, and a `selected_prefix` says that they are all of them.
- `replay_safe`: every operation that a replay ran found each user decided once, nothing on the queue, and no
  publication of the epoch raised; a replay that would not refuses without running it.
-/

namespace BlackholeQwen.Gdn

open Lib

/-! ## Runs -/

/-- What happens to a block. -/
inductive Event
  | commitUser (c : CommitCall) (env : CommitEnv)
  | readToken
  | fence
  | noteRoundFence (token : Nat)
  | flushCommits (failed : Bool)
  | replay (env : ReplayEnv)
  | close (release : Option PyError)

/-- One event. Publications are deferred under round fences only (`packed_verifier.py` refuses
`QWEN_FAST_GDN_AFTER_PAIRS` without them). -/
inductive Step : World → Event → World → Prop
  | commitUser {w : World} {c : CommitCall} {env : CommitEnv}
      (h : env.effect = .deferred → w.block.roundFences = true) :
      Step w (.commitUser c env) (w.commitUser c env).obj
  | readToken {w : World} : Step w .readToken { w with line := w.line.readToken w.block.commitSerial }
  | fence {w : World} : Step w .fence { w with line := w.line.fence }
  | noteRoundFence {w : World} {token : Nat} (h : token ∈ w.line.paid) :
      Step w (.noteRoundFence token) (w.noteRoundFence token).1
  | flushCommits {w : World} {failed : Bool} : Step w (.flushCommits failed) (w.flushCommits failed).obj
  | replay {w : World} {env : ReplayEnv} : Step w (.replay env) (w.replay env).obj
  | close {w : World} {release : Option PyError} : Step w (.close release) (w.close release).obj

/-! ## The invariant -/

/-- What the operation of a replay may find: every user decided once, the queue empty, nothing raised. -/
def Snapshot.Safe (n : Nat) (s : Snapshot) : Prop :=
  (∀ i < n, s.decided.count i = 1) ∧ (∀ i ∈ s.decided, i < n) ∧ s.queue = [] ∧ s.raised = false

/-- What holds in every reachable world of a block of `n` users. -/
structure Guarded (n : Nat) (w : World) : Prop where
  sealed : w.line.Sealed w.block.commitSerial
  ready : w.block.replayReady = true →
    w.line.queue = [] ∧ w.block.poisoned = false ∧ w.block.closed = false
  poisoned : w.raised = true → w.block.poisoned = true
  users : w.block.users = n
  keys : w.block.closed = false → w.block.decisions.keys = w.decided
  range : ∀ i ∈ w.decided, i < n
  once : w.decided.Nodup
  full : w.block.closed = false → w.block.selectedPrefix.isSome = true → w.decided.length = n
  deferred : w.deferred ≠ [] → w.block.roundFences = true
  ran : ∀ s ∈ w.ran, s.Safe n

section

variable {n : Nat} {w : World}

/-- A block that is ready may run its operation. -/
theorem Guarded.safe (h : Guarded n w) (hready : w.block.replayReady = true)
    (hsel : w.block.selectedPrefix.isSome = true) :
    Snapshot.Safe n ⟨w.decided, w.line.queue, w.raised⟩ := by
  obtain ⟨hqueue, hpoison, hclosed⟩ := h.ready hready
  refine ⟨Indices.count_of_full h.once h.range (h.full hclosed hsel), h.range, hqueue, ?_⟩
  cases hr : w.raised with
  | false => rfl
  | true => rw [h.poisoned hr] at hpoison; cases hpoison

/-! ## Decisions -/

/-- A user that a call names is one of the block's. -/
theorem validateSegment_ok {b : RetainedGDNBlock} {segment : Int} {span : Nat × Nat}
    (h : b.validateSegment segment = .ok span) : segment.toNat < b.users := by
  unfold RetainedGDNBlock.validateSegment at h
  cases hs : b.segments with
  | none => rw [hs] at h; cases h
  | some spans =>
    simp only [hs] at h
    split at h
    · split at h
      · cases h
      · rename_i span' hget
        obtain ⟨hlt, -⟩ := List.getElem?_eq_some_iff.mp hget
        simpa [RetainedGDNBlock.users, hs] using hlt
    · cases h

/-- What the checks of `commit_user` establish. -/
theorem commitGuard_ok {b : RetainedGDNBlock} {segment rows : Int} {dma : Bool} {publication : Callback}
    (h : b.commitGuard segment rows dma publication = .ok ()) :
    b.closed = false ∧ b.poisoned = false ∧ segment.toNat < b.users ∧
      b.decisions.get? segment.toNat = none := by
  unfold RetainedGDNBlock.commitGuard at h
  obtain ⟨_, hlive, h⟩ := bind_ok h
  obtain ⟨span, hspan, h⟩ := bind_ok h
  obtain ⟨_, -, h⟩ := bind_ok h
  obtain ⟨_, hnew, -⟩ := bind_ok h
  rw [raiseIf_ok] at hlive hnew
  refine ⟨?_, ?_, validateSegment_ok hspan, ?_⟩
  · cases hc : b.closed with
    | false => rfl
    | true => exact absurd (Or.inl hc) hlive
  · cases hp : b.poisoned with
    | false => rfl
    | true => exact absurd (Or.inr (Or.inl hp)) hlive
  · cases hg : b.decisions.get? segment.toNat with
    | none => rfl
    | some v => rw [hg] at hnew; exact absurd rfl hnew

/-- The invariant through a decision of a new user: the serial is past every token, and the block is not ready. -/
theorem Guarded.decide (h : Guarded n w) {segment : Nat} (rows : Nat) (hclosed : w.block.closed = false)
    (hlt : segment < n) (hnew : w.block.decisions.get? segment = none) :
    Guarded n (w.decide segment rows) ∧ w.block.commitSerial + 1 ∉ w.line.paid := by
  have hnot : segment ∉ w.decided := by
    rw [← h.keys hclosed]; exact Dict.get?_eq_none_iff.mp hnew
  have hkeys : (w.block.decisions.set segment rows).keys = w.decided ++ [segment] := by
    rw [Dict.keys, Dict.items_set_new rows hnew, List.map_append, ← h.keys hclosed]; rfl
  have honce : (w.decided ++ [segment]).Nodup := by
    rw [List.nodup_append]
    refine ⟨h.once, by simp, fun a ha b hb => ?_⟩
    rintro rfl
    rw [List.mem_singleton] at hb
    exact hnot (hb ▸ ha)
  have hrange : ∀ i ∈ w.decided ++ [segment], i < n := by
    intro i hi
    rcases List.mem_append.mp hi with hi | hi
    · exact h.range i hi
    · rw [List.mem_singleton] at hi; omega
  refine ⟨?_, h.sealed.past⟩
  constructor
  · exact h.sealed.next
  · intro hready; cases hready
  · exact h.poisoned
  · exact h.users
  · intro _; exact hkeys
  · exact hrange
  · exact honce
  · intro _ hsel
    -- an earlier selection would have every user decided, this one included
    have hle := Indices.length_le honce hrange
    rw [List.length_append, List.length_singleton] at hle
    have hopen : w.block.selectedPrefix.isSome ≠ true := by
      intro hold
      have := h.full hclosed hold
      omega
    by_cases hlen : (w.block.decisions.set segment rows).items.length = w.block.users
    · have hl : (w.block.decisions.set segment rows).keys.length = n := by
        rw [Dict.keys, List.length_map, hlen, h.users]
      rwa [hkeys] at hl
    · simp only [World.decide, RetainedGDNBlock.decide, if_neg hlen] at hsel
      exact absurd hsel hopen
  · exact h.deferred
  · exact h.ran

/-! ## Publications and fences -/

/-- The invariant when the queue changes under a block that is not ready. -/
theorem Guarded.requeue (h : Guarded n w) {l : Line Publication} (hl : l.Sealed w.block.commitSerial)
    (hready : w.block.replayReady = false) : Guarded n { w with line := l } := by
  refine { h with sealed := hl, ready := fun hr => ?_ }
  rw [hready] at hr
  cases hr

/-- A publication that returns leaves the block alone. -/
theorem publish_block {p : Publication} {effect : Effect} {u : Unit}
    (h : (w.publish p effect).result = .ok u) : (w.publish p effect).obj.block = w.block := by
  unfold World.publish at h ⊢
  split
  · rfl
  · cases effect with
    | raised started e => rename_i hrows; rw [if_neg hrows] at h; cases h
    | enqueued => rfl
    | completed => rfl
    | deferred => rfl

/-- The invariant through a publication under a serial past every token. -/
theorem Guarded.publish (h : Guarded n w) (p : Publication) {effect : Effect}
    (hpast : w.block.commitSerial ∉ w.line.paid) (hready : w.block.replayReady = false)
    (hdefer : effect = .deferred → w.block.roundFences = true) : Guarded n (w.publish p effect).obj := by
  unfold World.publish
  split
  · exact h
  · cases effect with
    | enqueued => exact h.requeue (h.sealed.enqueue _ hpast) hready
    | completed => exact h.requeue (h.sealed.enqueue _ hpast).drain hready
    | deferred => exact { h with deferred := fun _ => hdefer rfl }
    | raised started e =>
      have h' := h.requeue (h.sealed.enqueue (if started then [p] else []) hpast) hready
      refine { h' with ready := fun hr => ?_, poisoned := fun _ => rfl }
      have hr' : w.block.replayReady = true := hr
      rw [hready] at hr'
      cases hr'

/-- The invariant through a fence. -/
theorem Guarded.fence (h : Guarded n w) : Guarded n { w with line := w.line.fence } :=
  { h with sealed := h.sealed.fence, ready := fun hr => ⟨rfl, (h.ready hr).2⟩ }

theorem Guarded.synchronizeDevice (h : Guarded n w) (sync : Option PyError) :
    Guarded n (w.synchronizeDevice sync).obj := by
  unfold World.synchronizeDevice
  split
  · exact h
  · exact h.fence

/-- A fence that returned left the queue empty and the block alone. -/
theorem synchronizeDevice_ok {sync : Option PyError} {u : Unit} (h : (w.synchronizeDevice sync).result = .ok u) :
    (w.synchronizeDevice sync).obj = { w with line := w.line.fence } := by
  unfold World.synchronizeDevice at h ⊢
  cases sync with
  | some e => cases h
  | none => rfl

/-- The invariant when a block that lives and is not poisoned is armed on an empty queue. -/
theorem Guarded.arm (h : Guarded n w) {ready owed : Bool} {fence : Option ReplayFence} (hq : w.line.queue = [])
    (hpoison : w.block.poisoned = false) (hclosed : w.block.closed = false) :
    Guarded n { w with
      block := { w.block with fenceOwed := owed, replayReady := ready, replayFence := fence } } :=
  ⟨h.sealed, fun _ => ⟨hq, hpoison, hclosed⟩, h.poisoned, h.users, h.keys, h.range, h.once, h.full, h.deferred, h.ran⟩

/-- The invariant through the end of a `commit_user`. -/
theorem Guarded.settle (h : Guarded n w) (synchronize : Bool) (sync : Option PyError)
    (hpoison : w.block.poisoned = false) (hclosed : w.block.closed = false) :
    Guarded n (w.settle synchronize sync).obj := by
  unfold World.settle
  split
  · exact h
  split
  · exact ⟨h.sealed, h.ready, h.poisoned, h.users, h.keys, h.range, h.once, h.full, h.deferred, h.ran⟩
  rcases Call.bind_cases (w.synchronizeDevice sync) _ with ⟨e, -, hc⟩ | ⟨u, hs, hc⟩ <;> rw [hc]
  · exact h.synchronizeDevice sync
  · rw [synchronizeDevice_ok hs]
    exact h.fence.arm rfl hpoison hclosed

/-- The invariant through `commit_user`. -/
theorem Guarded.commitUser (h : Guarded n w) (c : CommitCall) {env : CommitEnv}
    (hdefer : env.effect = .deferred → w.block.roundFences = true) : Guarded n (w.commitUser c env).obj := by
  unfold World.commitUser
  refine Call.attempt_obj h fun u hg => ?_
  obtain ⟨hclosed, hpoison, hlt, hnew⟩ := commitGuard_ok hg
  refine Call.attempt_obj h fun _ _ => ?_
  refine Call.attempt_obj h fun _ _ => ?_
  rw [h.users] at hlt
  obtain ⟨hd, hpast⟩ := h.decide c.rows.toNat hclosed hlt hnew
  have hp : Guarded n ((w.decide c.segment.toNat c.rows.toNat).publish
      ⟨c.segment.toNat, c.rows.toNat⟩ env.effect).obj := hd.publish _ hpast rfl hdefer
  rcases Call.bind_cases ((w.decide c.segment.toNat c.rows.toNat).publish ⟨c.segment.toNat, c.rows.toNat⟩ env.effect)
    (fun w _ => w.settle c.synchronize env.sync) with ⟨e, -, hc⟩ | ⟨u, hs, hc⟩ <;> rw [hc]
  · exact hp
  · have hb := publish_block hs
    exact hp.settle _ _ (by rw [hb]; exact hpoison) (by rw [hb]; exact hclosed)

/-! ## The other methods -/

/-- The invariant through `note_round_fence`: a paid token that is the serial left the queue empty. -/
theorem Guarded.noteRoundFence (h : Guarded n w) {token : Nat} (hpaid : token ∈ w.line.paid) :
    Guarded n (w.noteRoundFence token).1 := by
  unfold World.noteRoundFence
  split
  · rename_i hc
    obtain ⟨-, -, rfl, hclosed, hpoison, -⟩ := hc
    exact h.arm (h.sealed.dry hpaid) hpoison hclosed
  · exact h

/-- The invariant through a flush: the serial moves past every token, also over what is enqueued. -/
theorem Guarded.flushCommits (h : Guarded n w) (failed : Bool) : Guarded n (w.flushCommits failed).obj := by
  unfold World.flushCommits
  split
  · exact h
  rename_i hne
  split
  · exact { h with deferred := fun hd => absurd rfl hd }
  unfold World.noteDeferredPublications
  simp only [h.deferred hne, Bool.true_eq_false, if_false]
  refine ⟨h.sealed.next.enqueue _ h.sealed.past, fun hr => (by cases hr), h.poisoned, h.users, h.keys, h.range, h.once,
    h.full, fun hd => absurd rfl hd, h.ran⟩

theorem Guarded.fenceAtReplay (h : Guarded n w) (mesh : Bool) (sync : Option PyError) :
    Guarded n (w.fenceAtReplay mesh sync).obj := by
  unfold World.fenceAtReplay
  split
  · rename_i hc
    obtain ⟨-, hclosed, hpoison, -⟩ := hc
    refine Call.attempt_obj h fun _ _ => ?_
    rcases Call.bind_cases (w.synchronizeDevice sync) _ with ⟨e, -, hc⟩ | ⟨u, hs, hc⟩ <;> rw [hc]
    · exact h.synchronizeDevice sync
    · rw [synchronizeDevice_ok hs]
      exact h.fence.arm rfl hpoison hclosed
  · exact h

theorem Guarded.armReplay (h : Guarded n w) (env : ReplayEnv) : Guarded n (w.armReplay env).obj := by
  unfold World.armReplay
  split
  · exact h.fenceAtReplay _ _
  · exact h

/-- The invariant through the operation of a replay. -/
theorem Guarded.operate (h : Guarded n w) (op : Operation)
    (hsafe : Snapshot.Safe n ⟨w.decided, w.line.queue, w.raised⟩) : Guarded n (w.operate op).obj := by
  have hr : Guarded n { w with ran := w.ran ++ [⟨w.decided, w.line.queue, w.raised⟩] } := by
    refine { h with ran := fun s hs => ?_ }
    rcases List.mem_append.mp hs with hs | hs
    · exact h.ran s hs
    · rw [List.mem_singleton] at hs; exact hs ▸ hsafe
  unfold World.operate
  cases op <;> exact hr

/-- The invariant through the end of a replay: the next epoch has no decision. -/
theorem Guarded.endReplay (h : Guarded n w) (env : ReplayEnv)
    (hready : w.block.replayReady = false) : Guarded n (w.endReplay env).obj := by
  have hnext : ∀ w' : World, Guarded n w' → w'.block.replayReady = false →
      Guarded n { w' with
        block := { w'.block with
          selectedPrefix := none, decisions := Dict.empty, replayEpoch := w'.block.replayEpoch + 1 }
        decided := []
        raised := false } := by
    intro w' h' hready'
    refine ⟨h'.sealed, fun hr => ?_, fun hr => ?_, h'.users, fun _ => rfl, ?_, List.nodup_nil, fun _ hs => ?_,
      h'.deferred, h'.ran⟩
    · exact absurd (hready'.symm.trans hr) (by decide)
    · cases hr
    · intro i hi; cases hi
    · cases hs
  unfold World.endReplay
  split
  · exact hnext w h hready
  rcases Call.bind_cases (w.synchronizeDevice env.sync) (fun w _ =>
      Call.attempt (RetainedGDNBlock.validateBindings env.boundAfter) w fun _ => Call.ret w ()) with
    ⟨e, -, hc⟩ | ⟨u, hs, hc⟩ <;> rw [hc]
  · exact h.synchronizeDevice env.sync
  · rw [synchronizeDevice_ok hs]
    rcases Call.attempt_cases (RetainedGDNBlock.validateBindings env.boundAfter) { w with line := w.line.fence }
      (fun _ => Call.ret { w with line := w.line.fence } ()) with ⟨e, -, hc⟩ | ⟨u, -, hc⟩ <;> rw [hc]
    · exact h.fence
    · exact hnext _ h.fence hready

theorem Guarded.close (h : Guarded n w) (release : Option PyError) : Guarded n (w.close release).obj := by
  unfold World.close
  split
  · exact h
  cases release with
  | some e => exact h
  | none =>
    exact ⟨h.sealed, fun hr => (by cases hr), h.poisoned, h.users, fun hc => (by cases hc), h.range, h.once,
      fun hc => (by cases hc), h.deferred, h.ran⟩

/-- The checks of a replay passed: the block is armed, and every user has decided. -/
theorem replayGuard_ok {b : RetainedGDNBlock} {callable : Bool} (h : b.replayGuard callable = .ok ()) :
    b.replayReady = true ∧ b.selectedPrefix.isSome = true ∧ callable = true := by
  unfold RetainedGDNBlock.replayGuard at h
  obtain ⟨_, harmed, hcall⟩ := bind_ok h
  rw [raiseIf_ok] at harmed hcall
  refine ⟨?_, ?_, ?_⟩
  · cases hr : b.replayReady with
    | true => rfl
    | false => exact absurd (Or.inr (Or.inl hr)) harmed
  · cases hs : b.selectedPrefix with
    | some tuple => rfl
    | none => exact absurd (Or.inr (Or.inr (Or.inl hs))) harmed
  · cases callable with
    | true => rfl
    | false => exact absurd rfl hcall

/-- The operations run so far are the same before the operation of a replay and after it has been called. -/
theorem armReplay_ran (env : ReplayEnv) : (w.armReplay env).obj.ran = w.ran := by
  unfold World.armReplay World.fenceAtReplay World.synchronizeDevice
  split
  · split
    · refine Call.attempt_obj (P := fun o : World => o.ran = w.ran) rfl fun _ _ => ?_
      cases env.owedSync <;> rfl
    · rfl
  · rfl

theorem endReplay_ran (env : ReplayEnv) : (w.endReplay env).obj.ran = w.ran := by
  unfold World.endReplay
  split
  · rfl
  unfold World.synchronizeDevice
  cases env.sync with
  | some e => rfl
  | none =>
    cases hb : RetainedGDNBlock.validateBindings env.boundAfter <;>
      simp [Call.bind, Call.ret, Call.attempt, Call.throw]

/-- **A replay runs its operation on a safe epoch, or refuses without running it**; either way it keeps the
invariant. -/
theorem Guarded.replay (h : Guarded n w) (env : ReplayEnv) :
    Guarded n (w.replay env).obj ∧
      ((∃ s, (w.replay env).obj.ran = w.ran ++ [s] ∧ s.Safe n) ∨
        (w.replay env).obj.ran = w.ran ∧ ∃ e, (w.replay env).result = .error e) := by
  have harm := h.armReplay env
  have hran := armReplay_ran (w := w) env
  unfold World.replay
  rcases Call.bind_cases (w.armReplay env) _ with ⟨e, -, hc⟩ | ⟨u, -, hc⟩ <;> rw [hc]
  · exact ⟨harm, Or.inr ⟨hran, e, rfl⟩⟩
  generalize (w.armReplay env).obj = w₁ at harm hran
  rcases Call.attempt_cases (w₁.block.replayGuard (env.operation != .uncallable)) w₁ _ with
    ⟨e, -, hc⟩ | ⟨⟨⟩, hg, hc⟩ <;> rw [hc]
  · exact ⟨harm, Or.inr ⟨hran, e, rfl⟩⟩
  obtain ⟨hready, hsel, -⟩ := replayGuard_ok hg
  have hsafe := harm.safe hready hsel
  have hdown : Guarded n { w₁ with block := { w₁.block with replayReady := false } } :=
    ⟨harm.sealed, fun hr => (by cases hr), harm.poisoned, harm.users, harm.keys, harm.range, harm.once, harm.full,
      harm.deferred, harm.ran⟩
  rcases Call.attempt_cases (RetainedGDNBlock.validateBindings env.bound)
    { w₁ with block := { w₁.block with replayReady := false } } _ with ⟨e, -, hc⟩ | ⟨_, -, hc⟩ <;> rw [hc]
  · exact ⟨hdown, Or.inr ⟨hran, e, rfl⟩⟩
  rcases Call.attempt_cases (RetainedGDNBlock.boundMesh env.mesh)
    { w₁ with block := { w₁.block with replayReady := false } } _ with ⟨e, -, hc⟩ | ⟨_, -, hc⟩ <;> rw [hc]
  · exact ⟨hdown, Or.inr ⟨hran, e, rfl⟩⟩
  generalize hw₂ : { w₁ with block := { w₁.block with replayReady := false } } = w₂ at hdown
  have hobserved : (⟨w₂.decided, w₂.line.queue, w₂.raised⟩ : Snapshot) = ⟨w₁.decided, w₁.line.queue, w₁.raised⟩ := by
    rw [← hw₂]
  have hop := hdown.operate env.operation (hobserved ▸ hsafe)
  have hopran : (w₂.operate env.operation).obj.ran = w.ran ++ [⟨w₂.decided, w₂.line.queue, w₂.raised⟩] := by
    have hr₂ : w₂.ran = w.ran := by rw [← hw₂]; exact hran
    rw [← hr₂]
    unfold World.operate
    cases env.operation <;> rfl
  have hopready : (w₂.operate env.operation).obj.block.replayReady = false := by
    rw [← hw₂]
    unfold World.operate
    cases env.operation <;> rfl
  rcases Call.bind_cases (w₂.operate env.operation) (fun w _ => w.endReplay env) with
    ⟨e, -, hc⟩ | ⟨u, -, hc⟩ <;> rw [hc]
  · exact ⟨hop, Or.inl ⟨_, hopran, hobserved ▸ hsafe⟩⟩
  · exact ⟨hop.endReplay env hopready, Or.inl ⟨_, (endReplay_ran env).trans hopran, hobserved ▸ hsafe⟩⟩

/-! ## What a call leaves alone -/

/-- Neither the life of the block, nor what is put off, nor what the queue was given has changed. -/
structure Alike (w w' : World) : Prop where
  poisoned : w'.block.poisoned = w.block.poisoned
  closed : w'.block.closed = w.block.closed
  deferred : w'.deferred = w.deferred
  sent : w'.line.sent = w.line.sent

theorem Alike.refl (w : World) : Alike w w := ⟨rfl, rfl, rfl, rfl⟩

theorem Alike.trans {w₁ w₂ w₃ : World} (h : Alike w₁ w₂) (h' : Alike w₂ w₃) : Alike w₁ w₃ :=
  ⟨h'.poisoned.trans h.poisoned, h'.closed.trans h.closed, h'.deferred.trans h.deferred, h'.sent.trans h.sent⟩

theorem synchronizeDevice_alike (sync : Option PyError) : Alike w (w.synchronizeDevice sync).obj := by
  unfold World.synchronizeDevice
  cases sync <;> exact ⟨rfl, rfl, rfl, rfl⟩

theorem settle_alike (synchronize : Bool) (sync : Option PyError) : Alike w (w.settle synchronize sync).obj := by
  unfold World.settle
  split
  · exact Alike.refl w
  split
  · exact ⟨rfl, rfl, rfl, rfl⟩
  · refine Call.bind_obj (synchronizeDevice_alike sync) fun _ _ => ?_
    exact (synchronizeDevice_alike sync).trans ⟨rfl, rfl, rfl, rfl⟩

/-- A `commit_user` that returned left the block's life alone, and its publication went on the queue, or was put off if
its effect was that. -/
theorem commitUser_ok {c : CommitCall} {env : CommitEnv} {u : Unit} (h : (w.commitUser c env).result = .ok u) :
    (w.commitUser c env).obj.block.poisoned = w.block.poisoned ∧
      (w.commitUser c env).obj.block.closed = w.block.closed ∧
      (w.commitUser c env).obj.deferred = w.deferred ++
        (if c.rows.toNat ≠ 0 ∧ env.effect = .deferred then [⟨c.segment.toNat, c.rows.toNat⟩] else []) ∧
      (w.commitUser c env).obj.line.sent = w.line.sent ++
        if c.rows.toNat ≠ 0 ∧ env.effect ≠ .deferred then [⟨c.segment.toNat, c.rows.toNat⟩] else [] := by
  unfold World.commitUser at h ⊢
  obtain ⟨_, -, hc⟩ := Call.of_attempt h
  rw [hc] at h ⊢
  obtain ⟨_, -, hc⟩ := Call.of_attempt h
  rw [hc] at h ⊢
  obtain ⟨_, -, hc⟩ := Call.of_attempt h
  rw [hc] at h ⊢
  obtain ⟨_, hp, hc⟩ := Call.of_bind h
  rw [hc]
  have hblock := publish_block hp
  have hsettle := settle_alike (w := ((w.decide c.segment.toNat c.rows.toNat).publish
    ⟨c.segment.toNat, c.rows.toNat⟩ env.effect).obj) c.synchronize env.sync
  refine ⟨by rw [hsettle.poisoned, hblock]; rfl, by rw [hsettle.closed, hblock]; rfl, ?_⟩
  rw [hsettle.deferred, hsettle.sent]
  unfold World.publish at hp ⊢
  by_cases hrows : c.rows.toNat = 0
  · simp [hrows, World.decide]
  · simp only [hrows, if_false] at hp ⊢
    cases he : env.effect with
    | raised started e => rw [he] at hp; cases hp
    | enqueued => simp [World.decide, hrows]
    | completed => simp [World.decide, hrows]
    | deferred => simp [World.decide, hrows]

theorem armReplay_alike (env : ReplayEnv) : Alike w (w.armReplay env).obj := by
  unfold World.armReplay World.fenceAtReplay
  split
  · split
    · refine Call.attempt_obj (Alike.refl w) fun _ _ => ?_
      refine Call.bind_obj (synchronizeDevice_alike env.owedSync) fun _ _ => ?_
      exact (synchronizeDevice_alike env.owedSync).trans ⟨rfl, rfl, rfl, rfl⟩
    · exact Alike.refl w
  · exact Alike.refl w

theorem operate_alike (op : Operation) : Alike w (w.operate op).obj := by
  unfold World.operate
  cases op <;> exact ⟨rfl, rfl, rfl, rfl⟩

theorem endReplay_alike (env : ReplayEnv) : Alike w (w.endReplay env).obj := by
  have hfenced : Alike w (if w.block.roundFences = true then Call.ret w ()
      else (w.synchronizeDevice env.sync).bind fun w _ =>
        Call.attempt (RetainedGDNBlock.validateBindings env.boundAfter) w fun _ => Call.ret w ()).obj := by
    split
    · exact Alike.refl w
    · refine Call.bind_obj (synchronizeDevice_alike env.sync) fun _ _ => ?_
      exact Call.attempt_obj (synchronizeDevice_alike env.sync) fun _ _ => synchronizeDevice_alike env.sync
  unfold World.endReplay
  exact Call.bind_obj hfenced fun _ _ => hfenced.trans ⟨rfl, rfl, rfl, rfl⟩

/-- A replay, returned or raised, leaves the block's life, what is put off and what the queue was given alone. -/
theorem replay_alike (env : ReplayEnv) : Alike w (w.replay env).obj := by
  have harm := armReplay_alike (w := w) env
  unfold World.replay
  refine Call.bind_obj harm fun _ _ => ?_
  generalize (w.armReplay env).obj = w₁ at harm ⊢
  have hdown : Alike w { w₁ with block := { w₁.block with replayReady := false } } :=
    harm.trans ⟨rfl, rfl, rfl, rfl⟩
  refine Call.attempt_obj harm fun _ _ => Call.attempt_obj hdown fun _ _ => Call.attempt_obj hdown fun _ _ => ?_
  have hop := hdown.trans (operate_alike env.operation)
  exact Call.bind_obj hop fun _ _ => hop.trans (endReplay_alike env)

/-- A replay that returned ran its operation, once. -/
theorem replay_ran {env : ReplayEnv} {u : Unit} (h : (w.replay env).result = .ok u) :
    ∃ s, (w.replay env).obj.ran = w.ran ++ [s] := by
  have hran := armReplay_ran (w := w) env
  unfold World.replay at h ⊢
  obtain ⟨_, -, hc⟩ := Call.of_bind h
  rw [hc] at h ⊢
  generalize (w.armReplay env).obj = w₁ at h hran ⊢
  obtain ⟨_, -, hc⟩ := Call.of_attempt h
  rw [hc] at h ⊢
  obtain ⟨_, -, hc⟩ := Call.of_attempt h
  rw [hc] at h ⊢
  obtain ⟨_, -, hc⟩ := Call.of_attempt h
  rw [hc] at h ⊢
  obtain ⟨_, -, hc⟩ := Call.of_bind h
  rw [hc]
  refine ⟨⟨w₁.decided, w₁.line.queue, w₁.raised⟩, ?_⟩
  rw [endReplay_ran, ← hran]
  unfold World.operate
  cases env.operation <;> rfl

theorem noteRoundFence_alike (token : Nat) : Alike w (w.noteRoundFence token).1 := by
  unfold World.noteRoundFence
  split <;> exact ⟨rfl, rfl, rfl, rfl⟩

/-! ## Every run -/

/-- A block before any decision is guarded. -/
theorem Guarded.start (rows records : Nat) (segments : Option (List (Nat × Nat))) (fastCommit roundFences : Bool) :
    Guarded (segments.getD []).length
      (World.start (RetainedGDNBlock.fresh rows records segments fastCommit roundFences)) := by
  refine ⟨Line.sealed_idle, fun hr => (by cases hr), fun hr => (by cases hr), rfl, fun _ => rfl, ?_, List.nodup_nil,
    fun _ hs => (by cases hs), fun hd => absurd rfl hd, ?_⟩
  · intro i hi; cases hi
  · intro s hs; cases hs

/-- One event keeps the invariant. -/
theorem Step.guarded {w w' : World} {e : Event} (hs : Step w e w') (h : Guarded n w) : Guarded n w' := by
  cases hs with
  | commitUser hdefer => exact h.commitUser _ hdefer
  | readToken => exact { h with sealed := h.sealed.readToken }
  | fence => exact h.fence
  | noteRoundFence hpaid => exact h.noteRoundFence hpaid
  | flushCommits => exact h.flushCommits _
  | replay => exact (h.replay _).1
  | close => exact h.close _

/-- **Replay safety**: in every run of a packed block, each operation that a replay ran found every user decided exactly
once since the last completed replay, no publication outstanding on the queue and none of the epoch raised; and a
replay that would not run its operation on such an epoch refuses without running it. -/
theorem replay_safe {rows records : Nat} {segments : Option (List (Nat × Nat))} {fastCommit roundFences : Bool}
    {events : List Event} {w : World}
    (h : Run Step (World.start (RetainedGDNBlock.fresh rows records segments fastCommit roundFences)) events w) :
    (∀ s ∈ w.ran, s.Safe (segments.getD []).length) ∧
      ∀ env, (∃ s, (w.replay env).obj.ran = w.ran ++ [s] ∧ s.Safe (segments.getD []).length) ∨
        (w.replay env).obj.ran = w.ran ∧ ∃ e, (w.replay env).result = .error e := by
  have hg : Guarded (segments.getD []).length w :=
    Run.invariant_state (Guarded.start rows records segments fastCommit roundFences)
      (fun hi hs => Step.guarded hs hi) h
  exact ⟨hg.ran, fun env => (hg.replay env).2⟩

end

/-! ## A run -/

/-- A block of two users under round fences. -/
def sampleBlock : RetainedGDNBlock := RetainedGDNBlock.fresh 32 48 (some [(0, 16), (16, 32)]) false true

/-- The second user decides, then the first, whose decision owes the fence; the drafts fence and arm the replay. -/
def sampleWorld : World :=
  let w := ((World.start sampleBlock).commitUser ⟨1, 3, true, .callable, false, false⟩
    ⟨true, true, .enqueued, none⟩).obj
  let w := (w.commitUser ⟨0, 16, true, .callable, true, true⟩ ⟨true, true, .enqueued, none⟩).obj
  let w := { w with line := w.line.readToken w.block.commitSerial }
  let w := { w with line := w.line.fence }
  ((w.noteRoundFence 2).1.replay ⟨true, none, .enqueued, true, true, none, true⟩).obj

theorem sample_run : Run Step (World.start sampleBlock)
    [.commitUser ⟨1, 3, true, .callable, false, false⟩ ⟨true, true, .enqueued, none⟩,
      .commitUser ⟨0, 16, true, .callable, true, true⟩ ⟨true, true, .enqueued, none⟩, .readToken, .fence,
      .noteRoundFence 2, .replay ⟨true, none, .enqueued, true, true, none, true⟩] sampleWorld :=
  (((((Run.single (.commitUser (by decide))).snoc (.commitUser (by decide))).snoc .readToken).snoc .fence).snoc
    (.noteRoundFence (by decide))).snoc .replay

/-- The sample replay ran its operation, once. -/
theorem replay_safe_sample :
    (sampleWorld.ran = [⟨[1, 0], [], false⟩] ∧ ∀ s ∈ sampleWorld.ran, s.Safe 2) ∧
      ∀ env, (∃ s, (sampleWorld.replay env).obj.ran = sampleWorld.ran ++ [s] ∧ s.Safe 2) ∨
        (sampleWorld.replay env).obj.ran = sampleWorld.ran ∧ ∃ e, (sampleWorld.replay env).result = .error e :=
  ⟨⟨by decide, (replay_safe sample_run).1⟩, (replay_safe sample_run).2⟩

end BlackholeQwen.Gdn
