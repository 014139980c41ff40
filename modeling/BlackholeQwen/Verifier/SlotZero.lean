import BlackholeQwen.Lib.Runs
import BlackholeQwen.Verifier.Engine
import Mathlib.Data.List.Nodup

/-!
# Slot 0 holds the state that its reader expects

The runs of the engines of a process over native slot 0 (`Step`), in any order: prefills, constructions, tickets,
verifies and publications, packed rounds, parking, rebinding and closing, each of them raising where it can.

- `Sound`, `Coherent`: what every reachable process keeps, engine by engine and of the slot.
- `slot_zero`: each replay of an engine's verify started from its request's committed state; a resident engine that is
  idle has the slot in its carry, and every idle engine has its request's committed state there. An engine's own
  verified ticket is published in the call that verified it (`FastRequest.step`); `late_publish_foreign` is what a
  later publication does.
-/

namespace BlackholeQwen.Verifier

open Lib

/-! ## Rows -/

section

variable {σ ρ : Type} {m : Recurrence σ ρ}

theorem rows_append (m : Recurrence σ ρ) (request : ρ) (position : Nat) (s : Slot σ) (xs ys : List Nat) :
    m.rows request position s (xs ++ ys) =
      m.rows request (position + xs.length) (m.rows request position s xs) ys := by
  induction xs generalizing position s with
  | nil => rfl
  | cons x xs ih =>
    show m.rows request (position + 1) _ (xs ++ ys) = _
    rw [ih, List.length_cons, Nat.add_right_comm]
    rfl

/-- The committed state of an engine once its ticket is published. -/
theorem published_state {e : VerifierEngine σ ρ} {ticket : Ticket} (rows : Nat)
    (hposition : e.position = e.start + e.committed.length) (hticket : ticket.position = e.position) :
    (Native.published ticket rows e).state m =
      m.rows e.request ticket.position (e.state m) (ticket.tokens.take rows) := by
  rw [hticket, hposition]
  exact rows_append m _ _ _ _ _

/-! ## The invariant -/

/-- What every engine of a reachable process keeps. -/
structure Sound (m : Recurrence σ ρ) (blocks : Nat → Packed σ ρ) (issued id : Nat) (e : VerifierEngine σ ρ) :
    Prop where
  carry : e.phase = .idle ∨ e.phase = .verified → e.carry = e.state m
  position : e.position = e.start + e.committed.length
  own : e.phase = .verified → ∀ entry ticket, e.bucket = some (.sequential entry) → e.pending = some ticket →
    entry = e.state m ∧ ticket.position = e.position
  adopted : e.phase = .verified → ∀ block segment ticket, e.bucket = some (.packed block segment) →
    e.pending = some ticket → e.session = some ticket →
    ∃ s ∈ (blocks block).pending, s.segment = segment ∧ s.engine = id ∧ s.ticket = ticket
  served : ∀ block, ∀ s ∈ (blocks block).pending, s.engine = id → e.session = some s.ticket →
    s.entry = e.state m ∧ s.request = e.request ∧ s.ticket.position = e.position
  session : ∀ ticket, e.session = some ticket → ticket.number < issued
  pending : ∀ ticket, e.pending = some ticket → ticket.number < issued

/-- What every reachable process keeps. -/
structure Coherent (m : Recurrence σ ρ) (w : Native σ ρ) : Prop where
  sound : ∀ id e, w.engines id = some e → Sound m w.blocks w.issued id e
  resident : ∀ id e, w.resident = some id → w.engines id = some e → e.phase = .idle → w.slot = e.carry
  fresh : ∀ block, ∀ s ∈ (w.blocks block).pending, s.ticket.number < w.issued
  distinct : ∀ block, ((w.blocks block).pending.map PackedSegment.segment).Nodup
  exact : ∀ x ∈ w.replayed, x.slot = x.state

variable {w : Native σ ρ} {blocks : Nat → Packed σ ρ} {issued id : Nat} {e e' : VerifierEngine σ ρ}

/-- An engine that goes down keeps its invariant. -/
theorem Sound.down (h : Sound m blocks issued id e) (hphase : ¬(e'.phase = .idle ∨ e'.phase = .verified))
    (hstate : e'.state m = e.state m ∧ e'.request = e.request)
    (hposition : e'.position = e.position ∧ e'.start = e.start ∧ e'.committed = e.committed)
    (hsession : e'.session = e.session ∨ e'.session = none)
    (hpending : ∀ ticket, e'.pending = some ticket → ticket.number < issued) : Sound m blocks issued id e' := by
  refine ⟨fun hp => absurd hp hphase, ?_, fun hp => absurd (Or.inr hp) hphase, fun hp => absurd (Or.inr hp) hphase, ?_,
    ?_, hpending⟩
  · rw [hposition.1, hposition.2.1, hposition.2.2]
    exact h.position
  · intro block s hs hid hticket
    rcases hsession with hsame | hnone
    · rw [hstate.1, hstate.2, hposition.1]
      exact h.served block s hs hid (hsame ▸ hticket)
    · rw [hnone] at hticket; cases hticket
  · intro ticket hticket
    rcases hsession with hsame | hnone
    · exact h.session ticket (hsame ▸ hticket)
    · rw [hnone] at hticket; cases hticket

/-- An engine whose session ends its ticket keeps its invariant. -/
theorem Sound.ended (h : Sound m blocks issued id e) : Sound m blocks issued id { e with session := none } :=
  ⟨h.carry, h.position, h.own, fun _ _ _ _ _ _ hs => (by cases hs), fun _ _ _ _ hs => (by cases hs),
    fun _ hs => (by cases hs), h.pending⟩

/-! ## One engine changes -/

theorem modify_self (f : VerifierEngine σ ρ → VerifierEngine σ ρ) :
    (w.modify id f).engines id = (w.engines id).map f := if_pos rfl

theorem modify_other (f : VerifierEngine σ ρ → VerifierEngine σ ρ) {i : Nat} (hi : i ≠ id) :
    (w.modify id f).engines i = w.engines i := if_neg hi

/-- The invariant through a change of one engine. -/
theorem Coherent.modify (h : Coherent m w) {f : VerifierEngine σ ρ → VerifierEngine σ ρ}
    (hsound : ∀ e, w.engines id = some e → Sound m w.blocks w.issued id (f e))
    (hresident : ∀ e, w.engines id = some e → w.resident = some id → (f e).phase = .idle → w.slot = (f e).carry) :
    Coherent m (w.modify id f) := by
  refine ⟨fun i e he => ?_, fun i e hr he hidle => ?_, h.fresh, h.distinct, h.exact⟩
  · by_cases hi : i = id
    · subst hi
      rw [modify_self] at he
      obtain ⟨e₀, he₀, rfl⟩ := Option.map_eq_some_iff.mp he
      exact hsound e₀ he₀
    · rw [modify_other f hi] at he
      exact h.sound i e he
  · by_cases hi : i = id
    · subst hi
      rw [modify_self] at he
      obtain ⟨e₀, he₀, rfl⟩ := Option.map_eq_some_iff.mp he
      exact hresident e₀ he₀ hr hidle
    · rw [modify_other f hi] at he
      exact h.resident i e hr he hidle

/-- The invariant when an engine enters that is not idle yet. -/
theorem Coherent.put (h : Coherent m w) (hsound : Sound m w.blocks w.issued id e) (hphase : e.phase ≠ .idle) :
    Coherent m (w.put id e) := by
  refine ⟨fun i e' he => ?_, fun i e' hr he hidle => ?_, h.fresh, h.distinct, h.exact⟩
  · by_cases hi : i = id
    · subst hi
      rw [show (w.put i e).engines i = some e from if_pos rfl, Option.some.injEq] at he
      exact he ▸ hsound
    · rw [show (w.put id e).engines i = w.engines i from if_neg hi] at he
      exact h.sound i e' he
  · by_cases hi : i = id
    · subst hi
      rw [show (w.put i e).engines i = some e from if_pos rfl, Option.some.injEq] at he
      exact absurd (he ▸ hidle) hphase
    · rw [show (w.put id e).engines i = w.engines i from if_neg hi] at he
      exact h.resident i e' hr he hidle

/-- The invariant when the slot changes hands. -/
theorem Coherent.reslot (h : Coherent m w) {slot : Slot σ} {resident : Option Nat}
    (hr : ∀ id e, resident = some id → w.engines id = some e → e.phase = .idle → slot = e.carry) :
    Coherent m { w with slot := slot, resident := resident } :=
  ⟨h.sound, hr, h.fresh, h.distinct, h.exact⟩

theorem Coherent.displace (h : Coherent m w) (slot : Slot σ) : Coherent m (w.displace slot) :=
  h.reslot fun _ _ hr => by cases hr

theorem Coherent.leave (h : Coherent m w) (id : Nat) : Coherent m (w.leave id) := by
  refine h.reslot fun i e hr he hidle => ?_
  split at hr
  · cases hr
  · exact h.resident i e hr he hidle

/-! ## Tickets -/

theorem Coherent.propose (h : Coherent m w) (e : VerifierEngine σ ρ) (tokens : List Nat) :
    Coherent m (w.propose id e tokens) := by
  unfold Native.propose
  split
  · have hnext : Coherent m { w with issued := w.issued + 1 } :=
      ⟨fun i e he => have hs := h.sound i e he
        ⟨hs.carry, hs.position, hs.own, hs.adopted, hs.served,
          fun t ht => Nat.lt_succ_of_lt (hs.session t ht), fun t ht => Nat.lt_succ_of_lt (hs.pending t ht)⟩,
        h.resident, fun b s hs => Nat.lt_succ_of_lt (h.fresh b s hs), h.distinct, h.exact⟩
    refine hnext.modify (fun e₀ he₀ => ?_) fun e₀ he₀ hr hidle => hnext.resident id e₀ hr he₀ hidle
    have hs := h.sound id e₀ he₀
    have hs' := hnext.sound id e₀ he₀
    refine ⟨hs.carry, hs.position, hs.own, ?_, ?_, ?_, hs'.pending⟩
    · intro _ block segment ticket _ hpending hticket
      have hold := hs.pending ticket hpending
      cases hticket
      exact absurd hold (Nat.lt_irrefl _)
    · intro block s hmem _ hticket
      have hold := h.fresh block s hmem
      rw [Option.some.injEq] at hticket
      rw [← hticket] at hold
      exact absurd hold (Nat.lt_irrefl _)
    · intro ticket hticket
      cases hticket
      exact Nat.lt_succ_self _
  · exact h

theorem Coherent.withdraw (h : Coherent m w) (id : Nat) : Coherent m (w.withdraw id) :=
  h.modify (fun e he => (h.sound id e he).ended) fun e he hr hidle => h.resident id e hr he hidle

/-! ## Verify -/

/-- `restore_carry` of an idle engine: it is resident, and once it returns the slot holds its committed state. -/
theorem restoreCarry_spec (h : Coherent m w) (he : w.engines id = some e) (hidle : e.phase = .idle) (copy : Copy) :
    ∃ slot, (w.restoreCarry id e copy).obj = { w with slot := slot, resident := some id } ∧
      ∀ u, (w.restoreCarry id e copy).result = .ok u → slot = e.state m := by
  have hcarry := (h.sound id e he).carry (Or.inl hidle)
  unfold Native.restoreCarry
  split
  · rename_i hr
    refine ⟨w.slot, ?_, fun _ _ => (h.resident id e hr he hidle).trans hcarry⟩
    rw [← hr]; rfl
  · refine ⟨_, rfl, fun u hu => ?_⟩
    cases copy with
    | none => exact hcarry
    | some c => cases hu

/-- The `try` of `verify` touches the slot as its resident only, replays on the committed state only, and returns the
state that it started from, with the ticket's rows on it in the slot. -/
theorem verifyBody_spec (h : Coherent m w) (he : w.engines id = some e) (hidle : e.phase = .idle) (ticket : Ticket)
    (env : VerifyEnv σ) : ∃ slot resident replayed,
      (w.verifyBody m id e ticket env).obj = { w with slot := slot, resident := resident, replayed := replayed } ∧
      (slot = w.slot ∧ resident = w.resident ∨ resident = some id) ∧ (∀ x ∈ replayed, x.slot = x.state) ∧
      ∀ entry, (w.verifyBody m id e ticket env).result = .ok entry → entry = e.state m ∧ resident = some id ∧
        slot = m.rows e.request ticket.position entry ticket.tokens := by
  unfold Native.verifyBody
  cases env.bound with
  | error err => exact ⟨w.slot, w.resident, w.replayed, rfl, Or.inl ⟨rfl, rfl⟩, h.exact, fun _ hr => by cases hr⟩
  | ok _ =>
    obtain ⟨slot, hobj, hslot⟩ := restoreCarry_spec h he hidle env.copy
    rw [Call.attempt_ok]
    rcases Call.bind_cases (w.restoreCarry id e env.copy) _ with ⟨err, -, hc⟩ | ⟨u, hu, hc⟩ <;> rw [hc]
    · exact ⟨slot, some id, w.replayed, hobj, Or.inr rfl, h.exact, fun _ hr => by cases hr⟩
    have hstate := hslot u hu
    rw [hobj]
    have hexact : ∀ x ∈ w.replayed ++ [⟨id, slot, e.state m⟩], x.slot = x.state := by
      intro x hx
      rcases List.mem_append.mp hx with hx | hx
      · exact h.exact x hx
      · rw [List.mem_singleton] at hx
        rw [hx]
        exact hstate
    cases env.staged with
    | error err => exact ⟨slot, some id, w.replayed, rfl, Or.inr rfl, h.exact, fun _ hr => by cases hr⟩
    | ok _ =>
      rw [Call.attempt_ok]
      unfold Native.replayTrace
      cases env.trace with
      | refused err => exact ⟨slot, some id, w.replayed, rfl, Or.inr rfl, h.exact, fun _ hr => by cases hr⟩
      | raised left err => exact ⟨left, some id, _, rfl, Or.inr rfl, hexact, fun _ hr => by cases hr⟩
      | returned =>
        rw [Call.bind_ret]
        cases env.readback with
        | error err => exact ⟨_, some id, _, rfl, Or.inr rfl, hexact, fun _ hr => by cases hr⟩
        | ok _ =>
          refine ⟨_, some id, _, rfl, Or.inr rfl, hexact, fun entry hr => ?_⟩
          cases hr
          exact ⟨hstate, rfl, rfl⟩

/-- What the checks of `verify` establish. -/
theorem verifyCheck_ok {ticket : Ticket} {captured : Bool} (h : Native.verifyCheck e ticket captured = .ok ()) :
    e.session = some ticket ∧ e.phase = .idle ∧ ticket.position = e.position := by
  unfold Native.verifyCheck at h
  obtain ⟨_, hs, h⟩ := bind_ok h
  rw [raiseIf_ok] at hs h
  refine ⟨by_contra hs, by_contra fun hp => h (Or.inl hp), by_contra fun hp => h (Or.inr (Or.inr (Or.inl hp)))⟩

/-- The invariant through `verify`. -/
theorem Coherent.verify (h : Coherent m w) (he : w.engines id = some e) (ticket : Ticket) (env : VerifyEnv σ) :
    Coherent m (w.verify m id e ticket env).obj := by
  unfold Native.verify
  refine Call.attempt_obj h fun u hu => ?_
  obtain ⟨hsession, hidle, hposition⟩ := verifyCheck_ok hu
  obtain ⟨slot, resident, replayed, hobj, hhands, hexact, hentry⟩ := verifyBody_spec h he hidle ticket env
  have hsound := h.sound id e he
  -- nobody else that is idle is left resident over a slot that changed
  have hdown : ∀ f : VerifierEngine σ ρ → VerifierEngine σ ρ, Sound m w.blocks w.issued id (f e) →
      (f e).phase ≠ .idle → Coherent m ((w.verifyBody m id e ticket env).obj.modify id f) := by
    intro f hf hphase
    rw [hobj]
    refine ⟨fun i e' he' => ?_, fun i e' hr he' hidle' => ?_, h.fresh, h.distinct, hexact⟩
    · by_cases hi : i = id
      · subst hi
        rw [modify_self, he] at he'
        cases he'
        exact hf
      · rw [modify_other f hi] at he'
        exact h.sound i e' he'
    · by_cases hi : i = id
      · subst hi
        rw [modify_self, he] at he'
        cases he'
        exact absurd hidle' hphase
      · rw [modify_other f hi] at he'
        rcases hhands with ⟨hslot, hres⟩ | hres
        · show slot = e'.carry
          rw [hslot]
          exact h.resident i e' (hres ▸ hr) he' hidle'
        · have hr' : resident = some i := hr
          rw [hres, Option.some.injEq] at hr'
          exact absurd hr'.symm hi
  have hnumber : ∀ t, some ticket = some t → t.number < w.issued := by
    rintro t ⟨⟩
    exact hsound.session ticket hsession
  cases hbody : (w.verifyBody m id e ticket env).result with
  | error err =>
    refine hdown _ (hsound.down ?_ ⟨rfl, rfl⟩ ⟨rfl, rfl, rfl⟩ (Or.inr rfl) hnumber) (by simp)
    simp
  | ok entry =>
    refine hdown _ ⟨fun _ => hsound.carry (Or.inl hidle), hsound.position, ?_, ?_, hsound.served, hsound.session,
      hnumber⟩ (by simp)
    · intro _ entry' ticket' hb ht
      cases hb
      cases ht
      exact ⟨(hentry entry hbody).1, hposition⟩
    · intro _ block segment ticket' hb
      cases hb

/-- **What a verify that returned leaves**: the engine resident, and the ticket's rows in the slot, on the state that
its trace started from. -/
theorem verify_ok (h : Coherent m w) (he : w.engines id = some e) {ticket : Ticket} {env : VerifyEnv σ} {u : Unit}
    (hu : (w.verify m id e ticket env).result = .ok u) :
    ∃ entry, (w.verify m id e ticket env).obj.resident = some id ∧
      (w.verify m id e ticket env).obj.slot = m.rows e.request ticket.position entry ticket.tokens ∧
      (w.verify m id e ticket env).obj.engines id = some
        { e with phase := .verified, pending := some ticket, bucket := some (.sequential entry) } := by
  unfold Native.verify at hu ⊢
  obtain ⟨_, hcheck, hc⟩ := Call.of_attempt hu
  rw [hc] at hu ⊢
  obtain ⟨-, hidle, -⟩ := verifyCheck_ok hcheck
  obtain ⟨slot, resident, replayed, hobj, -, -, hentry⟩ := verifyBody_spec h he hidle ticket env
  cases hbody : (w.verifyBody m id e ticket env).result with
  | error err => simp only [hbody] at hu; cases hu
  | ok entry =>
    obtain ⟨-, hresident, hslot⟩ := hentry entry hbody
    simp only [Call.ret_obj, hobj]
    refine ⟨entry, hresident, hslot, ?_⟩
    rw [modify_self]
    show (w.engines id).map _ = _
    rw [he, Option.map_some]

/-! ## Publish -/

/-- What the checks of `publish` establish. -/
theorem publishCheck_ok {rows : Nat} {ticket : Ticket} (h : Native.publishCheck e rows = .ok ticket) :
    e.pending = some ticket ∧ e.phase = .verified ∧ e.session = some ticket ∧ rows ≤ ticket.tokens.length := by
  unfold Native.publishCheck at h
  split at h
  · cases h
  · rename_i ticket' hpending
    obtain ⟨_, hlive, h⟩ := bind_ok h
    obtain ⟨_, hrows, h⟩ := bind_ok h
    cases h
    rw [raiseIf_ok] at hlive hrows
    exact ⟨hpending, by_contra fun hp => hlive (Or.inl hp), by_contra fun hs => hlive (Or.inr hs), by omega⟩

/-- A single row's commit that returned left the slot as the prefix asks. -/
theorem commitRow_spec (w : Native σ ρ) (entry : Slot σ) (rows : Nat) (env : PublishEnv σ) :
    ∃ slot, (w.commitRow entry rows env).obj = { w with slot := slot } ∧
      ∀ u, (w.commitRow entry rows env).result = .ok u → slot = if rows = 0 then entry else w.slot := by
  unfold Native.commitRow
  cases env.bound with
  | error err => exact ⟨w.slot, rfl, fun _ hr => by cases hr⟩
  | ok _ =>
    rw [Call.attempt_ok]
    by_cases hrows : rows = 0
    · simp only [hrows, if_true]
      cases env.checkpoint with
      | some c => exact ⟨_, rfl, fun _ hr => by cases hr⟩
      | none =>
        refine ⟨entry, ?_, fun _ _ => rfl⟩
        cases env.sync <;> rfl
    · simp only [hrows, if_false]
      refine ⟨w.slot, ?_, fun _ _ => rfl⟩
      cases env.sync <;> rfl

/-- The engine's own publication touches the slot as its resident; once it returns, the slot and the carry hold the
state at the prefix. -/
theorem publishOwn_spec {ticket : Ticket} {entry : Slot σ} (rows : Nat) (hresident : w.resident = some id)
    (hslot : w.slot = m.rows e.request ticket.position entry ticket.tokens) (env : PublishEnv σ) :
    ∃ (slot : Slot σ) (carry : Slot σ → Slot σ), (w.publishOwn m id e ticket entry rows env).obj =
        { w with slot := slot, resident := some id }.modify id (fun e => { e with carry := carry e.carry }) ∧
      ∀ u, (w.publishOwn m id e ticket entry rows env).result = .ok u →
        slot = m.rows e.request ticket.position entry (ticket.tokens.take rows) ∧ ∀ c, carry c = slot := by
  have hkeep : ∀ slot : Slot σ, ({ w with slot := slot } : Native σ ρ) =
      { w with slot := slot, resident := some id }.modify id (fun e => { e with carry := e.carry }) := by
    intro slot
    unfold Native.modify
    rw [hresident]
    congr 1
    funext i
    split
    · cases w.engines i <;> rfl
    · rfl
  have hcommit : ∃ slot, (if 1 < ticket.tokens.length then w.commitRows m e ticket entry rows env.commit
        else w.commitRow entry rows env).obj = { w with slot := slot } ∧
      ∀ u, (if 1 < ticket.tokens.length then w.commitRows m e ticket entry rows env.commit
        else w.commitRow entry rows env).result = .ok u →
        slot = m.rows e.request ticket.position entry (ticket.tokens.take rows) := by
    split
    · unfold Native.commitRows
      cases env.commit with
      | refused err => exact ⟨w.slot, rfl, fun _ hr => by cases hr⟩
      | raised slot err => exact ⟨slot, rfl, fun _ hr => by cases hr⟩
      | returned => exact ⟨_, rfl, fun _ _ => rfl⟩
    · obtain ⟨slot, hobj, hval⟩ := commitRow_spec w entry rows env
      refine ⟨slot, hobj, fun u hu => ?_⟩
      rw [hval u hu]
      split
      · rename_i hzero
        rw [hzero]; rfl
      · -- a single row: its prefix is the whole ticket
        rw [List.take_of_length_le (by omega)]
        exact hslot
  obtain ⟨slot, hobj, hval⟩ := hcommit
  unfold Native.publishOwn
  rcases Call.bind_cases (if 1 < ticket.tokens.length then w.commitRows m e ticket entry rows env.commit
        else w.commitRow entry rows env) (fun w _ => w.saveCarry id env.copy) with ⟨err, -, hc⟩ | ⟨u, hu, hc⟩ <;>
      rw [hc]
  · exact ⟨slot, fun c => c, by rw [Call.throw_obj, hobj]; exact hkeep slot, fun _ hr => by cases hr⟩
  · rw [hobj]
    refine ⟨slot, Native.copied env.copy slot, rfl, fun v hv => ⟨hval u hu, fun c => ?_⟩⟩
    cases hcopy : env.copy with
    | none => rfl
    | some c => simp only [Native.saveCarry, hcopy] at hv; cases hv

theorem modify_modify (w : Native σ ρ) (id : Nat) (f g : VerifierEngine σ ρ → VerifierEngine σ ρ) :
    (w.modify id g).modify id f = w.modify id (f ∘ g) := by
  unfold Native.modify
  congr 1
  funext i
  by_cases hi : i = id
  · simp [hi]
  · simp [hi]

/-- The engine once its own publication returned. -/
theorem Sound.published (h : Sound m blocks issued id e) {ticket : Ticket} (rows : Nat)
    (hticket : ticket.position = e.position) (hrows : rows ≤ ticket.tokens.length) {carry : Slot σ}
    (hcarry : carry = m.rows e.request ticket.position (e.state m) (ticket.tokens.take rows)) :
    Sound m blocks issued id (Native.published ticket rows { e with carry := carry }) := by
  refine ⟨fun _ => ?_, ?_, fun hp => (by cases hp), fun hp => (by cases hp), fun _ _ _ _ hs => (by cases hs),
    fun _ hs => (by cases hs), fun _ hs => (by cases hs)⟩
  · exact hcarry.trans (published_state rows h.position hticket).symm
  · show e.position + rows = e.start + (e.committed ++ ticket.tokens.take rows).length
    rw [List.length_append, List.length_take, h.position]
    omega

/-- The engine once its publication raised. -/
theorem Sound.failed (h : Sound m blocks issued id e) (carry : Slot σ) :
    Sound m blocks issued id { e with carry := carry, phase := .failed, session := none } :=
  h.down (by simp) ⟨rfl, rfl⟩ ⟨rfl, rfl, rfl⟩ (Or.inr rfl) h.pending

/-- The invariant through the engine's own publication. -/
theorem Coherent.publishOwn (h : Coherent m w) (he : w.engines id = some e) (hphase : e.phase = .verified)
    {ticket : Ticket} {entry : Slot σ} (hbucket : e.bucket = some (.sequential entry))
    (hpending : e.pending = some ticket) {rows : Nat} (hrows : rows ≤ ticket.tokens.length)
    (hresident : w.resident = some id)
    (hslot : w.slot = m.rows e.request ticket.position entry ticket.tokens) (env : PublishEnv σ) :
    (∀ u, (w.publishOwn m id e ticket entry rows env).result = .ok u →
        Coherent m ((w.publishOwn m id e ticket entry rows env).obj.modify id (Native.published ticket rows))) ∧
      Coherent m ((w.publishOwn m id e ticket entry rows env).obj.modify id fun e =>
        { e with phase := .failed, session := none }) := by
  obtain ⟨slot, carry, hobj, hval⟩ := publishOwn_spec rows hresident hslot env
  have hsound := h.sound id e he
  obtain ⟨hentry, hticket⟩ := hsound.own hphase entry ticket hbucket hpending
  -- the engine is not idle, so that its claim says nothing yet
  have hclaim : Coherent m { w with slot := slot, resident := some id } := by
    refine h.reslot fun i e' hr he' hidle => ?_
    rw [Option.some.injEq] at hr
    subst hr
    rw [he] at he'
    cases he'
    rw [hphase] at hidle
    cases hidle
  rw [hobj, modify_modify, modify_modify]
  refine ⟨fun u hu => ?_, ?_⟩
  · obtain ⟨hstate, hcarry⟩ := hval u hu
    refine hclaim.modify (fun e' he' => ?_) fun e' he' _ _ => (hcarry e'.carry).symm
    have he'' : w.engines id = some e' := he'
    rw [he] at he''
    cases he''
    exact hsound.published rows hticket hrows (by rw [hcarry, hstate, hentry])
  · refine hclaim.modify (fun e' he' => (h.sound id e' he').failed _) fun e' _ _ hidle => ?_
    cases hidle

/-! ## Packed rounds -/

/-- The invariant when a block's pending segments change, where the adopted ones stay. -/
theorem Coherent.putBlock (h : Coherent m w) {block : Nat} {b : Packed σ ρ}
    (hsub : b.pending.Sublist (w.blocks block).pending)
    (hadopted : ∀ id e segment ticket, w.engines id = some e → e.phase = .verified →
      e.bucket = some (.packed block segment) → e.pending = some ticket → e.session = some ticket →
      ∃ s ∈ b.pending, s.segment = segment ∧ s.engine = id ∧ s.ticket = ticket) :
    Coherent m (w.putBlock block b) := by
  have hpending : ∀ i, ∀ s ∈ ((w.putBlock block b).blocks i).pending, s ∈ (w.blocks i).pending := by
    intro i s hs
    by_cases hi : i = block
    · subst hi
      rw [show (w.putBlock i b).blocks i = b from if_pos rfl] at hs
      exact hsub.subset hs
    · rwa [show (w.putBlock block b).blocks i = w.blocks i from if_neg hi] at hs
  refine ⟨fun id e he => ?_, h.resident, fun i s hs => h.fresh i s (hpending i s hs), fun i => ?_, h.exact⟩
  · have hs := h.sound id e he
    refine ⟨hs.carry, hs.position, hs.own, ?_, fun i s hmem => hs.served i s (hpending i s hmem), hs.session,
      hs.pending⟩
    intro hphase i segment ticket hbucket hp hsession
    by_cases hi : i = block
    · subst hi
      rw [show (w.putBlock i b).blocks i = b from if_pos rfl]
      exact hadopted id e segment ticket he hphase hbucket hp hsession
    · rw [show (w.putBlock block b).blocks i = w.blocks i from if_neg hi]
      exact hs.adopted hphase i segment ticket hbucket hp hsession
  · by_cases hi : i = block
    · subst hi
      rw [show (w.putBlock i b).blocks i = b from if_pos rfl]
      exact (h.distinct i).sublist (hsub.map _)
    · rw [show (w.putBlock block b).blocks i = w.blocks i from if_neg hi]
      exact h.distinct i

/-- A commit of a block: refused, or over the carry of its segment's engine; prefix 0 leaves that carry alone. -/
theorem commitUser_spec (m : Recurrence σ ρ) (w : Native σ ρ) (block segment rows : Nat) (trace : CommitTrace σ) :
    (∃ err, w.commitUser m block segment rows trace = Call.throw w err) ∨
      ∃ s ∈ (w.blocks block).pending, s.segment = segment ∧
        ∃ (slot : Slot σ) (b : Packed σ ρ) (carry : Slot σ → Slot σ),
        (w.commitUser m block segment rows trace).obj =
          ((w.displace slot).putBlock block b).modify s.engine (fun e => { e with carry := carry e.carry }) ∧
        (b.pending = (w.blocks block).pending ∨
          b.pending = (w.blocks block).pending.filter fun s => s.segment ≠ segment) ∧
        (rows = 0 → ∀ c, carry c = c) ∧
        ∀ u, (w.commitUser m block segment rows trace).result = .ok u → rows ≠ 0 →
          ∀ c, carry c = m.rows s.request s.ticket.position s.entry (s.ticket.tokens.take rows) := by
  unfold Native.commitUser
  split
  · exact Or.inl ⟨_, rfl⟩
  · rename_i s hs
    have hmem := List.mem_of_find?_eq_some hs
    have hsegment : s.segment = segment := by simpa using List.find?_some hs
    split
    · exact Or.inl ⟨_, rfl⟩
    · refine Or.inr ⟨s, hmem, hsegment, ?_⟩
      cases trace with
      | raised count slot err =>
        refine ⟨slot, _, _, rfl, Or.inl rfl, fun hzero c => ?_, fun _ hr => by cases hr⟩
        funext layer
        simp [hzero, copyLayers]
      | returned slot =>
        exact ⟨slot, _, _, rfl, Or.inr rfl, fun hzero c => if_pos hzero, fun _ _ hne c => if_neg hne⟩

/-- The segments of a block that other engines adopted stay pending when one is committed. -/
theorem adopted_stay (h : Coherent m w) {block segment : Nat} {b : Packed σ ρ}
    (hb : b.pending = (w.blocks block).pending ∨
      b.pending = (w.blocks block).pending.filter fun s => s.segment ≠ segment)
    (hfree : ∀ id e ticket, w.engines id = some e → e.phase = .verified →
      e.bucket = some (.packed block segment) → e.pending = some ticket → e.session ≠ some ticket) :
    Coherent m (w.putBlock block b) := by
  refine h.putBlock ?_ fun id e segment' ticket he hphase hbucket hpending hsession => ?_
  · rcases hb with hb | hb
    · exact hb ▸ List.Sublist.refl _
    · exact hb ▸ List.filter_sublist
  · obtain ⟨s, hs, hseg, hid, hticket⟩ :=
      (h.sound id e he).adopted hphase block segment' ticket hbucket hpending hsession
    refine ⟨s, ?_, hseg, hid, hticket⟩
    rcases hb with hb | hb <;> rw [hb]
    · exact hs
    · refine List.mem_filter.mpr ⟨hs, decide_eq_true ?_⟩
      rintro rfl
      rw [← hseg] at hbucket
      exact hfree id e ticket he hphase hbucket hpending hsession

/-- The publication of an adopted segment, before the block forgets it. -/
theorem Coherent.publishPacked (h : Coherent m w) (he : w.engines id = some e) (hphase : e.phase = .verified)
    {block segment : Nat} (hbucket : e.bucket = some (.packed block segment)) {ticket : Ticket}
    (hpending : e.pending = some ticket) (hsession : e.session = some ticket) {rows : Nat}
    (hrows : rows ≤ ticket.tokens.length) (trace : CommitTrace σ) :
    (∀ u, (w.commitUser m block segment rows trace).result = .ok u →
        Coherent m ((w.commitUser m block segment rows trace).obj.modify id (Native.published ticket rows))) ∧
      Coherent m ((w.commitUser m block segment rows trace).obj.modify id fun e =>
        { e with phase := .failed, session := none }) := by
  have hsound := h.sound id e he
  obtain ⟨s₀, hs₀, hseg₀, hid₀, hticket₀⟩ := hsound.adopted hphase block segment ticket hbucket hpending hsession
  rcases commitUser_spec m w block segment rows trace with
    ⟨err, hc⟩ | ⟨s, hs, hseg, slot, b, carry, hobj, hb, hzero, hok⟩
  · rw [hc]
    refine ⟨fun _ hr => (by cases hr), ?_⟩
    refine h.modify (fun e' he' => (h.sound id e' he').failed e'.carry) fun _ _ _ hidle => ?_
    cases hidle
  -- the segment that is committed is the one adopted
  obtain rfl : s = s₀ := List.inj_on_of_nodup_map (h.distinct block) hs hs₀ (hseg.trans hseg₀.symm)
  obtain ⟨hentry, hrequest, hposition⟩ := hsound.served block s hs hid₀ (by rw [hticket₀]; exact hsession)
  have hcommitted : ∀ f : VerifierEngine σ ρ → VerifierEngine σ ρ,
      (f { e with carry := carry e.carry }).phase ≠ .verified →
      Sound m w.blocks w.issued id (f { e with carry := carry e.carry }) →
      Coherent m ((w.commitUser m block segment rows trace).obj.modify id f) := by
    intro f hf hsf
    rw [hobj, hid₀, modify_modify]
    have hmod : Coherent m ((w.displace slot).modify id (f ∘ fun e => { e with carry := carry e.carry })) := by
      refine (h.displace slot).modify (fun e' he' => ?_) fun _ _ hr => by cases hr
      have he'' : w.engines id = some e' := he'
      rw [he] at he''
      cases he''
      exact hsf
    refine adopted_stay (w := (w.displace slot).modify id _) hmod hb fun i e' ticket' he' hphase' hbucket' hp' hs' => ?_
    by_cases hi : i = id
    · subst hi
      rw [modify_self, show (w.displace slot).engines i = w.engines i from rfl, he] at he'
      cases he'
      exact hf hphase'
    · rw [modify_other _ hi] at he'
      obtain ⟨s', hs', hseg', hid', -⟩ := (h.sound i e' he').adopted hphase' block segment ticket' hbucket' hp' hs'
      have heq := List.inj_on_of_nodup_map (h.distinct block) hs hs' (hseg.trans hseg'.symm)
      rw [← heq, hid₀] at hid'
      exact hi hid'.symm
  refine ⟨fun u hu => hcommitted _ (by simp [Native.published]) ?_, hcommitted _ (by simp) (hsound.failed _)⟩
  have hticket : ticket.position = e.position := hticket₀ ▸ hposition
  refine hsound.published rows hticket hrows ?_
  by_cases hnone : rows = 0
  · rw [hzero hnone, hsound.carry (Or.inr hphase), hnone]
    rfl
  · rw [hok u hu hnone, hentry, hrequest, hticket₀]

/-- The invariant through `publish`, where nobody has touched the slot since the engine's own verify. -/
theorem Coherent.publish (h : Coherent m w) (he : w.engines id = some e) (rows : Nat) (env : PublishEnv σ)
    (hown : e.phase = .verified → ∀ entry ticket, e.bucket = some (.sequential entry) → e.pending = some ticket →
      w.resident = some id ∧ w.slot = m.rows e.request ticket.position entry ticket.tokens) :
    Coherent m (w.publish m id e rows env).obj := by
  unfold Native.publish
  refine Call.attempt_obj h fun ticket hticket => ?_
  obtain ⟨hpending, hphase, hsession, hrows⟩ := publishCheck_ok hticket
  cases hbucket : e.bucket with
  | none =>
    refine h.modify (fun e' he' => ?_) fun _ _ _ hidle => by cases hidle
    exact (h.sound id e' he').down (by simp) ⟨rfl, rfl⟩ ⟨rfl, rfl, rfl⟩ (Or.inr rfl) (h.sound id e' he').pending
  | some bucket =>
    have hbody : (∀ u, (w.publishBody m id e ticket bucket rows env).result = .ok u →
          Coherent m ((w.publishBody m id e ticket bucket rows env).obj.modify id (Native.published ticket rows))) ∧
        Coherent m ((w.publishBody m id e ticket bucket rows env).obj.modify id fun e =>
          { e with phase := .failed, session := none }) := by
      cases bucket with
      | sequential entry =>
        obtain ⟨hresident, hslot⟩ := hown hphase entry ticket hbucket hpending
        exact h.publishOwn he hphase hbucket hpending hrows hresident hslot env
      | packed block segment => exact h.publishPacked he hphase hbucket hpending hsession hrows env.packed
    cases hresult : (w.publishBody m id e ticket bucket rows env).result with
    | ok u =>
      simp only [hresult]
      exact hbody.1 u hresult
    | error err =>
      simp only [hresult]
      exact hbody.2

/-- **The invariant through `FastRequest.step`**: its publication finds the slot as its verify left it. -/
theorem Coherent.step (h : Coherent m w) (he : w.engines id = some e) (ticket : Ticket) (env : VerifyEnv σ) (rows : Nat)
    (publication : PublishEnv σ) : Coherent m (w.step m id e ticket env rows publication).obj := by
  have hverify := h.verify he ticket env
  unfold Native.step
  refine Call.bind_obj hverify fun u hu => ?_
  obtain ⟨entry, hresident, hslot, hengine⟩ := verify_ok h he hu
  rw [hengine]
  refine hverify.publish hengine rows publication fun _ entry' ticket' hbucket hpending => ?_
  cases hbucket
  cases hpending
  exact ⟨hresident, hslot⟩

/-- The invariant through the release of a segment that nobody adopted. -/
theorem Coherent.release (h : Coherent m w) {block segment : Nat} (trace : CommitTrace σ)
    (hfree : ∀ id e ticket, w.engines id = some e → e.phase = .verified →
      e.bucket = some (.packed block segment) → e.pending = some ticket → e.session ≠ some ticket) :
    Coherent m (w.commitUser m block segment 0 trace).obj := by
  rcases commitUser_spec m w block segment 0 trace with ⟨err, hc⟩ | ⟨s, hs, hseg, slot, b, carry, hobj, hb, hzero, -⟩
  · rw [hc]; exact h
  · rw [hobj]
    refine Coherent.modify (adopted_stay (h.displace slot) hb hfree) (fun e he => ?_) fun e he hr hidle => ?_
    · rw [hzero rfl]
      exact (adopted_stay (h.displace slot) hb hfree).sound s.engine e he
    · cases hr

/-- An entry of a packed round, as its segment. -/
theorem packedEntry_ok {entry : Nat × Ticket × Nat} {s : PackedSegment σ ρ} (h : w.packedEntry entry = .ok s) :
    ∃ e, w.engines entry.1 = some e ∧ e.session = some entry.2.1 ∧ e.phase = .idle ∧
      entry.2.1.position = e.position ∧ s = ⟨entry.2.2, entry.1, entry.2.1, e.request, e.carry⟩ := by
  unfold Native.packedEntry at h
  split at h
  · cases h
  · rename_i e he
    obtain ⟨_, hsession, h⟩ := bind_ok h
    obtain ⟨_, hidle, h⟩ := bind_ok h
    rw [raiseIf_ok] at hsession hidle
    cases h
    exact ⟨e, he, by_contra hsession, by_contra fun hp => hidle (Or.inl hp),
      by_contra fun hp => hidle (Or.inr (Or.inr hp)), rfl⟩

/-- What the checks of a packed round establish: nothing of the block is pending, and each segment is an entry's. -/
theorem packedCheck_ok {block : Nat} {entries : List (Nat × Ticket × Nat)} {segments : List (PackedSegment σ ρ)}
    (h : w.packedCheck block entries = .ok segments) :
    (w.blocks block).pending = [] ∧ (segments.map PackedSegment.segment).Nodup ∧
      ∀ s ∈ segments, ∃ e, w.engines s.engine = some e ∧ e.session = some s.ticket ∧ e.phase = .idle ∧
        s.ticket.position = e.position ∧ s.request = e.request ∧ s.entry = e.carry := by
  unfold Native.packedCheck at h
  obtain ⟨_, hidle, h⟩ := bind_ok h
  obtain ⟨_, hnodup, h⟩ := bind_ok h
  rw [raiseIf_ok] at hidle hnodup
  have hmap : segments.map PackedSegment.segment = entries.map fun entry => entry.2.2 := by
    obtain ⟨hlen, hget⟩ := mapM_get h
    refine List.ext_getElem? fun i => ?_
    rw [List.getElem?_map, List.getElem?_map]
    cases hentry : entries[i]? with
    | none =>
      rw [List.getElem?_eq_none (by have := List.getElem?_eq_none_iff.mp hentry; omega)]
      rfl
    | some entry =>
      obtain ⟨s, hs, hok⟩ := hget i entry hentry
      obtain ⟨e, -, -, -, -, rfl⟩ := packedEntry_ok hok
      rw [hs]
      rfl
  refine ⟨?_, by rw [hmap]; exact by_contra hnodup, fun s hs => ?_⟩
  · cases hp : (w.blocks block).pending with
    | nil => rfl
    | cons s rest => exact absurd (Or.inr (by rw [hp]; rfl)) hidle
  · obtain ⟨entry, -, hok⟩ := (mem_mapM h).mp hs
    obtain ⟨e, he, hsession, hphase, hposition, rfl⟩ := packedEntry_ok hok
    exact ⟨e, he, hsession, hphase, hposition, rfl, rfl⟩

/-- No engine has adopted a segment of a block with nothing pending. -/
theorem Coherent.unadopted (h : Coherent m w) {block : Nat} (hnone : (w.blocks block).pending = []) :
    ∀ id e segment ticket, w.engines id = some e → e.phase = .verified →
      e.bucket = some (.packed block segment) → e.pending = some ticket → e.session ≠ some ticket := by
  intro id e segment ticket he hphase hbucket hpending hsession
  obtain ⟨s, hs, -⟩ := (h.sound id e he).adopted hphase block segment ticket hbucket hpending hsession
  rw [hnone] at hs
  cases hs

/-- The invariant when the sessions of a failed round fail. -/
theorem Coherent.failEntries (h : Coherent m w) (entries : List (Nat × Ticket × Nat)) :
    Coherent m (w.failEntries entries) := by
  refine ⟨fun id e he => ?_, fun id e hr he hidle => ?_, h.fresh, h.distinct, h.exact⟩
  · obtain ⟨e₀, he₀, rfl⟩ := Option.map_eq_some_iff.mp he
    split
    · exact (h.sound id e₀ he₀).ended
    · exact h.sound id e₀ he₀
  · obtain ⟨e₀, he₀, rfl⟩ := Option.map_eq_some_iff.mp he
    by_cases hany : ∃ entry ∈ entries, entry.1 = id ∧ e₀.session = some entry.2.1
    · rw [if_pos hany] at hidle ⊢
      exact h.resident id e₀ hr he₀ hidle
    · rw [if_neg hany] at hidle ⊢
      exact h.resident id e₀ hr he₀ hidle

/-- The invariant through a block's `verify`: each segment starts from its engine's committed state. -/
theorem Coherent.packedVerify (h : Coherent m w) (block : Nat) (entries : List (Nat × Ticket × Nat))
    (trace : PackedTrace σ) : Coherent m (w.packedVerify block entries trace).obj := by
  unfold Native.packedVerify
  refine Call.attempt_obj h fun segments hsegments => ?_
  obtain ⟨hnone, hnodup, hall⟩ := packedCheck_ok hsegments
  have hfailed : ∀ w' : Native σ ρ, Coherent m w' → (w'.blocks block).pending = [] →
      Coherent m (w'.putBlock block ⟨true, []⟩) := fun w' h' hnone' =>
    h'.putBlock (by rw [hnone']) fun id e segment ticket he hphase hbucket hpending hsession =>
      absurd hsession (h'.unadopted hnone' id e segment ticket he hphase hbucket hpending)
  cases trace with
  | refused err => exact h
  | staged err => exact (hfailed w h hnone).failEntries entries
  | raised slot err => exact (hfailed (w.displace slot) (h.displace slot) hnone).failEntries entries
  | returned slot =>
    have hblock : ((w.displace slot).putBlock block ⟨false, segments⟩).blocks block = ⟨false, segments⟩ := if_pos rfl
    have hothers : ∀ i, i ≠ block →
        ((w.displace slot).putBlock block ⟨false, segments⟩).blocks i = w.blocks i := fun i hi => if_neg hi
    show Coherent m ((w.displace slot).putBlock block ⟨false, segments⟩)
    refine ⟨fun id e he => ?_, fun _ _ hr => (by cases hr), fun i s hs => ?_, fun i => ?_, h.exact⟩
    · have hsound := h.sound id e he
      refine ⟨hsound.carry, hsound.position, hsound.own, ?_, ?_, hsound.session, hsound.pending⟩
      · intro hphase i segment ticket hbucket hpending hsession
        by_cases hi : i = block
        · subst hi
          exact absurd hsession (h.unadopted hnone id e segment ticket he hphase hbucket hpending)
        · rw [hothers i hi]
          exact hsound.adopted hphase i segment ticket hbucket hpending hsession
      · intro i s hs hid hticket
        by_cases hi : i = block
        · subst hi
          rw [hblock] at hs
          obtain ⟨e', he', -, hidle, hposition, hrequest, hentry⟩ := hall s hs
          rw [hid, show w.engines id = some e from he] at he'
          cases he'
          exact ⟨hentry.trans (hsound.carry (Or.inl hidle)), hrequest, hposition⟩
        · rw [hothers i hi] at hs
          exact hsound.served i s hs hid hticket
    · by_cases hi : i = block
      · subst hi
        rw [hblock] at hs
        obtain ⟨e, he, hsession, -⟩ := hall s hs
        exact (h.sound s.engine e he).session s.ticket hsession
      · rw [hothers i hi] at hs
        exact h.fresh i s hs
    · by_cases hi : i = block
      · subst hi
        rw [hblock]
        exact hnodup
      · rw [hothers i hi]
        exact h.distinct i

/-- The invariant through `adopt_packed` of a segment that the block verified for this ticket. -/
theorem Coherent.adoptPacked (h : Coherent m w) (he : w.engines id = some e) (ticket : Ticket) (block segment : Nat)
    (rows : Bool) (hround : ∃ s ∈ (w.blocks block).pending, s.segment = segment ∧ s.engine = id ∧ s.ticket = ticket) :
    Coherent m (w.adoptPacked id e ticket block segment rows).obj := by
  unfold Native.adoptPacked
  refine Call.attempt_obj h fun u hu => ?_
  obtain ⟨_, hsession, hu⟩ := bind_ok hu
  obtain ⟨_, hidle, -⟩ := bind_ok hu
  rw [raiseIf_ok] at hsession hidle
  refine h.modify (fun e' he' => ?_) fun _ _ _ hphase => by cases hphase
  rw [he] at he'
  cases he'
  have hsound := h.sound id e he
  refine ⟨fun _ => hsound.carry (Or.inl (by_contra fun hp => hidle (Or.inl hp))), hsound.position, ?_, ?_,
    hsound.served, hsound.session, ?_⟩
  · intro _ entry ticket' hbucket
    cases hbucket
  · intro _ block' segment' ticket' hbucket hpending _
    cases hbucket
    cases hpending
    exact hround
  · rintro ticket' ⟨⟩
    exact hsound.session ticket (by_contra hsession)

/-! ## Construction, parking, closing -/

/-- The invariant when an engine over its own state in the slot seeds its carry. -/
theorem Coherent.seed (h : Coherent m w) (he : w.engines id = some e) (hphase : e.phase = .preparing)
    (hslot : w.slot = e.state m) (copy : Copy) : Coherent m (w.seed id copy).obj := by
  have hclaim : Coherent m { w with resident := some id } := by
    refine h.reslot fun i e' hr he' hidle => ?_
    rw [Option.some.injEq] at hr
    subst hr
    rw [he] at he'
    cases he'
    rw [hphase] at hidle
    cases hidle
  have hsound := h.sound id e he
  have hfields : ∀ e', ({ w with resident := some id } : Native σ ρ).engines id = some e' → e' = e := by
    intro e' he'
    have he'' : w.engines id = some e' := he'
    rw [he] at he''
    exact (Option.some.inj he'').symm
  unfold Native.seed
  cases hsave : (w.saveCarry id copy).result with
  | ok u =>
    have hcopy : copy = none := by
      cases copy with
      | none => rfl
      | some c => cases hsave
    subst hcopy
    show Coherent m (({ w with resident := some id }.modify id _).modify id _)
    rw [modify_modify]
    refine hclaim.modify (fun e' he' => ?_) fun _ _ _ _ => rfl
    rw [hfields e' he']
    exact ⟨fun _ => hslot, hsound.position, fun hp => (by cases hp), fun hp => (by cases hp), hsound.served,
      hsound.session, hsound.pending⟩
  | error err =>
    show Coherent m (({ w with resident := some id }.modify id _).modify id _)
    rw [modify_modify]
    refine hclaim.modify (fun e' he' => ?_) fun _ _ _ hidle => by cases hidle
    rw [hfields e' he']
    exact hsound.down (by simp) ⟨rfl, rfl⟩ ⟨rfl, rfl, rfl⟩ (Or.inl rfl) hsound.pending

/-- An engine that is being prepared is sound. -/
theorem sound_preparing (blocks : Nat → Packed σ ρ) (issued id : Nat) (request : ρ) (position : Nat) (carry : Slot σ) :
    Sound m blocks issued id (Native.preparing request position carry) :=
  ⟨fun hp => (by rcases hp with hp | hp <;> cases hp), rfl, fun hp => (by cases hp), fun hp => (by cases hp),
    fun _ _ _ _ hs => (by cases hs), fun _ hs => (by cases hs), fun _ hs => (by cases hs)⟩

/-- The invariant when an engine goes down to a phase in which it claims nothing. -/
theorem Coherent.lower (h : Coherent m w) (id : Nat) {phase : EnginePhase}
    (hphase : ¬(phase = .idle ∨ phase = .verified)) :
    Coherent m (w.modify id fun e => { e with phase := phase }) :=
  h.modify (fun e he => (h.sound id e he).down hphase ⟨rfl, rfl⟩ ⟨rfl, rfl, rfl⟩ (Or.inl rfl) (h.sound id e he).pending)
    fun _ _ _ hidle => absurd (Or.inl hidle) hphase

/-- The invariant through a rebind or a construction over the request's prefilled state. -/
theorem Coherent.prepare (h : Coherent m w) (id : Nat) {request : ρ} (hslot : w.slot = m.prefilled request)
    (position : Nat) (carry : Slot σ) (copy : Copy) :
    Coherent m (((w.displace w.slot).put id (Native.preparing request position carry)).seed id copy).obj := by
  have hput : Coherent m ((w.displace w.slot).put id (Native.preparing request position carry)) :=
    (h.displace w.slot).put (sound_preparing _ _ _ _ _ _) (by simp [Native.preparing])
  exact hput.seed (if_pos rfl) rfl hslot copy

/-- The invariant through a construction. -/
theorem Coherent.construct (h : Coherent m w) (id : Nat) {request : ρ} (hslot : w.slot = m.prefilled request)
    (position : Nat) (carry : Slot σ) (raised : Option (Slot σ × PyError)) (copy : Copy) (fenced : Bool) :
    Coherent m (w.construct id request position carry raised copy fenced).obj := by
  unfold Native.construct
  cases raised with
  | some r =>
    have hput : Coherent m ((w.displace r.1).put id (Native.preparing request position carry)) :=
      (h.displace r.1).put (sound_preparing _ _ _ _ _ _) (by simp [Native.preparing])
    refine hput.lower id ?_
    split <;> simp
  | none =>
    have hseed := h.prepare id hslot position carry copy
    cases hresult : (((w.displace w.slot).put id (Native.preparing request position carry)).seed id copy).result with
    | ok u => exact hseed
    | error err =>
      simp only [Call.throw_obj]
      split
      · exact (hseed.leave id).lower id (by simp)
      · exact hseed

/-- The invariant through `park`. -/
theorem Coherent.park (h : Coherent m w) (id : Nat) (e : VerifierEngine σ ρ) (fence : Except PyError Unit)
    (refused : Bool) : Coherent m (w.park id e fence refused).obj := by
  unfold Native.park
  refine Call.attempt_obj h fun _ _ => ?_
  split
  · exact h
  · refine (h.leave id).modify (fun e' he' => ?_) fun _ _ _ hidle => by cases hidle
    have hs := h.sound id e' he'
    exact hs.down (by simp) ⟨rfl, rfl⟩ ⟨rfl, rfl, rfl⟩ (Or.inr rfl) hs.pending

/-- The invariant through `rebind`. -/
theorem Coherent.rebind (h : Coherent m w) (id : Nat) (e : VerifierEngine σ ρ) {request : ρ}
    (hslot : w.slot = m.prefilled request) (position : Nat) (checked written : Except PyError Unit) (copy : Copy) :
    Coherent m (w.rebind id e request position checked written copy).obj := by
  unfold Native.rebind
  refine Call.attempt_obj h fun _ _ => ?_
  cases written with
  | error err =>
    exact ((h.displace w.slot).put (sound_preparing _ _ _ _ _ _) (by simp [Native.preparing])).lower id (by simp)
  | ok _ => exact h.prepare id hslot position e.carry copy

/-- The invariant through `close`. -/
theorem Coherent.close (h : Coherent m w) (id : Nat) (e : VerifierEngine σ ρ) (raised : Option PyError) :
    Coherent m (w.close id e raised).obj := by
  unfold Native.close
  split
  · exact h
  · refine Call.attempt_obj h fun _ _ => ?_
    cases raised with
    | some err => exact h
    | none =>
      refine (h.leave id).modify (fun e' he' => ?_) fun _ _ _ hidle => by cases hidle
      have hs := h.sound id e' he'
      exact hs.down (by simp) ⟨rfl, rfl⟩ ⟨rfl, rfl, rfl⟩ (Or.inl rfl) fun _ hp => by cases hp

end

/-! ## Every run -/

/-- What happens in the process. -/
inductive Event (σ ρ : Type)
  | prefill (slot : Slot σ)
  | construct (id : Nat) (request : ρ) (position : Nat) (carry : Slot σ) (raised : Option (Slot σ × PyError))
      (copy : Copy) (fenced : Bool)
  | propose (id : Nat) (tokens : List Nat)
  | withdraw (id : Nat)
  | verify (id : Nat) (ticket : Ticket) (env : VerifyEnv σ)
  | step (id : Nat) (ticket : Ticket) (env : VerifyEnv σ) (rows : Nat) (publication : PublishEnv σ)
  | publish (id rows : Nat) (env : PublishEnv σ)
  | packedVerify (block : Nat) (entries : List (Nat × Ticket × Nat)) (trace : PackedTrace σ)
  | adoptPacked (id : Nat) (ticket : Ticket) (block segment : Nat) (rows : Bool)
  | release (block segment : Nat) (trace : CommitTrace σ)
  | park (id : Nat) (fence : Except PyError Unit) (refused : Bool)
  | rebind (id : Nat) (request : ρ) (position : Nat) (checked written : Except PyError Unit) (copy : Copy)
  | close (id : Nat) (raised : Option PyError)

section

variable {σ ρ : Type} {m : Recurrence σ ρ}

/-- An engine's call, where there is that engine. -/
def Native.call (w : Native σ ρ) (id : Nat) (k : VerifierEngine σ ρ → Native σ ρ) : Native σ ρ :=
  match w.engines id with
  | none => w
  | some e => k e

/-- One event. -/
def Native.act (m : Recurrence σ ρ) (w : Native σ ρ) : Event σ ρ → Native σ ρ
  | .prefill slot => w.displace slot
  | .construct id request position carry raised copy fenced =>
    (w.construct id request position carry raised copy fenced).obj
  | .propose id tokens => w.call id fun e => w.propose id e tokens
  | .withdraw id => w.withdraw id
  | .verify id ticket env => w.call id fun e => (w.verify m id e ticket env).obj
  | .step id ticket env rows publication => w.call id fun e => (w.step m id e ticket env rows publication).obj
  | .publish id rows env => w.call id fun e => (w.publish m id e rows env).obj
  | .packedVerify block entries trace => (w.packedVerify block entries trace).obj
  | .adoptPacked id ticket block segment rows =>
    w.call id fun e => (w.adoptPacked id e ticket block segment rows).obj
  | .release block segment trace => (w.commitUser m block segment 0 trace).obj
  | .park id fence refused => w.call id fun e => (w.park id e fence refused).obj
  | .rebind id request position checked written copy =>
    w.call id fun e => (w.rebind id e request position checked written copy).obj
  | .close id raised => w.call id fun e => (w.close id e raised).obj

/-- What the callers promise: an engine is built or rebound over its request's prefilled state in the slot;
`packed_device_step` adopts the entries that the block verified, and `fail_round` releases segments that nobody holds
any more. -/
def Allowed (m : Recurrence σ ρ) (w : Native σ ρ) : Event σ ρ → Prop
  | .construct id request _ _ _ _ _ => w.engines id = none ∧ w.slot = m.prefilled request
  | .rebind _ request _ _ _ _ => w.slot = m.prefilled request
  | .adoptPacked id ticket block segment _ =>
      ∃ s ∈ (w.blocks block).pending, s.segment = segment ∧ s.engine = id ∧ s.ticket = ticket
  | .release block segment _ => ∀ id e ticket, w.engines id = some e → e.phase = .verified →
      e.bucket = some (.packed block segment) → e.pending = some ticket → e.session ≠ some ticket
  | _ => True

/-- The publication of an engine that verified on its own trace is not an event by itself: it is part of the call that
verified. -/
def InCall (w : Native σ ρ) : Event σ ρ → Prop
  | .publish id _ _ => ∀ e, w.engines id = some e → e.phase = .verified → ∀ entry, e.bucket ≠ some (.sequential entry)
  | _ => True

/-- One event that the callers allow, whatever the verify that a publication follows. -/
def Interleaved (m : Recurrence σ ρ) (w : Native σ ρ) (event : Event σ ρ) (w' : Native σ ρ) : Prop :=
  Allowed m w event ∧ w' = w.act m event

/-- One event of callers that publish where they verified. -/
def Step (m : Recurrence σ ρ) (w : Native σ ρ) (event : Event σ ρ) (w' : Native σ ρ) : Prop :=
  InCall w event ∧ Interleaved m w event w'

/-- The invariant through an engine's call. -/
theorem Coherent.call {w : Native σ ρ} (h : Coherent m w) (id : Nat) {k : VerifierEngine σ ρ → Native σ ρ}
    (hk : ∀ e, w.engines id = some e → Coherent m (k e)) : Coherent m (w.call id k) := by
  unfold Native.call
  split
  · exact h
  · rename_i e he
    exact hk e he

/-- One event keeps the invariant. -/
theorem Step.coherent {w w' : Native σ ρ} {event : Event σ ρ} (hs : Step m w event w') (h : Coherent m w) :
    Coherent m w' := by
  obtain ⟨hcall, hallowed, rfl⟩ := hs
  cases event with
  | prefill slot => exact h.displace slot
  | construct id request position carry raised copy fenced =>
    exact h.construct id hallowed.2 position carry raised copy fenced
  | propose id tokens => exact h.call id fun e _ => h.propose e tokens
  | withdraw id => exact h.withdraw id
  | verify id ticket env => exact h.call id fun e he => h.verify he ticket env
  | step id ticket env rows publication => exact h.call id fun e he => h.step he ticket env rows publication
  | publish id rows env =>
    exact h.call id fun e he => h.publish he rows env fun hphase entry _ hbucket =>
      absurd hbucket (hcall e he hphase entry)
  | packedVerify block entries trace => exact h.packedVerify block entries trace
  | adoptPacked id ticket block segment rows =>
    exact h.call id fun e he => h.adoptPacked he ticket block segment rows hallowed
  | release block segment trace => exact h.release trace hallowed
  | park id fence refused => exact h.call id fun e _ => h.park id e fence refused
  | rebind id request position checked written copy =>
    exact h.call id fun e _ => h.rebind id e hallowed position checked written copy
  | close id raised => exact h.call id fun e _ => h.close id e raised

/-- A process before its first engine is coherent. -/
theorem coherent_init (m : Recurrence σ ρ) (slot : Slot σ) : Coherent m (Native.init slot) :=
  ⟨fun _ _ he => (by cases he), fun _ _ hr => (by cases hr), fun _ _ hs => (by cases hs), fun _ => List.nodup_nil,
    fun _ hx => (by cases hx)⟩

/-- **One native slot, many engines**: in every run whose own tickets are published where they were verified, each
replay of an engine's verify started from its request's state at its committed frontier; where the resident engine is
idle, the slot, its carry and its committed state are one; and every idle engine's carry is its request's state at the
engine's position. -/
theorem slot_zero {slot : Slot σ} {events : List (Event σ ρ)} {w : Native σ ρ}
    (h : Run (Step m) (Native.init slot) events w) :
    (∀ x ∈ w.replayed, x.slot = x.state) ∧
      (∀ id e, w.resident = some id → w.engines id = some e → e.phase = .idle →
        w.slot = e.carry ∧ w.slot = e.state m) ∧
      ∀ id e, w.engines id = some e → e.phase = .idle →
        e.carry = e.state m ∧ e.position = e.start + e.committed.length := by
  have hc : Coherent m w := Run.invariant_state (coherent_init m slot) (fun hi hs => Step.coherent hs hi) h
  refine ⟨hc.exact, fun id e hr he hidle => ?_, fun id e he hidle => ?_⟩
  · have hslot := hc.resident id e hr he hidle
    exact ⟨hslot, hslot.trans ((hc.sound id e he).carry (Or.inl hidle))⟩
  · exact ⟨(hc.sound id e he).carry (Or.inl hidle), (hc.sound id e he).position⟩

end

/-! ## A run -/

/-- A recurrence of numbers. -/
def sampleRecurrence : Recurrence Nat Nat :=
  ⟨fun request _ => 100 * request, fun _ _ s token layer => 2 * s layer + token⟩

/-- A device that answers every call. -/
def sampleVerifyEnv : VerifyEnv Nat := ⟨true, .ok (), none, .ok (), .returned, .ok ()⟩

def samplePublishEnv : PublishEnv Nat := ⟨.returned, .ok (), none, .ok (), none, .returned fun _ => 7⟩

/-- One more event of a run of the samples. -/
theorem sample_snoc {step : Native Nat Nat → Event Nat Nat → Native Nat Nat → Prop} {events : List (Event Nat Nat)}
    {w : Native Nat Nat} (event : Event Nat Nat) (hr : Run step (Native.init fun _ => 0) events w)
    (ha : step w event (w.act sampleRecurrence event)) :
    Run step (Native.init fun _ => 0) (events ++ [event]) (w.act sampleRecurrence event) := hr.snoc ha

/-- Two engines over their requests' prefilled states. -/
def samplePair : List (Event Nat Nat) :=
  [.prefill fun _ => 100, .construct 1 1 4 (fun _ => 0) none none true, .prefill fun _ => 200,
    .construct 2 2 7 (fun _ => 0) none none true]

/-- The first, displaced by the second, verifies and publishes a row, and the second is served packed. -/
def sampleEvents : List (Event Nat Nat) :=
  samplePair ++ [.propose 1 [5], .step 1 ⟨0, 4, [5]⟩ sampleVerifyEnv 1 samplePublishEnv, .propose 2 [8, 9],
    .packedVerify 0 [(2, ⟨1, 7, [8, 9]⟩, 3)] (.returned fun _ => 7), .adoptPacked 2 ⟨1, 7, [8, 9]⟩ 0 3 true,
    .publish 2 1 samplePublishEnv]

def sampleNative : Native Nat Nat := sampleEvents.foldl (Native.act sampleRecurrence) (Native.init fun _ => 0)

theorem sampleNative_run : Run (Step sampleRecurrence) (Native.init fun _ => 0) sampleEvents sampleNative := by
  refine sample_snoc _ (sample_snoc _ (sample_snoc _ (sample_snoc _ (sample_snoc _ (sample_snoc _ (sample_snoc _
    (sample_snoc _ (sample_snoc _ (sample_snoc _ .nil ?_) ?_) ?_) ?_) ?_) ?_) ?_) ?_) ?_) ?_
  · exact ⟨trivial, trivial, rfl⟩
  · exact ⟨trivial, ⟨rfl, rfl⟩, rfl⟩
  · exact ⟨trivial, trivial, rfl⟩
  · exact ⟨trivial, ⟨rfl, rfl⟩, rfl⟩
  · exact ⟨trivial, trivial, rfl⟩
  · exact ⟨trivial, trivial, rfl⟩
  · exact ⟨trivial, trivial, rfl⟩
  · exact ⟨trivial, trivial, rfl⟩
  · exact ⟨trivial, ⟨_, List.mem_singleton.mpr rfl, rfl, rfl, rfl⟩, rfl⟩
  · refine ⟨fun e he _ entry hbucket => ?_, trivial, rfl⟩
    cases he
    cases hbucket

/-- The sample replayed once, over the first engine's own state, and both engines are idle over theirs. -/
theorem slot_zero_sample :
    (sampleNative.replayed.map fun x => (x.engine, x.slot 0)) = [(1, 100)] ∧
      (∀ x ∈ sampleNative.replayed, x.slot = x.state) ∧
      (sampleNative.engines 1).map (fun e => (e.carry 0, e.position)) = some (205, 5) ∧
      (sampleNative.engines 2).map (fun e => (e.carry 0, e.position)) = some (408, 8) ∧
      ∀ id e, sampleNative.engines id = some e → e.phase = .idle →
        e.carry = e.state sampleRecurrence ∧ e.position = e.start + e.committed.length := by
  obtain ⟨hexact, -, hidle⟩ := slot_zero sampleNative_run
  exact ⟨by decide, hexact, by decide, by decide, hidle⟩

/-- A prefill comes between the first engine's verify of a row and its publication. -/
def lateEvents : List (Event Nat Nat) :=
  samplePair ++ [.propose 1 [5], .verify 1 ⟨0, 4, [5]⟩ sampleVerifyEnv, .prefill fun _ => 300,
    .publish 1 1 samplePublishEnv]

/-- **A publication that comes later saves a foreign state**: the slot held 300, the prefill's, so that the carry of the
idle engine is not its request's state, 205. -/
theorem late_publish_foreign :
    Run (Interleaved sampleRecurrence) (Native.init fun _ => 0) lateEvents
      (lateEvents.foldl (Native.act sampleRecurrence) (Native.init fun _ => 0)) ∧
    ((lateEvents.foldl (Native.act sampleRecurrence) (Native.init fun _ => 0)).engines 1).map
      (fun e => (e.phase, e.carry 0, e.state sampleRecurrence 0)) = some (.idle, 300, 205) := by
  refine ⟨?_, by decide⟩
  refine sample_snoc _ (sample_snoc _ (sample_snoc _ (sample_snoc _ (sample_snoc _ (sample_snoc _ (sample_snoc _
    (sample_snoc _ .nil ?_) ?_) ?_) ?_) ?_) ?_) ?_) ?_
  · exact ⟨trivial, rfl⟩
  · exact ⟨⟨rfl, rfl⟩, rfl⟩
  · exact ⟨trivial, rfl⟩
  · exact ⟨⟨rfl, rfl⟩, rfl⟩
  · exact ⟨trivial, rfl⟩
  · exact ⟨trivial, rfl⟩
  · exact ⟨trivial, rfl⟩
  · exact ⟨trivial, rfl⟩

end BlackholeQwen.Verifier
