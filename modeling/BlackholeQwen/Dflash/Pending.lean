import BlackholeQwen.Dflash.ProposalTrace
import BlackholeQwen.Lib.Runs

/-!
# Pending proposals

What a caller of a prepared proposal sees over a whole run: which transients were queued and released, and what each
user was answered. `Allocator.Sound` says that the transients held are those queued and not released; `enqueueCopies`
and `release_owned` keep it. `Kept` is what the runs of every kind of proposal keep, and `Solo` a run of a single one.
-/

namespace BlackholeQwen.Dflash.Proposal

open Lib Speculative

/-! ## The allocator -/

/-- The transients that satisfy `H` are those queued and not released, and attempts are numbered upwards. -/
structure Allocator.Sound (d : Allocator) (H : Buffer → Prop) : Prop where
  balanced : Balanced d.ledger H
  past : ∀ b ∈ d.ledger.taken, b.attempt < d.attempts

namespace Allocator

variable {d : Allocator} {H K : Buffer → Prop} {addresses : List Nat}

theorem Sound.held (h : d.Sound H) (hK : ∀ b, K b ↔ H b) : d.Sound K := ⟨h.balanced.held hK, h.past⟩

theorem sound_init (h : ∀ b, ¬H b) : init.Sound H := ⟨Balanced.blank h, fun b hb => by cases hb⟩

/-- The transients of an attempt were never queued before. -/
theorem Sound.retain (h : d.Sound H) (hK : ∀ b, K b ↔ H b ∨ b ∈ d.next addresses) : (d.retain addresses).Sound K := by
  refine ⟨h.balanced.take (fun b hb ht => ?_) hK, fun b hb => ?_⟩
  · obtain ⟨a, -, rfl⟩ := List.mem_map.mp hb
    exact Nat.lt_irrefl _ (h.past _ ht)
  · rcases List.mem_append.mp hb with hb | hb
    · exact Nat.lt_succ_of_lt (h.past b hb)
    · obtain ⟨a, -, rfl⟩ := List.mem_map.mp hb
      exact Nat.lt_succ_self _

theorem Sound.release (h : d.Sound H) {owned : List Buffer} (hown : ∀ b ∈ owned, H b)
    (hK : ∀ b, K b ↔ H b ∧ b ∉ owned) : (d.releaseOwned owned).Sound K :=
  ⟨h.balanced.give (List.nodup_dedup owned) (fun b hb => hown b (List.mem_dedup.mp hb))
    (fun b => by rw [hK, List.mem_dedup]), h.past⟩

/-- An attempt that releases what it queued leaves the holders as they were. -/
theorem Sound.failed (h : d.Sound H) : ((d.retain addresses).releaseOwned (d.next addresses)).Sound H := by
  refine (h.retain (K := fun b => H b ∨ b ∈ d.next addresses) fun _ => Iff.rfl).release (fun b hb => Or.inr hb)
    fun b => ?_
  constructor
  · intro hb
    refine ⟨Or.inl hb, fun hm => ?_⟩
    obtain ⟨a, -, rfl⟩ := List.mem_map.mp hm
    exact Nat.lt_irrefl _ (h.past _ (h.balanced.known _ hb))
  · rintro ⟨hb | hb, hn⟩
    · exact hb
    · exact absurd hb hn

end Allocator

/-! ## Enqueueing -/

section Enqueue

variable {τ β Out : Type} {s : Hosted τ} {e : Enqueue β Out}

/-- The device after an attempt that raised: as it was, or with what the attempt queued released again. -/
inductive Restored (d : Allocator) : Allocator → Prop
  | same : Restored d d
  | failed (addresses : List Nat) : Restored d ((d.retain addresses).releaseOwned (d.next addresses))

theorem Restored.sound {d d' : Allocator} {H : Buffer → Prop} (h : Restored d d') (hd : d.Sound H) : d'.Sound H := by
  cases h with
  | same => exact hd
  | failed addresses => exact hd.failed

/-- The copies were enqueued, or the attempt raised and nothing of it is queued. -/
theorem enqueueCopies_cases (s : Hosted τ) (e : Enqueue β Out) :
    (∃ d x, Restored s.device d ∧ enqueueCopies s e = .throw ⟨s.proposal, d⟩ x) ∨
      enqueueCopies s e = .ret ⟨s.proposal, s.device.retain e.transients⟩ (s.device.next e.transients) := by
  unfold enqueueCopies
  rcases Call.attempt_cases e.checks s _ with ⟨x, -, h⟩ | ⟨u, -, h⟩ <;> rw [h]
  · exact Or.inl ⟨s.device, x, .same, rfl⟩
  · rcases Call.attempt_cases e.copies _ _ with ⟨x, -, h⟩ | ⟨u, -, h⟩ <;> rw [h]
    · exact Or.inl ⟨_, x, .failed e.transients, rfl⟩
    · exact Or.inr rfl

end Enqueue

/-! ## What a caller sees -/

/-- A proposal that was enqueued: its seeds, and what its trace left in its outputs. -/
structure Prepared (Out : Type) where
  seeds : List Token
  outputs : Out

/-- An answer: the proposal it came from, by number, the user, the tokens asked for and given, and the seed for which
`has_pending` was true just before, if there was one. -/
structure Answer where
  prepare : Nat
  which : Nat
  count : Nat
  asked : Option Token
  tokens : List Token
  deriving DecidableEq, Repr

/-- The proposals enqueued and the answers given, in order. -/
structure Log (Out : Type) where
  prepared : List (Prepared Out)
  answers : List Answer

namespace Log

variable {Out : Type}

/-- `prepare_device` returned. -/
def enqueue (log : Log Out) (result : Except PyError Bool) (seeds : List Token) (replay : Except PyError Out) :
    Log Out :=
  match result, replay with
  | .ok true, .ok out => { log with prepared := log.prepared ++ [⟨seeds, out⟩] }
  | _, _ => log

/-- `finish` returned. -/
def answer (log : Log Out) (result : Except PyError (List Token)) (which count : Nat) (asked : Option Token) :
    Log Out :=
  match result with
  | .ok tokens => { log with answers := log.answers ++ [⟨log.prepared.length - 1, which, count, asked, tokens⟩] }
  | .error _ => log

/-- The answers for which `has_pending` was true. -/
def due (log : Log Out) : List Answer := log.answers.filter fun a => a.asked.isSome

/-- A user has been answered since the last `prepare_device`. -/
def Served (log : Log Out) (which : Nat) : Prop :=
  ∃ a ∈ log.due, a.prepare + 1 = log.prepared.length ∧ a.which = which

variable (own : Prepared Out → Nat → Except PyError (List Token))

/-- Each user of a proposal is answered at most once, with the first tokens of its own selection, which `own` says. -/
structure Answered (log : Log Out) : Prop where
  once : (log.due.map fun a => (a.prepare, a.which)).Nodup
  own : ∀ a ∈ log.due, ∃ p seed tokens, log.prepared[a.prepare]? = some p ∧ p.seeds[a.which]? = some seed ∧
    a.asked = some seed ∧ own p a.which = .ok tokens ∧ a.tokens = tokens.take a.count

variable {own} {log : Log Out}

theorem Answered.bound (h : log.Answered own) {a : Answer} (ha : a ∈ log.due) : a.prepare < log.prepared.length := by
  obtain ⟨p, seed, tokens, hp, -⟩ := h.own a ha
  exact (List.getElem?_eq_some_iff.mp hp).1

theorem answered_nil : (⟨[], []⟩ : Log Out).Answered own := ⟨List.nodup_nil, fun a ha => by cases ha⟩

theorem Answered.enqueue (h : log.Answered own) (p : Prepared Out) :
    ({ log with prepared := log.prepared ++ [p] } : Log Out).Answered own := by
  refine ⟨h.once, fun a ha => ?_⟩
  obtain ⟨q, seed, tokens, hq, hrest⟩ := h.own a ha
  exact ⟨q, seed, tokens, by rw [List.getElem?_append_left (h.bound ha)]; exact hq, hrest⟩

/-- An answer for which `has_pending` was not true. -/
theorem due_unasked (log : Log Out) (a : Answer) (ha : a.asked = none) :
    ({ log with answers := log.answers ++ [a] } : Log Out).due = log.due := by
  simp [due, ha]

theorem due_asked (log : Log Out) (a : Answer) {seed : Token} (ha : a.asked = some seed) :
    ({ log with answers := log.answers ++ [a] } : Log Out).due = log.due ++ [a] := by
  simp [due, ha]

/-- A user that was not served yet is given its own selection. -/
theorem Answered.answer (h : log.Answered own) {p : Prepared Out} {which : Nat} (count : Nat) {seed : Token}
    {tokens : List Token} (hp : log.prepared.getLast? = some p) (hseed : p.seeds[which]? = some seed)
    (hown : own p which = .ok tokens) (hnew : ¬log.Served which) :
    ({ log with answers := log.answers ++
      [⟨log.prepared.length - 1, which, count, some seed, tokens.take count⟩] } : Log Out).Answered own := by
  have hp' : log.prepared[log.prepared.length - 1]? = some p := by rw [← List.getLast?_eq_getElem?]; exact hp
  have hpos : 0 < log.prepared.length := by
    have := (List.getElem?_eq_some_iff.mp hp').1; omega
  constructor
  · rw [due_asked log _ rfl, List.map_append, List.nodup_append]
    refine ⟨h.once, by simp, ?_⟩
    intro x hx y hy hxy
    obtain ⟨a, ha, rfl⟩ := List.mem_map.mp hx
    simp only [List.map_cons, List.map_nil, List.mem_singleton] at hy
    subst hy
    obtain ⟨h1, h2⟩ := Prod.mk.inj hxy
    exact hnew ⟨a, ha, by omega, h2⟩
  · intro a ha
    rw [due_asked log _ rfl] at ha
    rcases List.mem_append.mp ha with ha | ha
    · exact h.own a ha
    · rw [List.mem_singleton] at ha
      subst ha
      exact ⟨p, seed, tokens, hp', hseed, rfl, hown, rfl⟩

/-- An answer for which `has_pending` was true serves its user. -/
theorem served_answer (log : Log Out) (hpos : log.prepared ≠ []) (which count : Nat) (seed : Token)
    (tokens : List Token) (other : Nat) :
    ({ log with answers := log.answers ++ [⟨log.prepared.length - 1, which, count, some seed, tokens⟩] } :
      Log Out).Served other ↔ log.Served other ∨ other = which := by
  have := List.length_pos_of_ne_nil hpos
  unfold Served
  rw [due_asked log _ rfl]
  constructor
  · rintro ⟨a, ha, hlast, hw⟩
    rcases List.mem_append.mp ha with ha | ha
    · exact Or.inl ⟨a, ha, hlast, hw⟩
    · rw [List.mem_singleton] at ha
      subst ha
      exact Or.inr hw.symm
  · rintro (⟨a, ha, hlast, hw⟩ | rfl)
    · exact ⟨a, List.mem_append_left _ ha, hlast, hw⟩
    · exact ⟨_, List.mem_append_right _ List.mem_cons_self, by simp only; omega, rfl⟩

/-- Nobody is served of a proposal that has just been enqueued. -/
theorem Answered.not_served (h : log.Answered own) (p : Prepared Out) (which : Nat) :
    ¬({ log with prepared := log.prepared ++ [p] } : Log Out).Served which := by
  rintro ⟨a, ha, hlast, -⟩
  have hb := h.bound (a := a) ha
  simp only [List.length_append, List.length_singleton] at hlast
  omega

end Log

/-- **What every run keeps:** a transient is released at most once, and exactly once when nothing is pending, so in
particular when the proposal is closed; users are answered once, with their own selection; and when all have been
answered nothing is pending. -/
structure Kept {Out : Type} (own : Prepared Out → Nat → Except PyError (List Token)) (users : Nat) (closed idle : Prop)
    (d : Allocator) (log : Log Out) : Prop where
  once : ∀ b, d.ledger.given.count b ≤ 1
  queued : ∀ b ∈ d.ledger.given, b ∈ d.ledger.taken
  ended : closed → idle
  released : idle → ∀ b ∈ d.ledger.taken, d.ledger.given.count b = 1
  answered : log.Answered own
  settled : log.prepared ≠ [] → (∀ which < users, log.Served which) → idle

/-! ## One user -/

/-- A run of a single proposal. -/
structure Solo (β Out : Type) where
  host : Hosted (PreparedDFlashProposal β Out)
  log : Log Out

/-- The calls on a single proposal. -/
inductive SoloOp (β Out : Type)
  | prepare (seed : Token) (e : Enqueue β Out)
  | hasPending (seed : Token)
  | finish (count : Nat) (r : Readback)
  | discardPending
  | close

namespace Solo

variable {β Out Part : Type} (sel : Selector Out Part)

/-- The user's own selection. -/
def own (p : Prepared Out) (_which : Nat) : Except PyError (List Token) := do
  let part ← sel.readOwn p.outputs
  match p.seeds with
  | [seed] => sel.choose part seed
  | _ => .error .attributeError

/-- A proposal that has prepared nothing, on a device that has allocated nothing. -/
def init : Solo β Out := ⟨⟨.init, .init⟩, ⟨[], []⟩⟩

/-- The seed for which `has_pending` is true. -/
def expected (w : Solo β Out) : Option Token := w.host.proposal.pending.bind fun p => p.seeds.head?

/-- The transients to release. -/
def Held (w : Solo β Out) (b : Buffer) : Prop := ∃ p, w.host.proposal.pending = some p ∧ b ∈ p.owned

/-- What a run keeps. -/
structure Inv (w : Solo β Out) : Prop where
  sound : w.host.device.Sound w.Held
  ended : w.host.proposal.closed → w.host.proposal.pending = none
  answered : w.log.Answered (own sel)
  waiting : ∀ p, w.host.proposal.pending = some p → ¬w.log.Served 0 ∧ ∃ seed out, p.seeds = [seed] ∧
    w.log.prepared.getLast? = some ⟨[seed], out⟩ ∧ w.host.proposal.outputs p.bucket = some out

variable {sel} {w : Solo β Out}

theorem hasPending_iff (h : w.Inv sel) (seed : Token) :
    w.host.proposal.hasPending seed = true ↔ w.expected = some seed := by
  unfold PreparedDFlashProposal.hasPending expected
  cases hp : w.host.proposal.pending with
  | none => simp
  | some p =>
    obtain ⟨-, s, -, hs, -⟩ := h.waiting p hp
    simp [hs]

@[simp] theorem discardPending_pending (s : Hosted (PreparedDFlashProposal β Out)) :
    (PreparedDFlashProposal.discardPending s).proposal.pending = none := by
  unfold PreparedDFlashProposal.discardPending
  cases hp : s.proposal.pending with
  | none => exact hp
  | some p => rfl

@[simp] theorem discardPending_closed (s : Hosted (PreparedDFlashProposal β Out)) :
    (PreparedDFlashProposal.discardPending s).proposal.closed = s.proposal.closed := by
  unfold PreparedDFlashProposal.discardPending
  cases hp : s.proposal.pending <;> rfl

/-- Nothing is held once nothing is pending. -/
theorem not_held {w : Solo β Out} (hp : w.host.proposal.pending = none) (b : Buffer) : ¬w.Held b := by
  rintro ⟨p, hp', -⟩
  rw [hp] at hp'
  cases hp'

/-- What is pending is released. -/
theorem sound_discard (h : w.Inv sel) :
    (PreparedDFlashProposal.discardPending w.host).device.Sound fun _ => False := by
  unfold PreparedDFlashProposal.discardPending
  cases hp : w.host.proposal.pending with
  | none => exact h.sound.held fun b => ⟨False.elim, fun hb => not_held hp b hb⟩
  | some p =>
    refine h.sound.release (fun b hb => ⟨p, hp, hb⟩) fun b => ⟨False.elim, ?_⟩
    rintro ⟨⟨q, hq, hb⟩, hn⟩
    cases hp.symm.trans hq
    exact hn hb

/-- A proposal with nothing pending. -/
theorem inv_of_none {w : Solo β Out} (hp : w.host.proposal.pending = none)
    (hs : w.host.device.Sound fun _ => False) (ha : w.log.Answered (own sel)) : w.Inv sel :=
  ⟨hs.held fun b => ⟨fun hb => not_held hp b hb, False.elim⟩, fun _ => hp, ha,
    fun p hp' => by rw [hp] at hp'; cases hp'⟩

theorem Inv.discard (h : w.Inv sel) :
    ({ w with host := PreparedDFlashProposal.discardPending w.host } : Solo β Out).Inv sel :=
  inv_of_none (discardPending_pending w.host) (sound_discard h) h.answered

/-- What `finish` does: nothing is pending afterwards, whatever it raises, and what it returns is the user's own. -/
theorem finish_cases (sel : Selector Out Part) (s : Hosted (PreparedDFlashProposal β Out)) (count : Nat)
    (r : Readback) :
    (s.proposal.pending = none ∧ ∃ x, PreparedDFlashProposal.finish sel s count r = .throw s x) ∨
    (∃ x, PreparedDFlashProposal.finish sel s count r = .throw (PreparedDFlashProposal.discardPending s) x) ∨
    ∃ p tokens, s.proposal.pending = some p ∧ PreparedDFlashProposal.selected sel s.proposal p count r = .ok tokens ∧
      PreparedDFlashProposal.finish sel s count r = .ret (PreparedDFlashProposal.discardPending s) tokens := by
  unfold PreparedDFlashProposal.finish
  cases hp : s.proposal.pending with
  | none => exact Or.inl ⟨rfl, _, rfl⟩
  | some p =>
    refine Or.inr ?_
    dsimp only
    rcases Call.attempt_cases r.moved (PreparedDFlashProposal.discardPending s) _ with
      ⟨x, -, h⟩ | ⟨moved, -, h⟩ <;> rw [h]
    · exact Or.inl ⟨x, rfl⟩
    · rcases Call.attempt_cases (raiseIf (moved = true) (.assertionError "Prepared proposal input addresses moved"))
        (PreparedDFlashProposal.discardPending s) _ with ⟨x, -, h⟩ | ⟨u, -, h⟩ <;> rw [h]
      · exact Or.inl ⟨x, rfl⟩
      · rcases Call.attempt_cases (PreparedDFlashProposal.selected sel s.proposal p count r)
          (PreparedDFlashProposal.discardPending s) _ with ⟨x, -, h⟩ | ⟨tokens, hsel, h⟩ <;> rw [h]
        · exact Or.inl ⟨x, rfl⟩
        · exact Or.inr ⟨p, tokens, rfl, hsel, rfl⟩

/-- The tail of `finish` selects the first tokens of the user's own selection. -/
theorem selected_own {t : PreparedDFlashProposal β Out} {p : Pending β} {count : Nat} {r : Readback}
    {tokens : List Token} {seed : Token} {out : Out} (hseed : p.seeds = [seed]) (hout : t.outputs p.bucket = some out)
    (h : PreparedDFlashProposal.selected sel t p count r = .ok tokens) (which : Nat) :
    ∃ all, own sel ⟨[seed], out⟩ which = .ok all ∧ tokens = all.take count := by
  unfold PreparedDFlashProposal.selected at h
  rw [hout, hseed] at h
  obtain ⟨-, -, h⟩ := bind_ok h
  obtain ⟨part, hpart, h⟩ := bind_ok h
  obtain ⟨-, -, h⟩ := bind_ok h
  obtain ⟨all, hall, h⟩ := bind_ok h
  cases h
  exact ⟨all, by simp only [own, hpart]; exact hall, rfl⟩

theorem inv_init : (init : Solo β Out).Inv sel :=
  inv_of_none rfl (Allocator.sound_init fun _ => id) Log.answered_nil

theorem Inv.kept (h : w.Inv sel) :
    Kept (own sel) 1 (w.host.proposal.closed = true) (w.host.proposal.pending = none) w.host.device w.log where
  once b := List.nodup_iff_count_le_one.mp h.sound.balanced.once b
  queued := h.sound.balanced.given
  ended := h.ended
  released hidle _ hb := h.sound.balanced.settled (not_held hidle) hb
  answered := h.answered
  settled _ hserved := by
    cases hp : w.host.proposal.pending with
    | none => rfl
    | some p => exact absurd (hserved 0 Nat.one_pos) (h.waiting p hp).1

section Calls

variable [DecidableEq β]

/-- After `prepare_device`. -/
def prepared (w : Solo β Out) (seed : Token) (replay : Except PyError Out)
    (c : Call (Hosted (PreparedDFlashProposal β Out)) Bool) : Solo β Out :=
  ⟨c.obj, w.log.enqueue c.result [seed] replay⟩

/-- After `finish`. -/
def finished (w : Solo β Out) (count : Nat) (c : Call (Hosted (PreparedDFlashProposal β Out)) (List Token)) :
    Solo β Out :=
  ⟨c.obj, w.log.answer c.result 0 count w.expected⟩

/-- A call. -/
def apply (sel : Selector Out Part) (w : Solo β Out) : SoloOp β Out → Solo β Out
  | .prepare seed e => w.prepared seed e.replay (PreparedDFlashProposal.prepareDevice w.host seed e)
  | .hasPending _ => w
  | .finish count r => w.finished count (PreparedDFlashProposal.finish sel w.host count r)
  | .discardPending => { w with host := PreparedDFlashProposal.discardPending w.host }
  | .close => { w with host := PreparedDFlashProposal.close w.host }

/-- A step: any call, where a replay that is enqueued does not raise. -/
def Step (sel : Selector Out Part) (w : Solo β Out) (op : SoloOp β Out) (w' : Solo β Out) : Prop :=
  w' = w.apply sel op ∧ ∀ seed e, op = .prepare seed e → ∃ out, e.replay = .ok out

/-- What `prepare_device` does where the replay does not raise. -/
theorem prepareDevice_cases (s : Hosted (PreparedDFlashProposal β Out)) (seed : Token) {e : Enqueue β Out} {out : Out}
    (hout : e.replay = .ok out) :
    (PreparedDFlashProposal.prepareDevice s seed e = .ret s false) ∨
    (∃ d x, Restored (PreparedDFlashProposal.discardPending s).device d ∧
      PreparedDFlashProposal.prepareDevice s seed e =
        .throw ⟨(PreparedDFlashProposal.discardPending s).proposal, d⟩ x) ∨
    ∃ bucket, s.proposal.closed = false ∧ PreparedDFlashProposal.prepareDevice s seed e = .ret
      ⟨{ (PreparedDFlashProposal.discardPending s).proposal with
          pending := some ⟨[seed], bucket, (PreparedDFlashProposal.discardPending s).device.next e.transients⟩
          outputs := Function.update (PreparedDFlashProposal.discardPending s).proposal.outputs bucket (some out) },
        (PreparedDFlashProposal.discardPending s).device.retain e.transients⟩ true := by
  unfold PreparedDFlashProposal.prepareDevice
  by_cases hc : s.proposal.closed ∨ e.declined
  · rw [if_pos hc]; exact Or.inl rfl
  · rw [if_neg hc]
    refine Or.inr ?_
    rcases Call.attempt_cases e.bucket (PreparedDFlashProposal.discardPending s) _ with
      ⟨x, -, h⟩ | ⟨bucket, -, h⟩ <;> rw [h]
    · exact Or.inl ⟨_, x, .same, rfl⟩
    · rcases enqueueCopies_cases (PreparedDFlashProposal.discardPending s) e with ⟨d, x, hd, h⟩ | h <;> rw [h]
      · exact Or.inl ⟨d, x, hd, rfl⟩
      · rw [Call.bind_ret, hout, Call.attempt_ok]
        exact Or.inr ⟨bucket, by simpa using fun h => hc (Or.inl h), rfl⟩

theorem Inv.prepare (h : w.Inv sel) (seed : Token) {e : Enqueue β Out} {out : Out} (hout : e.replay = .ok out) :
    (w.apply sel (.prepare seed e)).Inv sel := by
  change (w.prepared seed e.replay (PreparedDFlashProposal.prepareDevice w.host seed e)).Inv sel
  rcases prepareDevice_cases w.host seed hout with hc | ⟨d, x, hd, hc⟩ | ⟨bucket, hopen, hc⟩ <;> rw [hc]
  · exact h
  · exact inv_of_none (discardPending_pending w.host) (hd.sound (sound_discard h)) h.answered
  · have hlog : w.log.enqueue (.ok true) [seed] e.replay =
        { w.log with prepared := w.log.prepared ++ [⟨[seed], out⟩] } := by rw [hout]; rfl
    refine ⟨?_, fun hcl => ?_, ?_, fun p hp => ?_⟩
    · refine (sound_discard h).retain fun b => ?_
      constructor
      · rintro ⟨p, hp, hb⟩
        cases hp
        exact Or.inr hb
      · rintro (hb | hb)
        · exact hb.elim
        · exact ⟨_, rfl, hb⟩
    · simp [prepared, hopen] at hcl
    · simp only [prepared, Call.ret_result, hlog]
      exact h.answered.enqueue _
    · cases hp
      simp only [prepared, Call.ret_result, hlog]
      exact ⟨h.answered.not_served _ 0, seed, out, rfl, by simp, by simp⟩

theorem Inv.finish (h : w.Inv sel) (count : Nat) (r : Readback) : (w.apply sel (.finish count r)).Inv sel := by
  change (w.finished count (PreparedDFlashProposal.finish sel w.host count r)).Inv sel
  rcases finish_cases sel w.host count r with ⟨-, x, hc⟩ | ⟨x, hc⟩ | ⟨p, tokens, hp, hsel, hc⟩ <;> rw [hc]
  · exact h
  · exact h.discard
  · obtain ⟨hnew, seed, out, hseed, hlast, hout⟩ := h.waiting p hp
    obtain ⟨all, hown, rfl⟩ := selected_own hseed hout hsel 0
    have hexp : w.expected = some seed := by simp [expected, hp, hseed]
    refine inv_of_none (discardPending_pending w.host) (sound_discard h) ?_
    simp only [finished, hexp]
    exact h.answered.answer count hlast rfl hown hnew

theorem Inv.close (h : w.Inv sel) : (w.apply sel .close).Inv sel := by
  change ({ w with host := PreparedDFlashProposal.close w.host } : Solo β Out).Inv sel
  unfold PreparedDFlashProposal.close
  by_cases hc : w.host.proposal.closed = true
  · rw [if_pos hc]; exact h
  · rw [if_neg hc]
    exact inv_of_none (discardPending_pending w.host) (sound_discard h) h.answered

theorem Inv.step {op : SoloOp β Out} {w' : Solo β Out} (h : w.Inv sel) (hs : Step sel w op w') : w'.Inv sel := by
  obtain ⟨rfl, hreplay⟩ := hs
  cases op with
  | prepare seed e =>
    obtain ⟨out, hout⟩ := hreplay seed e rfl
    exact h.prepare seed hout
  | hasPending seed => exact h
  | finish count r => exact h.finish count r
  | discardPending => exact h.discard
  | close => exact h.close

end Calls

end Solo

end BlackholeQwen.Dflash.Proposal
