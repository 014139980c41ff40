import BlackholeQwen.Dflash.Pending

/-!
# Pending proposals of a pair and a quad

`World` is a run of a pair or a quad. `finish` leaves the transients it has released in the pending entry; `spent`
remembers that it did, and `Careful` is what a caller must then not do. `Shared.finishes_adopted` compares a round that
selects all its proposals in one call with users that each `finish` by themselves.
-/

namespace BlackholeQwen.Dflash.Proposal

open Lib Speculative

/-! ## A pair and a quad -/

/-- A run of a pair or a quad: `collected` is what `collect` last returned for the pending proposal, and `spent` says
that a `finish` has released transients that the pending entry still names. -/
structure World (users : Nat) (β Out Part : Type) where
  host : Hosted (Shared users β Out)
  log : Log Out
  collected : Option (Collected Part)
  spent : Bool

/-- The calls on a pair or a quad. -/
inductive Op (users : Nat) (β Out : Type)
  | prepare (seeds : List Token) (e : Enqueue β Out)
  | hasPending (which : Fin users) (seed : Token)
  | finish (which : Fin users) (count : Nat) (r : Readback)
  | collect (r : Readback)
  | adopt (tokens : List (List Token))
  | discardPending
  | close

namespace World

variable {users : Nat} {β Out Part : Type}

/-- A user's own selection. -/
def own (k : Kind) (sel : Selector Out Part) (p : Prepared Out) (which : Nat) : Except PyError (List Token) := do
  let parts ← sel.readUsers p.outputs
  match parts[which]?, p.seeds[which]? with
  | some part, some seed => sel.selectUser part seed (k.blockRows - 1)
  | _, _ => .error .indexError

/-- A proposal that has prepared nothing, on a device that has allocated nothing. -/
def init : World users β Out Part := ⟨⟨.init users, .init⟩, ⟨[], []⟩, none, false⟩

/-- The seed for which `has_pending` is true of a user. -/
def expected (w : World users β Out Part) (which : Fin users) : Option Token :=
  w.host.proposal.pending.bind fun p =>
    if which ∈ (w.host.proposal.buckets p.bucket).consumed then none else p.seeds[which.val]?

/-- A `finish` that finds nothing selected releases the transients, unless the addresses cannot be read. -/
def releases (w : World users β Out Part) (r : Readback) : Bool :=
  match w.host.proposal.pending with
  | none => false
  | some p => (w.host.proposal.buckets p.bucket).tokens.isNone && r.moved.toOption.isSome && !p.owned.isEmpty

/-- The tokens are a slice of a batched selection that what `collect` returned was part of. -/
def Batched (sel : Selector Out Part) (w : World users β Out Part) (tokens : List (List Token)) : Prop :=
  ∃ c before after all, w.collected = some c ∧ (∀ d ∈ before, d.Even) ∧ (∀ d ∈ after, d.Even) ∧
    sel.batch (before ++ c :: after) = .ok all ∧
    tokens = (all.drop (before.flatMap (·.parts)).length).take c.parts.length

theorem hasPending_iff (w : World users β Out Part) (which : Fin users) (seed : Token) :
    w.host.proposal.hasPending which seed = true ↔ w.expected which = some seed := by
  unfold Shared.hasPending expected
  cases w.host.proposal.pending with
  | none => simp
  | some p =>
    by_cases h : which ∈ (w.host.proposal.buckets p.bucket).consumed <;> simp [h]

/-! ### The invariant -/

/-- The transients to release: those of the pending entry, unless a `finish` has released them. -/
def Held (w : World users β Out Part) (b : Buffer) : Prop :=
  w.spent = false ∧ ∃ p, w.host.proposal.pending = some p ∧ b ∈ p.owned

/-- What is known of the pending proposal: it is the last one enqueued, its tokens are the users' own, the users
consumed are those answered, and once something was selected nothing is left to release. -/
structure Open (k : Kind) (sel : Selector Out Part) (w : World k.users β Out Part) (p : Pending β) : Prop where
  seeds : p.seeds.length = k.users
  last : ∃ out, w.log.prepared.getLast? = some ⟨p.seeds, out⟩ ∧
    (w.host.proposal.buckets p.bucket).outputs = some out ∧
    (∀ tokens, (w.host.proposal.buckets p.bucket).tokens = some tokens →
      ∃ parts, sel.readUsers out = .ok parts ∧ sel.selectPacked parts p.seeds (Shared.counts k) = .ok tokens) ∧
    ∀ c, w.collected = some c → sel.readUsers out = .ok c.parts ∧ c.seeds = p.seeds ∧ c.counts = Shared.counts k
  served : ∀ which, which ∈ (w.host.proposal.buckets p.bucket).consumed ↔ w.log.Served which.val
  unfinished : (w.host.proposal.buckets p.bucket).consumed.card < k.users
  unselected : (w.host.proposal.buckets p.bucket).tokens = none → (w.host.proposal.buckets p.bucket).consumed = ∅
  emptied : w.spent = false → (w.host.proposal.buckets p.bucket).tokens ≠ none ∨ w.collected ≠ none → p.owned = []

/-- What a run keeps. -/
structure Inv (k : Kind) (sel : Selector Out Part) (w : World k.users β Out Part) : Prop where
  sound : w.host.device.Sound w.Held
  ended : w.host.proposal.closed → w.host.proposal.pending = none
  answered : w.log.Answered (own k sel)
  others : ∀ bucket, (∀ p, w.host.proposal.pending = some p → p.bucket ≠ bucket) →
    (w.host.proposal.buckets bucket).tokens = none ∧ (w.host.proposal.buckets bucket).consumed = ∅
  waiting : ∀ p, w.host.proposal.pending = some p → w.Open k sel p

variable {k : Kind} {sel : Selector Out Part} {w : World k.users β Out Part}

/-- What was selected for a user is its own selection. -/
theorem own_of_selected {parts : List Part} {seeds : List Token} {out : Out} {tokens : List (List Token)}
    (hparts : sel.readUsers out = .ok parts) (hsel : sel.selectPacked parts seeds (Shared.counts k) = .ok tokens)
    {which : Nat} (hw : which < k.users) :
    ∃ seed ts, seeds[which]? = some seed ∧ Shared.own tokens which = .ok ts ∧
      own k sel ⟨seeds, out⟩ which = .ok ts := by
  obtain ⟨u, hu, hmap⟩ := bind_ok hsel
  have hlen := raiseIf_ok.mp hu
  have hcounts : (Shared.counts k).length = k.users := List.length_replicate
  have h1 : which < parts.length := by omega
  have h2 : which < seeds.length := by omega
  have hrow : (parts.zip (seeds.zip (Shared.counts k)))[which]? =
      some (parts[which], seeds[which], k.blockRows - 1) := by
    rw [List.getElem?_eq_getElem (by simp [List.length_zip]; omega)]
    simp [Shared.counts]
  obtain ⟨ts, hts, hown⟩ := (mapM_get hmap).2 which _ hrow
  refine ⟨seeds[which], ts, List.getElem?_eq_getElem h2, by unfold Shared.own; rw [hts], ?_⟩
  simp only [own, hparts, bind, Except.bind, List.getElem?_eq_getElem h1, List.getElem?_eq_getElem h2]
  exact hown

/-- Nothing is held once nothing is pending. -/
theorem not_held {w : World users β Out Part} (hp : w.host.proposal.pending = none) (b : Buffer) : ¬w.Held b := by
  rintro ⟨-, p, hp', -⟩
  rw [hp] at hp'
  cases hp'

/-- Nothing is selected in any bucket. -/
def Clean (t : Shared users β Out) : Prop :=
  ∀ bucket, (t.buckets bucket).tokens = none ∧ (t.buckets bucket).consumed = ∅

/-- A proposal with nothing pending. -/
theorem inv_of_none (hp : w.host.proposal.pending = none) (hclean : Clean w.host.proposal)
    (hs : w.host.device.Sound fun _ => False) (ha : w.log.Answered (own k sel)) : w.Inv k sel :=
  ⟨hs.held fun b => ⟨fun hb => not_held hp b hb, False.elim⟩, fun _ => hp, ha, fun bucket _ => hclean bucket,
    fun p hp' => by rw [hp] at hp'; cases hp'⟩

/-! ### Discarding -/

section Calls

variable [DecidableEq β]

/-- After `prepare_device`. -/
def prepared (w : World users β Out Part) (seeds : List Token) (replay : Except PyError Out)
    (c : Call (Hosted (Shared users β Out)) Bool) : World users β Out Part :=
  ⟨c.obj, w.log.enqueue c.result seeds replay, none, false⟩

/-- After `finish`. -/
def finished (w : World users β Out Part) (which : Fin users) (count : Nat) (r : Readback)
    (c : Call (Hosted (Shared users β Out)) (List Token)) : World users β Out Part :=
  ⟨c.obj, w.log.answer c.result which count (w.expected which), w.collected, w.spent || w.releases r⟩

/-- After `collect`. -/
def gathered (w : World users β Out Part) (c : Call (Hosted (Shared users β Out)) (Collected Part)) :
    World users β Out Part :=
  { w with host := c.obj, collected := c.result.toOption.or w.collected }

/-- A call. -/
def apply (k : Kind) (sel : Selector Out Part) (w : World k.users β Out Part) :
    Op k.users β Out → World k.users β Out Part
  | .prepare seeds e => w.prepared seeds e.replay (Shared.prepareDevice k w.host seeds e)
  | .hasPending _ _ => w
  | .finish which count r => w.finished which count r (Shared.finish k sel w.host which count r)
  | .collect r => w.gathered (Shared.collect k sel w.host r)
  | .adopt tokens => { w with host := (Shared.adopt k w.host tokens).obj }
  | .discardPending => { w with host := Shared.discardPending w.host }
  | .close => { w with host := Shared.close w.host }

/-- A replay that is enqueued does not raise, and what is adopted comes from a batched selection. -/
def Allowed (k : Kind) (sel : Selector Out Part) (w : World k.users β Out Part) : Op k.users β Out → Prop
  | .prepare _ e => ∃ out, e.replay = .ok out
  | .adopt tokens => (Shared.adopt k w.host tokens).result = .ok () → w.Batched sel tokens
  | _ => True

/-- A step: any call. -/
def Step (k : Kind) (sel : Selector Out Part) (w : World k.users β Out Part) (op : Op k.users β Out)
    (w' : World k.users β Out Part) : Prop :=
  w' = w.apply k sel op ∧ w.Allowed k sel op

/-- Where `finish` has released the transients that the pending entry still names, nothing is called that would release
them again; and where `collect` has transients to release, the addresses can be read. -/
def Careful (w : World users β Out Part) : Op users β Out → Prop
  | .prepare _ _ | .discardPending | .close => w.host.proposal.pending = none ∨ w.spent = false
  | .finish _ _ _ => ∀ p, w.host.proposal.pending = some p → (w.host.proposal.buckets p.bucket).tokens = none →
      w.spent = false
  | .collect r => ∀ p, w.host.proposal.pending = some p → ¬w.host.proposal.taken p →
      w.spent = false ∧ (p.owned ≠ [] → ∃ moved, r.moved = .ok moved)
  | _ => True

/-- A step of a careful caller. -/
def CarefulStep (k : Kind) (sel : Selector Out Part) (w : World k.users β Out Part) (op : Op k.users β Out)
    (w' : World k.users β Out Part) : Prop :=
  Step k sel w op w' ∧ w.Careful op

@[simp] theorem discardPending_pending (s : Hosted (Shared users β Out)) :
    (Shared.discardPending s).proposal.pending = none := by
  unfold Shared.discardPending
  cases hp : s.proposal.pending with
  | none => exact hp
  | some p => rfl

@[simp] theorem discardPending_closed (s : Hosted (Shared users β Out)) :
    (Shared.discardPending s).proposal.closed = s.proposal.closed := by
  unfold Shared.discardPending
  cases hp : s.proposal.pending <;> rfl

theorem Inv.clean (h : w.Inv k sel) : Clean (Shared.discardPending w.host).proposal := by
  intro bucket
  unfold Shared.discardPending
  cases hp : w.host.proposal.pending with
  | none => exact h.others bucket fun p hp' => by rw [hp] at hp'; cases hp'
  | some p =>
    by_cases hb : bucket = p.bucket
    · subst hb
      rw [Shared.setBucket_self]
      exact ⟨rfl, rfl⟩
    · rw [Shared.setBucket_of_ne _ _ _ hb]
      exact h.others bucket fun q hq => by cases hp.symm.trans hq; exact Ne.symm hb

/-- What is pending is released, unless it was spent. -/
theorem Inv.sound_discard (h : w.Inv k sel) (hcare : w.host.proposal.pending = none ∨ w.spent = false) :
    (Shared.discardPending w.host).device.Sound fun _ => False := by
  unfold Shared.discardPending
  cases hp : w.host.proposal.pending with
  | none => exact h.sound.held fun b => ⟨False.elim, fun hb => not_held hp b hb⟩
  | some p =>
    have hspent : w.spent = false := hcare.resolve_left (by rw [hp]; exact Option.some_ne_none p)
    refine h.sound.release (fun b hb => ⟨hspent, p, hp, hb⟩) fun b => ⟨False.elim, ?_⟩
    rintro ⟨⟨-, q, hq, hb⟩, hn⟩
    cases hp.symm.trans hq
    exact hn hb

theorem Inv.discard (h : w.Inv k sel) (hcare : w.host.proposal.pending = none ∨ w.spent = false) :
    (w.apply k sel .discardPending).Inv k sel :=
  inv_of_none (discardPending_pending w.host) h.clean (h.sound_discard hcare) h.answered

theorem Inv.close (h : w.Inv k sel) (hcare : w.host.proposal.pending = none ∨ w.spent = false) :
    (w.apply k sel .close).Inv k sel := by
  change ({ w with host := Shared.close w.host } : World k.users β Out Part).Inv k sel
  unfold Shared.close
  by_cases hc : w.host.proposal.closed = true
  · rw [if_pos hc]; exact h
  · rw [if_neg hc]
    exact inv_of_none (discardPending_pending w.host) (fun _ => ⟨rfl, rfl⟩) (h.sound_discard hcare) h.answered

/-! ### Preparing -/

/-- What `prepare_device` does where the replay does not raise. -/
theorem prepareDevice_cases (s : Hosted (Shared k.users β Out)) (seeds : List Token) {e : Enqueue β Out} {out : Out}
    (hout : e.replay = .ok out) :
    (s.proposal.closed = true ∧ Shared.prepareDevice k s seeds e = .ret s false) ∨
    (∃ d result, Restored (Shared.discardPending s).device d ∧ result ≠ .ok true ∧
      Shared.prepareDevice k s seeds e = ⟨⟨(Shared.discardPending s).proposal, d⟩, result⟩) ∨
    ∃ bucket, s.proposal.closed = false ∧ seeds.length = k.users ∧ Shared.prepareDevice k s seeds e = .ret
      ⟨(Shared.discardPending s).proposal.enqueued seeds bucket
          ((Shared.discardPending s).device.next e.transients) out,
        (Shared.discardPending s).device.retain e.transients⟩ true := by
  unfold Shared.prepareDevice
  by_cases hc : s.proposal.closed = true
  · rw [if_pos hc]; exact Or.inl ⟨hc, rfl⟩
  rw [if_neg hc]
  refine Or.inr ?_
  rcases Call.attempt_cases (raiseIf (seeds.length ≠ k.users) (.valueError k.anchors)) (Shared.discardPending s) _ with
    ⟨x, -, h⟩ | ⟨u, hu, h⟩ <;> rw [h]
  · exact Or.inl ⟨_, .error x, .same, by simp, rfl⟩
  by_cases hd : e.declined = true
  · rw [if_pos hd]; exact Or.inl ⟨_, .ok false, .same, by simp, rfl⟩
  rw [if_neg hd]
  rcases Call.attempt_cases e.bucket (Shared.discardPending s) _ with ⟨x, -, h⟩ | ⟨bucket, -, h⟩ <;> rw [h]
  · exact Or.inl ⟨_, .error x, .same, by simp, rfl⟩
  rcases enqueueCopies_cases (Shared.discardPending s) e with ⟨d, x, hd, h⟩ | h <;> rw [h]
  · exact Or.inl ⟨d, .error x, hd, by simp, rfl⟩
  · rw [Call.bind_ret, hout, Call.attempt_ok]
    exact Or.inr ⟨bucket, by simpa using hc, by simpa using raiseIf_ok.mp hu, rfl⟩

theorem Inv.prepare (h : w.Inv k sel) (hcare : w.host.proposal.pending = none ∨ w.spent = false)
    (hpos : 0 < k.users) (seeds : List Token) {e : Enqueue β Out} {out : Out} (hout : e.replay = .ok out) :
    (w.apply k sel (.prepare seeds e)).Inv k sel := by
  change (w.prepared seeds e.replay (Shared.prepareDevice k w.host seeds e)).Inv k sel
  have hsound := h.sound_discard hcare
  rcases prepareDevice_cases (k := k) w.host seeds hout with
    ⟨hcl, hc⟩ | ⟨d, result, hd, hres, hc⟩ | ⟨bucket, hopen, hlen, hc⟩ <;> rw [hc]
  · have hp := h.ended hcl
    refine inv_of_none hp (fun bucket => h.others bucket fun p hp' => by rw [hp] at hp'; cases hp') ?_ h.answered
    exact h.sound.held fun b => ⟨False.elim, fun hb => not_held hp b hb⟩
  · have hlog : w.log.enqueue result seeds e.replay = w.log := by
      rw [hout]
      cases result with
      | error x => rfl
      | ok ready =>
        cases ready with
        | false => rfl
        | true => exact absurd rfl hres
    refine inv_of_none (discardPending_pending w.host) h.clean (hd.sound hsound) ?_
    simp only [prepared, hlog]
    exact h.answered
  · have hlog : w.log.enqueue (.ok true) seeds e.replay =
        { w.log with prepared := w.log.prepared ++ [⟨seeds, out⟩] } := by rw [hout]; rfl
    simp only [prepared, Call.ret_obj, Call.ret_result, hlog]
    have hclean := h.clean
    refine ⟨?_, fun hcl => ?_, h.answered.enqueue _, fun other hother => ?_, fun p hp => ?_⟩
    · refine hsound.retain fun b => ⟨?_, ?_⟩
      · rintro ⟨-, p, hp, hb⟩
        cases hp
        exact Or.inr hb
      · rintro (hb | hb)
        · exact hb.elim
        · exact ⟨rfl, _, rfl, hb⟩
    · simp [Shared.enqueued, hopen] at hcl
    · have hne : other ≠ bucket := fun heq => hother _ rfl heq.symm
      simp only [Shared.enqueued, Shared.setBucket_of_ne _ _ _ hne]
      exact hclean other
    · cases hp
      refine ⟨hlen, ⟨out, by simp, by simp [Shared.enqueued], fun tokens ht => ?_, fun c hc => by cases hc⟩,
        fun which => ?_, ?_, fun _ => ?_, fun _ ht => ?_⟩
      · simp [Shared.enqueued, (hclean bucket).1] at ht
      · simp only [Shared.enqueued, Shared.setBucket_self, (hclean bucket).2, Finset.notMem_empty, false_iff]
        exact h.answered.not_served _ _
      · simpa [Shared.enqueued, (hclean bucket).2] using hpos
      · simp [Shared.enqueued, (hclean bucket).2]
      · simp [Shared.enqueued, (hclean bucket).1] at ht

/-! ### Selecting -/

omit [DecidableEq β] in
/-- The pending transients are released, and the pending entry keeps them. -/
theorem Inv.release (h : w.Inv k sel) {p : Pending β} (hp : w.host.proposal.pending = some p)
    (hspent : w.spent = false) :
    ({ w with host := w.host.release p, spent := !p.owned.isEmpty } : World k.users β Out Part).Inv k sel := by
  have hopen := h.waiting p hp
  refine ⟨?_, h.ended, h.answered, h.others, fun q hq => ?_⟩
  · refine h.sound.release (fun b hb => ⟨hspent, p, hp, hb⟩) fun b => ⟨?_, ?_⟩
    · rintro ⟨hs, q, hq, hb⟩
      cases hp.symm.trans hq
      have hnil : p.owned = [] := by simpa using hs
      rw [hnil] at hb
      cases hb
    · rintro ⟨⟨-, q, hq, hb⟩, hn⟩
      cases hp.symm.trans hq
      exact absurd hb hn
  · cases hp.symm.trans hq
    exact ⟨hopen.seeds, hopen.last, hopen.served, hopen.unfinished, hopen.unselected,
      fun hs _ => by simpa using hs⟩

/-- The users' own selection is kept, where nothing is left to release. -/
theorem Inv.setTokens (h : w.Inv k sel) {p : Pending β} (hp : w.host.proposal.pending = some p)
    {tokens : List (List Token)}
    (hsel : ∀ out, (w.host.proposal.buckets p.bucket).outputs = some out →
      ∃ parts, sel.readUsers out = .ok parts ∧ sel.selectPacked parts p.seeds (Shared.counts k) = .ok tokens)
    (hempty : w.spent = false → p.owned = []) :
    ({ w with host := { w.host with proposal := w.host.proposal.setTokens p tokens } } :
      World k.users β Out Part).Inv k sel := by
  have hopen := h.waiting p hp
  refine ⟨h.sound, h.ended, h.answered, fun bucket hb => ?_, fun q hq => ?_⟩
  · have hne : bucket ≠ p.bucket := fun heq => hb p hp heq.symm
    simp only [Shared.setTokens, Shared.setBucket_of_ne _ _ _ hne]
    exact h.others bucket hb
  · cases hp.symm.trans hq
    obtain ⟨out, hlast, hout, -, hcollected⟩ := hopen.last
    refine ⟨hopen.seeds, ⟨out, hlast, ?_, fun ts ht => ?_, hcollected⟩, fun which => ?_, ?_, fun ht => ?_,
      fun hs _ => hempty hs⟩
    · simpa [Shared.setTokens] using hout
    · simp only [Shared.setTokens, Shared.setBucket_self, Option.some.injEq] at ht
      exact ht ▸ hsel out hout
    · simpa [Shared.setTokens] using hopen.served which
    · simpa [Shared.setTokens] using hopen.unfinished
    · simp [Shared.setTokens] at ht

/-- What the first part of `finish` does. -/
theorem ensureTokens_cases (sel : Selector Out Part) (s : Hosted (Shared k.users β Out)) (p : Pending β)
    (r : Readback) :
    (∃ tokens, (s.proposal.buckets p.bucket).tokens = some tokens ∧
      Shared.ensureTokens k sel s p r = .ret s tokens) ∨
    (s.proposal.buckets p.bucket).tokens = none ∧
      ((∃ x, r.moved = .error x ∧ Shared.ensureTokens k sel s p r = .throw s x) ∨
      (∃ moved x, r.moved = .ok moved ∧ Shared.ensureTokens k sel s p r = .throw (s.release p) x) ∨
      ∃ moved tokens, r.moved = .ok moved ∧ Shared.selected k sel s.proposal p r = .ok tokens ∧
        Shared.ensureTokens k sel s p r =
          .ret { s.release p with proposal := s.proposal.setTokens p tokens } tokens) := by
  unfold Shared.ensureTokens
  cases ht : (s.proposal.buckets p.bucket).tokens with
  | some tokens => exact Or.inl ⟨tokens, rfl, rfl⟩
  | none =>
    refine Or.inr ⟨rfl, ?_⟩
    dsimp only
    rcases Call.attempt_cases r.moved s _ with ⟨x, hm, h⟩ | ⟨moved, hm, h⟩ <;> rw [h]
    · exact Or.inl ⟨x, hm, rfl⟩
    rcases Call.attempt_cases (raiseIf (moved = true) (.assertionError k.moved)) (s.release p) _ with
      ⟨x, -, h⟩ | ⟨u, -, h⟩ <;> rw [h]
    · exact Or.inr (Or.inl ⟨moved, x, hm, rfl⟩)
    rcases Call.attempt_cases (Shared.selected k sel s.proposal p r) (s.release p) _ with
      ⟨x, -, h⟩ | ⟨tokens, hsel, h⟩ <;> rw [h]
    · exact Or.inr (Or.inl ⟨moved, x, hm, rfl⟩)
    · exact Or.inr (Or.inr ⟨moved, tokens, hm, hsel, rfl⟩)

omit [DecidableEq β] in
/-- What `finish` selects from the outputs is what `select_packed` selects from what is read of them. -/
theorem selected_packed {t : Shared k.users β Out} {p : Pending β} {r : Readback} {tokens : List (List Token)}
    (h : Shared.selected k sel t p r = .ok tokens) {out : Out} (hout : (t.buckets p.bucket).outputs = some out) :
    ∃ parts, sel.readUsers out = .ok parts ∧ sel.selectPacked parts p.seeds (Shared.counts k) = .ok tokens := by
  unfold Shared.selected at h
  rw [hout] at h
  obtain ⟨-, -, h⟩ := bind_ok h
  obtain ⟨parts, hparts, h⟩ := bind_ok h
  obtain ⟨-, -, h⟩ := bind_ok h
  exact ⟨parts, hparts, h⟩

/-- The first part of `finish` keeps what a run keeps; where it returns, its tokens are those of the bucket. -/
theorem Inv.ensure (h : w.Inv k sel) {p : Pending β} (hp : w.host.proposal.pending = some p)
    (hcare : (w.host.proposal.buckets p.bucket).tokens = none → w.spent = false) (r : Readback) :
    ({ w with host := (Shared.ensureTokens k sel w.host p r).obj, spent := w.spent || w.releases r } :
      World k.users β Out Part).Inv k sel ∧
    ∀ tokens, (Shared.ensureTokens k sel w.host p r).result = .ok tokens →
      (Shared.ensureTokens k sel w.host p r).obj.proposal.pending = some p ∧
      ((Shared.ensureTokens k sel w.host p r).obj.proposal.buckets p.bucket).tokens = some tokens ∧
      ((Shared.ensureTokens k sel w.host p r).obj.proposal.buckets p.bucket).consumed =
        (w.host.proposal.buckets p.bucket).consumed := by
  rcases ensureTokens_cases sel w.host p r with
    ⟨tokens, ht, hc⟩ | ⟨ht, ⟨x, hm, hc⟩ | ⟨moved, x, hm, hc⟩ | ⟨moved, tokens, hm, hsel, hc⟩⟩ <;> rw [hc]
  · have hrel : w.releases r = false := by simp [releases, hp, ht]
    rw [hrel, Bool.or_false]
    refine ⟨h, fun ts hts => ?_⟩
    cases hts
    exact ⟨hp, ht, rfl⟩
  · have hrel : w.releases r = false := by simp [releases, hm]; split <;> simp [Except.toOption]
    rw [hrel, Bool.or_false]
    exact ⟨h, fun ts hts => by cases hts⟩
  · have hrel : (w.spent || w.releases r) = !p.owned.isEmpty := by
      simp [releases, hp, ht, hm, hcare ht, Except.toOption]
    rw [hrel]
    exact ⟨h.release hp (hcare ht), fun ts hts => by cases hts⟩
  · have hrel : (w.spent || w.releases r) = !p.owned.isEmpty := by
      simp [releases, hp, ht, hm, hcare ht, Except.toOption]
    rw [hrel]
    refine ⟨(h.release hp (hcare ht)).setTokens hp (fun out hout => selected_packed hsel hout) fun hs => ?_,
      fun ts hts => ?_⟩
    · simpa using hs
    · cases hts
      exact ⟨hp, by simp [Shared.setTokens], by simp [Shared.setTokens]⟩

/-! ### Answering -/

/-- A user that was not answered yet is given its own selection; after the last user nothing is pending. -/
theorem Inv.consume (h : w.Inv k sel) {p : Pending β} (hp : w.host.proposal.pending = some p)
    {tokens : List (List Token)} (ht : (w.host.proposal.buckets p.bucket).tokens = some tokens) (which : Fin k.users)
    (count : Nat) :
    ∃ ts, Shared.own tokens which = .ok ts ∧
      ({ w with
        host := { w.host with proposal := w.host.proposal.consume p which }
        log := w.log.answer (.ok (ts.take count)) which count (w.expected which) } :
          World k.users β Out Part).Inv k sel := by
  have hopen := h.waiting p hp
  obtain ⟨out, hlast, hout, hown, hcollected⟩ := hopen.last
  obtain ⟨parts, hparts, hsel⟩ := hown tokens ht
  obtain ⟨seed, ts, hseed, hts, hmine⟩ := own_of_selected hparts hsel which.isLt
  refine ⟨ts, hts, ?_⟩
  have hprepared : w.log.prepared ≠ [] := fun hnil => by rw [hnil] at hlast; cases hlast
  have hempty : w.spent = false → p.owned = [] := fun hs => hopen.emptied hs (Or.inl (by rw [ht]; simp))
  by_cases hin : which ∈ (w.host.proposal.buckets p.bucket).consumed
  · -- a user that was already answered: the answer is not due, and nothing changes
    have hexp : w.expected which = none := by simp [expected, hp, hin]
    have hcons : w.host.proposal.consume p which = w.host.proposal := by
      have hne : (w.host.proposal.buckets p.bucket).consumed.card ≠ k.users := Nat.ne_of_lt hopen.unfinished
      unfold Shared.consume Shared.setBucket
      simp only [Finset.insert_eq_of_mem hin, if_neg hne]
      exact congrArg (fun b => { w.host.proposal with buckets := b }) (Function.update_eq_self _ _)
    have hdue : (w.log.answer (.ok (ts.take count)) which count none).due = w.log.due := Log.due_unasked _ _ rfl
    rw [hexp, hcons]
    refine ⟨h.sound, h.ended, ⟨?_, ?_⟩, h.others, fun q hq => ?_⟩
    · rw [hdue]; exact h.answered.once
    · rw [hdue]; exact h.answered.own
    · have hq' := h.waiting q hq
      refine ⟨hq'.seeds, hq'.last, fun other => (hq'.served other).trans ?_, hq'.unfinished, hq'.unselected,
        hq'.emptied⟩
      unfold Log.Served
      rw [hdue]
      rfl
  · have hexp : w.expected which = some seed := by simp [expected, hp, hin, hseed]
    have hnew : ¬w.log.Served which.val := fun hs => hin ((hopen.served which).mpr hs)
    have hanswered := h.answered.answer count hlast hseed hmine hnew
    have hcard : (insert which (w.host.proposal.buckets p.bucket).consumed).card =
        (w.host.proposal.buckets p.bucket).consumed.card + 1 := Finset.card_insert_of_notMem hin
    have hlog : w.log.answer (.ok (ts.take count)) which count (some seed) =
        { w.log with answers := w.log.answers ++
          [⟨w.log.prepared.length - 1, which, count, some seed, ts.take count⟩] } := rfl
    rw [hexp, hlog]
    unfold Shared.consume
    by_cases hdone : (insert which (w.host.proposal.buckets p.bucket).consumed).card = k.users
    · simp only [if_pos hdone]
      refine inv_of_none rfl (fun bucket => ?_) (h.sound.held fun b => ⟨False.elim, ?_⟩) hanswered
      · by_cases hb : bucket = p.bucket
        · subst hb
          rw [Shared.setBucket_self]
          exact ⟨rfl, rfl⟩
        · rw [Shared.setBucket_of_ne _ _ _ hb]
          exact h.others bucket fun q hq => by cases hp.symm.trans hq; exact Ne.symm hb
      · rintro ⟨hs, q, hq, hb⟩
        cases hp.symm.trans hq
        rw [hempty hs] at hb
        cases hb
    · simp only [if_neg hdone]
      refine ⟨h.sound, h.ended, hanswered, fun bucket hb => ?_, fun q hq => ?_⟩
      · have hne : bucket ≠ p.bucket := fun heq => hb p hp heq.symm
        rw [Shared.setBucket_of_ne _ _ _ hne]
        exact h.others bucket hb
      · cases hp.symm.trans hq
        refine ⟨hopen.seeds, ⟨out, hlast, by simpa using hout, by simpa using hown, hcollected⟩, fun other => ?_, ?_,
          fun hnone => ?_, fun hs _ => hempty hs⟩
        · rw [Shared.setBucket_self, Finset.mem_insert, Log.served_answer _ hprepared, ← hopen.served other,
            or_comm, Fin.ext_iff]
        · have := hopen.unfinished
          simp only [Shared.setBucket_self]
          omega
        · simp [ht] at hnone

theorem Inv.finish (h : w.Inv k sel) (which : Fin k.users) (count : Nat) (r : Readback)
    (hcare : w.Careful (.finish which count r)) : (w.apply k sel (.finish which count r)).Inv k sel := by
  change (w.finished which count r (Shared.finish k sel w.host which count r)).Inv k sel
  unfold Shared.finish
  cases hp : w.host.proposal.pending with
  | none =>
    have hrel : w.releases r = false := by simp [releases, hp]
    simp only [finished, Call.throw_obj, Call.throw_result, hrel, Bool.or_false]
    exact h
  | some p =>
    obtain ⟨hens, hok⟩ := h.ensure hp (hcare p hp) r
    dsimp only
    rcases Call.bind_cases (Shared.ensureTokens k sel w.host p r) _ with ⟨x, -, hc⟩ | ⟨tokens, ht, hc⟩ <;> rw [hc]
    · exact hens
    · obtain ⟨hp', ht', hcons⟩ := hok tokens ht
      obtain ⟨ts, hts, hinv⟩ := hens.consume hp' ht' which count
      have hexp : (({ w with host := (Shared.ensureTokens k sel w.host p r).obj, spent := w.spent || w.releases r } :
          World k.users β Out Part).expected which) = w.expected which := by
        simp only [expected, hp, hp', hcons, Option.bind_some]
      rw [hexp] at hinv
      rw [hts, Call.attempt_ok]
      exact hinv

/-! ### Collecting -/

omit [DecidableEq β] in
/-- What `collect` does. -/
theorem collect_cases (sel : Selector Out Part) (s : Hosted (Shared k.users β Out)) (r : Readback) :
    (∃ x, (∀ p, s.proposal.pending = some p → s.proposal.taken p) ∧ Shared.collect k sel s r = .throw s x) ∨
    ∃ p, s.proposal.pending = some p ∧ ¬s.proposal.taken p ∧
      ((∃ x, r.moved = .error x ∧ Shared.collect k sel s r = .throw (Shared.emptied s p) x) ∨
      (∃ x, Shared.collect k sel s r = .throw ((Shared.emptied s p).release p) x) ∨
      ∃ parts, Shared.readBack k sel s.proposal p r = .ok parts ∧
        Shared.collect k sel s r = .ret ((Shared.emptied s p).release p) ⟨parts, p.seeds, Shared.counts k⟩) := by
  unfold Shared.collect
  cases hp : s.proposal.pending with
  | none => exact Or.inl ⟨_, fun p hp' => (by cases hp'), rfl⟩
  | some p =>
    dsimp only
    rcases Call.attempt_cases (raiseIf (s.proposal.taken p) (.valueError k.selected)) s _ with
      ⟨x, hx, h⟩ | ⟨u, hu, h⟩ <;> rw [h]
    · refine Or.inl ⟨x, fun q hq => ?_, rfl⟩
      cases hq
      by_contra hn
      rw [raiseIf_ok (u := ()) |>.mpr hn] at hx
      cases hx
    refine Or.inr ⟨p, rfl, raiseIf_ok.mp hu, ?_⟩
    rcases Call.attempt_cases r.moved (Shared.emptied s p) _ with ⟨x, hm, h⟩ | ⟨moved, hm, h⟩ <;> rw [h]
    · exact Or.inl ⟨x, hm, rfl⟩
    refine Or.inr ?_
    rcases Call.attempt_cases (raiseIf (moved = true) (.assertionError k.moved)) ((Shared.emptied s p).release p) _ with
      ⟨x, -, h⟩ | ⟨u, -, h⟩ <;> rw [h]
    · exact Or.inl ⟨x, rfl⟩
    rcases Call.attempt_cases (Shared.readBack k sel s.proposal p r) ((Shared.emptied s p).release p) _ with
      ⟨x, -, h⟩ | ⟨parts, hparts, h⟩ <;> rw [h]
    · exact Or.inl ⟨x, rfl⟩
    · exact Or.inr ⟨parts, hparts, rfl⟩

omit [DecidableEq β] in
/-- The transients are released and the pending entry keeps none; `collected` may be what was read of the outputs. -/
theorem Inv.empty (h : w.Inv k sel) {p : Pending β} (hp : w.host.proposal.pending = some p) (hspent : w.spent = false)
    {collected : Option (Collected Part)}
    (hcol : ∀ c, collected = some c → w.collected = some c ∨ c.seeds = p.seeds ∧ c.counts = Shared.counts k ∧
      ∀ out, (w.host.proposal.buckets p.bucket).outputs = some out → sel.readUsers out = .ok c.parts) :
    ({ w with host := (Shared.emptied w.host p).release p, collected } : World k.users β Out Part).Inv k sel := by
  have hopen := h.waiting p hp
  refine ⟨?_, fun hcl => ?_, h.answered, fun bucket hb => h.others bucket fun q hq => ?_, fun q hq => ?_⟩
  · refine h.sound.release (fun b hb => ⟨hspent, p, hp, hb⟩) fun b => ⟨?_, ?_⟩
    · rintro ⟨-, q, hq, hb⟩
      cases hq
      cases hb
    · rintro ⟨⟨-, q, hq, hb⟩, hn⟩
      cases hp.symm.trans hq
      exact absurd hb hn
  · have hnone := h.ended hcl
    rw [hp] at hnone
    cases hnone
  · cases hp.symm.trans hq
    exact hb ⟨p.seeds, p.bucket, []⟩ rfl
  · cases hq
    obtain ⟨out, hlast, hout, hown, hcollected⟩ := hopen.last
    refine ⟨hopen.seeds, ⟨out, hlast, hout, hown, fun c hc => ?_⟩, hopen.served, hopen.unfinished, hopen.unselected,
      fun _ _ => rfl⟩
    rcases hcol c hc with hold | ⟨hseeds, hcounts, hparts⟩
    · exact hcollected c hold
    · exact ⟨hparts out hout, hseeds, hcounts⟩

omit [DecidableEq β] in
theorem emptied_of_nil {s : Hosted (Shared users β Out)} {p : Pending β} (hp : s.proposal.pending = some p)
    (hnil : p.owned = []) : Shared.emptied s p = s := by
  have hsame : ({ p with owned := [] } : Pending β) = p := by rw [← hnil]
  unfold Shared.emptied
  rw [hsame, ← hp]

theorem Inv.collect (h : w.Inv k sel) (r : Readback) (hcare : w.Careful (.collect r)) :
    (w.apply k sel (.collect r)).Inv k sel := by
  change (w.gathered (Shared.collect k sel w.host r)).Inv k sel
  rcases collect_cases sel w.host r with
    ⟨x, -, hc⟩ | ⟨p, hp, htaken, ⟨x, hm, hc⟩ | ⟨x, hc⟩ | ⟨parts, hparts, hc⟩⟩ <;> rw [hc]
  · exact h
  · obtain ⟨-, hreads⟩ := hcare p hp htaken
    have hnil : p.owned = [] := by
      by_contra hne
      obtain ⟨moved, hok⟩ := hreads hne
      rw [hm] at hok
      cases hok
    rw [emptied_of_nil hp hnil]
    exact h
  · exact h.empty hp (hcare p hp htaken).1 fun c hc => Or.inl hc
  · refine h.empty hp (hcare p hp htaken).1 fun c hc => Or.inr ?_
    cases hc
    refine ⟨rfl, rfl, fun out hout => ?_⟩
    unfold Shared.readBack at hparts
    rw [hout] at hparts
    obtain ⟨-, -, hparts⟩ := bind_ok hparts
    exact hparts

/-- What `adopt` does. -/
theorem adopt_cases (s : Hosted (Shared k.users β Out)) (tokens : List (List Token)) :
    (∃ x, Shared.adopt k s tokens = .throw s x) ∨
    ∃ p, s.proposal.pending = some p ∧ ¬s.proposal.taken p ∧ tokens.length = k.users ∧
      Shared.adopt k s tokens = .ret { s with proposal := s.proposal.setTokens p tokens } () := by
  unfold Shared.adopt
  cases hp : s.proposal.pending with
  | none => exact Or.inl ⟨_, rfl⟩
  | some p =>
    dsimp only
    by_cases hc : s.proposal.taken p ∨ tokens.length ≠ k.users
    · rw [if_pos hc]; exact Or.inl ⟨_, rfl⟩
    · rw [if_neg hc]
      obtain ⟨h1, h2⟩ := not_or.mp hc
      exact Or.inr ⟨p, rfl, h1, not_not.mp h2, rfl⟩

theorem Inv.adopt (h : w.Inv k sel) (tokens : List (List Token)) (hallowed : w.Allowed k sel (.adopt tokens)) :
    (w.apply k sel (.adopt tokens)).Inv k sel := by
  change ({ w with host := (Shared.adopt k w.host tokens).obj } : World k.users β Out Part).Inv k sel
  rcases adopt_cases w.host tokens with ⟨x, hc⟩ | ⟨p, hp, htaken, hlen, hc⟩
  · rw [hc]; exact h
  · have hbatched : w.Batched sel tokens := hallowed (by rw [hc]; rfl)
    rw [hc]
    obtain ⟨c, before, after, all, hcol, hbefore, hafter, hbatch, rfl⟩ := hbatched
    obtain ⟨out, hlast, hout, hown, hcollected⟩ := (h.waiting p hp).last
    obtain ⟨hparts, hseeds, hcounts⟩ := hcollected c hcol
    refine h.setTokens hp (fun out' hout' => ?_) fun hs => (h.waiting p hp).emptied hs (Or.inr (by rw [hcol]; simp))
    cases hout.symm.trans hout'
    have heven : c.seeds.length = c.counts.length := by
      rw [hseeds, hcounts, (h.waiting p hp).seeds, Shared.counts, List.length_replicate]
    have hslice := Selector.batch_slice hbatch hbefore hafter heven
    rw [hseeds, hcounts] at hslice
    exact ⟨c.parts, hparts, hslice⟩

/-! ### Runs -/

theorem Inv.step (hpos : 0 < k.users) {op : Op k.users β Out} {w' : World k.users β Out Part} (h : w.Inv k sel)
    (hs : CarefulStep k sel w op w') : w'.Inv k sel := by
  obtain ⟨⟨rfl, hallowed⟩, hcare⟩ := hs
  cases op with
  | prepare seeds e =>
    obtain ⟨out, hout⟩ := hallowed
    exact h.prepare hcare hpos seeds hout
  | hasPending which seed => exact h
  | finish which count r => exact h.finish which count r hcare
  | collect r => exact h.collect r hcare
  | adopt tokens => exact h.adopt tokens hallowed
  | discardPending => exact h.discard hcare
  | close => exact h.close hcare

end Calls

theorem inv_init : (init : World k.users β Out Part).Inv k sel :=
  inv_of_none rfl (fun _ => ⟨rfl, rfl⟩) (Allocator.sound_init fun _ => id) Log.answered_nil

theorem Inv.kept (h : w.Inv k sel) :
    Kept (own k sel) k.users (w.host.proposal.closed = true) (w.host.proposal.pending = none) w.host.device w.log where
  once b := List.nodup_iff_count_le_one.mp h.sound.balanced.once b
  queued := h.sound.balanced.given
  ended := h.ended
  released hidle _ hb := h.sound.balanced.settled (not_held hidle) hb
  answered := h.answered
  settled _ hserved := by
    cases hp : w.host.proposal.pending with
    | none => rfl
    | some p =>
      have hopen := h.waiting p hp
      have hall : (w.host.proposal.buckets p.bucket).consumed = Finset.univ :=
        Finset.eq_univ_iff_forall.mpr fun which => (hopen.served which).mpr (hserved which which.isLt)
      have := hopen.unfinished
      rw [hall, Finset.card_univ, Fintype.card_fin] at this
      exact absurd this (Nat.lt_irrefl _)

end World

/-! ## A batched selection in place of one's own -/

namespace Shared

variable {β Out Part : Type} [DecidableEq β] {k : Kind} {sel : Selector Out Part}

/-- The users of a proposal finish, one after the other; each with the count it asks for. -/
def finishes (k : Kind) (sel : Selector Out Part) (s : Hosted (Shared k.users β Out)) :
    List (Fin k.users × Nat × Readback) → Hosted (Shared k.users β Out) × List (Except PyError (List Token))
  | [] => (s, [])
  | f :: fs =>
    let c := finish k sel s f.1 f.2.1 f.2.2
    ((finishes k sel c.obj fs).1, c.result :: (finishes k sel c.obj fs).2)

/-- The proposal without the transients that its pending entry names. -/
def forget {users : Nat} (s : Hosted (Shared users β Out)) : Hosted (Shared users β Out) :=
  { s with proposal := { s.proposal with pending := s.proposal.pending.map fun p => { p with owned := [] } } }

/-- Nothing raises on reading back. -/
def Clear (r : Readback) : Prop := r.moved = .ok false ∧ r.read = .ok () ∧ r.select = .ok ()

/-- What is pending was selected. -/
def Selected {users : Nat} (s : Hosted (Shared users β Out)) : Prop :=
  ∀ p, s.proposal.pending = some p → (s.proposal.buckets p.bucket).tokens ≠ none

/-- A user's `finish` of a selected proposal does not look at its transients. -/
theorem finish_forget (sel : Selector Out Part) {s : Hosted (Shared k.users β Out)} (hs : Selected s)
    (which : Fin k.users) (count : Nat) (r : Readback) :
    finish k sel (forget s) which count r = (finish k sel s which count r).onto forget ∧
      Selected (finish k sel s which count r).obj := by
  unfold finish
  cases hp : s.proposal.pending with
  | none =>
    have hp' : (forget s).proposal.pending = none := by simp [forget, hp]
    rw [hp']
    exact ⟨rfl, hs⟩
  | some p =>
    have hp' : (forget s).proposal.pending = some { p with owned := [] } := by simp [forget, hp]
    obtain ⟨tokens, ht⟩ := Option.ne_none_iff_exists'.mp (hs p hp)
    have h1 : ensureTokens k sel s p r = .ret s tokens := by unfold ensureTokens; rw [ht]
    have h2 : ensureTokens k sel (forget s) { p with owned := [] } r = .ret (forget s) tokens := by
      unfold ensureTokens
      rw [show ((forget s).proposal.buckets p.bucket).tokens = some tokens from ht]
    rw [hp']
    simp only [h1, h2, Call.bind_ret]
    rcases Call.attempt_cases (own tokens which) s
      (fun ts => Call.ret { s with proposal := s.proposal.consume p which } (ts.take count)) with
      ⟨x, hx, -⟩ | ⟨ts, hts, -⟩
    · rw [hx]
      exact ⟨rfl, hs⟩
    · rw [hts, Call.attempt_ok, Call.attempt_ok]
      unfold consume
      by_cases hdone : (insert which (s.proposal.buckets p.bucket).consumed).card = k.users
      · refine ⟨?_, fun q hq => ?_⟩
        · simp [forget, Call.onto, Call.ret, setBucket, hdone]
        · simp [hdone] at hq
      · refine ⟨?_, fun q hq => ?_⟩
        · simp [forget, Call.onto, Call.ret, setBucket, hdone, hp]
        · simp only [Call.ret_obj, if_neg hdone, setBucket_pending] at hq
          cases hp.symm.trans hq
          simp [hdone, ht]

theorem finishes_forget {s : Hosted (Shared k.users β Out)} (hs : Selected s)
    (fs : List (Fin k.users × Nat × Readback)) :
    finishes k sel (forget s) fs = (forget (finishes k sel s fs).1, (finishes k sel s fs).2) := by
  induction fs generalizing s with
  | nil => rfl
  | cons f fs ih =>
    obtain ⟨h, hs'⟩ := finish_forget sel hs f.1 f.2.1 f.2.2
    simp only [finishes, h, Call.onto_obj, Call.onto_result, ih hs']

/-- The first `finish` of a proposal, where nothing raises, is a `finish` of the proposal selected. -/
theorem finish_selected {s : Hosted (Shared k.users β Out)} {p : Pending β} (hp : s.proposal.pending = some p)
    (hnone : (s.proposal.buckets p.bucket).tokens = none) {tokens : List (List Token)} {r : Readback} (hclear : Clear r)
    (hsel : selected k sel s.proposal p r = .ok tokens) (which : Fin k.users) (count : Nat) :
    finish k sel s which count r =
      finish k sel { s.release p with proposal := s.proposal.setTokens p tokens } which count r := by
  have h1 : ensureTokens k sel s p r =
      .ret { s.release p with proposal := s.proposal.setTokens p tokens } tokens := by
    unfold ensureTokens
    rw [hnone]
    dsimp only
    rw [hclear.1, Call.attempt_ok, show raiseIf (false = true) _ = .ok () from rfl, Call.attempt_ok, hsel,
      Call.attempt_ok]
  have h2 : ensureTokens k sel { s.release p with proposal := s.proposal.setTokens p tokens } p r =
      .ret { s.release p with proposal := s.proposal.setTokens p tokens } tokens := by
    unfold ensureTokens
    rw [show ((s.proposal.setTokens p tokens).buckets p.bucket).tokens = some tokens by simp [setTokens]]
  unfold finish
  rw [show (s.proposal.setTokens p tokens).pending = some p from hp, hp]
  simp only [h1, h2]

/-- **`collect`, `adopt` of the batched selection and `finish` give what `finish` alone gives**: to every user, however
the users finish, and with the same transients released. -/
theorem finishes_adopted {s s₁ s₂ : Hosted (Shared k.users β Out)} {p : Pending β} {r : Readback} {c : Collected Part}
    {tokens : List (List Token)} (hp : s.proposal.pending = some p) (hseeds : p.seeds.length = k.users)
    (hcollect : collect k sel s r = .ret s₁ c) {before after : List (Collected Part)} {all : List (List Token)}
    (hbefore : ∀ d ∈ before, d.Even) (hafter : ∀ d ∈ after, d.Even)
    (hbatch : sel.batch (before ++ c :: after) = .ok all)
    (htokens : tokens = (all.drop (before.flatMap (·.parts)).length).take c.parts.length)
    (hadopt : adopt k s₁ tokens = .ret s₂ ()) (which : Fin k.users) (count : Nat) {r' : Readback} (hclear : Clear r')
    (fs : List (Fin k.users × Nat × Readback)) :
    finishes k sel s₂ ((which, count, r') :: fs) =
      (forget (finishes k sel s ((which, count, r') :: fs)).1, (finishes k sel s ((which, count, r') :: fs)).2) := by
  rcases World.collect_cases sel s r with
    ⟨x, -, hc⟩ | ⟨q, hq, htaken, ⟨x, -, hc⟩ | ⟨x, hc⟩ | ⟨parts, hparts, hc⟩⟩ <;> rw [hc] at hcollect
  · cases hcollect
  · cases hcollect
  · cases hcollect
  cases hp.symm.trans hq
  cases hcollect
  rcases World.adopt_cases ((emptied s p).release p) tokens with ⟨x, ha⟩ | ⟨q, hq', -, -, ha⟩ <;> rw [ha] at hadopt
  · cases hadopt
  cases hq'
  cases hadopt
  have hnone : (s.proposal.buckets p.bucket).tokens = none := by
    by_contra hne
    exact htaken (Or.inl hne)
  have hslice := Selector.batch_slice hbatch hbefore hafter (by
    rw [hseeds, counts, List.length_replicate])
  rw [← htokens] at hslice
  have hsel : selected k sel s.proposal p r' = .ok tokens := by
    unfold readBack at hparts
    unfold selected
    cases hout : (s.proposal.buckets p.bucket).outputs with
    | none => rw [hout] at hparts; cases hparts
    | some out =>
      rw [hout] at hparts
      obtain ⟨-, -, hparts⟩ := bind_ok hparts
      simp only [Selector.selectOutputs, hclear.2.1, hclear.2.2, hparts]
      exact hslice
  have hselected : Selected ({ s.release p with proposal := s.proposal.setTokens p tokens } :
      Hosted (Shared k.users β Out)) := by
    intro q hq
    cases hp.symm.trans hq
    simp [setTokens]
  have hforget : forget ({ s.release p with proposal := s.proposal.setTokens p tokens } :
      Hosted (Shared k.users β Out)) =
      { (emptied s p).release p with
        proposal := ((emptied s p).release p).proposal.setTokens ⟨p.seeds, p.bucket, []⟩ tokens } := by
    simp [forget, emptied, Hosted.release, setTokens, setBucket, hp]
  rw [← hforget, finishes_forget hselected]
  simp only [finishes, finish_selected hp hnone hclear hsel]

end Shared

/-! ## The claim -/

section Main

variable {β Out Part : Type} [DecidableEq β]

/-- **Main result.** In every run of a single proposal, and in every run of a pair or a quad whose caller is careful,
each transient is released once, each user is answered at most once between two `prepare_device`s and with its own
selection, and nothing is pending once all are answered, after `discard_pending` and after `close`; and adopting a
batched selection changes no answer. -/
theorem pending_answered_once (blockRows : Nat) (sel : Selector Out Part) :
    (∀ ops (w : Solo β Out), Run (Solo.Step sel) Solo.init ops w →
      Kept (Solo.own sel) 1 (w.host.proposal.closed = true) (w.host.proposal.pending = none) w.host.device w.log ∧
      (∀ seed, w.host.proposal.hasPending seed = true ↔ w.expected = some seed) ∧
      (w.apply sel .discardPending).host.proposal.pending = none) ∧
    ∀ k ∈ [PreparedPackedDFlashProposal.kind blockRows, PreparedQuadDFlashProposal.kind],
      (∀ ops (w : World k.users β Out Part), Run (World.CarefulStep k sel) World.init ops w →
        Kept (World.own k sel) k.users (w.host.proposal.closed = true) (w.host.proposal.pending = none) w.host.device
          w.log ∧
        (∀ which seed, w.host.proposal.hasPending which seed = true ↔ w.expected which = some seed) ∧
        (w.apply k sel .discardPending).host.proposal.pending = none) ∧
      ∀ (s s₁ s₂ : Hosted (Shared k.users β Out)) (p : Pending β) (r r' : Readback) (c : Collected Part)
        (before after : List (Collected Part)) (all : List (List Token)) (which : Fin k.users) (count : Nat)
        (fs : List (Fin k.users × Nat × Readback)),
        s.proposal.pending = some p → p.seeds.length = k.users →
        Shared.collect k sel s r = .ret s₁ c →
        (∀ d ∈ before, d.Even) → (∀ d ∈ after, d.Even) → sel.batch (before ++ c :: after) = .ok all →
        Shared.adopt k s₁ ((all.drop (before.flatMap (·.parts)).length).take c.parts.length) = .ret s₂ () →
        Shared.Clear r' →
        Shared.finishes k sel s₂ ((which, count, r') :: fs) =
          (Shared.forget (Shared.finishes k sel s ((which, count, r') :: fs)).1,
            (Shared.finishes k sel s ((which, count, r') :: fs)).2) := by
  refine ⟨fun ops w hrun => ?_, fun k hk => ⟨fun ops w hrun => ?_, ?_⟩⟩
  · have hinv : w.Inv sel := hrun.invariant_state Solo.inv_init fun h hs => h.step hs
    exact ⟨hinv.kept, Solo.hasPending_iff hinv, Solo.discardPending_pending w.host⟩
  · have hpos : 0 < k.users := by
      simp only [List.mem_cons, List.not_mem_nil, or_false] at hk
      rcases hk with rfl | rfl <;> exact Nat.succ_pos _
    have hinv : w.Inv k sel := hrun.invariant_state World.inv_init fun h hs => h.step hpos hs
    exact ⟨hinv.kept, World.hasPending_iff w, World.discardPending_pending w.host⟩
  · intro s s₁ s₂ p r r' c before after all which count fs hp hseeds hcollect hbefore hafter hbatch hadopt hclear
    exact Shared.finishes_adopted hp hseeds hcollect hbefore hafter hbatch rfl hadopt which count hclear fs

end Main

/-- A head that always proposes the same tokens. -/
def sampleSelector : Selector Unit Unit :=
  ⟨fun _ => .ok (), fun _ => .ok [(), ()], fun _ => 15, fun _ _ => .ok (List.replicate 15 7)⟩

/-- An attempt that queues one transient. -/
def sampleEnqueue : Enqueue Unit Unit := ⟨false, .ok (), .ok (), [100], .ok (), .ok ()⟩

/-- A readback that does not raise. -/
def sampleReadback : Readback := ⟨.ok false, .ok (), .ok ()⟩

/-- A pair. -/
abbrev samplePair : Kind := PreparedPackedDFlashProposal.kind 16

/-- The world after some calls. -/
def samplePairAfter (ops : List (Op 2 Unit Unit)) : World 2 Unit Unit Unit :=
  ops.foldl (World.apply samplePair sampleSelector) World.init

/-- A single proposal that is prepared, answered and closed. -/
def sampleSolo : List (SoloOp Unit Unit) := [.prepare 5 sampleEnqueue, .finish 3 sampleReadback, .close]

theorem sampleSolo_run :
    Run (Solo.Step sampleSelector) Solo.init sampleSolo (sampleSolo.foldl (Solo.apply sampleSelector) Solo.init) :=
  (((Run.nil.snoc ⟨rfl, fun _ _ h => by cases h; exact ⟨(), rfl⟩⟩).snoc ⟨rfl, fun _ _ h => by cases h⟩).snoc
    ⟨rfl, fun _ _ h => by cases h⟩ : Run _ _ [_, _, _] _)

/-- A pair that is collected, whose users are answered from the batched selection, and that is closed. -/
def sampleCareful : List (Op 2 Unit Unit) :=
  [.prepare [5, 6] sampleEnqueue, .collect sampleReadback, .adopt [List.replicate 15 7, List.replicate 15 7],
    .finish Side.a.index 3 sampleReadback, .finish Side.b.index 3 sampleReadback, .close]

theorem sampleCareful_run :
    Run (World.CarefulStep samplePair sampleSelector) World.init sampleCareful (samplePairAfter sampleCareful) := by
  have hbatched : World.Batched sampleSelector (samplePairAfter (sampleCareful.take 2))
      [List.replicate 15 7, List.replicate 15 7] :=
    ⟨⟨[(), ()], [5, 6], [15, 15]⟩, [], [], [List.replicate 15 7, List.replicate 15 7], rfl,
      fun d hd => (List.not_mem_nil hd).elim, fun d hd => (List.not_mem_nil hd).elim, rfl, rfl⟩
  have h1 := (Run.nil : Run (World.CarefulStep samplePair sampleSelector) World.init [] _).snoc
    (l := Op.prepare [5, 6] sampleEnqueue) ⟨⟨rfl, (), rfl⟩, Or.inl rfl⟩
  have h2 := h1.snoc (l := Op.collect sampleReadback)
    ⟨⟨rfl, trivial⟩, fun p _ _ => ⟨rfl, fun _ => ⟨false, rfl⟩⟩⟩
  have h3 := h2.snoc (l := Op.adopt [List.replicate 15 7, List.replicate 15 7])
    ⟨⟨rfl, fun _ => hbatched⟩, trivial⟩
  have h4 := h3.snoc (l := Op.finish Side.a.index 3 sampleReadback) ⟨⟨rfl, trivial⟩, fun _ _ _ => rfl⟩
  have h5 := h4.snoc (l := Op.finish Side.b.index 3 sampleReadback) ⟨⟨rfl, trivial⟩, fun _ _ _ => rfl⟩
  exact h5.snoc (l := Op.close) ⟨⟨rfl, trivial⟩, Or.inr rfl⟩

theorem pending_answered_once_sample :
    (sampleSolo.foldl (Solo.apply sampleSelector) Solo.init).host.device.ledger.given.count ⟨0, 100⟩ = 1 ∧
      (samplePairAfter sampleCareful).host.device.ledger.given.count ⟨0, 100⟩ = 1 :=
  ⟨((pending_answered_once 16 sampleSelector).1 _ _ sampleSolo_run).1.released rfl _ (by decide),
    (((pending_answered_once 16 sampleSelector).2 samplePair List.mem_cons_self).1 _ _ sampleCareful_run).1.released
      rfl _ (by decide)⟩

/-- A pair that is prepared, answered for one user by `finish` alone, and discarded. -/
def sampleLeft : List (Op 2 Unit Unit) :=
  [.prepare [5, 6] sampleEnqueue, .finish Side.a.index 3 sampleReadback, .discardPending]

/-- **A pair whose second user does not finish releases its transients twice.** -/
theorem pair_released_twice :
    ¬∀ (ops : List (Op 2 Unit Unit)) (w : World 2 Unit Unit Unit),
      Run (World.Step samplePair sampleSelector) World.init ops w → ∀ b, w.host.device.ledger.given.count b ≤ 1 := by
  intro h
  have h1 := (Run.nil : Run (World.Step samplePair sampleSelector) World.init [] _).snoc
    (l := Op.prepare [5, 6] sampleEnqueue) ⟨rfl, (), rfl⟩
  have h2 := h1.snoc (l := Op.finish Side.a.index 3 sampleReadback) ⟨rfl, trivial⟩
  have h3 := h2.snoc (l := Op.discardPending) ⟨rfl, trivial⟩
  have htwice : (samplePairAfter sampleLeft).host.device.ledger.given.count ⟨0, 100⟩ = 2 := by decide
  have honce := h _ _ h3 ⟨0, 100⟩
  change (samplePairAfter sampleLeft).host.device.ledger.given.count ⟨0, 100⟩ ≤ 1 at honce
  omega

end BlackholeQwen.Dflash.Proposal
