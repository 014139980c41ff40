import BlackholeQwen.Packed.Guard

/-!
# Two readings of one round

- `Paired R us vs`: two lists of users hold a user at the same segments, and `R` relates what they hold there.
- `Paired.kvUsers`, `Paired.fillIdle`: owners read in two ways give paired users, and so does filling the idle segments.
- `Transfer R`: what `R` relates has the same positions, the same of them mapped, and the same pairs in common. Such
  readings are accepted alike (`Paired.guard`, `kvGuard_congr`). `Refines R` is the half of it that a round which the
  guard accepted needs (`kvGuard_refines`).
-/

namespace BlackholeQwen.Packed

open Lib
open PackedBlock (liveSegments)

/-! ## Paired users -/

/-- Two lists with a user at the same segments, and related there. -/
structure Paired (R : Nat → User → User → Prop) (us vs : List (Option User)) : Prop where
  length : us.length = vs.length
  segment : ∀ i < us.length, (us[i]? = some none ∧ vs[i]? = some none) ∨
    ∃ u v, us[i]? = some (some u) ∧ vs[i]? = some (some v) ∧ R i u v

variable {R : Nat → User → User → Prop} {us vs : List (Option User)}

theorem Paired.replicate (n : Nat) : Paired R (List.replicate n none) (List.replicate n none) := by
  refine ⟨rfl, fun i hi => Or.inl ?_⟩
  rw [List.length_replicate] at hi
  simp [hi]

theorem Paired.set (h : Paired R us vs) {s : Nat} {u v : User} (hR : R s u v) :
    Paired R (us.set s (some u)) (vs.set s (some v)) := by
  refine ⟨by simp [h.length], fun i hi => ?_⟩
  rw [List.length_set] at hi
  by_cases his : s = i
  · subst his
    have hv : s < vs.length := h.length ▸ hi
    exact Or.inr ⟨u, v, by rw [List.getElem?_set_self hi], by rw [List.getElem?_set_self hv], hR⟩
  · rw [List.getElem?_set_ne his, List.getElem?_set_ne his]
    exact h.segment i hi

/-- Reading the other way round. -/
theorem Paired.symm (h : Paired R us vs) : Paired (fun i u v => R i v u) vs us := by
  refine ⟨h.length.symm, fun i hi => ?_⟩
  rcases h.segment i (h.length ▸ hi) with ⟨hu, hv⟩ | ⟨u, v, hu, hv, hR⟩
  · exact Or.inl ⟨hv, hu⟩
  · exact Or.inr ⟨v, u, hv, hu, hR⟩

/-- A user of the first list has a partner. -/
theorem Paired.partner (h : Paired R us vs) {i : Nat} {u : User} (hu : us[i]? = some (some u)) :
    ∃ v, vs[i]? = some (some v) ∧ R i u v := by
  rcases h.segment i (List.getElem?_eq_some_iff.mp hu).1 with ⟨hn, -⟩ | ⟨u', v, hu', hv, hR⟩
  · rw [hn] at hu; cases hu
  · rw [hu'] at hu
    cases hu
    exact ⟨v, hv, hR⟩

/-- The segments without a user are the same. -/
theorem Paired.none_iff (h : Paired R us vs) (i : Nat) : us[i]? = some none ↔ vs[i]? = some none := by
  by_cases hi : i < us.length
  · rcases h.segment i hi with ⟨hu, hv⟩ | ⟨u, v, hu, hv, -⟩
    · simp [hu, hv]
    · simp [hu, hv]
  · rw [List.getElem?_eq_none (by omega), List.getElem?_eq_none (by rw [← h.length]; omega)]

theorem Paired.none_mem (h : Paired R us vs) : none ∈ us ↔ none ∈ vs := by
  rw [List.mem_iff_getElem?, List.mem_iff_getElem?]
  exact exists_congr h.none_iff

theorem Paired.any (h : Paired R us vs) : us.any Option.isNone = vs.any Option.isNone := by
  rw [Bool.eq_iff_iff, any_isNone, any_isNone]
  exact h.none_mem

/-- The live segments are the same. -/
theorem Paired.live (h : Paired R us vs) : liveSegments us = liveSegments vs := by
  have hunit : us.map (Option.map fun _ => ()) = vs.map (Option.map fun _ => ()) := by
    refine List.ext_getElem? fun i => ?_
    rw [List.getElem?_map, List.getElem?_map]
    by_cases hi : i < us.length
    · rcases h.segment i hi with ⟨hu, hv⟩ | ⟨u, v, hu, hv, -⟩
      · rw [hu, hv]
      · rw [hu, hv]; rfl
    · rw [List.getElem?_eq_none (by omega), List.getElem?_eq_none (by rw [← h.length]; omega)]
  have hmap : ∀ xs : List (Option User), liveSegments (xs.map (Option.map fun _ => ())) = liveSegments xs := by
    intro xs
    unfold liveSegments
    rw [List.zipIdx_map, List.filter_map, List.map_map]
    congr 1
    refine List.filter_congr fun p _ => ?_
    simp
  rw [← hmap us, ← hmap vs, hunit]

/-- Owners read in two ways give paired users, or are refused alike. -/
theorem Paired.kvUsers {b : PackedBlock} {sentinels sentinels' : Bool} {os os' : List (Engine × Nat)}
    (hos : List.Forall₂ (fun o o' => b.segmentOf o.1 = b.segmentOf o'.1 ∧ ∀ s, b.segmentOf o.1 = .ok s →
      R s (b.ownerUser sentinels o s) (b.ownerUser sentinels' o' s)) os os') :
    ∀ {us vs : List (Option User)}, Paired R us vs →
      (∃ e, b.kvUsers sentinels os us = .error e ∧ b.kvUsers sentinels' os' vs = .error e) ∨
        ∃ us' vs', b.kvUsers sentinels os us = .ok us' ∧ b.kvUsers sentinels' os' vs = .ok vs' ∧ Paired R us' vs' := by
  induction hos with
  | nil => intro us vs h; exact Or.inr ⟨us, vs, rfl, rfl, h⟩
  | @cons o o' os os' ho _ ih =>
    intro us vs h
    unfold PackedBlock.kvUsers
    rw [← ho.1]
    cases hs : b.segmentOf o.1 with
    | error e => exact Or.inl ⟨e, rfl, rfl⟩
    | ok s => exact ih (h.set (ho.2 s hs))

/-- Filling the idle segments keeps users paired. -/
theorem Paired.fillIdle {b : PackedBlock} {fills : List (Nat × Idle)}
    (hR : ∀ f ∈ fills, R f.1 (b.idleUser f.2) (b.idleUser f.2)) :
    ∀ {us vs : List (Option User)}, Paired R us vs → Paired R (b.fillIdle us fills) (b.fillIdle vs fills) := by
  unfold PackedBlock.fillIdle
  induction fills with
  | nil => intro us vs h; exact h
  | cons f fs ih =>
    intro us vs h
    exact ih (fun g hg => hR g (List.mem_cons_of_mem _ hg)) (h.set (hR f List.mem_cons_self))

/-! ## Readings accepted alike -/

/-- What is related has the same positions, the same of them mapped, and the same pairs in common with others. -/
structure Transfer (R : Nat → User → User → Prop) : Prop where
  positions : ∀ {i u v}, R i u v → u.1 = v.1
  row : ∀ {i u v}, R i u v → ((∃ row, firstRow u.2 = .ok row) ↔ ∃ row, firstRow v.2 = .ok row)
  mapped : ∀ {i u v}, R i u v → ∀ p ∈ u.1, (∃ key, userKey u p = .ok key) ↔ ∃ key, userKey v p = .ok key
  shared : ∀ {i j u v u' v'}, i ≠ j → R i u v → R j u' v' → ∀ p ∈ u.1, ∀ q ∈ u'.1,
    (userKey u p = userKey u' q ↔ userKey v p = userKey v' q)

theorem Transfer.symm (h : Transfer R) : Transfer (fun i u v => R i v u) := by
  refine ⟨fun hR => (h.positions hR).symm, fun hR => (h.row hR).symm, fun hR p hp => ?_, ?_⟩
  · exact (h.mapped hR p ((h.positions hR).symm ▸ hp)).symm
  · intro i j u v u' v' hne hR hR' p hp q hq
    exact (h.shared hne hR hR' p ((h.positions hR).symm ▸ hp) q ((h.positions hR').symm ▸ hq)).symm

/-- What is related has the same positions; the second maps every row that the first does, and shares no pair with
another that the first does not. -/
structure Refines (R : Nat → User → User → Prop) : Prop where
  positions : ∀ {i u v}, R i u v → u.1 = v.1
  row : ∀ {i u v}, R i u v → (∃ row, firstRow u.2 = .ok row) → ∃ row, firstRow v.2 = .ok row
  mapped : ∀ {i u v}, R i u v → ∀ p ∈ u.1, (∃ key, userKey u p = .ok key) → ∃ key, userKey v p = .ok key
  shared : ∀ {i j u v u' v'}, i ≠ j → R i u v → R j u' v' → ∀ p ∈ u.1, ∀ q ∈ u'.1,
    userKey v p = userKey v' q → userKey u p = userKey u' q

theorem Transfer.refines (h : Transfer R) : Refines R :=
  ⟨h.positions, fun hR => (h.row hR).mp, fun hR p hp => (h.mapped hR p hp).mp,
    fun hne hR hR' p hp q hq => (h.shared hne hR hR' p hp q hq).mpr⟩

theorem Paired.clear (h : Paired R us vs) (ht : Refines R) (hclear : Clear us) : Clear vs := by
  obtain ⟨hmapped, hsep⟩ := hclear
  refine ⟨fun v hv => ?_, ?_⟩
  · obtain ⟨i, hi⟩ := List.mem_iff_getElem?.mp hv
    obtain ⟨u, hu, hR⟩ := h.symm.partner hi
    obtain ⟨hrow, hall⟩ := hmapped u (List.mem_of_getElem? hu)
    refine ⟨ht.row hR hrow, fun p hp => ?_⟩
    have hp' : p ∈ u.1 := by rw [ht.positions hR]; exact hp
    exact ht.mapped hR p hp' (hall p hp')
  · intro i j v v' hne hv hv' p hp q hq heq
    obtain ⟨u, hu, hR⟩ := h.symm.partner hv
    obtain ⟨u', hu', hR'⟩ := h.symm.partner hv'
    have hp' : p ∈ u.1 := by rw [ht.positions hR]; exact hp
    have hq' : q ∈ u'.1 := by rw [ht.positions hR']; exact hq
    exact hsep i j u u' hne hu hu' p hp' q hq' (ht.shared hne hR hR' p hp' q hq' heq)

/-- **Users whose pairing refines them are accepted where they are.** -/
theorem Paired.guard_refines (h : Paired R us vs) (ht : Refines R) (hg : guardUsers us = none) :
    guardUsers vs = none := by
  by_cases hn : none ∈ us
  · unfold guardUsers
    rw [if_pos (any_isNone.mpr (h.none_mem.mp hn))]
  · rw [guardUsers_none_iff (fun hc => hn (h.none_mem.mpr hc))]
    exact h.clear ht ((guardUsers_none_iff hn).mp hg)

/-- **Paired users are accepted alike.** -/
theorem Paired.guard (h : Paired R us vs) (ht : Transfer R) : guardUsers us = none ↔ guardUsers vs = none :=
  ⟨h.guard_refines ht.refines, h.symm.guard_refines ht.symm.refines⟩

/-- Two readings of one round are refused alike, before their users are compared, or compared over paired users. -/
theorem kvGuard_paired {b : PackedBlock} {sentinels sentinels' : Bool} {os os' : List (Engine × Nat)}
    (hos : List.Forall₂ (fun o o' => b.segmentOf o.1 = b.segmentOf o'.1 ∧ ∀ s, b.segmentOf o.1 = .ok s →
      R s (b.ownerUser sentinels o s) (b.ownerUser sentinels' o' s)) os os')
    (hidle : b.pads os.length = true → ∀ live fills, b.idleInputs live = .ok fills → ∀ f ∈ fills,
      R f.1 (b.idleUser f.2) (b.idleUser f.2)) :
    b.kvGuard sentinels os = b.kvGuard sentinels' os' ∨ ∃ us vs, b.kvGuard sentinels os = .ok (guardUsers us) ∧
      b.kvGuard sentinels' os' = .ok (guardUsers vs) ∧ Paired R us vs := by
  have hlen : os.length = os'.length := hos.length_eq
  unfold PackedBlock.kvGuard
  rcases Paired.kvUsers hos (Paired.replicate b.shape.users) with ⟨e, h, h'⟩ | ⟨us, vs, h, h', hp⟩ <;> rw [h, h']
  · exact Or.inl rfl
  simp only [Except.map, Except.ok.injEq]
  unfold PackedBlock.guardRound
  rw [← hlen, ← hp.any, ← hp.live]
  split
  · rename_i hpad
    split
    · exact Or.inl rfl
    cases hi : b.idleInputs (liveSegments us) with
    | error e => exact Or.inl rfl
    | ok fills => exact Or.inr ⟨_, _, rfl, rfl, hp.fillIdle (hidle hpad.2 _ _ hi)⟩
  · exact Or.inr ⟨us, vs, rfl, rfl, hp⟩

/-- **Two readings of one round that map rows alike are accepted alike.** -/
theorem kvGuard_congr {b : PackedBlock} {sentinels sentinels' : Bool} {os os' : List (Engine × Nat)} (ht : Transfer R)
    (hos : List.Forall₂ (fun o o' => b.segmentOf o.1 = b.segmentOf o'.1 ∧ ∀ s, b.segmentOf o.1 = .ok s →
      R s (b.ownerUser sentinels o s) (b.ownerUser sentinels' o' s)) os os')
    (hidle : b.pads os.length = true → ∀ live fills, b.idleInputs live = .ok fills → ∀ f ∈ fills,
      R f.1 (b.idleUser f.2) (b.idleUser f.2)) :
    b.kvGuard sentinels os = .ok none ↔ b.kvGuard sentinels' os' = .ok none := by
  rcases kvGuard_paired hos hidle with h | ⟨us, vs, h, h', hp⟩
  · rw [h]
  · rw [h, h', Except.ok.injEq, Except.ok.injEq]
    exact hp.guard ht

/-- **A reading that refines an accepted one is accepted.** -/
theorem kvGuard_refines {b : PackedBlock} {sentinels sentinels' : Bool} {os os' : List (Engine × Nat)} (ht : Refines R)
    (hos : List.Forall₂ (fun o o' => b.segmentOf o.1 = b.segmentOf o'.1 ∧ ∀ s, b.segmentOf o.1 = .ok s →
      R s (b.ownerUser sentinels o s) (b.ownerUser sentinels' o' s)) os os')
    (hidle : b.pads os.length = true → ∀ live fills, b.idleInputs live = .ok fills → ∀ f ∈ fills,
      R f.1 (b.idleUser f.2) (b.idleUser f.2)) (hg : b.kvGuard sentinels os = .ok none) :
    b.kvGuard sentinels' os' = .ok none := by
  rcases kvGuard_paired hos hidle with h | ⟨us, vs, h, h', hp⟩
  · rw [← h]
    exact hg
  · rw [h, Except.ok.injEq] at hg
    rw [h', hp.guard_refines ht hg]

/-! ## The segments of the owners -/

/-- The users of the owners: one at each of their segments, and at those that had one. -/
theorem kvUsers_segments {b : PackedBlock} {sentinels : Bool} {os : List (Engine × Nat)} :
    ∀ {us vs : List (Option User)} {segments : List Nat}, b.kvUsers sentinels os us = .ok vs →
      os.mapM (fun o => b.segmentOf o.1) = .ok segments →
      vs.length = us.length ∧ ∀ i < us.length, vs[i]? = some none ↔ us[i]? = some none ∧ i ∉ segments := by
  induction os with
  | nil =>
    intro us vs segments h hs
    cases h
    cases hs
    exact ⟨rfl, fun i _ => by simp⟩
  | cons o os ih =>
    intro us vs segments h hs
    rw [List.mapM_cons] at hs
    obtain ⟨s, hs0, hs⟩ := bind_ok hs
    obtain ⟨rest, hrest, hs⟩ := bind_ok hs
    cases hs
    unfold PackedBlock.kvUsers at h
    rw [hs0] at h
    obtain ⟨hlen, hnone⟩ := ih h hrest
    rw [List.length_set] at hlen hnone
    refine ⟨hlen, fun i hi => ?_⟩
    rw [hnone i hi, List.mem_cons, not_or]
    by_cases his : s = i
    · subst his
      rw [List.getElem?_set_self hi]
      simp
    · rw [List.getElem?_set_ne his]
      constructor
      · rintro ⟨h1, h2⟩; exact ⟨h1, fun hc => his hc.symm, h2⟩
      · rintro ⟨h1, -, h2⟩; exact ⟨h1, h2⟩

/-- Filling leaves no segment without a user, if each without one is filled. -/
theorem fillIdle_full {b : PackedBlock} {fills : List (Nat × Idle)} :
    ∀ {us : List (Option User)}, (∀ i : Nat, us[i]? = some none → i ∈ fills.map Prod.fst) →
      none ∉ b.fillIdle us fills := by
  unfold PackedBlock.fillIdle
  induction fills with
  | nil =>
    intro us h hn
    obtain ⟨i, hi⟩ := List.mem_iff_getElem?.mp hn
    have := h i hi
    cases this
  | cons f fs ih =>
    intro us h
    refine ih fun i hi => ?_
    by_cases hif : f.1 = i
    · subst hif
      have hlt := (List.getElem?_eq_some_iff.mp hi).1
      rw [List.length_set] at hlt
      rw [List.getElem?_set_self hlt] at hi
      cases hi
    · rw [List.getElem?_set_ne hif] at hi
      rcases List.mem_cons.mp (h i hi) with heq | hmem
      · exact absurd heq.symm hif
      · exact hmem

theorem fillIdle_length {b : PackedBlock} {fills : List (Nat × Idle)} :
    ∀ {us : List (Option User)}, (b.fillIdle us fills).length = us.length := by
  unfold PackedBlock.fillIdle
  induction fills with
  | nil => intro us; rfl
  | cons f fs ih => intro us; rw [List.foldl_cons, ih, List.length_set]

end BlackholeQwen.Packed
