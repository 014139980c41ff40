import Mathlib.Algebra.Order.BigOperators.Group.List
import BlackholeQwen.Lib.Runs
import BlackholeQwen.Prefix.Registry

/-!
# The registry's ledger

What every sequence of registry operations keeps, where each `begin_step` is followed by at most one `commit`.

* `Stocked`: the entries, their bytes and the orphans agree;
* `Held`: the pins of every checkpoint object count the committed grants that hold it;
* `Ledger`: both, within the budget. The budget holds although pinned entries are never evicted, because pinning adds
  no bytes: before an entry is added everything, so also what is pinned, is within the budget
  (`enforceBudget_spec`);
* `Op`, `Step`: the operations, with a flag that says whether a commit may come; `run_ledger` is the result.
-/

namespace BlackholeQwen.Prefix

open Lib

namespace Registry

variable {κ τ : Type}

/-! ## Pins -/

theorem holds_iff {ident : Nat} {g : Grant κ τ} :
    Grant.holds ident g = true ↔ ∃ c, g.checkpoint = some c ∧ c.ident = ident := by
  cases h : g.checkpoint <;> simp [Grant.holds, h]

/-- Releasing grants takes from every object the grants that hold it. -/
theorem releasePins_apply : ∀ (gs : List (Grant κ τ)) (pins : Nat → Nat) (i : Nat),
    releasePins pins gs i = pins i - gs.countP (Grant.holds i)
  | [], pins, i => by simp [releasePins]
  | g :: gs, pins, i => by
    rw [releasePins, releasePins_apply gs, List.countP_cons]
    cases hc : g.checkpoint with
    | none => simp [Grant.holds, hc]
    | some c =>
      by_cases hi : c.ident = i
      · simp [Grant.holds, hc, unpin, hi]; omega
      · simp [Grant.holds, hc, unpin, hi, Ne.symm hi]

/-- The pins count the committed grants, and every grant's checkpoint is an object that exists. -/
structure Held (r : Registry κ τ) : Prop where
  pins : ∀ i, r.pins i = r.committed.count (Grant.holds i)
  staged : ∀ p ∈ r.staged.items, ∀ c, p.2.checkpoint = some c → c.ident < r.objects
  committed : ∀ p ∈ r.committed.items, ∀ c, p.2.checkpoint = some c → c.ident < r.objects

/-- An object that does not exist yet has no pins. -/
theorem Held.fresh {r : Registry κ τ} (h : Held r) {i : Nat} (hi : r.objects ≤ i) : r.pins i = 0 := by
  rw [h.pins, Dict.count, List.countP_eq_zero]
  intro p hp hc
  obtain ⟨c, hg, rfl⟩ := holds_iff.mp hc
  exact absurd (h.committed p hp c hg) (Nat.not_lt.mpr hi)

/-- What an operation on the entries leaves alone. -/
structure Frame (r r' : Registry κ τ) : Prop where
  budgetBytes : r'.budgetBytes = r.budgetBytes
  staged : r'.staged = r.staged
  committed : r'.committed = r.committed
  tokenChecks : r'.tokenChecks = r.tokenChecks
  disabled : r'.disabled = r.disabled
  serials : r'.serials = r.serials
  pins : r'.pins = r.pins
  objects : r'.objects = r.objects

theorem Frame.refl (r : Registry κ τ) : Frame r r := ⟨rfl, rfl, rfl, rfl, rfl, rfl, rfl, rfl⟩

theorem Frame.trans {r r' r'' : Registry κ τ} (h : Frame r r') (h' : Frame r' r'') : Frame r r'' :=
  ⟨h'.1.trans h.1, h'.2.trans h.2, h'.3.trans h.3, h'.4.trans h.4, h'.5.trans h.5, h'.6.trans h.6, h'.7.trans h.7,
    h'.8.trans h.8⟩

/-- An operation on the entries keeps the pins. -/
theorem Held.frame {r r' : Registry κ τ} (h : Held r) (hf : Frame r r') : Held r' := by
  obtain ⟨-, hs, hc, -, -, -, hp, ho⟩ := hf
  exact ⟨by rw [hp, hc]; exact h.pins, by rw [hs, ho]; exact h.staged, by rw [hc, ho]; exact h.committed⟩

variable [DecidableEq κ]

/-! ## Entries -/

/-- The entries, their bytes and the orphans agree. -/
structure Stocked (r : Registry κ τ) : Prop where
  bytes : r.bytes = r.entries.sum (fun c => c.nbytes)
  orphans : ∀ k ∈ r.orphanKeys, k ∈ r.entries.keys
  boundary : ∀ p ∈ r.entries.items, 0 < p.2.pos ∧ p.2.pos % CHUNK = 0 ∧ p.2.tokenIds.length = p.2.pos

/-- The bytes of the pinned entries. -/
def pinnedBytes (r : Registry κ τ) : Int := r.entries.sum (fun c => if r.pins c.ident ≠ 0 then c.nbytes else 0)

omit [DecidableEq κ] in
theorem pinnedBytes_le {r : Registry κ τ} (h : Stocked r) : r.pinnedBytes ≤ r.bytes := by
  rw [h.bytes]
  refine List.sum_le_sum fun p _ => ?_
  simp only
  split_ifs <;> omega

theorem remove_frame (r : Registry κ τ) (key : κ) : Frame r (r.remove key) := by
  unfold remove
  split
  · exact Frame.refl _
  · exact ⟨rfl, rfl, rfl, rfl, rfl, rfl, rfl, rfl⟩

theorem remove_entries (r : Registry κ τ) (key : κ) : (r.remove key).entries = r.entries.erase key := by
  unfold remove
  split
  · rename_i h; exact (Dict.erase_of_get?_none h).symm
  · rfl

theorem remove_stocked {r : Registry κ τ} (h : Stocked r) (key : κ) : Stocked (r.remove key) := by
  unfold remove
  split
  · exact h
  · rename_i c hc
    refine ⟨?_, fun k hk => ?_, fun p hp => h.boundary p (Dict.mem_erase.mp hp).1⟩
    · simp only [Dict.sum_erase _ hc, h.bytes]
    · obtain ⟨hne, hk⟩ := Finset.mem_erase.mp hk
      exact Dict.mem_keys_erase.mpr ⟨h.orphans k hk, hne⟩

/-- Removing an unpinned entry leaves the pinned bytes. -/
theorem remove_pinnedBytes {r : Registry κ τ} {key : κ} {c : Checkpoint κ τ} (hc : r.entries.get? key = some c)
    (hp : r.pins c.ident = 0) : (r.remove key).pinnedBytes = r.pinnedBytes := by
  rw [pinnedBytes, (remove_frame r key).pins, remove_entries, Dict.sum_erase _ hc]
  simp [pinnedBytes, hp]

/-- The budget pass over the remaining keys: pinned entries stay, and once only pinned entries are left unvisited the
budget holds. -/
theorem enforceLoop_spec : ∀ (keys : List κ) {r : Registry κ τ}, Stocked r → r.pinnedBytes ≤ r.budgetBytes →
    (∀ p ∈ r.entries.items, p.1 ∈ keys ∨ r.pins p.2.ident ≠ 0) →
    Stocked (r.enforceLoop keys) ∧ Frame r (r.enforceLoop keys) ∧
      (r.enforceLoop keys).bytes ≤ (r.enforceLoop keys).budgetBytes ∧
      (∀ p ∈ (r.enforceLoop keys).entries.items, p ∈ r.entries.items) ∧
      ∀ p ∈ r.entries.items, r.pins p.2.ident ≠ 0 → p ∈ (r.enforceLoop keys).entries.items
  | [], r, hs, hb, hkeys => by
    refine ⟨hs, Frame.refl _, ?_, fun p hp => hp, fun p hp _ => hp⟩
    have hall : r.pinnedBytes = r.entries.sum (fun c => c.nbytes) := by
      refine congrArg List.sum (List.map_congr_left fun p hp => ?_)
      exact if_pos ((hkeys p hp).resolve_left (by simp))
    simp only [enforceLoop]
    rw [hs.bytes, ← hall]
    exact hb
  | key :: keys, r, hs, hb, hkeys => by
    rw [enforceLoop]
    split
    · rename_i hle
      exact ⟨hs, Frame.refl _, hle, fun p hp => hp, fun p hp _ => hp⟩
    have hskip : ∀ p ∈ r.entries.items, (p.1 = key → r.pins p.2.ident ≠ 0) → p.1 ∈ keys ∨ r.pins p.2.ident ≠ 0 :=
      fun p hp hk => by
        rcases hkeys p hp with hmem | hpin
        · rcases List.mem_cons.mp hmem with rfl | hmem
          · exact Or.inr (hk rfl)
          · exact Or.inl hmem
        · exact Or.inr hpin
    split
    · rename_i hnone
      refine enforceLoop_spec keys hs hb fun p hp => hskip p hp fun hk => ?_
      exact absurd (Dict.mem_keys.mpr ⟨p.2, by rw [← hk]; exact hp⟩) (Dict.get?_eq_none_iff.mp hnone)
    · rename_i c hc
      split_ifs with hpin
      · refine enforceLoop_spec keys hs hb fun p hp => hskip p hp fun hk => ?_
        rw [Dict.eq_of_mem hp hk hc]; exact hpin
      · have hpin : r.pins c.ident = 0 := not_not.mp hpin
        have hf := remove_frame r key
        have ih := enforceLoop_spec keys (remove_stocked hs key)
          (by rw [remove_pinnedBytes hc hpin, hf.budgetBytes]; exact hb) fun p hp => by
            rw [remove_entries, Dict.mem_erase] at hp
            rw [hf.pins]
            exact hskip p hp.1 fun hk => absurd hk hp.2
        obtain ⟨h1, h2, h3, h4, h5⟩ := ih
        refine ⟨h1, hf.trans h2, h3, fun p hp => ?_, fun p hp hne => h5 p ?_ (by rw [hf.pins]; exact hne)⟩
        · have := h4 p hp
          rw [remove_entries, Dict.mem_erase] at this
          exact this.1
        · rw [remove_entries, Dict.mem_erase]
          refine ⟨hp, fun hk => hne ?_⟩
          rw [Dict.eq_of_mem hp hk hc]; exact hpin

/-- The budget pass: if what is pinned is within the budget, everything is afterwards, and no pinned entry goes. -/
theorem enforceBudget_spec {r : Registry κ τ} (hs : Stocked r) (hb : r.pinnedBytes ≤ r.budgetBytes) :
    Stocked r.enforceBudget ∧ Frame r r.enforceBudget ∧ r.enforceBudget.bytes ≤ r.enforceBudget.budgetBytes ∧
      (∀ p ∈ r.enforceBudget.entries.items, p ∈ r.entries.items) ∧
      ∀ p ∈ r.entries.items, r.pins p.2.ident ≠ 0 → p ∈ r.enforceBudget.entries.items := by
  unfold enforceBudget
  split
  · rename_i hle
    exact ⟨hs, Frame.refl _, hle, fun p hp => hp, fun p hp _ => hp⟩
  · exact enforceLoop_spec _ hs hb fun p hp => Or.inl (Dict.mem_keys.mpr ⟨p.2, hp⟩)

theorem touch_stocked {r : Registry κ τ} (h : Stocked r) (key : κ) : Stocked (r.touch key) :=
  ⟨by simp only [touch, Dict.sum_moveToEnd]; exact h.bytes,
    fun k hk => Dict.mem_keys_moveToEnd.mpr (h.orphans k hk),
    fun p hp => h.boundary p (Dict.mem_moveToEnd.mp hp)⟩

/-! ## The ledger -/

/-- The registry's ledger. -/
structure Ledger (r : Registry κ τ) : Prop where
  stocked : Stocked r
  held : Held r
  budget : r.bytes ≤ r.budgetBytes

omit [DecidableEq κ] in
/-- The ledger reads the entries, their bytes, the orphans, the grants and the pins. -/
theorem Ledger.of_same {r r' : Registry κ τ} (h : Ledger r) (hentries : r'.entries = r.entries)
    (hbytes : r'.bytes = r.bytes) (horphans : r'.orphanKeys = r.orphanKeys) (hbudget : r'.budgetBytes = r.budgetBytes)
    (hstaged : r'.staged = r.staged) (hcommitted : r'.committed = r.committed) (hpins : r'.pins = r.pins)
    (hobjects : r'.objects = r.objects) : Ledger r' := by
  refine ⟨⟨?_, ?_, ?_⟩, ⟨?_, ?_, ?_⟩, ?_⟩
  · rw [hbytes, hentries]; exact h.stocked.bytes
  · rw [horphans, hentries]; exact h.stocked.orphans
  · rw [hentries]; exact h.stocked.boundary
  · rw [hpins, hcommitted]; exact h.held.pins
  · rw [hstaged, hobjects]; exact h.held.staged
  · rw [hcommitted, hobjects]; exact h.held.committed
  · rw [hbytes, hbudget]; exact h.budget

/-- A new entry: at a boundary, with as many token ids, under a key that is free. -/
theorem addEntry_spec {r : Registry κ τ} (h : Ledger r) {key : κ} {pos : Nat} {tokenIds : List Token}
    (recState carry : Option (List τ)) (nbytes : Nat) (hpos : pos ≠ 0) (hchunk : pos % CHUNK = 0)
    (hlen : tokenIds.length = pos) (hfree : r.entries.get? key = none) :
    Stocked (r.addEntry key pos tokenIds recState carry nbytes) ∧
      Held (r.addEntry key pos tokenIds recState carry nbytes) ∧
      (r.addEntry key pos tokenIds recState carry nbytes).pinnedBytes = r.pinnedBytes ∧
      (r.addEntry key pos tokenIds recState carry nbytes).pins = r.pins := by
  have hpins : (r.addEntry key pos tokenIds recState carry nbytes).pins = r.pins := by
    funext i
    simp only [addEntry]
    split_ifs with hi
    · rw [hi, h.held.fresh (Nat.le_refl _)]
    · rfl
  refine ⟨⟨?_, fun k hk => ?_, fun p hp => ?_⟩, ⟨?_, ?_, ?_⟩, ?_, hpins⟩
  · simp only [addEntry, Dict.sum_set_new _ _ hfree, h.stocked.bytes]
  · exact Dict.mem_keys_set.mpr (Or.inl (h.stocked.orphans k hk))
  · rcases Dict.mem_set.mp hp with ⟨hp, -⟩ | rfl
    · exact h.stocked.boundary p hp
    · exact ⟨Nat.pos_of_ne_zero hpos, hchunk, hlen⟩
  · rw [hpins]; exact h.held.pins
  · exact fun p hp c hc => Nat.lt_succ_of_lt (h.held.staged p hp c hc)
  · exact fun p hp c hc => Nat.lt_succ_of_lt (h.held.committed p hp c hc)
  · rw [pinnedBytes, hpins]
    simp only [addEntry, Dict.sum_set_new _ _ hfree, h.held.fresh (Nat.le_refl r.objects), ne_eq, not_true_eq_false,
      if_false, Int.add_zero]
    rfl

/-- The ledger through a removal. -/
theorem Ledger.remove {r : Registry κ τ} (h : Ledger r) (key : κ) : Ledger (r.remove key) := by
  refine ⟨remove_stocked h.stocked key, h.held.frame (remove_frame r key), ?_⟩
  have hb := h.budget
  unfold Registry.remove
  split
  · exact hb
  · simp only; omega

/-- The ledger through the addition of an entry and the budget pass; pinned entries stay. -/
theorem Ledger.addEntry {r : Registry κ τ} (h : Ledger r) {key : κ} {pos : Nat} {tokenIds : List Token}
    (recState carry : Option (List τ)) (nbytes : Nat) (hpos : pos ≠ 0) (hchunk : pos % CHUNK = 0)
    (hlen : tokenIds.length = pos) (hfree : r.entries.get? key = none) :
    Ledger (r.addEntry key pos tokenIds recState carry nbytes).enforceBudget ∧
      ∀ p ∈ r.entries.items, r.pins p.2.ident ≠ 0 →
        p ∈ (r.addEntry key pos tokenIds recState carry nbytes).enforceBudget.entries.items := by
  obtain ⟨hs, hh, hpb, hpins⟩ := addEntry_spec h recState carry nbytes hpos hchunk
    hlen hfree
  have hle : (r.addEntry key pos tokenIds recState carry nbytes).pinnedBytes
      ≤ (r.addEntry key pos tokenIds recState carry nbytes).budgetBytes := by
    rw [hpb]; exact (pinnedBytes_le h.stocked).trans h.budget
  obtain ⟨hs', hf, hb, -, hkeep⟩ := enforceBudget_spec hs hle
  refine ⟨⟨hs', hh.frame hf, hb⟩, fun p hp hne => hkeep p (Dict.mem_set.mpr (Or.inl ⟨hp, fun hk => ?_⟩)) ?_⟩
  · exact absurd (Dict.mem_keys.mpr ⟨p.2, by rw [← hk]; exact hp⟩) (Dict.get?_eq_none_iff.mp hfree)
  · rw [hpins]; exact hne

/-- All that `put` can do to the entries: nothing, a touch, or a new entry in place of an unpinned one. -/
theorem put_cases (r : Registry κ τ) (key : κ) (pos : Nat) (tokenIds : List Token) (recState carry : Option (List τ))
    (nbytes : Nat) :
    (r.put key pos tokenIds recState carry nbytes).obj = r ∨
    (r.put key pos tokenIds recState carry nbytes).obj = r.touch key ∨
    (r.put key pos tokenIds recState carry nbytes).obj =
        ((r.remove key).addEntry key pos tokenIds recState carry nbytes).enforceBudget ∧
      pos ≠ 0 ∧ pos % CHUNK = 0 ∧ tokenIds.length = pos ∧
      ∀ c, r.entries.get? key = some c → r.pins c.ident = 0 := by
  unfold put
  rcases Call.attempt_cases (do
      raiseIf (pos = 0 ∨ pos % CHUNK ≠ 0)
        (.valueError ("a checkpoint is only exact at a " ++ toString CHUNK ++ "-token boundary, not " ++ toString pos))
      raiseIf (tokenIds.length ≠ pos)
        (.valueError ("checkpoint at " ++ toString pos ++ " carries " ++ toString tokenIds.length ++ " token ids")))
    r _ with ⟨e, -, h⟩ | ⟨⟨⟩, hg, h⟩ <;> rw [h]
  · exact Or.inl rfl
  obtain ⟨⟨⟩, hpos, hlen⟩ := bind_ok hg
  simp only [raiseIf_ok, not_or, ne_eq, not_not] at hpos hlen
  split
  · exact Or.inl rfl
  split
  · exact Or.inl rfl
  split
  · rename_i hnone
    refine Or.inr (Or.inr ⟨?_, hpos.1, hpos.2, hlen, fun c hc => ?_⟩)
    · have : r.remove key = r := by simp only [Registry.remove, hnone]
      rw [this]; rfl
    · rw [hnone] at hc; cases hc
  · rename_i old hold
    split_ifs with hpin
    · exact Or.inr (Or.inl rfl)
    · refine Or.inr (Or.inr ⟨rfl, hpos.1, hpos.2, hlen, fun c hc => ?_⟩)
      rw [hold] at hc; cases hc
      exact not_not.mp hpin

theorem enforceLoop_frame : ∀ (keys : List κ) (r : Registry κ τ), Frame r (r.enforceLoop keys)
  | [], r => Frame.refl r
  | key :: keys, r => by
    rw [enforceLoop]
    split
    · exact Frame.refl r
    split
    · exact enforceLoop_frame keys r
    split
    · exact enforceLoop_frame keys r
    · exact (remove_frame r key).trans (enforceLoop_frame keys _)

theorem enforceBudget_frame (r : Registry κ τ) : Frame r r.enforceBudget := by
  unfold enforceBudget
  split
  · exact Frame.refl r
  · exact enforceLoop_frame _ r

/-- The budget pass only removes entries. -/
theorem enforceLoop_sub : ∀ (keys : List κ) (r : Registry κ τ),
    ∀ p ∈ (r.enforceLoop keys).entries.items, p ∈ r.entries.items
  | [], _ => fun _ hp => hp
  | key :: keys, r => by
    rw [enforceLoop]
    split
    · exact fun _ hp => hp
    split
    · exact enforceLoop_sub keys r
    split
    · exact enforceLoop_sub keys r
    · intro p hp
      have := enforceLoop_sub keys _ p hp
      rw [remove_entries, Dict.mem_erase] at this
      exact this.1

theorem enforceBudget_sub (r : Registry κ τ) : ∀ p ∈ r.enforceBudget.entries.items, p ∈ r.entries.items := by
  unfold enforceBudget
  split
  · exact fun _ hp => hp
  · exact enforceLoop_sub _ r

/-- `put` commits nothing, and leaves the switch and the budget. -/
theorem put_keeps (r : Registry κ τ) (key : κ) (pos : Nat) (tokenIds : List Token)
    (recState carry : Option (List τ)) (nbytes : Nat) :
    (r.put key pos tokenIds recState carry nbytes).obj.committed = r.committed ∧
      (r.put key pos tokenIds recState carry nbytes).obj.disabled = r.disabled ∧
      (r.put key pos tokenIds recState carry nbytes).obj.budgetBytes = r.budgetBytes := by
  rcases put_cases r key pos tokenIds recState carry nbytes with hc | hc | ⟨hc, -⟩ <;> rw [hc]
  · exact ⟨rfl, rfl, rfl⟩
  · exact ⟨rfl, rfl, rfl⟩
  · have hbudget := enforceBudget_frame ((r.remove key).addEntry key pos tokenIds recState carry nbytes)
    have hremove := remove_frame r key
    exact ⟨hbudget.committed.trans hremove.committed, hbudget.disabled.trans hremove.disabled,
      hbudget.budgetBytes.trans hremove.budgetBytes⟩

/-- `capture` commits nothing, and leaves the switch and the budget. -/
theorem capture_keeps (r : Registry κ τ) (reqId : String) (pos : Nat) (recState carry : Option (List τ))
    (nbytes loopPos : Option Nat) :
    (r.capture reqId pos recState carry nbytes loopPos).1.committed = r.committed ∧
      (r.capture reqId pos recState carry nbytes loopPos).1.disabled = r.disabled ∧
      (r.capture reqId pos recState carry nbytes loopPos).1.budgetBytes = r.budgetBytes := by
  simp only [Registry.capture, captureCall]
  split
  · exact ⟨rfl, rfl, rfl⟩
  split
  · exact ⟨rfl, rfl, rfl⟩
  split
  · exact ⟨rfl, rfl, rfl⟩
  split
  · exact ⟨rfl, rfl, rfl⟩
  · exact put_keeps _ _ _ _ _ _ _

/-- The ledger through `put`; no entry that is pinned goes. -/
theorem Ledger.put {r : Registry κ τ} (h : Ledger r) (key : κ) (pos : Nat) (tokenIds : List Token)
    (recState carry : Option (List τ)) (nbytes : Nat) :
    Ledger (r.put key pos tokenIds recState carry nbytes).obj ∧
      ∀ p ∈ r.entries.items, r.pins p.2.ident ≠ 0 →
        p ∈ (r.put key pos tokenIds recState carry nbytes).obj.entries.items := by
  rcases put_cases r key pos tokenIds recState carry nbytes with hc | hc | ⟨hc, hpos, hchunk, hlen, hun⟩ <;> rw [hc]
  · exact ⟨h, fun p hp _ => hp⟩
  · exact ⟨⟨touch_stocked h.stocked key, ⟨h.held.1, h.held.2, h.held.3⟩, h.budget⟩,
      fun p hp _ => Dict.mem_moveToEnd.mpr hp⟩
  · have hfree : (r.remove key).entries.get? key = none := by rw [remove_entries]; exact Dict.get?_erase_self _ _
    obtain ⟨hl, hkeep⟩ := (h.remove key).addEntry recState carry nbytes hpos hchunk
      hlen hfree
    refine ⟨hl, fun p hp hne => hkeep p ?_ (by rw [(remove_frame r key).pins]; exact hne)⟩
    rw [remove_entries, Dict.mem_erase]
    refine ⟨hp, fun hk => hne (hun p.2 (Dict.get?_eq_some_iff.mpr ?_))⟩
    rw [← hk]; exact hp

/-- The ledger through `capture`. -/
theorem Ledger.capture {r : Registry κ τ} (h : Ledger r) (reqId : String) (pos : Nat)
    (recState carry : Option (List τ)) (nbytes loopPos : Option Nat) :
    Ledger (r.capture reqId pos recState carry nbytes loopPos).1 := by
  simp only [Registry.capture, captureCall]
  split
  · exact h
  split
  · exact h
  split
  · exact h
  split
  · exact h
  · exact (h.put _ _ _ _ _ _).1

omit [DecidableEq κ] in
/-- Forgetting a request: its committed grant is released. -/
theorem Ledger.forgetRequest {r : Registry κ τ} (h : Ledger r) (reqId : String) :
    Ledger (r.forgetRequest reqId).1 := by
  refine ⟨⟨h.stocked.1, h.stocked.2, h.stocked.3⟩, ⟨fun i => ?_, fun p hp => ?_, fun p hp => ?_⟩, h.budget⟩
  · simp only [Registry.forgetRequest, releasePins_apply, h.held.pins]
    cases hg : r.committed.get? reqId with
    | none => simp [Dict.erase_of_get?_none hg]
    | some g =>
      rw [Dict.count_erase _ hg]
      simp only [Option.toList_some, List.countP_singleton]
      omega
  · exact h.held.staged p (Dict.mem_erase.mp hp).1
  · exact h.held.committed p (Dict.mem_erase.mp hp).1

omit [DecidableEq κ] in
/-- The ledger once every committed grant is released. -/
theorem Ledger.release {r : Registry κ τ} (h : Ledger r) : Ledger r.release ∧ ∀ i, r.release.pins i = 0 := by
  have hzero : ∀ i, r.release.pins i = 0 := fun i => by
    simp only [Registry.release, releasePins_apply, h.held.pins, Dict.count, Dict.values, List.countP_map]
    exact Nat.sub_self _
  refine ⟨⟨⟨h.stocked.1, h.stocked.2, h.stocked.3⟩, ⟨fun i => ?_, fun p hp => ?_, fun p hp => ?_⟩, h.budget⟩, hzero⟩
  · rw [hzero]; rfl
  · simp [Registry.release] at hp
  · simp [Registry.release] at hp

/-- The ledger through `begin_step`: nothing is evicted, nothing stays pinned, no grant stays. -/
theorem Ledger.beginStep {r : Registry κ τ} (h : Ledger r) :
    Ledger r.beginStep ∧ (∀ i, r.beginStep.pins i = 0) ∧ r.beginStep.committed = Dict.empty ∧
      r.beginStep.entries = r.entries := by
  obtain ⟨hl, hz⟩ := h.release
  have hsame : r.beginStep = r.release := by
    unfold Registry.beginStep enforceBudget
    rw [if_pos hl.budget]
  rw [hsame]
  exact ⟨hl, hz, rfl, rfl⟩

/-- The ledger through the commit of one grant whose request has none. -/
theorem Ledger.commitGrant {r : Registry κ τ} (h : Ledger r) {reqId : String} {grant : Grant κ τ}
    (tokens : Option (List Token)) (hfree : r.committed.get? reqId = none)
    (hobj : ∀ c, grant.checkpoint = some c → c.ident < r.objects) :
    Ledger (r.commitGrant reqId grant tokens) := by
  have hentries : (r.commitGrant reqId grant tokens).entries.items.Perm r.entries.items ∧
      ∀ k ∈ (r.commitGrant reqId grant tokens).orphanKeys, k ∈ r.orphanKeys := by
    simp only [Registry.commitGrant, pinGrant]
    split
    · exact ⟨List.Perm.refl _, fun k hk => hk⟩
    · cases grant.key with
      | none => exact ⟨List.Perm.refl _, fun k hk => hk⟩
      | some key => exact ⟨Dict.perm_moveToEnd _ _, fun k hk => (Finset.mem_erase.mp hk).2⟩
  have hrest : (r.commitGrant reqId grant tokens).bytes = r.bytes ∧
      (r.commitGrant reqId grant tokens).budgetBytes = r.budgetBytes ∧
      (r.commitGrant reqId grant tokens).staged = r.staged ∧ (r.commitGrant reqId grant tokens).objects = r.objects ∧
      (r.commitGrant reqId grant tokens).committed =
        r.committed.set reqId { grant with tokens, request := none } := by
    simp only [Registry.commitGrant, pinGrant]
    split <;> exact ⟨rfl, rfl, rfl, rfl, rfl⟩
  have hpins : ∀ i, (r.commitGrant reqId grant tokens).pins i = r.pins i + if Grant.holds i grant then 1 else 0 := by
    intro i
    simp only [Registry.commitGrant, pinGrant]
    split
    · rename_i hc; simp [Grant.holds, hc]
    · rename_i c hc
      by_cases hi : c.ident = i
      · simp [pin, Grant.holds, hc, hi]
      · simp [pin, Grant.holds, hc, hi, Ne.symm hi]
  obtain ⟨hperm, horph⟩ := hentries
  obtain ⟨hbytes, hbudget, hstaged, hobjects, hcommitted⟩ := hrest
  refine ⟨⟨?_, fun k hk => ?_, fun p hp => h.stocked.boundary p (hperm.mem_iff.mp hp)⟩, ⟨fun i => ?_, ?_, ?_⟩, ?_⟩
  · rw [hbytes, h.stocked.bytes]
    exact ((hperm.map _).sum_eq).symm
  · obtain ⟨v, hv⟩ := Dict.mem_keys.mp (h.stocked.orphans k (horph k hk))
    exact Dict.mem_keys.mpr ⟨v, hperm.mem_iff.mpr hv⟩
  · rw [hpins, hcommitted, Dict.count_set_new _ _ hfree, h.held.pins]
    rfl
  · rw [hstaged, hobjects]; exact h.held.staged
  · rw [hcommitted, hobjects]
    intro p hp c hc
    rcases Dict.mem_set.mp hp with ⟨hp, -⟩ | rfl
    · exact h.held.committed p hp c hc
    · exact hobj c hc
  · rw [hbytes, hbudget]; exact h.budget

/-- What commits one grant frames: the other requests' grants. -/
theorem commitGrant_committed (r : Registry κ τ) (reqId : String) (grant : Grant κ τ) (tokens : Option (List Token)) :
    (r.commitGrant reqId grant tokens).committed = r.committed.set reqId { grant with tokens, request := none } := by
  simp only [Registry.commitGrant, pinGrant]
  split <;> rfl

theorem commitGrant_objects (r : Registry κ τ) (reqId : String) (grant : Grant κ τ) (tokens : Option (List Token)) :
    (r.commitGrant reqId grant tokens).objects = r.objects := by
  simp only [Registry.commitGrant, pinGrant]
  split <;> rfl

/-- The ledger through the loop of `commit`, over staged grants of distinct requests without a committed grant. -/
theorem Ledger.commitLoop (admitted : Dict String Nat) (allTokenIds : Nat → List Token) :
    ∀ (l : List (String × Grant κ τ)) {r : Registry κ τ}, Ledger r → (l.map Prod.fst).Nodup →
      (∀ p ∈ l, r.committed.get? p.1 = none) → (∀ p ∈ l, ∀ c, p.2.checkpoint = some c → c.ident < r.objects) →
      Ledger (r.commitLoop admitted allTokenIds l).obj
  | [], r, h, _, _, _ => h
  | (reqId, grant) :: l, r, h, hnd, hfree, hobj => by
    obtain ⟨hnotin, hnd⟩ := List.nodup_cons.mp hnd
    rw [Registry.commitLoop]
    split_ifs with hadm
    · exact commitLoop admitted allTokenIds l h hnd (fun p hp => hfree p (List.mem_cons_of_mem _ hp))
        fun p hp => hobj p (List.mem_cons_of_mem _ hp)
    · refine Call.attempt_obj h fun tokens _ => ?_
      refine commitLoop admitted allTokenIds l (h.commitGrant tokens (hfree _ List.mem_cons_self)
        (hobj _ List.mem_cons_self)) hnd (fun p hp => ?_) fun p hp c hc => ?_
      · have hne : p.1 ≠ reqId := fun he => hnotin (List.mem_map.mpr ⟨p, hp, he⟩)
        rw [commitGrant_committed, Dict.get?_set_of_ne _ _ hne]
        exact hfree p (List.mem_cons_of_mem _ hp)
      · rw [commitGrant_objects]
        exact hobj p (List.mem_cons_of_mem _ hp) c hc

/-- The ledger through `commit`, raising or not, where no grant is committed yet. -/
theorem Ledger.commit {r : Registry κ τ} (h : Ledger r) (hempty : r.committed = Dict.empty)
    (admitted : Dict String Nat) (allTokenIds : Nat → List Token) : Ledger (r.commit admitted allTokenIds).obj := by
  have hloop := Ledger.commitLoop admitted allTokenIds r.staged.items h r.staged.nodup
    (fun p _ => by rw [hempty]; rfl) h.held.staged
  unfold Registry.commit
  rcases Call.bind_cases (r.commitLoop admitted allTokenIds r.staged.items) _ with ⟨e, -, hb⟩ | ⟨done, -, hb⟩ <;>
    rw [hb]
  · exact hloop
  · exact ⟨⟨hloop.stocked.1, hloop.stocked.2, hloop.stocked.3⟩,
      ⟨hloop.held.pins, fun p hp => by simp at hp, hloop.held.committed⟩, hloop.budget⟩

/-! ## Runs -/

/-- The operations on a registry. `construct` is a checkpoint object built elsewhere. -/
inductive Op (κ τ : Type)
  | construct
  | beginStep
  | stage (grant : Grant κ τ)
  | unstage (reqId : String)
  | commit (admitted : Dict String Nat) (allTokenIds : Nat → List Token)
  | put (key : κ) (pos : Nat) (tokenIds : List Token) (recState carry : Option (List τ)) (nbytes : Nat)
  | capture (reqId : String) (pos : Nat) (recState carry : Option (List τ)) (nbytes loopPos : Option Nat)
  | touch (key : κ)
  | drop (key : κ)
  | clear
  | disable (reason : String)
  | noteOrphan (key : κ)
  | tokensMatch (reqId : String) (candidate : Nat) (entry : Checkpoint κ τ) (tokens : List Token)
  | forgetRequest (reqId : String)

/-- An operation; the flag says that a `commit` may come, which it may once after each `begin_step`. A staged grant's
checkpoint is an object that exists. -/
inductive Step : Registry κ τ × Bool → Op κ τ → Registry κ τ × Bool → Prop
  | construct {r : Registry κ τ} {a : Bool} : Step (r, a) .construct ({ r with objects := r.objects + 1 }, a)
  | beginStep {r : Registry κ τ} {a : Bool} : Step (r, a) .beginStep (r.beginStep, true)
  | stage {r : Registry κ τ} {a : Bool} {g : Grant κ τ} : (∀ c, g.checkpoint = some c → c.ident < r.objects) →
      Step (r, a) (.stage g) (r.stage g, a)
  | unstage {r : Registry κ τ} {a : Bool} {reqId : String} : Step (r, a) (.unstage reqId) (r.unstage reqId, a)
  | commit {r : Registry κ τ} {admitted : Dict String Nat} {allTokenIds : Nat → List Token} :
      Step (r, true) (.commit admitted allTokenIds) ((r.commit admitted allTokenIds).obj, false)
  | put {r : Registry κ τ} {a : Bool} {key : κ} {pos : Nat} {tokenIds : List Token}
      {recState carry : Option (List τ)} {nbytes : Nat} :
      Step (r, a) (.put key pos tokenIds recState carry nbytes)
        ((r.put key pos tokenIds recState carry nbytes).obj, a)
  | capture {r : Registry κ τ} {a : Bool} {reqId : String} {pos : Nat} {recState carry : Option (List τ)}
      {nbytes loopPos : Option Nat} :
      Step (r, a) (.capture reqId pos recState carry nbytes loopPos)
        ((r.capture reqId pos recState carry nbytes loopPos).1, a)
  | touch {r : Registry κ τ} {a : Bool} {key : κ} : Step (r, a) (.touch key) (r.touch key, a)
  | drop {r : Registry κ τ} {a : Bool} {key : κ} : Step (r, a) (.drop key) ((r.drop key).1, a)
  | clear {r : Registry κ τ} {a : Bool} : Step (r, a) .clear (r.clear, a)
  | disable {r : Registry κ τ} {a : Bool} {reason : String} : Step (r, a) (.disable reason) (r.disable reason, a)
  | noteOrphan {r : Registry κ τ} {a : Bool} {key : κ} : Step (r, a) (.noteOrphan key) (r.noteOrphan key, a)
  | tokensMatch {r : Registry κ τ} {a : Bool} {reqId : String} {candidate : Nat} {entry : Checkpoint κ τ}
      {tokens : List Token} :
      Step (r, a) (.tokensMatch reqId candidate entry tokens) ((r.tokensMatch reqId candidate entry tokens).1, a)
  | forgetRequest {r : Registry κ τ} {a : Bool} {reqId : String} :
      Step (r, a) (.forgetRequest reqId) ((r.forgetRequest reqId).1, a)

omit [DecidableEq κ] in
/-- The ledger of a cleared registry. -/
theorem Ledger.clear {r : Registry κ τ} (h : Ledger r) : Ledger r.clear :=
  ⟨⟨rfl, fun k hk => by simp [Registry.clear] at hk, fun p hp => by simp [Registry.clear] at hp⟩,
    ⟨h.held.1, h.held.2, h.held.3⟩, Int.natCast_nonneg _⟩

omit [DecidableEq κ] in
/-- The ledger through `disable`. -/
theorem Ledger.disable {r : Registry κ τ} (h : Ledger r) (reason : String) : Ledger (r.disable reason) :=
  Ledger.clear (h.of_same rfl rfl rfl rfl rfl rfl rfl rfl)

/-- The ledger through `note_orphan`: an orphan is an entry. -/
theorem Ledger.noteOrphan {r : Registry κ τ} (h : Ledger r) (key : κ) :
    Ledger (r.noteOrphan key) ∧ (r.noteOrphan key).committed = r.committed := by
  unfold Registry.noteOrphan
  split
  · rename_i hk
    refine ⟨⟨⟨h.stocked.1, fun k hk' => ?_, h.stocked.3⟩, ⟨h.held.1, h.held.2, h.held.3⟩, h.budget⟩, rfl⟩
    rcases Finset.mem_insert.mp hk' with rfl | hk'
    · exact Dict.isSome_get?.mp hk
    · exact h.stocked.orphans k hk'
  · exact ⟨h, rfl⟩

omit [DecidableEq κ] in
/-- The ledger through `tokens_match`. -/
theorem Ledger.tokensMatch {r : Registry κ τ} (h : Ledger r) (reqId : String) (candidate : Nat)
    (entry : Checkpoint κ τ) (tokens : List Token) :
    Ledger (r.tokensMatch reqId candidate entry tokens).1 ∧
      (r.tokensMatch reqId candidate entry tokens).1.committed = r.committed := by
  unfold Registry.tokensMatch
  simp only
  split <;> exact ⟨h.of_same rfl rfl rfl rfl rfl rfl rfl rfl, rfl⟩

omit [DecidableEq κ] in
/-- The ledger through `stage` of a grant whose checkpoint exists. -/
theorem Ledger.stage {r : Registry κ τ} (h : Ledger r) {g : Grant κ τ}
    (hobj : ∀ c, g.checkpoint = some c → c.ident < r.objects) : Ledger (r.stage g) := by
  refine ⟨⟨h.stocked.1, h.stocked.2, h.stocked.3⟩, ⟨h.held.pins, fun p hp => ?_, h.held.committed⟩, h.budget⟩
  rcases Dict.mem_set.mp hp with ⟨hp, -⟩ | rfl
  · exact h.held.staged p hp
  · exact hobj

omit [DecidableEq κ] in
/-- The ledger through `unstage`. -/
theorem Ledger.unstage {r : Registry κ τ} (h : Ledger r) (reqId : String) : Ledger (r.unstage reqId) :=
  ⟨⟨h.stocked.1, h.stocked.2, h.stocked.3⟩,
    ⟨h.held.pins, fun p hp => h.held.staged p (Dict.mem_erase.mp hp).1, h.held.committed⟩, h.budget⟩

omit [DecidableEq κ] in
/-- The ledger through the construction of a checkpoint elsewhere. -/
theorem Ledger.construct {r : Registry κ τ} (h : Ledger r) : Ledger { r with objects := r.objects + 1 } :=
  ⟨⟨h.stocked.1, h.stocked.2, h.stocked.3⟩,
    ⟨h.held.pins, fun p hp c hc => Nat.lt_succ_of_lt (h.held.staged p hp c hc),
      fun p hp c hc => Nat.lt_succ_of_lt (h.held.committed p hp c hc)⟩, h.budget⟩

/-- A step keeps the ledger, and as long as a commit may come no grant is committed. -/
theorem Step.ledger {x y : Registry κ τ × Bool} {op : Op κ τ} (hs : Step x op y)
    (h : Ledger x.1 ∧ (x.2 = true → x.1.committed = Dict.empty)) :
    Ledger y.1 ∧ (y.2 = true → y.1.committed = Dict.empty) := by
  obtain ⟨h, he⟩ := h
  cases hs with
  | construct => exact ⟨h.construct, he⟩
  | beginStep => exact ⟨h.beginStep.1, fun _ => h.beginStep.2.2.1⟩
  | stage hobj => exact ⟨h.stage hobj, he⟩
  | unstage => exact ⟨h.unstage _, he⟩
  | commit => exact ⟨h.commit (he rfl) _ _, fun hf => by cases hf⟩
  | put => exact ⟨(h.put _ _ _ _ _ _).1, fun ha => (put_keeps _ _ _ _ _ _ _).1.trans (he ha)⟩
  | capture => exact ⟨h.capture _ _ _ _ _ _, fun ha => (capture_keeps _ _ _ _ _ _ _).1.trans (he ha)⟩
  | touch => exact ⟨⟨touch_stocked h.stocked _, ⟨h.held.1, h.held.2, h.held.3⟩, h.budget⟩, he⟩
  | drop => exact ⟨h.remove _, fun ha => (remove_frame _ _).committed.trans (he ha)⟩
  | clear => exact ⟨h.clear, he⟩
  | disable => exact ⟨h.disable _, he⟩
  | noteOrphan => exact ⟨(h.noteOrphan _).1, fun ha => (h.noteOrphan _).2.trans (he ha)⟩
  | tokensMatch => exact ⟨(h.tokensMatch _ _ _ _).1, fun ha => (h.tokensMatch _ _ _ _).2.trans (he ha)⟩
  | @forgetRequest r a reqId =>
    refine ⟨h.forgetRequest _, fun ha => ?_⟩
    have hempty : r.committed = Dict.empty := he ha
    simp only [Registry.forgetRequest, hempty]
    rfl

/-- A run keeps the ledger. -/
theorem Run.ledger {budgetBytes : Nat} {midLoopCapture : Bool} {ops : List (Op κ τ)} {x : Registry κ τ × Bool}
    (h : Run Step (init budgetBytes midLoopCapture, true) ops x) :
    Ledger x.1 ∧ (x.2 = true → x.1.committed = Dict.empty) := by
  refine Run.invariant_state (P := fun x => Ledger x.1 ∧ (x.2 = true → x.1.committed = Dict.empty)) ?_
    (fun hi hs => Step.ledger hs hi) h
  exact ⟨⟨⟨rfl, fun k hk => by simp [init] at hk, fun p hp => by simp [init] at hp⟩,
    ⟨fun i => rfl, fun p hp => by simp [init] at hp, fun p hp => by simp [init] at hp⟩, Int.natCast_nonneg _⟩,
    fun _ => rfl⟩

/-- **The ledger balances after every operation**: the bytes are the entries' and within the budget, an orphan is an
entry, an entry is a boundary's tokens, its pins are the committed grants that hold it; a `begin_step` leaves no entry
pinned, and neither its budget pass nor that of a `put` removes a pinned entry. -/
theorem run_ledger {budgetBytes : Nat} {midLoopCapture : Bool} {ops : List (Op κ τ)} {r : Registry κ τ} {a : Bool}
    (h : Run Step (init budgetBytes midLoopCapture, true) ops (r, a)) :
    r.bytes = r.entries.sum (fun c => c.nbytes) ∧ r.bytes ≤ r.budgetBytes ∧
      (∀ k ∈ r.orphanKeys, k ∈ r.entries.keys) ∧
      (∀ p ∈ r.entries.items, 0 < p.2.pos ∧ p.2.pos % CHUNK = 0 ∧ p.2.tokenIds.length = p.2.pos ∧
        r.pins p.2.ident = r.committed.count (Grant.holds p.2.ident)) ∧
      (∀ p ∈ r.beginStep.entries.items, r.beginStep.pins p.2.ident = 0) ∧
      (∀ (key : κ) (pos : Nat) (tokenIds : List Token) (recState carry : Option (List τ)) (nbytes : Nat),
        ∀ p ∈ r.entries.items, 0 < r.pins p.2.ident →
          p ∈ (r.put key pos tokenIds recState carry nbytes).obj.entries.items) ∧
      ∀ p ∈ r.release.entries.items, 0 < r.release.pins p.2.ident → p ∈ r.beginStep.entries.items := by
  obtain ⟨hl, -⟩ := Run.ledger h
  refine ⟨hl.stocked.bytes, hl.budget, hl.stocked.orphans, fun p hp => ?_, fun p _ => hl.beginStep.2.1 _, ?_, ?_⟩
  · obtain ⟨h1, h2, h3⟩ := hl.stocked.boundary p hp
    exact ⟨h1, h2, h3, hl.held.pins _⟩
  · exact fun key pos tokenIds recState carry nbytes p hp hpin =>
      (hl.put key pos tokenIds recState carry nbytes).2 p hp (Nat.pos_iff_ne_zero.mp hpin)
  · intro p hp _
    rw [hl.beginStep.2.2.2]
    exact hp

/-- A checkpoint of 30 bytes over one chunk. -/
def sampleCheckpoint (ident key : Nat) : Checkpoint Nat Unit :=
  ⟨ident, key, 2048, List.replicate 2048 0, none, none, 30, ident + 1⟩

/-- A hit on it. -/
def sampleGrant (reqId : String) (checkpoint : Checkpoint Nat Unit) : Grant Nat Unit :=
  ⟨reqId, 2048, 2048, some checkpoint.key, some checkpoint, [], some 0, none, 2048, []⟩

/-- Three of them in a registry of 100 bytes. -/
def stocked : Registry Nat Unit :=
  [7, 8, 10].foldl (fun r key => (r.put key 2048 (List.replicate 2048 0) none none 30).obj) (init 100 true)

/-- A step commits hits on the first two. -/
def granted : Registry Nat Unit :=
  (((stocked.beginStep.stage (sampleGrant "a" (sampleCheckpoint 0 7))).stage
    (sampleGrant "b" (sampleCheckpoint 1 8))).commit (Dict.ofList [("a", 2048), ("b", 2048)]) fun _ => []).obj

/-- A fourth is put, which evicts the third, noted as an orphan; the first is dropped while its grant holds it. -/
def sample : Registry Nat Unit :=
  (((granted.noteOrphan 10).put 9 2048 (List.replicate 2048 0) none none 30).obj.drop 7).1

theorem sample_run : Run Step (init 100 true, true)
    [.put 7 2048 (List.replicate 2048 0) none none 30, .put 8 2048 (List.replicate 2048 0) none none 30,
      .put 10 2048 (List.replicate 2048 0) none none 30, .beginStep, .stage (sampleGrant "a" (sampleCheckpoint 0 7)),
      .stage (sampleGrant "b" (sampleCheckpoint 1 8)),
      .commit (Dict.ofList [("a", 2048), ("b", 2048)]) (fun _ => []), .noteOrphan 10,
      .put 9 2048 (List.replicate 2048 0) none none 30, .drop 7] (sample, false) := by
  have hstocked : Run Step (init 100 true, true) _ (stocked, true) := ((Run.single .put).snoc .put).snoc .put
  have hstage (reqId : String) (ident key : Nat) (hident : ident < 3) (r : Registry Nat Unit) (hr : r.objects = 3) :
      ∀ c, (sampleGrant reqId (sampleCheckpoint ident key)).checkpoint = some c → c.ident < r.objects := by
    intro c hc
    rw [← Option.some.inj hc, hr]
    exact hident
  have hfirst := hstage "a" 0 7 (by decide) stocked.beginStep (by decide +kernel)
  have hsecond := hstage "b" 1 8 (by decide) (stocked.beginStep.stage (sampleGrant "a" (sampleCheckpoint 0 7)))
    (by decide +kernel)
  have hgranted : Run Step (init 100 true, true) _ (granted, false) :=
    (((hstocked.snoc .beginStep).snoc (.stage hfirst)).snoc (.stage hsecond)).snoc .commit
  exact ((hgranted.snoc .noteOrphan).snoc .put).snoc .drop

/-- The ledger of the sample registry: the dropped checkpoint is still pinned, and so is the one it was put beside. -/
theorem run_ledger_sample :
    (sample.entries.keys = [8, 9] ∧ sample.pins 0 = 1 ∧ sample.pins 1 = 1 ∧ sample.orphanKeys = ∅) ∧
    sample.bytes = sample.entries.sum (fun c => c.nbytes) ∧ sample.bytes ≤ sample.budgetBytes ∧
      (∀ k ∈ sample.orphanKeys, k ∈ sample.entries.keys) ∧
      (∀ p ∈ sample.entries.items, 0 < p.2.pos ∧ p.2.pos % CHUNK = 0 ∧ p.2.tokenIds.length = p.2.pos ∧
        sample.pins p.2.ident = sample.committed.count (Grant.holds p.2.ident)) ∧
      (∀ p ∈ sample.beginStep.entries.items, sample.beginStep.pins p.2.ident = 0) ∧
      (∀ (key pos : Nat) (tokenIds : List Token) (recState carry : Option (List Unit)) (nbytes : Nat),
        ∀ p ∈ sample.entries.items, 0 < sample.pins p.2.ident →
          p ∈ (sample.put key pos tokenIds recState carry nbytes).obj.entries.items) ∧
      ∀ p ∈ sample.release.entries.items, 0 < sample.release.pins p.2.ident → p ∈ sample.beginStep.entries.items :=
  ⟨by decide +kernel, run_ledger sample_run⟩

end Registry

end BlackholeQwen.Prefix
