import BlackholeQwen.Packed.Staging
import BlackholeQwen.Lib.Runs

/-!
# The diff is the full staging

* `Snapshot.Formed`, `changed_exact`: what a snapshot records, and why writing only what it does not vouch for leaves
  the buffers as writing everything.
* `Vouched`: every snapshot is true as long as the epoch is its own, and none is used twice; kept by every event
  (`Vouched.apply`). `Follows` is what an event that takes no snapshot does to them.
* `prestaged_diff_exact`: what a verify's staging leaves.
-/

namespace BlackholeQwen.Packed

open Lib

namespace Snapshot

variable {ρ : Type}

/-- The destinations of a snapshot, with what it says of each. -/
def pairs (s : Snapshot ρ) : List (Nat × Option (HostValue ρ)) := s.destinations.zip s.values

/-- What a snapshot says that the buffers hold. -/
def record (s : Snapshot ρ) : List (Nat × HostValue ρ) := s.pairs.filterMap fun p => p.2.map fun v => (p.1, v)

/-- A snapshot has a value for every destination but one, and no destination twice. -/
structure Formed (s : Snapshot ρ) : Prop where
  length : s.values.length = s.destinations.length
  nodup : (s.record.map Prod.fst).Nodup
  tokens : ∃ t, ∀ p ∈ s.pairs, p.2 = none ↔ p.1 = t

/-- What a snapshot of written values says. -/
theorem record_taken (values : List (Nat × HostValue ρ)) (epoch tokens : Nat) :
    (Snapshot.mk epoch (values.map Prod.fst)
      (values.map fun v => if v.1 = tokens then none else some v.2)).record = values.filter fun v => v.1 ≠ tokens := by
  induction values with
  | nil => rfl
  | cons v values ih =>
    unfold record pairs at ih ⊢
    simp only [List.map_cons, List.zip_cons_cons, List.filter_cons, ne_eq]
    by_cases hv : v.1 = tokens
    · simpa [hv] using ih
    · simpa [hv] using ih

/-- A snapshot of values whose other destinations were written. -/
theorem Formed.taken {values : List (Nat × HostValue ρ)} {tokens : Nat} (epoch : Nat)
    (h : ((values.filter fun v => v.1 ≠ tokens).map Prod.fst).Nodup) :
    (Snapshot.mk epoch (values.map Prod.fst) (values.map fun v => if v.1 = tokens then none else some v.2)).Formed := by
  refine ⟨by simp, by rw [record_taken]; exact h, tokens, fun p hp => ?_⟩
  unfold pairs at hp
  simp only [List.zip_map', List.mem_map] at hp
  obtain ⟨v, -, rfl⟩ := hp
  by_cases hv : v.1 = tokens <;> simp [hv]

end Snapshot

namespace Staging

variable {ρ : Type} {m : StagingModel ρ} {w w' : Staging ρ}

/-- **Writing what a true snapshot does not vouch for leaves the buffers as writing everything.** -/
theorem changed_exact [DecidableEq ρ] {s : Snapshot ρ} (hs : s.Formed) {memory : Nat → HostValue ρ}
    (hrecord : ∀ p ∈ s.record, memory p.1 = p.2) {values : List (Nat × HostValue ρ)}
    (hdest : values.map Prod.fst = s.destinations) (hnd : ((changed values s.values).map Prod.fst).Nodup) :
    (values.map Prod.fst).Nodup ∧ store memory (changed values s.values) = store memory values := by
  have hlen : values.length = s.values.length := by rw [hs.length, ← hdest, List.length_map]
  obtain ⟨t, ht⟩ := hs.tokens
  -- the values beside what the snapshot says of their destinations
  have hpairs : s.pairs = (values.zip s.values).map fun z => (z.1.1, z.2) := by
    unfold Snapshot.pairs
    rw [← hdest, List.zip_map_left]
    rfl
  have htoken : ∀ z ∈ values.zip s.values, z.2 = none ↔ z.1.1 = t := fun z hz =>
    ht (z.1.1, z.2) (by rw [hpairs]; exact List.mem_map_of_mem hz)
  have hkept : ∀ z ∈ values.zip s.values, ∀ v, z.2 = some v → memory z.1.1 = v := fun z hz v hv =>
    hrecord (z.1.1, v) (by
      unfold Snapshot.record
      rw [hpairs, List.mem_filterMap]
      exact ⟨(z.1.1, z.2), List.mem_map_of_mem hz, by simp [hv]⟩)
  have hvalues : (values.zip s.values).map Prod.fst = values := List.map_fst_zip (by omega)
  have hrecorded : (values.zip s.values).Pairwise fun y z =>
      ∀ v, y.2 = some v → ∀ v', z.2 = some v' → y.1.1 ≠ z.1.1 := by
    have h := hs.nodup
    unfold Snapshot.record at h
    rw [hpairs, List.Nodup, List.pairwise_map, List.pairwise_filterMap, List.pairwise_map] at h
    exact h.imp fun {y z} h v hv v' hv' => h (y.1.1, v) (by rw [hv]; rfl) (z.1.1, v') (by rw [hv']; rfl)
  have hwritten : (values.zip s.values).Pairwise fun y z => y.2 = none → z.2 = none → y.1.1 ≠ z.1.1 := by
    unfold changed at hnd
    rw [List.Nodup, List.pairwise_map, List.pairwise_map, List.pairwise_filter] at hnd
    exact hnd.imp fun h hy hz => h (by simp [hy]) (by simp [hz])
  have hdistinct : (values.map Prod.fst).Nodup := by
    rw [← hvalues, List.Nodup, List.map_map, List.pairwise_map]
    refine (hrecorded.and hwritten).imp_of_mem fun {y z} hy hz h => ?_
    show y.1.1 ≠ z.1.1
    cases hy2 : y.2 with
    | some v =>
      cases hz2 : z.2 with
      | some v' => exact h.1 v hy2 v' hz2
      | none =>
        intro he
        have := (htoken y hy).mpr (he.trans ((htoken z hz).mp hz2))
        rw [hy2] at this
        cases this
    | none =>
      cases hz2 : z.2 with
      | some v' =>
        intro he
        have := (htoken z hz).mpr (he.symm.trans ((htoken y hy).mp hy2))
        rw [hz2] at this
        cases this
      | none => exact h.2 hy2 hz2
  refine ⟨hdistinct, store_changed (fun p hp => ?_) hdistinct hnd fun p hp hp' => ?_⟩
  · obtain ⟨z, hz, rfl⟩ := List.mem_map.mp hp
    rw [← hvalues]
    exact List.mem_map_of_mem (List.mem_of_mem_filter hz)
  · rw [← hvalues] at hp
    obtain ⟨z, hz, rfl⟩ := List.mem_map.mp hp
    refine hkept z hz z.1.2 ?_
    by_contra hne
    exact hp' (List.mem_map_of_mem (List.mem_filter.mpr ⟨hz, by simpa using hne⟩))

/-! ## The values of a round -/

/-- The readers' starts are not read. -/
theorem readerValues_mapReaders {ladder : Option Bool} {readers : List ReplayReader} {users : List PackedUser}
    {g : Nat → ReplayReader → ReplayReader} (hg : ∀ i r, g i r = { r with start := (g i r).start }) :
    readerValues (ρ := ρ) ladder (readers.zipIdx.map fun r => g r.2 r.1) users = readerValues ladder readers users := by
  have hleft : ((readers.zipIdx.map fun r => g r.2 r.1).zip users) =
      (readers.zipIdx.zip users).map fun p => (g p.1.2 p.1.1, p.2) := List.zip_map_left
  have hright : readers.zip users = (readers.zipIdx.zip users).map fun p => (p.1.1, p.2) := calc
    readers.zip users = (readers.zipIdx.map Prod.fst).zip users := by rw [List.zipIdx_map_fst]
    _ = _ := List.zip_map_left
  have hvalues : ((fun p : ReplayReader × PackedUser =>
        firstRow p.2.pages >>= fun row => p.1.stageValues (ρ := ρ) ladder p.2.start row) ∘
      fun p : (ReplayReader × Nat) × PackedUser => (g p.1.2 p.1.1, p.2)) =
      (fun p => firstRow p.2.pages >>= fun row => p.1.stageValues ladder p.2.start row) ∘
        fun p => (p.1.1, p.2) := funext fun p => by
    show (firstRow p.2.pages >>= fun row => (g p.1.2 p.1.1).stageValues ladder p.2.start row) = _
    rw [hg]
    rfl
  unfold readerValues
  rw [hleft, hright, List.mapM_map, List.mapM_map, hvalues]
  simp only [List.length_map, List.length_zipIdx]

/-- The readers' starts are not read. -/
theorem packedValues_mapReaders {shape : PackedShape} {ladder : Option Bool} {f : Fixture}
    {users : List (Option PackedUser)} {guard : Bool} {g : Nat → ReplayReader → ReplayReader}
    (hg : ∀ i r, g i r = { r with start := (g i r).start }) :
    packedValues m ladder (f.mapReaders g) shape users guard = packedValues m ladder f shape users guard := by
  have hreaders : readerValues (ρ := ρ) ladder ((f.mapReaders g).readers.getD []) (users.filterMap id) =
      readerValues ladder (f.readers.getD []) (users.filterMap id) := by
    unfold Fixture.mapReaders
    cases f.readers with
    | none => rfl
    | some readers => exact readerValues_mapReaders hg
  have hcheck : fixtureCheck (f.mapReaders g) shape = fixtureCheck f shape := by
    unfold fixtureCheck Fixture.mapReaders
    cases f.readers with
    | none => rfl
    | some readers => simp only [Option.map_some, Option.any_some, List.length_map, List.length_zipIdx]
  unfold packedValues
  rw [hcheck, hreaders]
  rfl

/-- What the guard lets through is computed without it. -/
theorem packedValues_guard {shape : PackedShape} {ladder : Option Bool} {f : Fixture}
    {users : List (Option PackedUser)} {values : List (Nat × HostValue ρ)}
    (h : packedValues m ladder f shape users true = .ok values) :
    packedValues m ladder f shape users false = .ok values := by
  unfold packedValues at h ⊢
  obtain ⟨⟨⟩, hcheck, h⟩ := bind_ok h
  obtain ⟨inputs, hinputs, h⟩ := bind_ok h
  obtain ⟨⟨⟩, -, h⟩ := bind_ok h
  rw [hcheck, hinputs]
  exact h

/-! ## The writes -/

/-- A write changes the buffers, and poisons the readers at most. -/
theorem writePacked_obj (w : Staging ρ) (b : Nat) (chosen : List (Nat × HostValue ρ)) (fence poison : Bool)
    (env : WriteEnv ρ) : ∃ memory, (w.writePacked b chosen fence poison env).obj = { w with memory := memory } ∨
      poison = true ∧ (w.writePacked b chosen fence poison env).obj =
        ({ w with memory := memory } : Staging ρ).modifyFixture b Fixture.poison := by
  unfold writePacked
  rcases Call.attempt_cases (do
      raiseIf (¬(chosen.map Prod.fst).Nodup)
        (.valueError "Two independent chip-local buffers per packed input required")
      env.hosted) w _ with ⟨e, -, h⟩ | ⟨⟨⟩, -, h⟩ <;> rw [h]
  · exact ⟨w.memory, Or.inl rfl⟩
  refine ⟨(writeBuffers w.memory chosen fence env).obj, ?_⟩
  split
  · exact Or.inl rfl
  · cases poison with
    | true => exact Or.inr ⟨rfl, rfl⟩
    | false => exact Or.inl rfl

/-- Copies that returned with their fence wrote the chosen values. -/
theorem writeBuffers_ok {memory : Nat → HostValue ρ} {chosen : List (Nat × HostValue ρ)} {fence : Bool}
    {env : WriteEnv ρ} {u : Unit} (h : (writeBuffers memory chosen fence env).result = .ok u) :
    writeBuffers memory chosen fence env = Call.ret (store memory chosen) () := by
  unfold writeBuffers at h ⊢
  cases hcopies : env.copies with
  | raised count torn e => rw [hcopies] at h; cases h
  | complete =>
    rw [hcopies] at h
    obtain ⟨⟨⟩, -, hc⟩ := Call.of_attempt h
    exact hc

/-- A write that returned wrote the chosen values, to distinct buffers. -/
theorem writePacked_ok {b : Nat} {chosen : List (Nat × HostValue ρ)} {fence poison : Bool} {env : WriteEnv ρ} {u : Unit}
    (h : (w.writePacked b chosen fence poison env).result = .ok u) :
    (chosen.map Prod.fst).Nodup ∧
      w.writePacked b chosen fence poison env = Call.ret { w with memory := store w.memory chosen } () := by
  obtain ⟨⟨⟩, hg, hc⟩ := Call.of_attempt h
  obtain ⟨⟨⟩, hnd, -⟩ := bind_ok hg
  rw [raiseIf_ok, not_not] at hnd
  refine ⟨hnd, ?_⟩
  rw [writePacked, hc] at h ⊢
  cases hres : (writeBuffers w.memory chosen fence env).result with
  | error e => rw [hres] at h; cases h
  | ok u => rw [writeBuffers_ok hres]; rfl

/-- A write whose device work raises nothing. -/
def quietWrite : WriteEnv ρ := ⟨.ok (), .complete, .ok (), false⟩

theorem writePacked_quiet {b : Nat} {chosen : List (Nat × HostValue ρ)} (fence poison : Bool)
    (hnd : (chosen.map Prod.fst).Nodup) :
    w.writePacked b chosen fence poison quietWrite = Call.ret { w with memory := store w.memory chosen } () := by
  have hg : (do
      raiseIf (¬(chosen.map Prod.fst).Nodup)
        (.valueError "Two independent chip-local buffers per packed input required")
      (quietWrite : WriteEnv ρ).hosted) = Except.ok () := by
    rw [raiseIf, if_neg (not_not.mpr hnd)]
    rfl
  rw [writePacked, hg]
  cases fence <;> rfl

/-! ## The full staging -/

/-- What a full staging leaves: every value in its buffer, every reader at its user's start. -/
structure Staged (w : Staging ρ) (b : Nat) (users : List (Option PackedUser)) (values : List (Nat × HostValue ρ))
    (w' : Staging ρ) : Prop where
  distinct : (values.map Prod.fst).Nodup
  memory : w'.memory = store w.memory values
  fixture : (w'.blocks b).fixture = (w.blocks b).fixture.setStarts (users.filterMap id)
  block : (w'.blocks b).block = (w.blocks b).block
  ladder : (w'.blocks b).ladder = (w.blocks b).ladder

/-- Every buffer holds its value. -/
theorem Staged.holds {b : Nat} {users : List (Option PackedUser)} {values : List (Nat × HostValue ρ)}
    (h : w.Staged b users values w') : ∀ p ∈ values, w'.memory p.1 = p.2 := fun p hp => by
  rw [h.memory]
  exact store_mem _ h.distinct hp

/-- The values of the round are the same after the staging. -/
theorem Staged.values_eq {b : Nat} {users : List (Option PackedUser)} {values : List (Nat × HostValue ρ)}
    (h : w.Staged b users values w') (guard : Bool) : w'.values m b users guard = w.values m b users guard := by
  unfold Staging.values
  rw [h.fixture, h.block, h.ladder]
  exact packedValues_mapReaders fun i r => rfl

/-- A full staging that returned. -/
theorem stagePacked_ok {b : Nat} {users : List (Option PackedUser)} {env : WriteEnv ρ} {n : Nat}
    (h : (w.stagePacked m b users env).result = .ok n) :
    ∃ values, w.values m b users true = .ok values ∧ w.Staged b users values (w.stagePacked m b users env).obj := by
  obtain ⟨values, hvalues, hc⟩ := Call.of_attempt h
  rw [stagePacked, hc] at h ⊢
  obtain ⟨⟨⟩, hwrite, hc⟩ := Call.of_bind h
  obtain ⟨hnd, hwritten⟩ := writePacked_ok hwrite
  rw [hc, hwritten]
  exact ⟨values, hvalues, hnd, rfl, by simp [modifyFixture, modify, bump], by simp [modifyFixture, modify, bump],
    by simp [modifyFixture, modify, bump]⟩

/-- A diff that returned, where what is left out of the write is vouched for. -/
theorem stageDiff_ok {b : Nat} {users : List (Option PackedUser)} {values chosen : List (Nat × HostValue ρ)}
    {env : WriteEnv ρ} {n : Nat} (h : (w.stageDiff b users chosen env).result = .ok n)
    (hexact : (chosen.map Prod.fst).Nodup →
      (values.map Prod.fst).Nodup ∧ store w.memory chosen = store w.memory values) :
    w.Staged b users values (w.stageDiff b users chosen env).obj := by
  unfold stageDiff at h ⊢
  cases hwrite : (w.writePacked b chosen false true env).result with
  | error e => rw [hwrite] at h; cases h
  | ok u =>
    obtain ⟨hnd, hwritten⟩ := writePacked_ok hwrite
    obtain ⟨hdistinct, hmemory⟩ := hexact hnd
    simp only [hwritten]
    exact ⟨hdistinct, hmemory, by simp [modifyFixture, modify, bump], by simp [modifyFixture, modify, bump],
      by simp [modifyFixture, modify, bump]⟩

/-- **The write of a stage whose snapshot is true leaves what the full staging leaves.** -/
theorem stageWrite_ok [DecidableEq ρ] {b : Nat} {users : List (Option PackedUser)} {snapshot : Option (Snapshot ρ)}
    {env : StageEnv ρ} {n : Nat} (htrue : ∀ s, snapshot = some s → s.Formed ∧ ∀ p ∈ s.record, w.memory p.1 = p.2)
    (h : (w.stageWrite m b users snapshot env).result = .ok n) :
    ∃ values, w.values m b users true = .ok values ∧
      w.Staged b users values (w.stageWrite m b users snapshot env).obj := by
  cases snapshot with
  | none => exact stagePacked_ok h
  | some s =>
    obtain ⟨hformed, hrecord⟩ := htrue s rfl
    obtain ⟨values, hvalues, hc⟩ := Call.of_attempt h
    rw [stageWrite, hc] at h ⊢
    by_cases hdest : values.map Prod.fst = s.destinations
    · rw [if_neg (not_not.mpr hdest)] at h ⊢
      have hstaged := stageDiff_ok h (changed_exact hformed hrecord hdest)
      exact ⟨values, hvalues, hstaged.distinct, hstaged.memory, hstaged.fixture, hstaged.block, hstaged.ladder⟩
    · rw [if_pos hdest] at h ⊢
      exact stagePacked_ok h

/-- An audit finds nothing after a staging. -/
theorem Staged.audited [DecidableEq ρ] {b : Nat} {users : List (Option PackedUser)} {values : List (Nat × HostValue ρ)}
    {env : StageEnv ρ} {u : Unit} (h : w.Staged b users values w') (hvalues : w.values m b users true = .ok values)
    (hr : (w'.auditRound m b users env).result = .ok u) :
    w.Staged b users values (w'.auditRound m b users env).obj := by
  have hagain : w'.values m b users false = .ok values := (h.values_eq false).trans (packedValues_guard hvalues)
  obtain ⟨values', hvalues', hc⟩ := Call.of_attempt hr
  obtain rfl := Except.ok.inj (hvalues'.symm.trans hagain)
  rw [auditRound, hc] at hr ⊢
  obtain ⟨⟨⟩, -, hc⟩ := Call.of_attempt hr
  rw [hc, if_neg fun ⟨i, _, p, hp, hne⟩ => hne (h.holds p (List.mem_of_getElem? hp))]
  exact ⟨h.distinct, h.memory, by simpa [rotate, modify] using h.fixture, by simpa [rotate, modify] using h.block,
    by simpa [rotate, modify] using h.ladder⟩

/-- A snapshot that serves is the block's, of the epoch. -/
theorem usable_inl {b : Nat} {s : Snapshot ρ} (h : w.usable b = .inl s) :
    (w.blocks b).snapshot = some s ∧ s.epoch = w.epoch := by
  unfold usable at h
  cases hs : (w.blocks b).snapshot with
  | none => rw [hs] at h; cases h
  | some s' =>
    by_cases he : s'.epoch = w.epoch
    · simp only [hs, he, ne_eq, not_true_eq_false, if_false] at h
      cases h
      exact ⟨rfl, he⟩
    · simp only [hs, ne_eq, he, not_false_eq_true, if_true] at h
      cases h

/-- Dropping a snapshot changes neither the values of a round nor what a full staging leaves. -/
theorem Staged.of_forget {b : Nat} {users : List (Option PackedUser)} {values : List (Nat × HostValue ρ)}
    {reason : String} (h : (w.forget b reason).Staged b users values w') : w.Staged b users values w' :=
  ⟨h.distinct, h.memory, by simpa [forget, modify] using h.fixture, by simpa [forget, modify] using h.block,
    by simpa [forget, modify] using h.ladder⟩

theorem values_forget (b : Nat) (users : List (Option PackedUser)) (guard : Bool) (reason : String) :
    (w.forget b reason).values m b users guard = w.values m b users guard := by
  simp [values, forget, modify]

/-- **A stage whose snapshot is true leaves what the full staging leaves.** -/
theorem stage_ok [DecidableEq ρ] {b : Nat} {entries : List StageEntry} {segments : List Nat}
    {snapshot : Option (Snapshot ρ)} {env : StageEnv ρ} {n : Nat}
    (htrue : ∀ s, snapshot = some s → s.Formed ∧ ∀ p ∈ s.record, w.memory p.1 = p.2)
    (h : (w.stage m b entries segments snapshot env).result = .ok n) :
    ∃ users values, w.roundUsers (w.blocks b).block entries segments = .ok users ∧
      w.values m b users true = .ok values ∧
      w.Staged b users values (w.stage m b entries segments snapshot env).obj := by
  obtain ⟨users, husers, hc⟩ := Call.of_attempt h
  rw [stage, hc] at h ⊢
  obtain ⟨written, hwrite, hc⟩ := Call.of_bind h
  obtain ⟨values, hvalues, hstaged⟩ := stageWrite_ok (w := w.forget b "no-snapshot") htrue hwrite
  rw [hc] at h ⊢
  rw [values_forget] at hvalues
  refine ⟨users, values, husers, hvalues, ?_⟩
  split at h
  · rename_i haudit
    rw [if_pos haudit]
    cases hr : (((w.forget b "no-snapshot").stageWrite m b users snapshot env).obj.auditRound m b users env).result with
    | error e => rw [Call.map, hr] at h; cases h
    | ok u => exact hstaged.of_forget.audited hvalues hr
  · rename_i haudit
    rw [if_neg haudit]
    exact hstaged.of_forget

/-! ## What a snapshot vouches for -/

/-- **The invariant.** Every snapshot is true as long as the epoch is its own, and none is used twice. -/
structure Vouched (w : Staging ρ) : Prop where
  formed : ∀ b s, (w.blocks b).snapshot = some s → s.Formed
  dated : ∀ b s, (w.blocks b).snapshot = some s → Dated w.epoch w.memory s.epoch s.record
  distinct : ∀ b b' s s', (w.blocks b).snapshot = some s → (w.blocks b').snapshot = some s' → s.epoch = s'.epoch →
    b = b'
  once : w.served.Nodup
  past : ∀ e ∈ w.served, e ≤ w.epoch
  unserved : ∀ b s, (w.blocks b).snapshot = some s → s.epoch ∉ w.served

/-- An event that takes no snapshot, uses none, and writes only while it moves the epoch. -/
structure Follows (w w' : Staging ρ) : Prop where
  epoch : w.epoch ≤ w'.epoch
  memory : w'.epoch = w.epoch → w'.memory = w.memory
  snapshot : ∀ b s, (w'.blocks b).snapshot = some s → (w.blocks b).snapshot = some s
  served : w'.served = w.served

theorem Follows.refl (w : Staging ρ) : Follows w w := ⟨Nat.le_refl _, fun _ => rfl, fun _ _ h => h, rfl⟩

theorem Follows.trans {w'' : Staging ρ} (h : Follows w w') (h' : Follows w' w'') : Follows w w'' where
  epoch := Nat.le_trans h.epoch h'.epoch
  memory he := (h'.memory (by have := h.epoch; have := h'.epoch; omega)).trans
    (h.memory (by have := h.epoch; have := h'.epoch; omega))
  snapshot b s hs := h.snapshot b s (h'.snapshot b s hs)
  served := h'.served.trans h.served

/-- Such an event keeps the invariant. -/
theorem Vouched.follows (h : Vouched w) (hf : Follows w w') : Vouched w' where
  formed b s hs := h.formed b s (hf.snapshot b s hs)
  dated b s hs := by
    have hd := h.dated b s (hf.snapshot b s hs)
    rcases Nat.lt_or_eq_of_le hf.epoch with hlt | he
    · exact hd.moved hlt
    · rw [← he, hf.memory he.symm]
      exact hd
  distinct b b' s s' hs hs' := h.distinct b b' s s' (hf.snapshot b s hs) (hf.snapshot b' s' hs')
  once := hf.served ▸ h.once
  past e he := Nat.le_trans (h.past e (hf.served ▸ he)) hf.epoch
  unserved b s hs := hf.served ▸ h.unserved b s (hf.snapshot b s hs)

/-- Anything may be written if the epoch moves next. -/
theorem Follows.bumped {v : Staging ρ} (hepoch : v.epoch = w.epoch) (hserved : v.served = w.served)
    (hsnapshot : ∀ b s, (v.blocks b).snapshot = some s → (w.blocks b).snapshot = some s) (reason : String) :
    Follows w (v.bump reason) := by
  have hmoved : (v.bump reason).epoch = w.epoch + 1 := congrArg (· + 1) hepoch
  exact ⟨by omega, fun he => by omega, hsnapshot, hserved⟩

/-- A block keeps its snapshot or loses it. -/
theorem Follows.modify (w : Staging ρ) (b : Nat) {g : StagedBlock ρ → StagedBlock ρ}
    (hg : ∀ s, (g (w.blocks b)).snapshot = some s → (w.blocks b).snapshot = some s) : Follows w (w.modify b g) where
  epoch := Nat.le_refl _
  memory _ := rfl
  snapshot b' s hs := by
    by_cases hb : b' = b
    · subst hb
      exact hg s (by simpa [Staging.modify] using hs)
    · simpa [Staging.modify, hb] using hs
  served := rfl

theorem Follows.forget (w : Staging ρ) (b : Nat) (reason : String) : Follows w (w.forget b reason) :=
  Follows.modify w b fun _ hs => (by cases hs)

theorem Follows.modifyFixture (w : Staging ρ) (b : Nat) (g : Fixture → Fixture) : Follows w (w.modifyFixture b g) :=
  Follows.modify w b fun _ hs => hs

/-- A write takes and uses no snapshot. -/
theorem writePacked_kept (w : Staging ρ) (b : Nat) (chosen : List (Nat × HostValue ρ)) (fence poison : Bool)
    (env : WriteEnv ρ) : (w.writePacked b chosen fence poison env).obj.epoch = w.epoch ∧
      (w.writePacked b chosen fence poison env).obj.served = w.served ∧
      ∀ b' s, ((w.writePacked b chosen fence poison env).obj.blocks b').snapshot = some s →
        (w.blocks b').snapshot = some s := by
  obtain ⟨memory, hobj | ⟨-, hobj⟩⟩ := writePacked_obj w b chosen fence poison env <;> rw [hobj]
  · exact ⟨rfl, rfl, fun _ _ hs => hs⟩
  · exact ⟨rfl, rfl, (Follows.modifyFixture { w with memory := memory } b Fixture.poison).snapshot⟩

/-- A write, once the epoch has moved. -/
theorem Follows.written {w₁ : Staging ρ} (h : Follows w w₁) (hlt : w.epoch < w₁.epoch) (b : Nat)
    (chosen : List (Nat × HostValue ρ)) (fence poison : Bool) (env : WriteEnv ρ) :
    Follows w (w₁.writePacked b chosen fence poison env).obj := by
  obtain ⟨hepoch, hserved, hsnapshot⟩ := writePacked_kept w₁ b chosen fence poison env
  exact ⟨hepoch ▸ h.epoch, fun he => by omega, fun b' s hs => h.snapshot b' s (hsnapshot b' s hs),
    hserved.trans h.served⟩

/-- The full staging bumps the epoch first. -/
theorem Follows.stagePacked (w : Staging ρ) (b : Nat) (users : List (Option PackedUser)) (env : WriteEnv ρ) :
    Follows w (w.stagePacked m b users env).obj := by
  have hbump : Follows w (w.bump "stage_packed") := Follows.bumped rfl rfl (fun _ _ hs => hs) _
  refine Call.attempt_obj hbump fun values _ => ?_
  have hwritten := hbump.written (Nat.lt_succ_self _) b values true true env
  refine Call.bind_obj hwritten fun _ _ => hwritten.trans ?_
  rw [Call.ret_obj]
  exact Follows.modifyFixture _ b _

/-- The audit restages or only moves its cursor. -/
theorem Follows.auditRound [DecidableEq ρ] (w : Staging ρ) (b : Nat) (users : List (Option PackedUser))
    (env : StageEnv ρ) : Follows w (w.auditRound m b users env).obj := by
  refine Call.attempt_obj (Follows.refl w) fun values _ => ?_
  have hrotate : Follows w (w.rotate b values.length) := Follows.modify w b fun s hs => hs
  refine Call.attempt_obj hrotate fun _ _ => ?_
  split
  · exact hrotate.trans (Follows.stagePacked (m := m) _ b users env.restage)
  · exact hrotate

/-- A snapshot that no block holds any longer and no stage has used. -/
structure Unused (w : Staging ρ) (s : Snapshot ρ) : Prop where
  past : s.epoch ≤ w.epoch
  unserved : s.epoch ∉ w.served
  dropped : ∀ b s', (w.blocks b).snapshot = some s' → s'.epoch ≠ s.epoch

/-- Using it keeps the invariant. -/
theorem Vouched.serve (h : Vouched w) {s : Snapshot ρ} (hs : Unused w s) :
    Vouched { w with served := s.epoch :: w.served } where
  formed := h.formed
  dated := h.dated
  distinct := h.distinct
  once := List.nodup_cons.mpr ⟨hs.unserved, h.once⟩
  past e he := (List.mem_cons.mp he).elim (fun he => he ▸ hs.past) (h.past e)
  unserved b s' hs' := by
    rw [List.mem_cons, not_or]
    exact ⟨hs.dropped b s' hs', h.unserved b s' hs'⟩

/-- The diff moves the epoch whether or not it returns. -/
theorem Vouched.stageDiff (h : Vouched w) (b : Nat) (users : List (Option PackedUser))
    (chosen : List (Nat × HostValue ρ)) (env : WriteEnv ρ) : Vouched (w.stageDiff b users chosen env).obj := by
  obtain ⟨hepoch, hserved, hsnapshot⟩ := writePacked_kept w b chosen false true env
  refine h.follows ?_
  unfold Staging.stageDiff
  split
  · refine Follows.bumped (v := Staging.modifyFixture _ b _) hepoch hserved (fun b' s hs => hsnapshot b' s ?_) "verify"
    exact (Follows.modifyFixture _ b fun f => f.setStarts (users.filterMap id)).snapshot b' s hs
  · exact Follows.bumped hepoch hserved hsnapshot "verify-failed"

theorem Vouched.stageWrite [DecidableEq ρ] (h : Vouched w) (b : Nat) (users : List (Option PackedUser))
    {snapshot : Option (Snapshot ρ)} (hs : ∀ s, snapshot = some s → Unused w s) (env : StageEnv ρ) :
    Vouched (w.stageWrite m b users snapshot env).obj := by
  cases snapshot with
  | none => exact h.follows (Follows.stagePacked w b users env.full)
  | some s =>
    refine Call.attempt_obj h fun values _ => ?_
    split
    · exact h.follows (Follows.stagePacked w b users env.full)
    · exact (h.serve (hs s rfl)).stageDiff b users _ env.diff

theorem Vouched.stage [DecidableEq ρ] (h : Vouched w) (b : Nat) (entries : List StageEntry) (segments : List Nat)
    {snapshot : Option (Snapshot ρ)} (hs : ∀ s, snapshot = some s → Unused (w.forget b "no-snapshot") s)
    (env : StageEnv ρ) : Vouched (w.stage m b entries segments snapshot env).obj := by
  refine Call.attempt_obj h fun users _ => ?_
  have hforget : Vouched (w.forget b "no-snapshot") := h.follows (Follows.forget w b _)
  have hwrite := hforget.stageWrite (m := m) b users hs env
  refine Call.bind_obj hwrite fun written _ => ?_
  split
  · exact hwrite.follows (Follows.auditRound (m := m) _ b users env)
  · exact hwrite

/-- The usable snapshot of a block is unused once the block has dropped it. -/
theorem Vouched.unused (h : Vouched w) {b : Nat} {s : Snapshot ρ} (hs : w.usable b = .inl s) :
    Unused (w.forget b "no-snapshot") s where
  past := (usable_inl hs).2.le
  unserved := h.unserved b s (usable_inl hs).1
  dropped b' s' hs' he := by
    have hkept := (Follows.forget w b "no-snapshot").snapshot b' s' hs'
    obtain rfl := h.distinct b' b s' s hkept (usable_inl hs).1 he
    simp [forget, modify] at hs'

theorem Vouched.verifyStage [DecidableEq ρ] (h : Vouched w) (b : Nat) (entries : List StageEntry)
    (bound : Except PyError Unit) (env : StageEnv ρ) : Vouched (w.verifyStage m b entries bound env).obj := by
  refine Call.attempt_obj h fun segments _ => ?_
  split
  · rename_i s hs
    exact h.stage b entries segments (fun s' hs' => Option.some.inj hs' ▸ h.unused hs) env
  · refine Call.attempt_obj h fun _ _ => ?_
    exact h.stage b entries segments (fun s' hs' => (by cases hs')) env

/-! ## Runs -/

/-- A block takes a true snapshot, of an epoch that no other is of. -/
theorem Vouched.taken (h : Vouched w) (b : Nat) {s : Snapshot ρ} (hformed : s.Formed)
    (hdated : Dated w.epoch w.memory s.epoch s.record)
    (hfresh : ∀ b' s', (w.blocks b').snapshot = some s' → s'.epoch ≠ s.epoch) (hunserved : s.epoch ∉ w.served) :
    Vouched (w.modify b fun x => { x with snapshot := some s, dropped := none }) := by
  have hcases : ∀ b' s', ((w.modify b fun x => { x with snapshot := some s, dropped := none }).blocks b').snapshot =
      some s' → b' = b ∧ s' = s ∨ b' ≠ b ∧ (w.blocks b').snapshot = some s' := fun b' s' hs' => by
    by_cases hb : b' = b
    · subst hb
      simp only [Staging.modify, Function.update_self, Option.some.injEq] at hs'
      exact Or.inl ⟨rfl, hs'.symm⟩
    · simp only [Staging.modify, Function.update_of_ne hb] at hs'
      exact Or.inr ⟨hb, hs'⟩
  refine ⟨fun b' s' hs' => ?_, fun b' s' hs' => ?_, fun b' b'' s' s'' hs' hs'' he => ?_, h.once, h.past,
    fun b' s' hs' => ?_⟩
  · rcases hcases b' s' hs' with ⟨-, rfl⟩ | ⟨-, hs'⟩
    · exact hformed
    · exact h.formed b' s' hs'
  · rcases hcases b' s' hs' with ⟨-, rfl⟩ | ⟨-, hs'⟩
    · exact hdated
    · exact h.dated b' s' hs'
  · rcases hcases b' s' hs' with ⟨rfl, rfl⟩ | ⟨-, hk'⟩ <;> rcases hcases b'' s'' hs'' with ⟨rfl, rfl⟩ | ⟨-, hk''⟩
    · rfl
    · exact absurd he.symm (hfresh b'' s'' hk'')
    · exact absurd he (hfresh b' s' hk')
    · exact h.distinct b' b'' s' s'' hk' hk'' he
  · rcases hcases b' s' hs' with ⟨-, rfl⟩ | ⟨-, hs'⟩
    · exact hunserved
    · exact h.unserved b' s' hs'

/-- A pre-stage invalidates what was there before it writes, and its snapshot says what it wrote. -/
theorem Vouched.prestage (h : Vouched w) (b : Nat) (users : List (Option PackedUser)) (bound : Except PyError Unit)
    (env : WriteEnv ρ) : Vouched (w.prestage m b users bound env).obj := by
  have hforget : Follows w (w.forget b "prestage-incomplete") := Follows.forget w b _
  have hbump : Follows w ((w.forget b "prestage-incomplete").bump "prestage") :=
    hforget.trans (Follows.bumped rfl rfl (fun _ _ hs => hs) _)
  have hlt : w.epoch < ((w.forget b "prestage-incomplete").bump "prestage").epoch := Nat.lt_succ_self _
  refine Call.attempt_obj (h.follows hforget) fun _ _ => ?_
  refine Call.attempt_obj (h.follows hbump) fun values _ => ?_
  have hwritten := hbump.written hlt b (values.filter fun v => v.1 ≠ (w.blocks b).fixture.tokens) false false env
  refine Call.bind_obj (h.follows hwritten) fun u hwrite => ?_
  obtain ⟨hnd, hok⟩ := writePacked_ok hwrite
  rw [hok] at hwritten ⊢
  have hv := h.follows hwritten
  -- the new snapshot is of an epoch that nothing is dated with
  refine hv.taken b (Snapshot.Formed.taken _ hnd) ?_ (fun b' s hs he => ?_) fun hserved => ?_
  · rw [Snapshot.record_taken]
    exact Dated.taken hnd
  · have hle := (h.dated b' s (hbump.snapshot b' s hs)).le
    have he : s.epoch = w.epoch + 1 := he
    omega
  · exact absurd (h.past _ hserved) (by show ¬w.epoch + 1 ≤ w.epoch; omega)

/-- Every event keeps the invariant. -/
theorem Vouched.apply [DecidableEq ρ] (h : Vouched w) (op : Op ρ) : Vouched (w.apply m op) := by
  cases op with
  | prestage b users bound env => exact h.prestage b users bound env
  | prestageRequests b requests bound env => exact Call.attempt_obj h fun users _ => h.prestage b users bound env
  | drop b reason => exact h.follows (Follows.forget w b reason)
  | write reason memory =>
    have hbump : Follows w (Staging.bump { w with memory := memory } reason) :=
      Follows.bumped (w := w) (v := { w with memory := memory }) rfl rfl (fun _ _ hs => hs) reason
    exact h.follows hbump
  | setReaders g => exact h.follows ⟨Nat.le_refl _, fun _ => rfl, fun _ _ hs => hs, rfl⟩
  | setTable table pages => exact h.follows ⟨Nat.le_refl _, fun _ => rfl, fun _ _ hs => hs, rfl⟩
  | setPhase b phase =>
    have hphase : Follows w (w.modify b fun s => { s with phase }) := Follows.modify w b fun s hs => hs
    exact h.follows hphase
  | verify b entries bound env => exact h.verifyStage b entries bound env

/-- No snapshot yet, so none has been used. -/
structure Fresh (w : Staging ρ) : Prop where
  snapshot : ∀ b, (w.blocks b).snapshot = none
  served : w.served = []

theorem Fresh.vouched (h : Fresh w) : Vouched w where
  formed b s hs := by rw [h.snapshot] at hs; cases hs
  dated b s hs := by rw [h.snapshot] at hs; cases hs
  distinct b b' s s' hs := by rw [h.snapshot] at hs; cases hs
  once := h.served ▸ List.nodup_nil
  past e he := by rw [h.served] at he; cases he
  unserved b s hs := by rw [h.snapshot] at hs; cases hs

theorem Vouched.run [DecidableEq ρ] {w₀ : Staging ρ} {ops : List (Op ρ)} (h0 : Fresh w₀)
    (hrun : Run (Step m) w₀ ops w) : Vouched w := by
  refine Run.invariant_state h0.vouched ?_ hrun
  rintro t op _ ht rfl
  exact ht.apply op

/-! ## The verify -/

/-- **A verify's staging that returned left what the full staging leaves.** -/
theorem Vouched.verifyStage_ok [DecidableEq ρ] (h : Vouched w) {b : Nat} {entries : List StageEntry}
    {bound : Except PyError Unit} {env : StageEnv ρ} {n : Nat}
    (hr : (w.verifyStage m b entries bound env).result = .ok n) :
    ∃ segments users values, (w.blocks b).block.roundSegments (w.owners entries) = .ok segments ∧
      w.roundUsers (w.blocks b).block entries segments = .ok users ∧ w.values m b users true = .ok values ∧
      w.Staged b users values (w.verifyStage m b entries bound env).obj := by
  obtain ⟨segments, hsegments, hc⟩ := Call.of_attempt hr
  rw [Staging.verifyStage, hc] at hr ⊢
  cases husable : w.usable b with
  | inl s =>
    simp only [husable] at hr ⊢
    obtain ⟨hs, he⟩ := usable_inl husable
    obtain ⟨users, values, husers, hvalues, hstaged⟩ := stage_ok
      (fun s' hs' => Option.some.inj hs' ▸ ⟨h.formed b s hs, (h.dated b s hs).holds he⟩) hr
    exact ⟨segments, users, values, hsegments, husers, hvalues, hstaged⟩
  | inr reason =>
    simp only [husable] at hr ⊢
    obtain ⟨⟨⟩, -, hc⟩ := Call.of_attempt hr
    rw [hc] at hr ⊢
    obtain ⟨users, values, husers, hvalues, hstaged⟩ := stage_ok (fun s' hs' => (by cases hs')) hr
    exact ⟨segments, users, values, hsegments, husers, hvalues, hstaged⟩

/-- What the full staging leaves when nothing raises. -/
theorem stagePacked_quiet {b : Nat} {users : List (Option PackedUser)} {values : List (Nat × HostValue ρ)}
    (hvalues : w.values m b users true = .ok values) (hnd : (values.map Prod.fst).Nodup) :
    w.Staged b users values (w.stagePacked m b users quietWrite).obj ∧
      (w.stagePacked m b users quietWrite).result = .ok values.length := by
  have hbump : (w.bump "stage_packed").writePacked b values true true quietWrite = _ := writePacked_quiet true true hnd
  unfold stagePacked
  rw [hvalues, Call.attempt_ok, hbump, Call.bind_ret]
  exact ⟨⟨hnd, rfl, by simp [modifyFixture, modify, bump], by simp [modifyFixture, modify, bump],
    by simp [modifyFixture, modify, bump]⟩, rfl⟩

/-- Every reader is at its user's start. -/
theorem Staged.starts {b : Nat} {users : List (Option PackedUser)} {values : List (Nat × HostValue ρ)}
    (h : w.Staged b users values w') (hvalues : w.values m b users true = .ok values) :
    (((w'.blocks b).fixture.readers.getD []).map ReplayReader.start) =
      (users.filterMap id).map fun u => some u.start := by
  have hlen : ((w.blocks b).fixture.readers.getD []).length = (users.filterMap id).length := by
    unfold Staging.values packedValues at hvalues
    obtain ⟨_, _, hvalues⟩ := bind_ok hvalues
    obtain ⟨_, _, hvalues⟩ := bind_ok hvalues
    obtain ⟨_, _, hvalues⟩ := bind_ok hvalues
    obtain ⟨_, hreaders, _⟩ := bind_ok hvalues
    obtain ⟨⟨⟩, hlen, -⟩ := bind_ok hreaders
    rw [raiseIf_ok, not_not] at hlen
    exact hlen
  rw [h.fixture]
  generalize users.filterMap id = us at hlen ⊢
  unfold Fixture.setStarts Fixture.mapReaders
  cases hr : (w.blocks b).fixture.readers with
  | none =>
    rw [hr] at hlen
    rw [List.eq_nil_of_length_eq_zero hlen.symm]
    rfl
  | some readers =>
    rw [hr] at hlen
    refine List.ext_getElem (by simpa using hlen) fun i hi hi' => ?_
    have hu : i < us.length := by simpa using hi'
    simp [List.getElem?_eq_getElem hu]

/-- A pre-stage changes no reader, returned or raised. -/
theorem prestage_fixture (b : Nat) (users : List (Option PackedUser)) (bound : Except PyError Unit)
    (env : WriteEnv ρ) (b' : Nat) :
    ((w.prestage m b users bound env).obj.blocks b').fixture = (w.blocks b').fixture := by
  have hforget : ((w.forget b "prestage-incomplete").blocks b').fixture = (w.blocks b').fixture := by
    by_cases hb : b' = b
    · subst hb; simp [forget, modify]
    · simp [forget, modify, hb]
  refine Call.attempt_obj (P := fun w' : Staging ρ => (w'.blocks b').fixture = (w.blocks b').fixture) hforget
    fun _ _ => ?_
  refine Call.attempt_obj (P := fun w' : Staging ρ => (w'.blocks b').fixture = (w.blocks b').fixture) hforget
    fun values _ => ?_
  obtain ⟨memory, hobj | ⟨hpoison, -⟩⟩ := writePacked_obj ((w.forget b "prestage-incomplete").bump "prestage") b
    (values.filter fun v => v.1 ≠ (w.blocks b).fixture.tokens) false false env
  · have hwritten : ∀ v : Staging ρ, v = { (w.forget b "prestage-incomplete").bump "prestage" with memory := memory } →
      (v.blocks b').fixture = (w.blocks b').fixture := fun v hv => by rw [hv]; exact hforget
    refine Call.bind_obj (P := fun w' : Staging ρ => (w'.blocks b').fixture = (w.blocks b').fixture)
      (hwritten _ hobj) fun _ _ => ?_
    rw [hobj]
    by_cases hb : b' = b
    · subst hb; simpa [modify, bump] using hforget
    · simpa [modify, bump, hb] using hforget
  · cases hpoison

/-- **Main result.** After any interleaving of pre-stages, drops, other writers and verifies, over any blocks: a verify
whose staging returns leaves in the buffers and the fixture what the full staging leaves, every value of the round in
its buffer and every reader at its user's start. No snapshot has been used twice, and none that a block holds has been
used; and a pre-stage changes no reader of any block, whether it returns or raises. -/
theorem prestaged_diff_exact [DecidableEq ρ] {w₀ : Staging ρ} {ops : List (Op ρ)} (h0 : Fresh w₀)
    (hrun : Run (Step m) w₀ ops w) :
    (∀ (b : Nat) (entries : List StageEntry) (bound : Except PyError Unit) (env : StageEnv ρ) (n : Nat),
      (w.verifyStage m b entries bound env).result = .ok n →
      ∃ segments users values, (w.blocks b).block.roundSegments (w.owners entries) = .ok segments ∧
        w.roundUsers (w.blocks b).block entries segments = .ok users ∧ w.values m b users true = .ok values ∧
        (∀ p ∈ values, (w.verifyStage m b entries bound env).obj.memory p.1 = p.2) ∧
        (((w.verifyStage m b entries bound env).obj.blocks b).fixture.readers.getD []).map ReplayReader.start =
          (users.filterMap id).map (fun u => some u.start) ∧
        (w.stagePacked m b users quietWrite).result = .ok values.length ∧
        (w.verifyStage m b entries bound env).obj.memory = (w.stagePacked m b users quietWrite).obj.memory ∧
        ((w.verifyStage m b entries bound env).obj.blocks b).fixture =
          ((w.stagePacked m b users quietWrite).obj.blocks b).fixture) ∧
    (w.served.Nodup ∧ ∀ b s, (w.blocks b).snapshot = some s → s.epoch ∉ w.served) ∧
    ∀ (b : Nat) (users : List (Option PackedUser)) (bound : Except PyError Unit) (env : WriteEnv ρ) (b' : Nat),
      ((w.prestage m b users bound env).obj.blocks b').fixture = (w.blocks b').fixture := by
  have h := Vouched.run h0 hrun
  refine ⟨fun b entries bound env n hr => ?_, ⟨h.once, h.unserved⟩, prestage_fixture⟩
  obtain ⟨segments, users, values, hsegments, husers, hvalues, hstaged⟩ := h.verifyStage_ok hr
  obtain ⟨hfull, hreturned⟩ := stagePacked_quiet hvalues hstaged.distinct
  exact ⟨segments, users, values, hsegments, husers, hvalues, hstaged.holds, hstaged.starts hvalues, hreturned,
    hstaged.memory.trans hfull.memory.symm, hstaged.fixture.trans hfull.fixture.symm⟩

/-- Two segments of one row each, on the extent path. -/
def sampleBlock : PackedBlock where
  shape := ⟨2, 1, 2, 4, 256⟩
  carries := [7, 8]
  paddedMinUsers := none
  extent := true
  replayCapacity := 256
  carriesInPlace := false
  lent := fun _ => true
  carries_length := rfl
  family := fun h => (by cases h)

/-- A reader of one bundle, at three addresses. -/
def sampleReader (address : Nat) : ReplayReader :=
  ⟨true, 1, 256, 4, address, [(1, address + 1)], [address + 2], none, false, false⟩

/-- What the sample's buffers were captured with. -/
def sampleSignature (address : Nat) : Dtype × Layout × List Nat :=
  if address = 0 then (.uint32, .rowMajor, [2, 1])
  else if address = 1 then (.int32, .rowMajor, [2])
  else if address = 2 ∨ address = 3 then (.bfloat16, .tile, [1, 2, 1, 128])
  else if address = 4 then (.int32, .rowMajor, [2, 4])
  else if address = 10 ∨ address = 20 then (.int32, .rowMajor, [8])
  else if address = 5 ∨ address = 6 ∨ address = 12 ∨ address = 22 then (.int32, .rowMajor, [1])
  else (.int32, .rowMajor, [1, 4])

def sampleFixture : Fixture :=
  ⟨2, 0, 1, 2, 3, 4, [5, 6], [7, 8], [], false, some [sampleReader 10, sampleReader 20], sampleSignature⟩

def sampleModel : StagingModel Nat := ⟨id, id, 128, 1000⟩

/-- One audited block, nothing staged yet. -/
def sampleWorld : Staging Nat :=
  ⟨0, "start", fun _ => HostValue.vector [], fun table => some [[1, 2, 3, 4 + table]],
    fun _ => ⟨sampleBlock, none, sampleFixture, .idle, none, some "no-snapshot", true, 0⟩, []⟩

/-- The pre-stage of the users of a round. -/
def samplePrestage : Op Nat :=
  .prestage 0 [some ⟨[0], 130, some [[1, 2, 3, 4]]⟩, some ⟨[0], 140, some [[1, 2, 3, 5]]⟩] (.ok ()) quietWrite

/-- The round: its tickets, through the engines of the second segment and the first. -/
def sampleEntries : List StageEntry := [⟨some 8, 1, [17], 140⟩, ⟨some 7, 0, [16], 130⟩]

def sampleEnv : StageEnv Nat := ⟨quietWrite, quietWrite, .ok (), quietWrite⟩

/-- The sample's verify writes the tokens alone, and every buffer holds its value of the round. -/
theorem prestaged_diff_exact_sample :
    ((sampleWorld.apply sampleModel samplePrestage).verifyStage sampleModel 0 sampleEntries (.ok ()) sampleEnv).result =
      .ok 1 ∧
    (∃ users values, (sampleWorld.apply sampleModel samplePrestage).values sampleModel 0 users true = .ok values ∧
      ∀ p ∈ values, ((sampleWorld.apply sampleModel samplePrestage).verifyStage sampleModel 0 sampleEntries (.ok ())
        sampleEnv).obj.memory p.1 = p.2) ∧
    (sampleWorld.apply sampleModel samplePrestage).served.Nodup := by
  have hrun : Run (Step sampleModel) sampleWorld [samplePrestage] (sampleWorld.apply sampleModel samplePrestage) :=
    Run.single rfl
  have h := prestaged_diff_exact ⟨fun _ => rfl, rfl⟩ hrun
  obtain ⟨_, users, values, _, _, hvalues, hmemory, _⟩ := h.1 0 sampleEntries (.ok ()) sampleEnv 1 (by decide)
  exact ⟨by decide, ⟨users, values, hvalues, hmemory⟩, h.2.1.1⟩

end Staging

end BlackholeQwen.Packed
