import BlackholeQwen.Packed.Paired

/-!
# No two users of a packed round write one tile row

- `BeforePad`: no row of a user lies at or past the pad of its table. There the sentinels change nothing
  (`sentinel_key`).
- `guarded_round_disjoint`: in a round that the guard and the padded rule accept, with every row before the pad of its
  table under sticky sessions, any two segments write disjoint sets of tile rows, live or idle; and a conflict that
  `kv_conflict` reports is one.
- `accepted_rounds_share`: past the pad the guard reads a page that the round does not write, and a round in a count
  that the block does not serve is not compared at all.
-/

namespace BlackholeQwen.Packed

open Lib
open PackedBlock (liveSegments)

/-- What a user of a round writes. -/
def writtenTileRows (u : User) : Except PyError (List Key) := firstRow u.2 >>= fun row => kvTileRows u.1 row

/-- No position of `rows` rows from `start` lies at or past the pad of the table. -/
def BeforePad (table : Table) (start rows : Nat) : Prop :=
  ∀ row, firstRow table = .ok row → ∀ p ∈ List.range' start rows, p / BLOCK_SIZE < padBound row

/-- The guards accept a round. -/
structure Accepted (b : PackedBlock) (sentinels : Bool) (owners : List (Engine × Nat)) : Prop where
  guard : b.kvGuard sentinels owners = .ok none
  padded : b.pads owners.length = true → b.roundRefusal owners = .ok none

/-! ## Sentinels before the pad -/

/-- Two users with the same positions, mapped alike. -/
def Agree (u v : User) : Prop :=
  u.1 = v.1 ∧ ((∃ row, firstRow u.2 = .ok row) ↔ ∃ row, firstRow v.2 = .ok row) ∧
    ∀ p ∈ u.1, userKey u p = userKey v p

theorem Agree.refl (u : User) : Agree u u := ⟨rfl, Iff.rfl, fun _ _ => rfl⟩

theorem transfer_agree : Transfer (fun _ => Agree) := by
  refine ⟨fun h => h.1, fun h => h.2.1, fun h p hp => by rw [h.2.2 p hp], ?_⟩
  intro i j u v u' v' _ h h' p hp q hq
  rw [h.2.2 p hp, h'.2.2 q hq]

/-- A table with sentinels has a first row when the table does. -/
theorem sentinel_row {table : Table} (segment : Nat) {row : List Int} (h : firstRow table = .ok row) :
    ∃ row', firstRow (padSentinelTable table segment) = .ok row' ∧
      ∀ i < padBound row, row'[i]? = row[i]? := by
  unfold padSentinelTable
  rw [h]
  cases row with
  | nil => exact ⟨[], h, fun i hi => rfl⟩
  | cons first rest =>
    refine ⟨_, rfl, fun i hi => ?_⟩
    have hlen : padBound (first :: rest) ≤ (first :: rest).length := by
      have hle : rest.findIdx (· = first) ≤ rest.length := List.findIdx_le_length
      simpa [padBound] using hle
    rw [List.getElem?_append_left (by rw [List.length_take]; omega), List.getElem?_take_of_lt hi]

/-- **Before the pad a table with sentinels maps every row as the table does.** -/
theorem sentinel_agree {table : Table} {segment start rows : Nat} (h : BeforePad table start rows) :
    Agree (List.range' start rows, padSentinelTable table segment) (List.range' start rows, table) := by
  cases hrow : firstRow table with
  | error e =>
    have hsame : padSentinelTable table segment = table := by unfold padSentinelTable; rw [hrow]
    rw [hsame]
    exact Agree.refl _
  | ok row =>
    obtain ⟨row', hrow', hget⟩ := sentinel_row segment hrow
    refine ⟨rfl, ⟨fun _ => ⟨row, hrow⟩, fun _ => ⟨row', hrow'⟩⟩, fun p hp => ?_⟩
    rw [userKey_of_row hrow', userKey_of_row hrow, tileRow, tileRow, hget _ (h row hrow p hp)]

/-! ## The round that is written -/

/-- The segments of a round that the block serves are distinct, and as many as it has unless the round is padded. -/
theorem roundSegments_ok {b : PackedBlock} {owners : List (Engine × Nat)} {segments : List Nat}
    (h : b.roundSegments owners = .ok segments) :
    owners.mapM (fun owner => b.segmentOf owner.1) = .ok segments ∧ segments.Nodup ∧
      (∀ s ∈ segments, s < b.shape.users) ∧ segments.length = owners.length ∧
      (owners.length = b.shape.users ∨ b.pads owners.length = true) := by
  unfold PackedBlock.roundSegments at h
  split at h
  · cases h
  rename_i hcount
  obtain ⟨segs, hsegs, h⟩ := bind_ok h
  split at h
  · cases h
  rename_i hdistinct
  cases h
  have hserved : owners.length = b.shape.users ∨ b.pads owners.length = true := by
    by_cases hlen : owners.length = b.shape.users
    · exact Or.inl hlen
    · refine Or.inr ?_
      cases hp : b.pads owners.length with
      | true => rfl
      | false => exact absurd ⟨hlen, hp⟩ hcount
  refine ⟨hsegs, ?_, ?_, (mapM_get hsegs).1, hserved⟩
  · by_cases hlen : owners.length = b.shape.users
    · have hsort : segments.insertionSort (· ≤ ·) = List.range b.shape.users := by
        by_contra hc
        exact hdistinct (Or.inl ⟨hlen, hc⟩)
      rw [← (List.perm_insertionSort (· ≤ ·) segments).nodup_iff, hsort]
      exact List.nodup_range
    · by_contra hc
      exact hdistinct (Or.inr ⟨hlen, hc⟩)
  · intro s hs
    obtain ⟨o, -, ho⟩ := (mem_mapM hsegs).mp hs
    exact PackedBlock.segmentOf_lt ho

/-- Idle inputs fill every segment that is not live. -/
theorem idleInputs_fill {b : PackedBlock} {users : List (Option User)} {fills : List (Nat × Idle)}
    (hlen : users.length = b.shape.users) (h : b.idleInputs (liveSegments users) = .ok fills) :
    none ∉ b.fillIdle users fills := by
  refine fillIdle_full fun i hi => ?_
  rw [(PackedBlock.idleInputs_ok h).1, PackedBlock.mem_idleSegments]
  refine ⟨?_, fun hlive => ?_⟩
  · rw [← hlen]
    exact (List.getElem?_eq_some_iff.mp hi).1
  · obtain ⟨u, hu⟩ := PackedBlock.mem_liveSegments.mp hlive
    rw [hi] at hu
    cases hu

/-- **A round that the guard accepts is written clear**, when no live row lies at or past its table's pad. -/
theorem staged_clear {b : PackedBlock} {sentinels : Bool} {owners : List (Engine × Nat)} {segments : List Nat}
    (hsegments : b.roundSegments owners = .ok segments)
    (hpad : sentinels = true → ∀ o ∈ owners, BeforePad o.1.pages o.2 b.shape.rowsPerUser)
    (hguard : b.kvGuard sentinels owners = .ok none) :
    ∃ users, b.stagedUsers owners = .ok users ∧ users.length = b.shape.users ∧ none ∉ users ∧ Clear users := by
  obtain ⟨hmap, hnd, hlt, hlen, hserved⟩ := roundSegments_ok hsegments
  have hos : List.Forall₂ (fun o o' => b.segmentOf o.1 = b.segmentOf o'.1 ∧ ∀ s, b.segmentOf o.1 = .ok s →
      Agree (b.ownerUser sentinels o s) (b.ownerUser false o' s)) owners owners := by
    rw [List.forall₂_same]
    refine fun o ho => ⟨rfl, fun s _ => ?_⟩
    cases sentinels with
    | false => exact Agree.refl _
    | true => exact sentinel_agree (hpad rfl o ho)
  unfold PackedBlock.kvGuard at hguard
  rcases Paired.kvUsers (R := fun _ => Agree) hos (Paired.replicate b.shape.users) with
    ⟨e, h, -⟩ | ⟨us, vs, h, h', hp⟩
  · rw [h] at hguard; cases hguard
  rw [h] at hguard
  simp only [Except.map, Except.ok.injEq] at hguard
  obtain ⟨hus, hnone⟩ := kvUsers_segments h hmap
  obtain ⟨hvs, -⟩ := kvUsers_segments h' hmap
  rw [List.length_replicate] at hus hvs hnone
  unfold PackedBlock.stagedUsers
  rw [hsegments]
  simp only [bind, Except.bind, h']
  unfold PackedBlock.guardRound at hguard
  by_cases hfull : owners.length = b.shape.users
  · -- every segment has an owner
    have hall : none ∉ us := by
      intro hn
      obtain ⟨i, hi⟩ := List.mem_iff_getElem?.mp hn
      have hi' : i < b.shape.users := by rw [← hus]; exact (List.getElem?_eq_some_iff.mp hi).1
      exact ((hnone i hi').mp hi).2 (Indices.mem_of_full hnd hlt (hlen.trans hfull) i hi')
    rw [if_neg (fun hc => hall (any_isNone.mp hc.1))] at hguard
    refine ⟨vs, if_neg (by omega), hvs, fun hn => hall (hp.none_mem.mpr hn), ?_⟩
    exact hp.clear transfer_agree.refines ((guardUsers_none_iff hall).mp hguard)
  · -- a padded round: the idle segments are filled, in the guard as in the round
    have hpads : b.pads owners.length = true := hserved.resolve_left hfull
    have hless := PackedBlock.pads_lt hpads
    have hidle : none ∈ us := by
      by_contra hn
      have hall : ∀ i < b.shape.users, i ∈ segments := by
        intro i hi
        by_contra hc
        have hget := (hnone i hi).mpr ⟨by simp [hi], hc⟩
        exact hn (List.mem_of_getElem? hget)
      have hsub : (List.range b.shape.users).Subperm segments :=
        List.nodup_range.subperm fun i hi => hall i (List.mem_range.mp hi)
      have := hsub.length_le
      rw [List.length_range] at this
      omega
    rw [if_pos ⟨any_isNone.mpr hidle, hpads⟩] at hguard
    split at hguard
    · cases hguard
    cases hi : b.idleInputs (liveSegments us) with
    | error e => rw [hi] at hguard; cases hguard
    | ok fills =>
      rw [hi] at hguard
      have hfilled : Paired (fun _ => Agree) (b.fillIdle us fills) (b.fillIdle vs fills) :=
        hp.fillIdle fun f _ => Agree.refl _
      have hall := idleInputs_fill hus hi
      refine ⟨b.fillIdle vs fills, ?_, fillIdle_length.trans hvs, fun hn => hall (hfilled.none_mem.mpr hn), ?_⟩
      · rw [if_pos hless, ← hp.live, hi]
        rfl
      · exact hfilled.clear transfer_agree.refines ((guardUsers_none_iff hall).mp hguard)

/-- A user with every row mapped writes something. -/
theorem writtenTileRows_total {u : User}
    (h : (∃ row, firstRow u.2 = .ok row) ∧ ∀ p ∈ u.1, ∃ key, userKey u p = .ok key) :
    ∃ keys, writtenTileRows u = .ok keys := by
  obtain ⟨⟨row, hrow⟩, hall⟩ := h
  obtain ⟨keys, hkeys⟩ := kvTileRows_total.mpr fun p hp => by
    obtain ⟨key, hkey⟩ := hall p hp
    exact ⟨key, (userKey_of_row hrow p).symm.trans hkey⟩
  exact ⟨keys, by rw [writtenTileRows, hrow]; exact hkeys⟩

/-- What a user writes, row by row. -/
theorem mem_writtenTileRows {u : User} {keys : List Key} (h : writtenTileRows u = .ok keys) {key : Key} :
    key ∈ keys ↔ ∃ p ∈ u.1, userKey u p = .ok key := by
  obtain ⟨row, hrow, hkeys⟩ := bind_ok h
  rw [mem_kvTileRows hkeys]
  simp only [userKey_of_row hrow]

/-- **No two users of an accepted round write one tile row**, live or idle; and a conflict that `kv_conflict` reports is
a tile row that two users both write. -/
theorem guarded_round_disjoint {b : PackedBlock} {sentinels : Bool} {owners : List (Engine × Nat)}
    {segments : List Nat} (hsegments : b.roundSegments owners = .ok segments)
    (hpad : sentinels = true → ∀ o ∈ owners, BeforePad o.1.pages o.2 b.shape.rowsPerUser)
    (haccept : Accepted b sentinels owners) :
    (∃ users : List User, b.stagedUsers owners = .ok (users.map some) ∧ users.length = b.shape.users ∧
      (∀ u ∈ users, ∃ keys, writtenTileRows u = .ok keys) ∧
      ∀ (i j : Nat) (u v : User) (ks ls : List Key), i ≠ j → users[i]? = some u → users[j]? = some v →
        writtenTileRows u = .ok ks → writtenTileRows v = .ok ls → ∀ key ∈ ks, key ∉ ls) ∧
      ∀ users c, kvConflict users = .ok (some c) → c.first < c.second ∧ ∃ u v ks ls, users[c.first]? = some u ∧
        users[c.second]? = some v ∧ kvTileRows u.1 u.2 = .ok ks ∧ kvTileRows v.1 v.2 = .ok ls ∧
        c.key ∈ ks ∧ c.key ∈ ls := by
  refine ⟨?_, fun users c h => kvConflict_some h⟩
  obtain ⟨staged, hstaged, hlen, hall, hmapped, hsep⟩ := staged_clear hsegments hpad haccept.guard
  obtain ⟨users, rfl⟩ := exists_map_some hall
  rw [List.length_map] at hlen
  refine ⟨users, hstaged, hlen, fun u hu => writtenTileRows_total (hmapped u (List.mem_map.mpr ⟨u, hu, rfl⟩)), ?_⟩
  intro i j u v ks ls hne hu hv hks hls key hk hl
  obtain ⟨p, hp, hpk⟩ := (mem_writtenTileRows hks).mp hk
  obtain ⟨q, hq, hqk⟩ := (mem_writtenTileRows hls).mp hl
  exact hsep i j u v hne (by rw [List.getElem?_map, hu]; rfl) (by rw [List.getElem?_map, hv]; rfl) p hp q hq
    (hpk.trans hqk.symm)

/-! ## Rounds -/

/-- A block of two users of sixteen rows that pads a round of one. -/
def sampleBlock : PackedBlock where
  shape := ⟨2, 16, 32, 68, 4352⟩
  carries := [100, 101]
  paddedMinUsers := some 1
  extent := true
  replayCapacity := 4352
  carriesInPlace := true
  lent := fun _ => false
  carries_length := rfl
  family := by decide

/-- A table of 68 entries: its blocks, then the first of them again. -/
def sampleTable (first : Int) (rest : List Int) : Table :=
  some [first :: rest ++ List.replicate (67 - rest.length) first]

/-- The owner of segment 1, alone. -/
def sampleOwners : List (Engine × Nat) := [(⟨some 101, sampleTable 5 [6, 7]⟩, 130)]

/-- A padded round of one live user under sticky sessions: the idle segment and the live one write disjoint rows. -/
theorem guarded_round_disjoint_sample :
    (∃ users : List User, sampleBlock.stagedUsers sampleOwners = .ok (users.map some) ∧ users.length = 2 ∧
      (∀ u ∈ users, ∃ keys, writtenTileRows u = .ok keys) ∧
      ∀ (i j : Nat) (u v : User) (ks ls : List Key), i ≠ j → users[i]? = some u → users[j]? = some v →
        writtenTileRows u = .ok ks → writtenTileRows v = .ok ls → ∀ key ∈ ks, key ∉ ls) ∧
      ∀ users c, kvConflict users = .ok (some c) → c.first < c.second ∧ ∃ u v ks ls, users[c.first]? = some u ∧
        users[c.second]? = some v ∧ kvTileRows u.1 u.2 = .ok ks ∧ kvTileRows v.1 v.2 = .ok ls ∧
        c.key ∈ ks ∧ c.key ∈ ls :=
  guarded_round_disjoint (show sampleBlock.roundSegments sampleOwners = .ok [1] from rfl)
    (by
      intro _ o ho row hrow p hp
      obtain rfl : o = (⟨some 101, sampleTable 5 [6, 7]⟩, 130) := by simpa [sampleOwners] using ho
      cases hrow
      obtain ⟨k, hk, rfl⟩ := List.mem_range'.mp hp
      have hk' : k < 16 := hk
      show (130 + 1 * k) / 64 < 3
      omega)
    (show Accepted sampleBlock true sampleOwners from ⟨by decide, by decide⟩)

/-- Two owners that share their first block, both at the first position past their two bound blocks. -/
def pastPad : List (Engine × Nat) :=
  [(⟨some 100, sampleTable 5 [6]⟩, 128), (⟨some 101, sampleTable 5 [7]⟩, 128)]

/-- A block of four users that pads no round. -/
def unpaddedBlock : PackedBlock where
  shape := ⟨4, 16, 64, 68, 4352⟩
  carries := [100, 101, 102, 103]
  paddedMinUsers := none
  extent := true
  replayCapacity := 4352
  carriesInPlace := true
  lent := fun _ => false
  carries_length := rfl
  family := by decide

/-- Two owners of the same block, in a round of two. -/
def partialRound : List (Engine × Nat) := [(⟨some 100, sampleTable 5 []⟩, 0), (⟨some 101, sampleTable 5 []⟩, 0)]

/-- **Accepted rounds that share a tile row**: under sticky sessions two full users past their pads, which the round
writes through their common first block; and two users of a count that the block does not serve, which the guard leaves
to the block. -/
theorem accepted_rounds_share :
    (Accepted sampleBlock true pastPad ∧ sampleBlock.roundSegments pastPad = .ok [0, 1] ∧
      sampleBlock.stagedUsers pastPad =
        .ok [some (List.range' 128 16, sampleTable 5 [6]), some (List.range' 128 16, sampleTable 5 [7])] ∧
      writtenTileRows (List.range' 128 16, sampleTable 5 [6]) = .ok [(5, 0)] ∧
      writtenTileRows (List.range' 128 16, sampleTable 5 [7]) = .ok [(5, 0)]) ∧
      (Accepted unpaddedBlock false partialRound ∧
        partialRound.mapM (fun o => unpaddedBlock.segmentOf o.1) = .ok [0, 1] ∧
        writtenTileRows (unpaddedBlock.ownerUser false (⟨some 100, sampleTable 5 []⟩, 0) 0) = .ok [(5, 0)] ∧
        writtenTileRows (unpaddedBlock.ownerUser false (⟨some 101, sampleTable 5 []⟩, 0) 1) = .ok [(5, 0)]) :=
  ⟨⟨⟨by decide, by decide⟩, by decide, by rfl, by decide, by decide⟩, ⟨by decide, by decide⟩, by decide, by decide,
    by decide⟩

end BlackholeQwen.Packed
