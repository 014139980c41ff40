import BlackholeQwen.Packed.Sentinel

/-!
# A round whose tables have grown since it was accepted

A round is drafted over the tables of the last refresh and stepped over those of the next, its owners in any order.

- `Grown`: a table as it was, or padded over more blocks; a row of it then reads what it read, or a fresh block
  (`Grown.key`).
- `kvGuard_perm`, `roundRefusal_none_iff`: the guards do not read the order of owners in distinct segments.
- `kvGuard_grown`, `roundRefusal_grown`: what they accept they accept over tables that have grown by blocks of no other
  owner, none of them page 0.
-/

namespace BlackholeQwen.Packed

open Lib
open PackedBlock (liveSegments)

/-! ## Tables that grow -/

/-- The pages of a table. -/
def tablePages (table : Table) : List Int :=
  match firstRow table with
  | .ok row => row
  | .error _ => []

/-- A table, the blocks that come to it, and the table over them, padded as a refresh pads it. -/
inductive Grown : Table → List Int → Table → Prop
  | same (table : Table) : Grown table [] table
  | append {v v' : VerifierPageBinding} {fresh : List Int} (before : v.Padded) (after : v'.Padded)
      (capacity : v'.capacity = v.capacity) (blocks : v'.blocks = v.blocks ++ fresh) :
      Grown (some [v.pages]) fresh (some [v'.pages])

/-- A row whose entries are kept or become fresh. -/
structure RowGrown (fresh row row' : List Int) : Prop where
  length : row'.length = row.length
  entry : ∀ n, row'[n]? = row[n]? ∨ n < row.length ∧ ∃ x ∈ fresh, row'[n]? = some x

/-- Blocks before a filler, and more of them. -/
theorem RowGrown.pad {capacity : Nat} {blocks fresh : List Int} (hfits : (blocks ++ fresh).length ≤ capacity)
    (filler : Int) : RowGrown fresh (blocks ++ List.replicate (capacity - blocks.length) filler)
      (blocks ++ fresh ++ List.replicate (capacity - (blocks ++ fresh).length) filler) := by
  rw [List.length_append] at hfits
  refine ⟨?_, fun n => ?_⟩
  · simp only [List.length_append, List.length_replicate]
    omega
  by_cases hn : n < blocks.length
  · refine Or.inl ?_
    rw [List.append_assoc, List.getElem?_append_left hn, List.getElem?_append_left hn]
  by_cases hf : n < blocks.length + fresh.length
  · refine Or.inr ⟨by simp only [List.length_append, List.length_replicate]; omega, ?_⟩
    have hlt : n - blocks.length < fresh.length := by omega
    refine ⟨fresh[n - blocks.length], List.getElem_mem hlt, ?_⟩
    rw [List.append_assoc, List.getElem?_append_right (by omega), List.getElem?_append_left hlt,
      List.getElem?_eq_getElem hlt]
  · refine Or.inl ?_
    rw [List.getElem?_append_right (by rw [List.length_append]; omega), List.getElem?_append_right (by omega),
      List.getElem?_replicate, List.getElem?_replicate, List.length_append]
    by_cases hc : n < capacity
    · rw [if_pos (by omega), if_pos (by omega)]
    · rw [if_neg (by omega), if_neg (by omega)]

/-- A table as the guard reads it. -/
def readTable (sentinels : Bool) (table : Table) (segment : Nat) : Table :=
  if sentinels then padSentinelTable table segment else table

/-- **A table that grows reads as it was, or row by row.** -/
theorem Grown.read {table table' : Table} {fresh : List Int} (h : Grown table fresh table') (sentinels : Bool)
    (segment : Nat) : readTable sentinels table' segment = readTable sentinels table segment ∨
      ∃ row row', firstRow (readTable sentinels table segment) = .ok row ∧
        firstRow (readTable sentinels table' segment) = .ok row' ∧ RowGrown fresh row row' := by
  cases h with
  | same => exact Or.inl rfl
  | @append v v' fresh before after capacity blocks =>
    have hfits : (v.blocks ++ fresh).length ≤ v.capacity := by rw [← blocks, ← capacity]; exact after.fits
    refine Or.inr ?_
    cases sentinels with
    | true =>
      refine ⟨_, _, ?_, ?_, RowGrown.pad hfits (sentinelPage segment)⟩
      · show firstRow (padSentinelTable (some [v.pages]) segment) = _
        rw [padSentinelTable_padded before]
        rfl
      · show firstRow (padSentinelTable (some [v'.pages]) segment) = _
        rw [padSentinelTable_padded after, blocks, capacity]
        rfl
    | false =>
      have hhead : (v.blocks ++ fresh).headD 0 = v.blocks.headD 0 := by
        cases hv : v.blocks with
        | nil => exact absurd hv before.nonempty
        | cons first rest => rfl
      refine ⟨_, _, congrArg Except.ok before.pages, congrArg Except.ok after.pages, ?_⟩
      rw [padTable, padTable, blocks, capacity, hhead]
      exact RowGrown.pad hfits _

/-- The blocks that come to a table are physical pages. -/
theorem Grown.physical {table table' : Table} {fresh : List Int} (h : Grown table fresh table') {x : Int}
    (hx : x ∈ fresh) : 0 ≤ x := by
  cases h with
  | same => cases hx
  | append _ after _ blocks => exact after.physical x (by rw [blocks]; exact List.mem_append_right _ hx)

/-- What a table reads is one of its pages, or a sentinel. -/
theorem mem_readTable {sentinels : Bool} {table : Table} {segment : Nat} {row : List Int}
    (h : firstRow (readTable sentinels table segment) = .ok row) {x : Int} (hx : x ∈ row) :
    x ∈ tablePages table ∨ x = sentinelPage segment := by
  have hplain : ∀ {row : List Int}, firstRow table = .ok row → tablePages table = row := by
    intro row hrow
    unfold tablePages
    rw [hrow]
  cases sentinels with
  | false => exact Or.inl (hplain (show firstRow table = .ok row from h) ▸ hx)
  | true =>
    replace h : firstRow (padSentinelTable table segment) = .ok row := h
    unfold padSentinelTable at h
    split at h
    · rename_i e he
      rw [he] at h
      cases h
    · rename_i hrow
      exact Or.inl (hplain h ▸ hx)
    · rename_i first rest hrow
      cases h
      rw [List.mem_append] at hx
      rcases hx with hx | hx
      · exact Or.inl (hplain hrow ▸ List.mem_of_mem_take hx)
      · exact Or.inr (List.mem_replicate.mp hx).2

/-! ## Rows of a table that grows -/

variable {sentinels : Bool} {positions : List Nat} {table table' : Table} {fresh : List Int} {segment p : Nat}

/-- The pair that a row writes, by its entry. -/
theorem tileRow_entry {row : List Int} {x : Int} (h : row[p / 64]? = some x) :
    tileRow row p = .ok (x, p % 64 / 32) := by
  have hpage : row[p / BLOCK_SIZE]? = some x := h
  unfold tileRow
  rw [hpage]

/-- **A row of a table that grows is read as it was, or from a fresh block** where the table had an entry. -/
theorem Grown.key (h : Grown table fresh table') (sentinels : Bool) (positions : List Nat) (segment p : Nat) :
    userKey (positions, readTable sentinels table' segment) p =
        userKey (positions, readTable sentinels table segment) p ∨
      (∃ key, userKey (positions, readTable sentinels table segment) p = .ok key) ∧
        ∃ x ∈ fresh, userKey (positions, readTable sentinels table' segment) p = .ok (x, p % 64 / 32) := by
  rcases h.read sentinels segment with heq | ⟨row, row', hrow, hrow', hg⟩
  · rw [heq]
    exact Or.inl rfl
  · rw [userKey_of_row (u := (positions, readTable sentinels table' segment)) hrow',
      userKey_of_row (u := (positions, readTable sentinels table segment)) hrow]
    rcases hg.entry (p / 64) with heq | ⟨hlt, x, hx, hget⟩
    · left
      unfold tileRow
      rw [show BLOCK_SIZE = 64 from rfl, heq]
    · exact Or.inr ⟨⟨_, tileRow_entry (List.getElem?_eq_getElem hlt)⟩, x, hx, tileRow_entry hget⟩

/-- What a row is read from. -/
theorem key_page {key : Key} (h : userKey (positions, readTable sentinels table segment) p = .ok key) :
    key.1 ∈ tablePages table ∨ key.1 = sentinelPage segment := by
  obtain ⟨row, hrow, h⟩ := bind_ok h
  unfold tileRow at h
  split at h
  · cases h
  rename_i page hpage
  cases h
  exact mem_readTable hrow (List.mem_of_getElem? hpage)

/-- A fresh block is no page that another table reads, if it is none of that table's. -/
theorem Grown.key_ne (h : Grown table fresh table') {x : Int} (hx : x ∈ fresh) {other : Table}
    (hother : x ∉ tablePages other) {key : Key}
    (hkey : userKey (positions, readTable sentinels other segment) p = .ok key) : key.1 ≠ x := by
  rintro rfl
  rcases key_page hkey with hmem | hsent
  · exact hother hmem
  · have := h.physical hx
    unfold sentinelPage at hsent
    omega

/-- **Page 0 stays out of the range that a user reads**, if no fresh block is page 0. -/
theorem Grown.pageZero (h : Grown table fresh table') (hzero : (0 : Int) ∉ fresh) {start rows : Nat} {extent : Bool}
    (hnone : pageZeroIndex table start rows extent = .ok none) :
    pageZeroIndex table' start rows extent = .ok none := by
  rcases h.read false 0 with heq | ⟨row, row', hrow, hrow', hg⟩
  · rw [show table' = table from heq]
    exact hnone
  replace hrow : firstRow table = .ok row := hrow
  replace hrow' : firstRow table' = .ok row' := hrow'
  unfold pageZeroIndex at hnone ⊢
  rw [hrow] at hnone
  rw [hrow']
  simp only [bind, Except.bind, List.length_take, hg.length] at hnone ⊢
  split at hnone
  · cases hnone
  rename_i hlen
  rw [if_neg hlen]
  simp only [Except.ok.injEq, List.findIdx?_eq_none_iff, decide_eq_false_iff_not] at hnone ⊢
  intro x hx hx0
  obtain ⟨n, hn⟩ := List.mem_iff_getElem?.mp hx
  have hlt : n < (usedLimit start rows extent + 63) / 64 := by
    have := (List.getElem?_eq_some_iff.mp hn).1
    rw [List.length_take] at this
    omega
  rw [List.getElem?_take_of_lt hlt] at hn
  rcases hg.entry n with heq | ⟨-, y, hy, hget⟩
  · refine hnone x (List.mem_of_getElem? (i := n) ?_) hx0
    rw [List.getElem?_take_of_lt hlt, ← heq]
    exact hn
  · rw [hget] at hn
    cases hn
    exact hzero (hx0 ▸ hy)

/-! ## Owners in any order -/

variable {b : PackedBlock} {os os' : List (Engine × Nat)}

/-- Owners in distinct segments. -/
def Apart (b : PackedBlock) (os : List (Engine × Nat)) : Prop :=
  os.Pairwise fun o o' => b.segmentOf o.1 ≠ b.segmentOf o'.1

theorem Apart.perm (h : Apart b os) (hperm : os.Perm os') : Apart b os' :=
  (hperm.pairwise_iff fun hne => hne.symm).mp h

/-- **Owners in distinct segments give the same users in any order.** -/
theorem kvUsers_perm (hperm : os.Perm os') (hd : Apart b os) {us vs : List (Option User)}
    (h : b.kvUsers sentinels os us = .ok vs) : b.kvUsers sentinels os' us = .ok vs := by
  induction hperm generalizing us with
  | nil => exact h
  | cons o _ ih =>
    unfold PackedBlock.kvUsers at h ⊢
    obtain ⟨s, hs, h⟩ := bind_ok h
    rw [hs]
    exact ih (List.pairwise_cons.mp hd).2 h
  | swap o o' os =>
    -- the first two owners, in either order
    have hne := (List.pairwise_cons.mp hd).1 o List.mem_cons_self
    simp only [PackedBlock.kvUsers] at h ⊢
    obtain ⟨s', hs', h⟩ := bind_ok h
    obtain ⟨s, hs, h⟩ := bind_ok h
    have hss : s' ≠ s := fun hc => hne (by rw [hs, hs', hc])
    simp only [hs, hs', bind, Except.bind]
    rw [List.set_comm _ _ hss.symm]
    exact h
  | trans hp _ ih ih' => exact ih' (hd.perm hp) (ih hd h)

/-- The segments of such owners. -/
theorem Apart.segments (hd : Apart b os) {segments : List Nat}
    (h : os.mapM (fun o => b.segmentOf o.1) = .ok segments) : segments.Nodup := by
  induction os generalizing segments with
  | nil => cases h; exact List.nodup_nil
  | cons o os ih =>
    obtain ⟨hne, hd⟩ := List.pairwise_cons.mp hd
    rw [List.mapM_cons] at h
    obtain ⟨s, hs, h⟩ := bind_ok h
    obtain ⟨rest, hrest, h⟩ := bind_ok h
    cases h
    refine List.nodup_cons.mpr ⟨fun hmem => ?_, ih hd hrest⟩
    obtain ⟨o', ho', hs'⟩ := (mem_mapM hrest).mp hmem
    exact hne o' ho' (hs.trans hs'.symm)

/-- **The guard of owners in distinct segments does not read their order.** -/
theorem kvGuard_perm (hperm : os.Perm os') (hd : Apart b os) (h : b.kvGuard sentinels os = .ok none) :
    b.kvGuard sentinels os' = .ok none := by
  unfold PackedBlock.kvGuard at h ⊢
  cases hu : b.kvUsers sentinels os (List.replicate b.shape.users none) with
  | error e => rw [hu] at h; cases h
  | ok us =>
    rw [hu] at h
    rw [kvUsers_perm hperm hd hu, ← hperm.length_eq]
    exact h

/-- The users of a padded round's check: each owner at its segment, the others as they were. -/
theorem refusalUsers_ok (us : List (Option (Nat × Table))) (hd : Apart b os)
    (hbound : ∀ o ∈ os, ∃ s, b.segmentOf o.1 = .ok s ∧ us[s]? = some none) :
    ∃ vs, b.refusalUsers os us = .ok (.inl vs) ∧ vs.length = us.length ∧
      (∀ o ∈ os, ∀ s, b.segmentOf o.1 = .ok s → vs[s]? = some (some (o.2, o.1.pages))) ∧
      ∀ i, (∀ o ∈ os, b.segmentOf o.1 ≠ .ok i) → vs[i]? = us[i]? := by
  induction os generalizing us with
  | nil => exact ⟨us, rfl, rfl, by simp, fun i _ => rfl⟩
  | cons o os ih =>
    obtain ⟨hne, hd⟩ := List.pairwise_cons.mp hd
    obtain ⟨s, hs, hfree⟩ := hbound o List.mem_cons_self
    have hother : ∀ o' ∈ os, ∀ s', b.segmentOf o'.1 = .ok s' → s ≠ s' := by
      rintro o' ho' s' hs' rfl
      exact hne o' ho' (hs.trans hs'.symm)
    obtain ⟨vs, hvs, hlen, howned, hrest⟩ := ih (us.set s (some (o.2, o.1.pages))) hd fun o' ho' => by
      obtain ⟨s', hs', hfree'⟩ := hbound o' (List.mem_cons_of_mem _ ho')
      exact ⟨s', hs', by rw [List.getElem?_set_ne (hother o' ho' s' hs')]; exact hfree'⟩
    rw [List.length_set] at hlen
    refine ⟨vs, ?_, hlen, ?_, fun i hi => ?_⟩
    · unfold PackedBlock.refusalUsers
      rw [hs]
      simp only [bind, Except.bind, hfree]
      exact hvs
    · intro o' ho' s' hs'
      rcases List.mem_cons.mp ho' with rfl | ho'
      · obtain rfl : s = s' := Except.ok.inj (hs.symm.trans hs')
        rw [hrest s fun o' ho' hc => hother o' ho' s hc rfl,
          List.getElem?_set_self (List.getElem?_eq_some_iff.mp hfree).1]
      · exact howned o' ho' s' hs'
    · rw [hrest i fun o' ho' => hi o' (List.mem_cons_of_mem _ ho'),
        List.getElem?_set_ne fun hc => hi o List.mem_cons_self (hs.trans (congrArg Except.ok hc))]

/-- Owners whose segments are read are all bound. -/
theorem refusalUsers_bound {us : List (Option (Nat × Table))} {vs : List (Option (Nat × Table))}
    (h : b.refusalUsers os us = .ok (.inl vs)) : ∀ o ∈ os, ∃ s, b.segmentOf o.1 = .ok s := by
  induction os generalizing us with
  | nil => simp
  | cons o os ih =>
    unfold PackedBlock.refusalUsers at h
    obtain ⟨s, hs, h⟩ := bind_ok h
    split at h
    · cases h
    · intro o' ho'
      rcases List.mem_cons.mp ho' with rfl | ho'
      · exact ⟨s, hs⟩
      · exact ih h o' ho'

theorem liveSegments_nodup {α : Type} (users : List (Option α)) : (liveSegments users).Nodup := by
  unfold liveSegments
  have hsub : List.Sublist ((users.zipIdx.filter (·.1.isSome)).map (·.2)) (users.zipIdx.map (·.2)) :=
    List.filter_sublist.map _
  refine hsub.nodup ?_
  have hidx : users.zipIdx.map (·.2) = List.range' 0 users.length := List.zipIdx_map_snd 0 users
  rw [hidx]
  exact List.nodup_range'

/-- What a padded round needs, whatever the order of its owners: each bound, a count that the block pads, no other
segment's slot lent, and no page 0 in the range of an owner's table. -/
structure PaddedRound (b : PackedBlock) (os : List (Engine × Nat)) : Prop where
  bound : ∀ o ∈ os, ∃ s, b.segmentOf o.1 = .ok s
  pads : b.pads os.length = true
  idle : b.carriesInPlace = true ∨
    ∀ i < b.shape.users, (∀ o ∈ os, b.segmentOf o.1 ≠ .ok i) → b.lent i = false
  page : ∀ o ∈ os, pageZeroIndex o.1.pages o.2 b.shape.rowsPerUser b.extent = .ok none

theorem PaddedRound.perm (h : PaddedRound b os) (hperm : os.Perm os') : PaddedRound b os' := by
  refine ⟨fun o ho => h.bound o (hperm.mem_iff.mpr ho), hperm.length_eq ▸ h.pads, ?_,
    fun o ho => h.page o (hperm.mem_iff.mpr ho)⟩
  exact h.idle.imp id fun hi i hlt hno => hi i hlt fun o ho => hno o (hperm.mem_iff.mp ho)

/-- Each owner is the user of its segment, and no other segment has one. -/
structure Seated (b : PackedBlock) (os : List (Engine × Nat)) (users : List (Option (Nat × Table))) : Prop where
  length : users.length = b.shape.users
  owner : ∀ o ∈ os, ∀ s, b.segmentOf o.1 = .ok s → users[s]? = some (some (o.2, o.1.pages))
  other : ∀ i < b.shape.users, (∀ o ∈ os, b.segmentOf o.1 ≠ .ok i) → users[i]? = some none

/-- Bound owners in distinct segments are seated. -/
theorem refusalUsers_seated (hd : Apart b os) (hbound : ∀ o ∈ os, ∃ s, b.segmentOf o.1 = .ok s) :
    ∃ users, b.refusalUsers os (List.replicate b.shape.users none) = .ok (.inl users) ∧ Seated b os users := by
  obtain ⟨users, husers, hlen, howned, hrest⟩ := refusalUsers_ok (List.replicate b.shape.users none) hd
    fun o ho => by
      obtain ⟨s, hs⟩ := hbound o ho
      exact ⟨s, hs, by rw [List.getElem?_replicate, if_pos (PackedBlock.segmentOf_lt hs)]⟩
  rw [List.length_replicate] at hlen
  refine ⟨users, husers, hlen, howned, fun i hlt hno => ?_⟩
  rw [hrest i hno, List.getElem?_replicate, if_pos hlt]

variable {users : List (Option (Nat × Table))}

/-- A user is an owner's. -/
theorem Seated.user (h : Seated b os users) {i : Nat} {x : Nat × Table} (hx : users[i]? = some (some x)) :
    ∃ o ∈ os, b.segmentOf o.1 = .ok i ∧ x = (o.2, o.1.pages) := by
  by_cases hno : ∀ o ∈ os, b.segmentOf o.1 ≠ .ok i
  · have hlt : i < b.shape.users := h.length ▸ (List.getElem?_eq_some_iff.mp hx).1
    rw [h.other i hlt hno] at hx
    cases hx
  · push Not at hno
    obtain ⟨o, ho, hs⟩ := hno
    rw [h.owner o ho i hs] at hx
    cases hx
    exact ⟨o, ho, hs, rfl⟩

/-- A segment without a user is no owner's. -/
theorem Seated.idle (h : Seated b os users) {i : Nat} :
    users[i]? = some none ↔ i < b.shape.users ∧ ∀ o ∈ os, b.segmentOf o.1 ≠ .ok i := by
  constructor
  · intro hi
    refine ⟨h.length ▸ (List.getElem?_eq_some_iff.mp hi).1, fun o ho hs => ?_⟩
    rw [h.owner o ho i hs] at hi
    cases hi
  · rintro ⟨hlt, hno⟩
    exact h.other i hlt hno

/-- As many live segments as owners. -/
theorem Seated.count (h : Seated b os users) (hd : Apart b os) (hbound : ∀ o ∈ os, ∃ s, b.segmentOf o.1 = .ok s) :
    (liveSegments users).length = os.length := by
  obtain ⟨segments, hsegments⟩ := mapM_total (f := fun o : Engine × Nat => b.segmentOf o.1).mpr hbound
  rw [← (mapM_get hsegments).1]
  refine ((List.perm_ext_iff_of_nodup (liveSegments_nodup users) (hd.segments hsegments)).mpr fun i => ?_).length_eq
  rw [PackedBlock.mem_liveSegments, mem_mapM hsegments]
  constructor
  · rintro ⟨x, hx⟩
    obtain ⟨o, ho, hs, -⟩ := h.user hx
    exact ⟨o, ho, hs⟩
  · rintro ⟨o, ho, hs⟩
    exact ⟨_, h.owner o ho i hs⟩

/-- The page rule, owner by owner. -/
theorem Seated.pageRefusal (h : Seated b os users) (hbound : ∀ o ∈ os, ∃ s, b.segmentOf o.1 = .ok s) :
    b.pageRefusal users = none ↔
      ∀ o ∈ os, pageZeroIndex o.1.pages o.2 b.shape.rowsPerUser b.extent = .ok none := by
  unfold PackedBlock.pageRefusal
  rw [List.findSome?_eq_none_iff]
  constructor
  · intro hall o ho
    obtain ⟨s, hs⟩ := hbound o ho
    have hthis := hall (some (o.2, o.1.pages), s) (List.mem_zipIdx_iff_getElem?.mpr (h.owner o ho s hs))
    simp only [Option.bind_some] at hthis
    split at hthis
    · cases hthis
    · cases hthis
    · rename_i hnone
      exact hnone
  · rintro hall ⟨_ | x, i⟩ hmem
    · rfl
    · obtain ⟨o, ho, -, rfl⟩ := h.user (List.mem_zipIdx_iff_getElem?.mp hmem)
      simp only [Option.bind_some, hall o ho]

/-- The idle slot rule. -/
theorem Seated.idleRefusal (h : Seated b os users) : b.idleRefusal users = none ↔ b.carriesInPlace = true ∨
    ∀ i < b.shape.users, (∀ o ∈ os, b.segmentOf o.1 ≠ .ok i) → b.lent i = false := by
  unfold PackedBlock.idleRefusal
  split
  · rename_i hplace
    exact ⟨fun _ => Or.inl hplace, fun _ => rfl⟩
  rename_i hplace
  rw [List.findSome?_eq_none_iff, or_iff_right hplace]
  constructor
  · intro hall i hlt hno
    have hthis := hall (none, i) (List.mem_zipIdx_iff_getElem?.mpr (h.idle.mpr ⟨hlt, hno⟩))
    simpa using hthis
  · rintro hall ⟨_ | x, i⟩ hmem
    · obtain ⟨hlt, hno⟩ := h.idle.mp (List.mem_zipIdx_iff_getElem?.mp hmem)
      simp [hall i hlt hno]
    · simp

/-- **The padded rule of owners in distinct segments.** -/
theorem roundRefusal_none_iff (hd : Apart b os) : b.roundRefusal os = .ok none ↔ PaddedRound b os := by
  by_cases hbound : ∀ o ∈ os, ∃ s, b.segmentOf o.1 = .ok s
  swap
  · refine ⟨fun h => absurd ?_ hbound, fun h => absurd h.bound hbound⟩
    unfold PackedBlock.roundRefusal at h
    cases hu : b.refusalUsers os (List.replicate b.shape.users none) with
    | error e => rw [hu] at h; cases h
    | ok users =>
      cases users with
      | inl users => exact refusalUsers_bound hu
      | inr refusal => rw [hu] at h; cases h
  obtain ⟨users, husers, hseated⟩ := refusalUsers_seated hd hbound
  unfold PackedBlock.roundRefusal
  rw [husers]
  simp only [Except.map, Except.ok.injEq]
  unfold PackedBlock.paddedRefusal
  rw [hseated.count hd hbound]
  constructor
  · intro h
    split at h
    · cases h
    rename_i hcond
    push Not at hcond
    rw [Option.or_eq_none_iff, hseated.idleRefusal, hseated.pageRefusal hbound] at h
    exact ⟨hbound, by simpa using hcond.2, h.1, h.2⟩
  · intro h
    rw [if_neg (by rw [h.pads, hseated.length]; simp), Option.or_eq_none_iff, hseated.idleRefusal,
      hseated.pageRefusal hbound]
    exact ⟨h.idle, h.page⟩

/-! ## Owners whose tables have grown -/

/-- An owner of a round: its carry, its frontier, its table, the blocks that come to it, and the table over them. -/
structure Growth where
  carry : Option Nat
  position : Nat
  before : Table
  fresh : List Int
  after : Table

namespace Growth

/-- The owner when the round is drafted. -/
def proposed (o : Growth) : Engine × Nat := (⟨o.carry, o.before⟩, o.position)

/-- The owner when it is stepped. -/
def stepped (o : Growth) : Engine × Nat := (⟨o.carry, o.after⟩, o.position)

end Growth

/-- Tables that grow by blocks of no other owner, none of them page 0. -/
structure GrownRound (owners : List Growth) : Prop where
  grown : ∀ o ∈ owners, Grown o.before o.fresh o.after
  nonzero : ∀ o ∈ owners, (0 : Int) ∉ o.fresh
  disjoint : owners.Pairwise fun o o' =>
    (∀ x ∈ o.fresh, x ∉ tablePages o'.after) ∧ ∀ x ∈ o'.fresh, x ∉ tablePages o.after

/-- What the guard reads of one segment before and after: an owner's two tables, or an idle segment. -/
inductive GrownReads (b : PackedBlock) (sentinels : Bool) (owners : List Growth) (i : Nat) : User → User → Prop
  | owner {o : Growth} (ho : o ∈ owners) (hs : b.segmentOf o.proposed.1 = .ok i) :
      GrownReads b sentinels owners i (b.ownerUser sentinels o.proposed i) (b.ownerUser sentinels o.stepped i)
  | idle {u : User} (hzero : ∀ p, (∃ t, userKey u p = .ok (0, t)) ∨ userKey u p = .error .indexError) :
      GrownReads b sentinels owners i u u

variable {owners : List Growth}

/-- The fresh blocks of an owner are no pages of an owner at another segment. -/
theorem GrownRound.apart (h : GrownRound owners) {o o' : Growth} {i j : Nat} (ho : o ∈ owners) (ho' : o' ∈ owners)
    (hs : b.segmentOf o.proposed.1 = .ok i) (hs' : b.segmentOf o'.proposed.1 = .ok j) (hij : i ≠ j) :
    ∀ x ∈ o.fresh, x ∉ tablePages o'.after := by
  have hne : o ≠ o' := by
    rintro rfl
    rw [hs] at hs'
    exact hij (Except.ok.inj hs')
  have : Std.Symm fun o o' : Growth =>
      (∀ x ∈ o.fresh, x ∉ tablePages o'.after) ∧ ∀ x ∈ o'.fresh, x ∉ tablePages o.after := ⟨fun a c hac => hac.symm⟩
  exact (h.disjoint.forall ho ho' hne).1

/-- **Grown tables refine those that they have grown from.** -/
theorem GrownRound.refines (h : GrownRound owners) : Refines (GrownReads b sentinels owners) := by
  constructor
  · intro i u v hR
    cases hR <;> rfl
  · intro i u v hR hrow
    cases hR with
    | @owner o ho hs =>
      rcases (h.grown o ho).read sentinels i with heq | ⟨row, row', -, hrow', -⟩
      · show ∃ row, firstRow (readTable sentinels o.after i) = .ok row
        rw [heq]
        exact hrow
      · exact ⟨row', hrow'⟩
    | idle => exact hrow
  · intro i u v hR p _ hkey
    cases hR with
    | @owner o ho hs =>
      rcases (h.grown o ho).key sentinels (b.ownerUser sentinels o.stepped i).1 i p with heq | ⟨-, x, -, hfresh⟩
      · obtain ⟨key, hkey⟩ := hkey
        exact ⟨key, heq.trans hkey⟩
      · exact ⟨_, hfresh⟩
    | idle => exact hkey
  · intro i j u v u' v' hij hR hR' p _ q _ heq
    cases hR with
    | @owner o ho hs =>
      have hg := h.grown o ho
      rcases hg.key sentinels (b.ownerUser sentinels o.stepped i).1 i p with hsame | ⟨-, x, hx, hfresh⟩
      · cases hR' with
        | @owner o' ho' hs' =>
          have hg' := h.grown o' ho'
          rcases hg'.key sentinels (b.ownerUser sentinels o'.stepped j).1 j q with hsame' | ⟨-, y, hy, hfresh'⟩
          · exact hsame.symm.trans (heq.trans hsame')
          · exact absurd rfl (hg'.key_ne hy (h.apart ho' ho hs' hs hij.symm y hy) (heq.trans hfresh'))
        | idle => exact hsame.symm.trans heq
      · cases hR' with
        | @owner o' ho' hs' =>
          exact absurd rfl (hg.key_ne hx (h.apart ho ho' hs hs' hij x hx) (heq.symm.trans hfresh))
        | idle hzero =>
          rcases hzero q with ⟨t, ht⟩ | ht
          · obtain rfl : x = 0 := congrArg Prod.fst (Except.ok.inj (hfresh.symm.trans (heq.trans ht)))
            exact absurd hx (h.nonzero o ho)
          · cases hfresh.symm.trans (heq.trans ht)
    | idle hzero =>
      cases hR' with
      | @owner o' ho' hs' =>
        have hg' := h.grown o' ho'
        rcases hg'.key sentinels (b.ownerUser sentinels o'.stepped j).1 j q with hsame' | ⟨-, y, hy, hfresh'⟩
        · exact heq.trans hsame'
        · rcases hzero p with ⟨t, ht⟩ | ht
          · obtain rfl : y = 0 := congrArg Prod.fst (Except.ok.inj (hfresh'.symm.trans (heq.symm.trans ht)))
            exact absurd hy (h.nonzero o' ho')
          · cases hfresh'.symm.trans (heq.symm.trans ht)
      | idle => exact heq

/-- **A round that the guard accepts it accepts over grown tables.** -/
theorem kvGuard_grown (h : GrownRound owners) (hg : b.kvGuard sentinels (owners.map Growth.proposed) = .ok none) :
    b.kvGuard sentinels (owners.map Growth.stepped) = .ok none := by
  have hrefines : Refines (GrownReads b sentinels owners) := h.refines
  refine kvGuard_refines hrefines ?_ (fun _ live fills hfills f hf => ?_) hg
  · rw [List.forall₂_map_left_iff, List.forall₂_map_right_iff, List.forall₂_same]
    exact fun o ho => ⟨rfl, fun s hs => .owner ho hs⟩
  · exact .idle (idleUser_zero hfills hf).2

/-- **A round that the padded rule accepts it accepts over grown tables.** -/
theorem roundRefusal_grown (h : GrownRound owners) (hd : Apart b (owners.map Growth.proposed))
    (hr : b.roundRefusal (owners.map Growth.proposed) = .ok none) :
    b.roundRefusal (owners.map Growth.stepped) = .ok none := by
  have hd' : Apart b (owners.map Growth.stepped) := by
    unfold Apart at hd ⊢
    rw [List.pairwise_map] at hd ⊢
    exact hd
  rw [roundRefusal_none_iff hd] at hr
  rw [roundRefusal_none_iff hd']
  refine ⟨fun o ho => ?_, ?_, ?_, fun o ho => ?_⟩
  · obtain ⟨g, hgm, rfl⟩ := List.mem_map.mp ho
    exact hr.bound g.proposed (List.mem_map_of_mem hgm)
  · have hp := hr.pads
    rwa [List.length_map] at hp ⊢
  · refine hr.idle.imp id fun hi i hlt hno => hi i hlt fun o ho => ?_
    obtain ⟨g, hgm, rfl⟩ := List.mem_map.mp ho
    exact hno g.stepped (List.mem_map_of_mem hgm)
  · obtain ⟨g, hgm, rfl⟩ := List.mem_map.mp ho
    exact (h.grown g hgm).pageZero (h.nonzero g hgm) (hr.page g.proposed (List.mem_map_of_mem hgm))

end BlackholeQwen.Packed
