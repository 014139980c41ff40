import BlackholeQwen.Packed.Binding
import BlackholeQwen.Packed.Disjoint

/-!
# The guard before and after a refresh

A round is proposed over the tables of the last refresh and stepped over the refreshed ones (`kv_shared_at_proposal`,
`kv_shared`). Under sticky sessions the guard reads the pad of a table as a page of the segment's own.

- `Append`: an owner whose blocks grow by fresh ones between the two, over tables padded as a refresh pads them
  (`Append.Valid`, `Append.of_refresh`).
- `padSentinelTable_padded`: the sentinels start exactly where the bound blocks end.
- `proposal_guard_agrees`: the guard accepts the proposal exactly when it accepts the step, for fresh blocks that are
  disjoint from each other and from every bound block, and in a padded round are not physical page 0.
- `padded_page_zero_disagrees`: a padded round whose fresh block is page 0 is accepted at the proposal only.
-/

namespace BlackholeQwen.Packed

open Lib

/-- The sentinel page of a segment. -/
def sentinelPage (segment : Nat) : Int := -((segment : Int) + 1)

/-! ## The pad -/

/-- The pad of a padded table starts at the end of its blocks. -/
theorem padBound_padTable {capacity : Nat} {blocks : List Int} (hne : blocks ≠ []) (hnd : blocks.Nodup) :
    padBound (padTable capacity blocks) = blocks.length := by
  cases blocks with
  | nil => exact absurd rfl hne
  | cons first rest =>
    have hnot : first ∉ rest := (List.nodup_cons.mp hnd).1
    show (rest ++ List.replicate (capacity - (first :: rest).length) first).findIdx (· = first) + 1 = rest.length + 1
    congr 1
    have hrest : rest.findIdx (fun x => decide (x = first)) = rest.length := by
      refine List.findIdx_eq_length.mpr fun x hx => ?_
      rw [decide_eq_false_iff_not]
      rintro rfl
      exact hnot hx
    rw [List.findIdx_append, hrest, if_neg (Nat.lt_irrefl _)]
    have hpad : ∀ n, (List.replicate n first).findIdx (fun x => decide (x = first)) = 0 := by
      intro n
      cases n with
      | zero => rfl
      | succ n => simp [List.replicate_succ, List.findIdx_cons]
    rw [hpad, Nat.zero_add]

/-- **The sentinels of a padded table start exactly where its bound blocks end.** -/
theorem padSentinelTable_padded {v : VerifierPageBinding} (h : v.Padded) (segment : Nat) :
    padSentinelTable (some [v.pages]) segment =
      some [v.blocks ++ List.replicate (v.capacity - v.blocks.length) (sentinelPage segment)] := by
  have hbound : padBound v.pages = v.blocks.length := by rw [h.pages]; exact padBound_padTable h.nonempty h.unique
  have hlen : v.pages.length = v.capacity := by
    have := h.fits
    rw [h.pages, padTable, List.length_append, List.length_replicate]
    omega
  have htake : v.pages.take v.blocks.length = v.blocks := by rw [h.pages, padTable]; exact List.take_left' rfl
  cases hv : v.pages with
  | nil =>
    have hne := List.length_pos_iff.mpr h.nonempty
    have hfits := h.fits
    rw [hv, List.length_nil] at hlen
    omega
  | cons first rest =>
    show some [(first :: rest).take (padBound (first :: rest)) ++
      List.replicate ((first :: rest).length - padBound (first :: rest)) (sentinelPage segment)] = _
    rw [← hv, hbound, hlen, htake]

/-! ## Owners whose blocks grow -/

/-- An owner of a round: its carry, its frontier, its binding at the proposal and at the step, and the blocks that come
between. -/
structure Append where
  carry : Option Nat
  position : Nat
  before : VerifierPageBinding
  fresh : List Int
  after : VerifierPageBinding

namespace Append

/-- The owner at the proposal. -/
def proposed (o : Append) : Engine × Nat := (⟨o.carry, some [o.before.pages]⟩, o.position)

/-- The owner at the step. -/
def stepped (o : Append) : Engine × Nat := (⟨o.carry, some [o.after.pages]⟩, o.position)

/-- Tables padded as a refresh pads them, over blocks that grow by the fresh ones and cover the rows. -/
structure Valid (rows : Nat) (o : Append) : Prop where
  before : o.before.Padded
  after : o.after.Padded
  capacity : o.after.capacity = o.before.capacity
  blocks : o.after.blocks = o.before.blocks ++ o.fresh
  cover : (o.position + rows + 63) / 64 ≤ o.after.blocks.length

/-- The append of a refresh that returned. -/
theorem of_refresh {v : VerifierPageBinding} {fresh : List Int} {position rows : Nat} {env : RefreshEnv}
    {changed : Bool} (carry : Option Nat) (hp : v.Padded)
    (h : (v.refresh (v.blocks ++ fresh) position rows env).result = .ok changed) :
    Valid rows ⟨carry, position, v, fresh, (v.refresh (v.blocks ++ fresh) position rows env).obj⟩ := by
  obtain ⟨hpad, hcap, hblocks, hcover, -⟩ := VerifierPageBinding.refresh_ok hp h
  refine ⟨hp, hpad, hcap, hblocks, ?_⟩
  show (position + rows + 63) / 64 ≤ (v.refresh (v.blocks ++ fresh) position rows env).obj.blocks.length
  rw [hblocks]
  omega

variable {b : PackedBlock} {o o' : Append} {rows i j n m p : Nat}

/-- The page that the guard reads at entry `n` of the proposed table. -/
def readBefore (o : Append) (segment n : Nat) : Int := (o.before.blocks[n]?).getD (sentinelPage segment)

/-- The page that it reads of the stepped table. -/
def readAfter (o : Append) (n : Nat) : Int := (o.after.blocks[n]?).getD 0

/-- An entry within the blocks is bound before, or a sentinel that a fresh block replaces. -/
theorem Valid.read_cases (h : o.Valid rows) (hn : n < o.after.blocks.length) :
    (o.readAfter n ∈ o.before.blocks ∧ o.readBefore i n = o.readAfter n) ∨
      (o.readAfter n ∈ o.fresh ∧ o.readBefore i n = sentinelPage i) := by
  unfold readBefore readAfter
  rw [h.blocks] at hn ⊢
  by_cases hb : n < o.before.blocks.length
  · refine Or.inl ?_
    rw [List.getElem?_append_left hb, List.getElem?_eq_getElem hb]
    exact ⟨List.getElem_mem hb, rfl⟩
  · refine Or.inr ?_
    rw [List.length_append] at hn
    have hlt : n - o.before.blocks.length < o.fresh.length := by omega
    have hold : o.before.blocks[n]? = none := List.getElem?_eq_none (by omega)
    have hnew : (o.before.blocks ++ o.fresh)[n]? = some o.fresh[n - o.before.blocks.length] := by
      rw [List.getElem?_append_right (by omega), List.getElem?_eq_getElem hlt]
    rw [hold, hnew]
    exact ⟨List.getElem_mem _, rfl⟩

theorem Valid.bound_ne_sentinel (h : o.Valid rows) {block : Int} (hb : block ∈ o.before.blocks) (segment : Nat) :
    block ≠ sentinelPage segment := by
  have := h.before.physical block hb
  unfold sentinelPage
  omega

/-- **Two owners read one page at the proposal exactly when they do at the step.** -/
theorem Valid.read_eq_iff (h : o.Valid rows) (h' : o'.Valid rows) (hij : i ≠ j)
    (hfresh : ∀ x ∈ o.fresh, x ∉ o'.before.blocks) (hfresh' : ∀ x ∈ o'.fresh, x ∉ o.before.blocks)
    (hdisjoint : ∀ x ∈ o.fresh, x ∉ o'.fresh) (hn : n < o.after.blocks.length) (hm : m < o'.after.blocks.length) :
    o.readBefore i n = o'.readBefore j m ↔ o.readAfter n = o'.readAfter m := by
  rcases h.read_cases (i := i) hn with ⟨hmem, hread⟩ | ⟨hmem, hread⟩ <;>
    rcases h'.read_cases (i := j) hm with ⟨hmem', hread'⟩ | ⟨hmem', hread'⟩ <;> rw [hread, hread']
  · constructor
    · intro heq; exact absurd heq (h.bound_ne_sentinel hmem j)
    · intro heq; rw [heq] at hmem; exact absurd hmem (hfresh' _ hmem')
  · constructor
    · intro heq; exact absurd heq.symm (h'.bound_ne_sentinel hmem' i)
    · intro heq; rw [← heq] at hmem'; exact absurd hmem' (hfresh _ hmem)
  · constructor
    · intro heq
      unfold sentinelPage at heq
      omega
    · intro heq; rw [← heq] at hmem'; exact absurd hmem' (hdisjoint _ hmem)

/-- An owner reads page 0 at the proposal exactly when it does at the step, if no fresh block is page 0. -/
theorem Valid.read_zero_iff (h : o.Valid rows) (hzero : (0 : Int) ∉ o.fresh) (hn : n < o.after.blocks.length) :
    o.readBefore i n = 0 ↔ o.readAfter n = 0 := by
  rcases h.read_cases (i := i) hn with ⟨hmem, hread⟩ | ⟨hmem, hread⟩ <;> rw [hread]
  constructor
  · intro heq
    unfold sentinelPage at heq
    omega
  · intro heq; rw [heq] at hmem; exact absurd hmem hzero

/-- The pair that a row writes through blocks and the sentinels after them. -/
theorem tileRow_sentinels {blocks : List Int} {count segment : Nat} (hp : p / 64 < blocks.length + count) :
    tileRow (blocks ++ List.replicate count (sentinelPage segment)) p =
      .ok ((blocks[p / 64]?).getD (sentinelPage segment), p % 64 / 32) := by
  have hget : (blocks ++ List.replicate count (sentinelPage segment))[p / 64]? =
      some ((blocks[p / 64]?).getD (sentinelPage segment)) := by
    by_cases hb : p / 64 < blocks.length
    · rw [List.getElem?_append_left hb, List.getElem?_eq_getElem hb]
      rfl
    · rw [List.getElem?_append_right (by omega), List.getElem?_replicate, if_pos (by omega),
        List.getElem?_eq_none (by omega)]
      rfl
  have hpage : (blocks ++ List.replicate count (sentinelPage segment))[p / BLOCK_SIZE]? =
      some ((blocks[p / 64]?).getD (sentinelPage segment)) := hget
  unfold tileRow
  rw [hpage]

/-- A row of the round lies within the blocks of the step. -/
theorem Valid.row_lt (h : o.Valid rows) (hp : p ∈ List.range' o.position rows) :
    p / 64 < o.after.blocks.length := by
  obtain ⟨k, hk, rfl⟩ := List.mem_range'.mp hp
  have := h.cover
  omega

/-- The row that the guard reads of a padded table. -/
theorem ownerUser_row {v : VerifierPageBinding} (h : v.Padded) (carry : Option Nat) (position : Nat) :
    firstRow (b.ownerUser true (⟨carry, some [v.pages]⟩, position) i).2 =
      .ok (v.blocks ++ List.replicate (v.capacity - v.blocks.length) (sentinelPage i)) := by
  show firstRow (padSentinelTable (some [v.pages]) i) = _
  rw [padSentinelTable_padded h]
  rfl

/-- What the guard reads of an owner at the proposal. -/
theorem Valid.key_before (h : o.Valid b.shape.rowsPerUser) (hp : p ∈ (b.ownerUser true o.proposed i).1) :
    userKey (b.ownerUser true o.proposed i) p = .ok (o.readBefore i (p / 64), p % 64 / 32) := by
  have hlt := h.row_lt hp
  have hfits := h.after.fits
  have hcap := h.capacity
  have hbefore := h.before.fits
  have hrow := ownerUser_row (b := b) (i := i) h.before o.carry o.position
  refine (userKey_of_row hrow p).trans ?_
  rw [tileRow_sentinels (by omega)]
  rfl

/-- What the guard reads of an owner at the step. -/
theorem Valid.key_after (h : o.Valid b.shape.rowsPerUser) (hp : p ∈ (b.ownerUser true o.stepped i).1) :
    userKey (b.ownerUser true o.stepped i) p = .ok (o.readAfter (p / 64), p % 64 / 32) := by
  have hlt := h.row_lt hp
  have hrow := ownerUser_row (b := b) (i := i) h.after o.carry o.position
  refine (userKey_of_row hrow p).trans ?_
  rw [tileRow_sentinels (by omega)]
  unfold readAfter
  rw [List.getElem?_eq_getElem hlt]
  rfl

end Append

/-! ## The guard at the proposal and at the step -/

variable {b : PackedBlock} {owners : List Append}

/-- Owners whose fresh blocks are disjoint from each other and from every bound block, and in a padded round are not
physical page 0. -/
structure Appended (b : PackedBlock) (owners : List Append) : Prop where
  valid : ∀ o ∈ owners, o.Valid b.shape.rowsPerUser
  unbound : ∀ o ∈ owners, ∀ x ∈ o.fresh, ∀ o' ∈ owners, x ∉ o'.before.blocks
  disjoint : owners.Pairwise fun o o' => ∀ x ∈ o.fresh, x ∉ o'.fresh
  nonzero : b.pads owners.length = true → ∀ o ∈ owners, (0 : Int) ∉ o.fresh

/-- What the guard reads of one segment at the proposal and at the step: an owner's two tables, or an idle segment. -/
inductive Reads (b : PackedBlock) (owners : List Append) (i : Nat) : User → User → Prop
  | owner {o : Append} (ho : o ∈ owners) (hs : b.segmentOf o.proposed.1 = .ok i) :
      Reads b owners i (b.ownerUser true o.proposed i) (b.ownerUser true o.stepped i)
  | idle {u : User} (hpad : b.pads owners.length = true) (hrow : ∃ row, firstRow u.2 = .ok row)
      (hzero : ∀ p ∈ u.1, (∃ t, userKey u p = .ok (0, t)) ∨ userKey u p = .error .indexError) : Reads b owners i u u

/-- Owners of two segments have disjoint fresh blocks. -/
theorem Appended.apart (h : Appended b owners) {o o' : Append} {i j : Nat} (ho : o ∈ owners) (ho' : o' ∈ owners)
    (hs : b.segmentOf o.proposed.1 = .ok i) (hs' : b.segmentOf o'.proposed.1 = .ok j) (hij : i ≠ j) :
    ∀ x ∈ o.fresh, x ∉ o'.fresh := by
  have hne : o ≠ o' := by
    rintro rfl
    rw [hs] at hs'
    exact hij (Except.ok.inj hs')
  have : Std.Symm fun o o' : Append => ∀ x ∈ o.fresh, x ∉ o'.fresh := ⟨fun a c hac x hx hx' => hac x hx' hx⟩
  exact h.disjoint.forall ho ho' hne

/-- **The two readings of a round map rows alike.** -/
theorem Appended.transfer (h : Appended b owners) : Transfer (Reads b owners) := by
  constructor
  · intro i u v hR
    cases hR with
    | owner ho hs => rfl
    | idle => rfl
  · intro i u v hR
    cases hR with
    | @owner o ho hs =>
      have hv := h.valid o ho
      exact ⟨fun _ => ⟨_, Append.ownerUser_row hv.after o.carry o.position⟩,
        fun _ => ⟨_, Append.ownerUser_row hv.before o.carry o.position⟩⟩
    | idle => exact Iff.rfl
  · intro i u v hR p hp
    cases hR with
    | owner ho hs =>
      have hv := h.valid _ ho
      exact ⟨fun _ => ⟨_, hv.key_after hp⟩, fun _ => ⟨_, hv.key_before hp⟩⟩
    | idle => exact Iff.rfl
  · intro i j u v u' v' hij hR hR' p hp q hq
    cases hR with
    | @owner o ho hs =>
      have hv := h.valid o ho
      rw [hv.key_before hp, hv.key_after hp]
      cases hR' with
      | @owner o' ho' hs' =>
        have hv' := h.valid o' ho'
        rw [hv'.key_before hq, hv'.key_after hq]
        simp only [Except.ok.injEq, Prod.mk.injEq]
        rw [hv.read_eq_iff hv' hij (fun x hx => h.unbound o ho x hx o' ho') (fun x hx => h.unbound o' ho' x hx o ho)
          (h.apart ho ho' hs hs' hij) (hv.row_lt hp) (hv'.row_lt hq)]
      | idle hpad _ hzero =>
        rcases hzero q hq with ⟨t, ht⟩ | ht <;> rw [ht]
        · simp only [Except.ok.injEq, Prod.mk.injEq]
          rw [hv.read_zero_iff (h.nonzero hpad o ho) (hv.row_lt hp)]
        · simp
    | idle hpad _ hzero =>
      cases hR' with
      | @owner o' ho' hs' =>
        have hv' := h.valid o' ho'
        rw [hv'.key_before hq, hv'.key_after hq]
        rcases hzero p hp with ⟨t, ht⟩ | ht <;> rw [ht]
        · simp only [Except.ok.injEq, Prod.mk.injEq]
          rw [eq_comm, hv'.read_zero_iff (h.nonzero hpad o' ho') (hv'.row_lt hq), eq_comm]
        · simp
      | idle => exact Iff.rfl

/-- An idle segment has a table, which maps its rows to page 0. -/
theorem idleUser_zero {live : List Nat} {fills : List (Nat × Idle)} (hfills : b.idleInputs live = .ok fills)
    {f : Nat × Idle} (hf : f ∈ fills) : (∃ row, firstRow (b.idleUser f.2).2 = .ok row) ∧
      ∀ p, (∃ t, userKey (b.idleUser f.2) p = .ok (0, t)) ∨ userKey (b.idleUser f.2) p = .error .indexError := by
  obtain ⟨k, hk⟩ := List.mem_iff_getElem?.mp hf
  obtain ⟨-, hidle⟩ := (PackedBlock.idleInputs_ok hfills).2 k f hk
  have hrow : firstRow (b.idleUser f.2).2 = .ok (List.replicate b.shape.pageWidth 0) := by
    rw [hidle]; rfl
  refine ⟨⟨_, hrow⟩, fun p => ?_⟩
  rw [userKey_of_row hrow]
  unfold tileRow
  rw [List.getElem?_replicate]
  split
  · rename_i hnone
    exact Or.inr rfl
  · rename_i page hpage
    refine Or.inl ⟨p % 64 / 32, ?_⟩
    split at hpage
    · cases hpage; rfl
    · cases hpage

/-- An idle segment, at page 0. -/
theorem reads_idle (hpad : b.pads owners.length = true) {live : List Nat} {fills : List (Nat × Idle)}
    (hfills : b.idleInputs live = .ok fills) {f : Nat × Idle} (hf : f ∈ fills) :
    Reads b owners f.1 (b.idleUser f.2) (b.idleUser f.2) :=
  .idle hpad (idleUser_zero hfills hf).1 fun p _ => (idleUser_zero hfills hf).2 p

/-- **The proposal's guard agrees with the step's under sticky sessions**: the sentinels of each owner's table start
where its bound blocks end, and the guard over the un-refreshed tables accepts exactly when the guard over the refreshed
ones does. -/
theorem proposal_guard_agrees (h : Appended b owners) :
    (∀ o ∈ owners, ∀ segment, padSentinelTable (some [o.before.pages]) segment =
      some [o.before.blocks ++
        List.replicate (o.before.capacity - o.before.blocks.length) (sentinelPage segment)]) ∧
      (b.kvGuard true (owners.map Append.proposed) = .ok none ↔
        b.kvGuard true (owners.map Append.stepped) = .ok none) := by
  refine ⟨fun o ho segment => padSentinelTable_padded (h.valid o ho).before segment, ?_⟩
  refine kvGuard_congr h.transfer ?_ ?_
  · rw [List.forall₂_map_left_iff, List.forall₂_map_right_iff, List.forall₂_same]
    exact fun o ho => ⟨rfl, fun s hs => .owner ho hs⟩
  · intro hpad live fills hfills f hf
    rw [List.length_map] at hpad
    exact reads_idle hpad hfills hf

/-! ## Rounds -/

/-- A binding of the blocks, over a table of 68 entries. -/
def sampleBinding (blocks : List Int) : VerifierPageBinding := ⟨100, 68, blocks, false, true, padTable 68 blocks⟩

/-- An owner at `position` whose binding a refresh extends by one block. -/
def sampleAppend (carry position : Nat) (blocks : List Int) (block : Int) : Append :=
  ⟨some carry, position, sampleBinding blocks, [block],
    ((sampleBinding blocks).refresh (blocks ++ [block]) position 16 ⟨true, none, true⟩).obj⟩

/-- Two owners that share their first block and cross into a fresh block each. -/
def sampleAppends : List Append := [sampleAppend 100 120 [5, 6] 8, sampleAppend 101 120 [5, 7] 9]

theorem sampleAppends_appended : Appended sampleBlock sampleAppends := by
  have hvalid : ∀ (carry : Nat) (blocks : List Int) (block : Int), (sampleBinding blocks).Padded →
      ((sampleBinding blocks).refresh (blocks ++ [block]) (120 : Nat) (16 : Nat) ⟨true, none, true⟩).result = .ok true →
      (sampleAppend carry 120 blocks block).Valid 16 :=
    fun carry blocks block hp hr => Append.of_refresh (some carry) hp hr
  refine ⟨?_, by decide, by decide, by decide⟩
  intro o ho
  rcases List.mem_cons.mp ho with rfl | ho
  · exact hvalid 100 [5, 6] 8 ⟨rfl, by decide, by decide, by decide, by decide⟩ (by decide)
  · rcases List.mem_cons.mp ho with rfl | ho
    · exact hvalid 101 [5, 7] 9 ⟨rfl, by decide, by decide, by decide, by decide⟩ (by decide)
    · cases ho

/-- The sample round is accepted at the proposal exactly when it is at the step. -/
theorem proposal_guard_agrees_sample :
    (∀ o ∈ sampleAppends, ∀ segment, padSentinelTable (some [o.before.pages]) segment =
      some [o.before.blocks ++
        List.replicate (o.before.capacity - o.before.blocks.length) (sentinelPage segment)]) ∧
      (sampleBlock.kvGuard true (sampleAppends.map Append.proposed) = .ok none ↔
        sampleBlock.kvGuard true (sampleAppends.map Append.stepped) = .ok none) :=
  proposal_guard_agrees sampleAppends_appended

/-- One owner of a padded round whose fresh block is physical page 0. -/
def pageZeroAppends : List Append := [sampleAppend 101 60 [5] 0]

/-- **A padded round whose fresh block is page 0**: accepted at the proposal, where the entry is a sentinel, and refused
at the step, where its row falls into the tile row of the idle segment. -/
theorem padded_page_zero_disagrees :
    (∀ o ∈ pageZeroAppends, o.Valid 16 ∧ ∀ x ∈ o.fresh, ∀ o' ∈ pageZeroAppends, x ∉ o'.before.blocks) ∧
      sampleBlock.pads pageZeroAppends.length = true ∧
      sampleBlock.kvGuard true (pageZeroAppends.map Append.proposed) = .ok none ∧
      sampleBlock.kvGuard true (pageZeroAppends.map Append.stepped) = .ok (some (.conflict ⟨0, 1, (0, 0)⟩)) := by
  refine ⟨?_, by decide, by decide, by decide⟩
  intro o ho
  obtain rfl : o = sampleAppend 101 60 [5] 0 := by simpa [pageZeroAppends] using ho
  refine ⟨?_, by decide⟩
  have hp : (sampleBinding [5]).Padded := ⟨rfl, by decide, by decide, by decide, by decide⟩
  have hr : ((sampleBinding [5]).refresh ([5] ++ [0]) (60 : Nat) (16 : Nat) ⟨true, none, true⟩).result = .ok true := by
    decide
  exact Append.of_refresh (some 101) hp hr

end BlackholeQwen.Packed
