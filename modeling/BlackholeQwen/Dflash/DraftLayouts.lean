import BlackholeQwen.Dflash.DraftPack
import Mathlib.Data.List.Nodup

/-!
# Every draft layout attends as the user alone

A row of the draft block sees keys: rows of its user's history and of its own block, each with the position that its key
was rotated by. `AloneSees` reads them from the mask of the user alone, `PackedSees` from the packed mask, the packed
key axis and the packed tables, `BucketSees` from the inputs of a bucket.

- `packed_sees_iff`: a packed row sees what its user alone sees.
- `bucket_sees_iff`: so does a row in a bucket.
- `validateBatchedMask_ok`: the validation accepts the packed mask.
- `draft_layouts_agree`: all of it, with the two builds of the live key rows.
-/

namespace BlackholeQwen.Dflash

open Lib

/-! ## What a row sees -/

/-- A row of a user's keys: of its history, or of its own block. -/
inductive Source
  | history (row : Nat)
  | own (row : Nat)
  deriving DecidableEq, Repr

/-- A user's row on the packed key axis. -/
def Source.packed (blockRows u : Nat) : Source → KeyRow
  | .history row => .cached u row
  | .own row => .live (u * blockRows + row)

/-- The rows of a user's own key axis: a history of up to `boundary` rows, then the block. -/
def sourceAt (boundary column : Nat) : Source :=
  if column < boundary then .history column else .own (column - boundary)

/-- What a row of a user alone sees, with the positions of `rope_tables(position - history_rows, key_rows)`. -/
def AloneSees (mask : Mask) (user : User) (row : Nat) (source : Source) (position : Nat) : Prop :=
  ∃ column, mask.Visible row column ∧ source = sourceAt user.historyRows column ∧
    position = user.position - user.historyRows + column

/-- What a packed row sees: the rows of the key axis with the rows of a key table. -/
def PackedSees (mask : Mask) (axis : List KeyRow) (table : RopeTable) (row : Nat) (key : Option KeyRow)
    (position : Option (Option Nat)) : Prop :=
  ∃ column, mask.Visible row column ∧ key = axis[column]? ∧ position = table[column]?

/-- What a row of a bucket sees. -/
def BucketSees (inputs : ProposalInputs) (contextRows row : Nat) (source : Source) (position : Option (Option Nat)) :
    Prop :=
  ∃ column, inputs.mask.Visible row column ∧ source = sourceAt contextRows column ∧ position = inputs.rope.k[column]?

section Seen

variable {users : List User} {blockRows keyMultiple : Nat} {spans : List Span} {keyRows : Nat}

/-- A live row of a user alone, by the rule. -/
theorem alone_sees_iff {user : User} (hvalid : user.Valid) (hblock : blockRows ∈ [1, 8, 16, 32])
    (hmultiple : keyMultiple ∈ [32, 128]) {alone : Mask}
    (halone : draftAttentionMask user.historyRows blockRows keyMultiple = .ok alone) {i : Nat} (hi : i < blockRows)
    {source : Source} {position : Nat} :
    AloneSees alone user i source position ↔ ∃ c, Allowed user.historyRows blockRows 2048 (user.historyRows + i) c ∧
      source = sourceAt user.historyRows c ∧ position = user.position - user.historyRows + c := by
  have hcontext : user.historyRows ≤ 262144 := Nat.le_trans hvalid.2.1 (by decide)
  obtain ⟨m, hm, hrows, hkeys, hvalue⟩ := draftAttentionMask_spec hcontext hblock hmultiple
  cases hm.symm.trans halone
  have hwide : ∀ rows ∈ [1, 8, 16, 32], rows ≤ 32 := by decide
  have hwide := hwide _ hblock
  have hroom := @le_alignedRows user.historyRows blockRows keyMultiple hmultiple
  refine exists_congr fun c => and_congr_left fun _ => ?_
  unfold Mask.Visible
  constructor
  · rintro ⟨hrow, hkey, hzero⟩
    rw [hvalue i (by omega) c hkey, admitWhere_zero] at hzero
    rcases hzero with ⟨-, h⟩ | ⟨h, -⟩
    · exact h
    · omega
  · intro hallowed
    have hkey : c < alone.keys := by
      unfold Allowed at hallowed
      omega
    refine ⟨by omega, hkey, ?_⟩
    rw [hvalue i (by omega) c hkey, admitWhere_zero]
    exact Or.inl ⟨hi, hallowed⟩

/-- **A packed row sees what its user alone sees.** -/
theorem packed_sees_iff (h : PackedUsers users blockRows keyMultiple spans keyRows) {mask : Mask}
    (hmask : batchedAttentionMask (users.map User.historyRows) blockRows keyMultiple = .ok mask) {u : Nat} {user : User}
    (hu : users[u]? = some user) {i : Nat} (hi : i < blockRows) {key : Option KeyRow} {position : Option (Option Nat)} :
    PackedSees mask (spans.flatMap (spanAxis blockRows)) ((users.zip spans).flatMap fun p => (userRope blockRows p).k)
        (u * blockRows + i) key position ↔
      ∃ c, Allowed user.historyRows blockRows 2048 (user.historyRows + i) c ∧
        key = some ((sourceAt user.historyRows c).packed blockRows u) ∧
        position = some (some (user.position - user.historyRows + c)) := by
  obtain ⟨_, hm, hrows, hkeys, hlive, -⟩ := batchedAttentionMask_spec h.packs
  cases hm.symm.trans hmask
  obtain ⟨s, -, hzip, hs, rfl, hcontext⟩ := h.zip_get hu
  have hbounds := h.packs.keys.bounds hs
  have hroom := h.packs.room hs
  have hblock := h.packs.rows.bounds hs
  have hused := h.packs.used
  -- inside the span the axis and the table are the user's own
  have hread : ∀ c, Allowed s.context blockRows 2048 (s.context + i) c →
      (spans.flatMap (spanAxis blockRows))[s.offset + c]? = some ((sourceAt s.context c).packed blockRows s.user) ∧
      ((users.zip spans).flatMap fun p => (userRope blockRows p).k)[s.offset + c]? =
        some (some (user.position - user.historyRows + c)) := by
    intro c hallowed
    have hc : c < s.context + blockRows := by
      unfold Allowed at hallowed
      omega
    refine ⟨?_, h.key_get hzip (by simp only; omega)⟩
    rw [axis_get h.packs hs (by omega)]
    cases hkey : (spanAxis blockRows s)[c]? with
    | none =>
      rw [List.getElem?_eq_none_iff] at hkey
      simp only [spanAxis, List.length_append, List.length_map, List.length_range, List.length_range',
        List.length_replicate] at hkey
      omega
    | some key =>
      obtain ⟨hcached, hlive⟩ := spanAxis_get hkey
      unfold sourceAt
      by_cases hlt : c < s.context
      · rw [if_pos hlt, hcached hlt]
        rfl
      · rw [if_neg hlt, hlive (by omega) hc]
        rfl
  rw [← hcontext]
  constructor
  · rintro ⟨column, ⟨hrow, hcolumn, hzero⟩, rfl, rfl⟩
    rw [hkeys] at hcolumn
    rw [hlive s hs _ (Nat.le_add_right _ _) (by omega) column hcolumn, admitWhere_zero,
      Nat.add_sub_cancel_left] at hzero
    obtain ⟨⟨hlo, hhi⟩, hallowed⟩ := hzero
    obtain ⟨hkey, hposition⟩ := hread _ hallowed
    rw [show s.offset + (column - s.offset) = column by omega] at hkey hposition
    exact ⟨column - s.offset, hallowed, hkey, hcontext ▸ hposition⟩
  · rintro ⟨c, hallowed, rfl, rfl⟩
    obtain ⟨hkey, hposition⟩ := hread c hallowed
    have hc : c < s.context + blockRows := by
      unfold Allowed at hallowed
      omega
    refine ⟨s.offset + c, ⟨by omega, by omega, ?_⟩, hkey.symm, hcontext ▸ hposition.symm⟩
    rw [hlive s hs _ (Nat.le_add_right _ _) (by omega) _ (by omega), admitWhere_zero, Nat.add_sub_cancel_left,
      Nat.add_sub_cancel_left]
    exact ⟨⟨by omega, by omega⟩, hallowed⟩

/-- The keys that a row sees are those that the mask shows it. -/
theorem mem_seen {m : Mask} {row key : Nat} : key ∈ m.seen row ↔ m.Visible row key := by
  unfold Mask.seen
  rw [List.mem_filter, List.mem_range, decide_eq_true_eq]
  exact ⟨fun h => h.2, fun h => ⟨h.2.1, h⟩⟩

/-- A row that sees one key. -/
theorem seen_singleton {m : Mask} {row a : Nat} (h : ∀ key, m.Visible row key ↔ key = a) : m.seen row = [a] := by
  refine List.perm_singleton.mp ((List.perm_ext_iff_of_nodup ?_ (List.nodup_singleton a)).mpr fun key => ?_)
  · exact List.nodup_range.filter _
  · rw [mem_seen, h, List.mem_singleton]

/-- A live row sees its own anchor. -/
theorem packed_live_seen {contexts : List Nat} (h : Packs contexts blockRows keyMultiple spans keyRows) {mask : Mask}
    (hmask : batchedAttentionMask contexts blockRows keyMultiple = .ok mask) {s : Span} (hs : s ∈ spans) {row : Nat}
    (hlo : s.user * blockRows ≤ row) (hhi : row < s.user * blockRows + blockRows) :
    mask.seen row ≠ [] ∧ ∀ key ∈ mask.seen row, s.offset ≤ key ∧ key < s.offset + s.span := by
  obtain ⟨m, hm, hrows, hkeys, hlive, -⟩ := batchedAttentionMask_spec h
  cases hm.symm.trans hmask
  have hbounds := h.keys.bounds hs
  have hroom := h.room hs
  have hblock := h.rows.bounds hs
  have hused := h.used
  constructor
  · refine List.ne_nil_of_mem (a := s.offset + s.context) (mem_seen.mpr ⟨by omega, by omega, ?_⟩)
    rw [hlive s hs row hlo hhi _ (by omega), admitWhere_zero]
    exact ⟨by omega, Or.inr (by omega)⟩
  · intro key hkey
    obtain ⟨-, hlt, hzero⟩ := mem_seen.mp hkey
    rw [hlive s hs row hlo hhi key (by omega), admitWhere_zero] at hzero
    exact hzero.1

/-- A padded row sees one key. -/
theorem packed_padded_seen {contexts : List Nat} (h : Packs contexts blockRows keyMultiple spans keyRows) {mask : Mask}
    (hmask : batchedAttentionMask contexts blockRows keyMultiple = .ok mask) {row : Nat} (hrow : row < 32)
    (hpadded : contexts.length * blockRows ≤ row) : (mask.seen row).length = 1 := by
  obtain ⟨m, hm, hrows, hkeys, -, hanchor⟩ := batchedAttentionMask_spec h
  cases hm.symm.trans hmask
  have hfirst := h.first
  refine congrArg List.length (seen_singleton (a := (spans.head?.map Span.context).getD 0) fun key => ?_)
  unfold Mask.Visible
  constructor
  · rintro ⟨-, hkey, hzero⟩
    rw [hanchor row hrow hpadded key (by omega), admitWhere_zero] at hzero
    exact hzero
  · rintro rfl
    exact ⟨by omega, by omega, by rw [hanchor row hrow hpadded _ hfirst, admitWhere_zero]⟩

/-- A live row belongs to a user. -/
theorem Packs.owner {contexts : List Nat} (h : Packs contexts blockRows keyMultiple spans keyRows) {row : Nat}
    (hrow : row < contexts.length * blockRows) :
    ∃ s ∈ spans, s.user * blockRows ≤ row ∧ row < s.user * blockRows + blockRows := by
  obtain ⟨⟨u, t⟩, ⟨s, hs, ht, hsum⟩, -⟩ := h.rows.find (Nat.zero_le row) hrow
  simp only at hsum ht
  exact ⟨s, List.mem_of_getElem? hs, by omega, by omega⟩

theorem spansFrom_mod (contexts : List Nat) (index : Nat) {offset : Nat} (hoffset : offset % 32 = 0) :
    (spansFrom blockRows 32 index offset contexts).2 % 32 = 0 := by
  induction contexts generalizing index offset with
  | nil => exact hoffset
  | cons context contexts ih =>
    have hspan := @alignedRows_mod context blockRows
    exact ih (index + 1) (by omega)

/-- **The validation accepts the packed mask.** -/
theorem validateBatchedMask_ok {contexts : List Nat} (h : Packs contexts blockRows 32 spans keyRows) {mask : Mask}
    (hmask : batchedAttentionMask contexts blockRows 32 = .ok mask) :
    validateBatchedMask mask contexts blockRows = .ok (spans, keyRows) := by
  obtain ⟨m, hm, hrows, hkeys, hlive, hanchor⟩ := batchedAttentionMask_spec h
  cases hm.symm.trans hmask
  have hmod : keyRows % 32 = 0 := by
    have hmod := @spansFrom_mod blockRows contexts 0 0 rfl
    rwa [h.from_zero] at hmod
  have hvalues : ¬∃ row ∈ List.range mask.rows, ∃ key ∈ List.range mask.keys, mask.value row key = .other := by
    rintro ⟨row, hrow, key, hkey, hother⟩
    rw [List.mem_range, hrows] at hrow
    rw [List.mem_range, hkeys] at hkey
    rcases Nat.lt_or_ge row (contexts.length * blockRows) with hlt | hge
    · obtain ⟨s, hs, hlo, hhi⟩ := h.owner hlt
      rw [hlive s hs row hlo hhi key hkey] at hother
      exact admitWhere_ne_other hother
    · rw [hanchor row hrow hge key hkey] at hother
      exact admitWhere_ne_other hother
  have hspans : ∃ units, (spans.mapM fun s => do
      let rows := List.range' (s.rows blockRows).1 ((s.rows blockRows).2 - (s.rows blockRows).1)
      raiseIf (∃ row ∈ rows, mask.seen row = []) (.valueError "Every live draft query needs a visible key")
      raiseIf (∃ row ∈ rows, ∃ key ∈ mask.seen row, ¬(s.keys.1 ≤ key ∧ key < s.keys.2))
        (.valueError "A draft query can see another user: the pack is not block diagonal")) = .ok units := by
    refine mapM_total.mpr fun s hs => ⟨(), ?_⟩
    have hseen : ∀ row ∈ List.range' (s.rows blockRows).1 ((s.rows blockRows).2 - (s.rows blockRows).1),
        mask.seen row ≠ [] ∧ ∀ key ∈ mask.seen row, s.offset ≤ key ∧ key < s.offset + s.span := by
      intro row hrow
      simp only [Span.rows, Nat.add_mul, Nat.one_mul, Nat.add_sub_cancel_left, List.mem_range'_1] at hrow
      exact packed_live_seen h hmask hs hrow.1 hrow.2
    show (raiseIf _ _ >>= _) = _
    rw [raiseIf_bind (by rintro ⟨row, hrow, hnil⟩; exact (hseen row hrow).1 hnil), raiseIf_ok]
    rintro ⟨row, hrow, key, hkey, hout⟩
    exact hout ((hseen row hrow).2 key hkey)
  obtain ⟨units, hunits⟩ := hspans
  unfold validateBatchedMask
  rw [segments_ok.mpr h]
  show (raiseIf _ _ >>= _) = _
  rw [raiseIf_bind (by omega), raiseIf_bind hvalues, hunits]
  show (raiseIf _ _ >>= _) = _
  rw [raiseIf_bind]
  · rfl
  · rintro ⟨-, row, hrow, hone⟩
    rw [List.mem_range'_1, h.length] at hrow
    exact hone (packed_padded_seen h hmask (by omega) hrow.1)

end Seen

/-! ## Buckets -/

section Bucket

variable {seed position historyRows blockRows contextRows : Nat}

theorem putRows_length {table rows : RopeTable} {start : Nat} (hroom : start + rows.length ≤ table.length) :
    (putRows table start rows).length = table.length := by
  unfold putRows
  simp only [List.length_append, List.length_take, List.length_drop]
  omega

theorem putRows_inside {table rows : RopeTable} {start j : Nat} (hroom : start + rows.length ≤ table.length)
    (hj : j < rows.length) : (putRows table start rows)[start + j]? = rows[j]? := by
  unfold putRows
  have hlength : (table.take start).length = start := by
    rw [List.length_take]
    omega
  rw [List.append_assoc, List.getElem?_append_right (by omega), hlength, Nat.add_sub_cancel_left,
    List.getElem?_append_left hj]

theorem putRows_before {table rows : RopeTable} {start j : Nat} (hroom : start + rows.length ≤ table.length)
    (hj : j < start) : (putRows table start rows)[j]? = table[j]? := by
  unfold putRows
  rw [List.append_assoc, List.getElem?_append_left (by rw [List.length_take]; omega), List.getElem?_take_of_lt hj]

/-- What `proposal_inputs` admits. -/
structure Bucketed (seed position historyRows blockRows contextRows : Nat) : Prop where
  token : seed < 248320
  anchor : 1 ≤ position ∧ position ≤ 262112
  history : 1 ≤ historyRows ∧ historyRows ≤ min position 2048
  block : blockRows ∈ [8, 16, 32]
  context : contextRows ∈ [256, 512, 1024, 2048]
  room : historyRows ≤ contextRows

/-- **The inputs of a bucket.** Where its own history and block lie, and what its rows see. -/
theorem proposalInputs_spec (h : Bucketed seed position historyRows blockRows contextRows) :
    ∃ inputs, proposalInputs seed position historyRows blockRows contextRows = .ok inputs ∧
      inputs.mask.rows = 32 ∧ inputs.mask.keys = contextRows + 32 ∧
      (∀ row < 32, ∀ column < contextRows + 32, inputs.mask.value row column =
        admitWhere (column < historyRows ∧ Sees historyRows blockRows row column ∨
          contextRows ≤ column ∧ column < contextRows + blockRows ∧
            Sees historyRows blockRows row (historyRows + (column - contextRows)))) ∧
      (∀ i < blockRows, inputs.rope.q[i]? = some (some (position + i))) ∧
      (∀ c < historyRows, inputs.rope.k[c]? = some (some (position - historyRows + c))) ∧
      ∀ j < blockRows, inputs.rope.k[contextRows + j]? = some (some (position + j)) := by
  obtain ⟨hseed, hposition, hhistory, hblock, hcontext, hroom⟩ := h
  have hwide : ∀ rows ∈ [8, 16, 32], 1 ≤ rows ∧ rows ≤ 32 ∧ rows ∈ [1, 8, 16, 32] := by decide
  obtain ⟨hone, hwide, hblocks⟩ := hwide _ hblock
  obtain ⟨original, horiginal, -, hkeys, hvalue⟩ :=
    draftAttentionMask_spec (show historyRows ≤ 262144 by omega) hblocks (show 32 ∈ [32, 128] by decide)
  have hspan := @le_alignedRows historyRows blockRows 32 (by decide)
  have hadmitted : ¬(¬seed < 248320 ∨ ¬(1 ≤ position ∧ position ≤ 262112) ∨
      ¬(1 ≤ historyRows ∧ historyRows ≤ min position 2048) ∨ blockRows ∉ [8, 16, 32] ∨
      contextRows ∉ [256, 512, 1024, 2048] ∨ contextRows < historyRows) := by
    rintro (h | h | h | h | h | h)
    · exact h hseed
    · exact h hposition
    · exact h hhistory
    · exact h hblock
    · exact h hcontext
    · omega
  have hquery : ropeTables position 32 = .ok ((List.range' position 32).map some) := ropeTables_ok.mpr ⟨by omega, rfl⟩
  have hhistorical : ropeTables (position - historyRows) historyRows =
      .ok ((List.range' (position - historyRows) historyRows).map some) := ropeTables_ok.mpr ⟨by omega, rfl⟩
  unfold proposalInputs
  rw [raiseIf_bind hadmitted, horiginal, hquery, hhistorical]
  have hfirst : 0 + ((List.range' (position - historyRows) historyRows).map some).length ≤
      (List.replicate (contextRows + 32) (none : Option Nat)).length := by
    rw [List.length_map, List.length_range', List.length_replicate]
    omega
  have hsecond : contextRows + (((List.range' position 32).map some).take blockRows).length ≤
      (putRows (List.replicate (contextRows + 32) none) 0
        ((List.range' (position - historyRows) historyRows).map some)).length := by
    rw [putRows_length hfirst, List.length_take, List.length_map, List.length_range', List.length_replicate]
    omega
  refine ⟨_, rfl, rfl, rfl, fun row hrow column hcolumn => ?_, fun i hi => positions_get (by omega), fun c hc => ?_,
    fun j hj => ?_⟩
  · by_cases hlive : contextRows ≤ column ∧ column < contextRows + blockRows
    · rw [Mask.put_inside ⟨Nat.zero_le _, hrow⟩ hlive, hvalue _ (by simp only; omega) _ (by omega)]
      refine admitWhere_congr ⟨fun h' => Or.inr ⟨hlive.1, hlive.2, h'⟩, ?_⟩
      rintro (⟨hlt, -⟩ | ⟨-, -, h'⟩)
      · omega
      · exact h'
    · rw [Mask.put_outside fun h' => hlive h'.2]
      by_cases hold : column < historyRows
      · rw [Mask.put_inside ⟨Nat.zero_le _, hrow⟩ ⟨Nat.zero_le _, hold⟩]
        refine (hvalue _ hrow _ (by simp only; omega)).trans (admitWhere_congr ⟨fun h' => Or.inl ⟨hold, h'⟩, ?_⟩)
        rintro (⟨-, h'⟩ | ⟨hlo, hhi, -⟩)
        · exact h'
        · exact absurd ⟨hlo, hhi⟩ hlive
      · rw [Mask.put_outside fun h' => hold h'.2.2]
        refine (admitWhere_false ?_).symm
        rintro (⟨hlt, -⟩ | ⟨hlo, hhi, -⟩)
        · exact hold hlt
        · exact hlive ⟨hlo, hhi⟩
  · refine (putRows_before hsecond (by omega)).trans ?_
    have hget := putRows_inside hfirst (j := c) (by rw [List.length_map, List.length_range']; exact hc)
    rw [Nat.zero_add] at hget
    exact hget.trans (positions_get hc)
  · refine (putRows_inside hsecond ?_).trans ?_
    · rw [List.length_take, List.length_map, List.length_range']
      omega
    · rw [List.getElem?_take_of_lt hj, positions_get (by omega)]

/-- `proposal_inputs` admits what it returns inputs for. -/
theorem proposalInputs_ok {inputs : ProposalInputs}
    (h : proposalInputs seed position historyRows blockRows contextRows = .ok inputs) :
    Bucketed seed position historyRows blockRows contextRows := by
  unfold proposalInputs at h
  obtain ⟨_, hadmitted, -⟩ := bind_ok h
  rw [raiseIf_ok] at hadmitted
  simp only [not_or, not_not] at hadmitted
  obtain ⟨hseed, hposition, hhistory, hblock, hcontext, hroom⟩ := hadmitted
  exact ⟨hseed, hposition, hhistory, hblock, hcontext, Nat.not_lt.mp hroom⟩

/-- **A row in a bucket sees what its user alone sees.** -/
theorem bucket_sees_iff {user : User} {inputs : ProposalInputs}
    (hinputs : proposalInputs seed user.position user.historyRows blockRows contextRows = .ok inputs) {i : Nat}
    (hi : i < blockRows) {source : Source} {found : Option (Option Nat)} :
    BucketSees inputs contextRows i source found ↔
      ∃ c, Allowed user.historyRows blockRows 2048 (user.historyRows + i) c ∧ source = sourceAt user.historyRows c ∧
        found = some (some (user.position - user.historyRows + c)) := by
  have hbucket := proposalInputs_ok hinputs
  obtain ⟨made, hmade, hrows, hkeys, hvalue, -, hpast, hown⟩ := proposalInputs_spec hbucket
  cases hmade.symm.trans hinputs
  obtain ⟨-, -, hhistory, hblock, -, hroom⟩ := hbucket
  have hwide : ∀ rows ∈ [8, 16, 32], rows ≤ 32 := by decide
  have hwide := hwide _ hblock
  have hsees : ∀ key, Sees user.historyRows blockRows i key ↔
      Allowed user.historyRows blockRows 2048 (user.historyRows + i) key := fun key => by
    refine ⟨?_, fun h => Or.inl ⟨hi, h⟩⟩
    rintro (⟨-, h⟩ | ⟨h, -⟩)
    · exact h
    · omega
  unfold BucketSees Mask.Visible
  rw [hrows, hkeys]
  constructor
  · rintro ⟨column, ⟨hrow, hcolumn, hzero⟩, rfl, rfl⟩
    rw [hvalue i hrow column hcolumn, admitWhere_zero, hsees, hsees] at hzero
    rcases hzero with ⟨hlt, hallowed⟩ | ⟨hlo, hhi, hallowed⟩
    · refine ⟨column, hallowed, ?_, hpast column hlt⟩
      unfold sourceAt
      rw [if_pos (by omega), if_pos hlt]
    · refine ⟨user.historyRows + (column - contextRows), hallowed, ?_, ?_⟩
      · unfold sourceAt
        rw [if_neg (by omega), if_neg (by omega), Nat.add_sub_cancel_left]
      · have hget := hown (column - contextRows) (by omega)
        rw [show contextRows + (column - contextRows) = column by omega] at hget
        rw [hget, show user.position - user.historyRows + (user.historyRows + (column - contextRows)) =
          user.position + (column - contextRows) by omega]
  · rintro ⟨c, hallowed, rfl, rfl⟩
    by_cases hlt : c < user.historyRows
    · refine ⟨c, ⟨by omega, by omega, ?_⟩, ?_, (hpast c hlt).symm⟩
      · rw [hvalue i (by omega) c (by omega), admitWhere_zero, hsees]
        exact Or.inl ⟨hlt, hallowed⟩
      · unfold sourceAt
        rw [if_pos hlt, if_pos (by omega)]
    · have hc : c < user.historyRows + blockRows := by
        unfold Allowed at hallowed
        omega
      refine ⟨contextRows + (c - user.historyRows), ⟨by omega, by omega, ?_⟩, ?_, ?_⟩
      · rw [hvalue i (by omega) _ (by omega), admitWhere_zero, hsees, hsees, Nat.add_sub_cancel_left,
          show user.historyRows + (c - user.historyRows) = c by omega]
        exact Or.inr ⟨by omega, by omega, hallowed⟩
      · unfold sourceAt
        rw [if_neg hlt, if_neg (by omega), Nat.add_sub_cancel_left]
      · rw [hown _ (by omega), show user.position - user.historyRows + c =
          user.position + (c - user.historyRows) by omega]

/-- The rows of a bucket are live or see one key. -/
theorem bucket_seen {inputs : ProposalInputs}
    (hinputs : proposalInputs seed position historyRows blockRows contextRows = .ok inputs) :
    (∀ row < blockRows, inputs.mask.seen row ≠ []) ∧
      ∀ row, blockRows ≤ row → row < 32 → (inputs.mask.seen row).length = 1 := by
  have hbucket := proposalInputs_ok hinputs
  obtain ⟨made, hmade, hrows, hkeys, hvalue, -⟩ := proposalInputs_spec hbucket
  cases hmade.symm.trans hinputs
  obtain ⟨-, -, hhistory, hblock, -, hroom⟩ := hbucket
  have hwide : ∀ rows ∈ [8, 16, 32], 1 ≤ rows ∧ rows ≤ 32 := by decide
  have hwide := hwide _ hblock
  constructor
  · intro row hrow
    refine List.ne_nil_of_mem (a := contextRows) (mem_seen.mpr ⟨by omega, by omega, ?_⟩)
    rw [hvalue row (by omega) contextRows (by omega), admitWhere_zero]
    refine Or.inr ⟨Nat.le_refl _, by omega, Or.inl ⟨hrow, Or.inr ⟨by omega, by omega⟩⟩⟩
  · intro row hpadded hrow
    refine congrArg List.length (seen_singleton (a := contextRows) fun key => ?_)
    unfold Mask.Visible
    constructor
    · rintro ⟨-, hkey, hzero⟩
      rw [hvalue row hrow key (by omega), admitWhere_zero] at hzero
      unfold Sees at hzero
      omega
    · rintro rfl
      refine ⟨by omega, by omega, ?_⟩
      rw [hvalue row hrow key (by omega), admitWhere_zero]
      exact Or.inr ⟨Nat.le_refl _, by omega, Or.inr ⟨hpadded, by omega⟩⟩

end Bucket

/-! ## The layouts -/

/-- The last span has room for the padded rows, or there are none. -/
def LiveRoom (blockRows : Nat) (spans : List Span) : Prop :=
  spans.length * blockRows = 32 ∨
    ∃ last, spans.getLast? = some last ∧ last.context + blockRows + (32 - spans.length * blockRows) ≤ last.span

/-- Every position of a pack is in the bounds of the tables. -/
def Bounded (users : List User) (blockRows : Nat) (spans : List Span) : Prop :=
  (∀ p ∈ users.zip spans, InRange blockRows p) ∧ (users.length * blockRows < 32 →
    (users.getLast?.map User.position).getD 0 + blockRows + (32 - users.length * blockRows) ≤ 262144)

/-- A pack agrees with its users alone: each live row has its user's position and sees what its user alone sees, and the
live key rows have the positions of their keys. -/
structure PackAgrees (users : List User) (blockRows keyMultiple : Nat) (mask : Mask) (axis : List KeyRow)
    (rope : Rope) : Prop where
  builds : liveKeyRopeFrom rope.k users blockRows keyMultiple = liveKeyRope users blockRows keyMultiple
  query : ∀ u user, users[u]? = some user →
    ∀ i < blockRows, rope.q[u * blockRows + i]? = some (some (user.position + i))
  sees : ∀ u user, users[u]? = some user → ∀ i < blockRows, ∀ multiple alone,
    draftAttentionMask user.historyRows blockRows multiple = .ok alone → ∀ key position,
      PackedSees mask axis rope.k (u * blockRows + i) key position ↔
        ∃ source p, key = some (source.packed blockRows u) ∧ position = some (some p) ∧ AloneSees alone user i source p
  live : ∀ rows, liveKeyRope users blockRows keyMultiple = .ok rows → ∀ u user, users[u]? = some user → ∀ i < blockRows,
    ∀ row position, PackedSees mask axis rope.k (u * blockRows + i) (some (.live row)) position → rows[row]? = position

/-- A bucket agrees with its user alone. -/
structure BucketAgrees (user : User) (blockRows contextRows : Nat) (inputs : ProposalInputs) : Prop where
  query : ∀ i < blockRows, inputs.rope.q[i]? = some (some (user.position + i))
  sees : ∀ i < blockRows, ∀ multiple alone, draftAttentionMask user.historyRows blockRows multiple = .ok alone →
    ∀ source position, BucketSees inputs contextRows i source position ↔
      ∃ p, position = some (some p) ∧ AloneSees alone user i source p
  seen : ∀ i < blockRows, inputs.mask.seen i ≠ []
  padded : ∀ row, blockRows ≤ row → row < 32 → (inputs.mask.seen row).length = 1

section Layouts

variable {users : List User} {blockRows keyMultiple : Nat} {spans : List Span} {keyRows : Nat}

theorem packAgrees (h : PackedUsers users blockRows keyMultiple spans keyRows) {mask : Mask}
    (hmask : batchedAttentionMask (users.map User.historyRows) blockRows keyMultiple = .ok mask) {rope : Rope}
    (hrope : packedRopeTables users blockRows keyMultiple = .ok rope) :
    PackAgrees users blockRows keyMultiple mask (spans.flatMap (spanAxis blockRows)) rope := by
  obtain ⟨hlive, hfrom⟩ := h.liveKeyRope_eq hrope
  obtain ⟨-, rfl⟩ := h.packedRopeTables_ok.mp hrope
  refine ⟨hfrom.trans hlive.symm, ?_, ?_, ?_⟩
  · intro u user hu i hi
    obtain ⟨s, -, hzip, -, rfl, -⟩ := h.zip_get hu
    exact h.query_get hzip hi _
  · intro u user hu i hi multiple alone halone key position
    have hmultiple := draftAttentionMask_multiple halone
    rw [packed_sees_iff h hmask hu hi]
    constructor
    · rintro ⟨c, hallowed, hkey, hposition⟩
      exact ⟨_, _, hkey, hposition, (alone_sees_iff (h.valid user (List.mem_of_getElem? hu)) h.packs.block hmultiple
        halone hi).mpr ⟨c, hallowed, rfl, rfl⟩⟩
    · rintro ⟨source, p, rfl, rfl, hsees⟩
      obtain ⟨c, hallowed, rfl, rfl⟩ := (alone_sees_iff (h.valid user (List.mem_of_getElem? hu)) h.packs.block hmultiple
        halone hi).mp hsees
      exact ⟨c, hallowed, rfl, rfl⟩
  · intro rows hrows u user hu i hi row position hsees
    obtain ⟨c, hallowed, hkey, rfl⟩ := (packed_sees_iff h hmask hu hi).mp hsees
    obtain ⟨s, -, hzip, hs, rfl, hcontext⟩ := h.zip_get hu
    have hroom := h.packs.room hs
    unfold sourceAt at hkey
    split at hkey
    · cases hkey
    · rename_i hown
      have hc : c < user.historyRows + blockRows := by
        unfold Allowed at hallowed
        omega
      rw [Option.some.injEq, Source.packed, KeyRow.live.injEq] at hkey
      subst hkey
      rw [hlive] at hrows
      rw [h.liveRows_get h.key_length hrows hs (by omega), hcontext,
        show user.historyRows + (c - user.historyRows) = c by omega, h.key_get hzip (by simp only; omega)]

theorem bucketAgrees {user : User} (hvalid : user.Valid) {seed contextRows : Nat} {inputs : ProposalInputs}
    (hinputs : proposalInputs seed user.position user.historyRows blockRows contextRows = .ok inputs) :
    BucketAgrees user blockRows contextRows inputs := by
  have hblocks : ∀ rows ∈ [8, 16, 32], rows ∈ [1, 8, 16, 32] := by decide
  have hblock := hblocks _ (proposalInputs_ok hinputs).block
  obtain ⟨hseen, hpadded⟩ := bucket_seen hinputs
  refine ⟨fun i hi => ?_, fun i hi multiple alone halone source position => ?_, hseen, hpadded⟩
  · obtain ⟨made, hmade, -, -, -, hquery, -⟩ := proposalInputs_spec (proposalInputs_ok hinputs)
    cases hmade.symm.trans hinputs
    exact hquery i hi
  · have hmultiple := draftAttentionMask_multiple halone
    rw [bucket_sees_iff hinputs hi]
    constructor
    · rintro ⟨c, hallowed, hsource, hposition⟩
      exact ⟨_, hposition, (alone_sees_iff hvalid hblock hmultiple halone hi).mpr ⟨c, hallowed, hsource, rfl⟩⟩
    · rintro ⟨p, rfl, hsees⟩
      obtain ⟨c, hallowed, hsource, rfl⟩ := (alone_sees_iff hvalid hblock hmultiple halone hi).mp hsees
      exact ⟨c, hallowed, hsource, rfl⟩

/-- The tables of a pack in the bounds, and its live key rows where the block has them. -/
theorem tables_total (h : PackedUsers users blockRows keyMultiple spans keyRows)
    (hbounded : Bounded users blockRows spans) :
    ∃ rope, packedRopeTables users blockRows keyMultiple = .ok rope ∧
      (LiveRoom blockRows spans → ∃ live, liveKeyRope users blockRows keyMultiple = .ok live) := by
  have hrope := h.packedRopeTables_ok.mpr ⟨hbounded, rfl⟩
  refine ⟨_, hrope, fun hroom => ?_⟩
  rw [(h.liveKeyRope_eq hrope).1]
  unfold LiveRoom at hroom
  rw [h.length] at hroom
  exact h.liveRows_total h.key_length hroom

/-- **Main result.** Every draft layout attends as the user alone. -/
theorem draft_layouts_agree (users : List User) (blockRows keyMultiple : Nat) (spans : List Span) (keyRows : Nat)
    (hvalid : ∀ user ∈ users, user.Valid)
    (hsegments : segments (users.map User.historyRows) blockRows keyMultiple = .ok (spans, keyRows)) :
    (∃ mask plan, batchedAttentionMask (users.map User.historyRows) blockRows keyMultiple = .ok mask ∧
      keyValuePlan (users.map User.historyRows) blockRows keyMultiple = .ok (plan, spans, keyRows) ∧
      (∀ rope, packedRopeTables users blockRows keyMultiple = .ok rope →
        PackAgrees users blockRows keyMultiple mask (assemble plan) rope) ∧
      (∀ row < users.length * blockRows, mask.seen row ≠ []) ∧
      (∀ row, users.length * blockRows ≤ row → row < 32 → (mask.seen row).length = 1) ∧
      (keyMultiple = 32 → validateBatchedMask mask (users.map User.historyRows) blockRows = .ok (spans, keyRows))) ∧
    (Bounded users blockRows spans → ∃ rope, packedRopeTables users blockRows keyMultiple = .ok rope ∧
      (LiveRoom blockRows spans → ∃ live, liveKeyRope users blockRows keyMultiple = .ok live)) ∧
    ∀ user ∈ users, (∃ alone, draftAttentionMask user.historyRows blockRows 32 = .ok alone) ∧ ∀ seed contextRows,
      (∀ inputs, proposalInputs seed user.position user.historyRows blockRows contextRows = .ok inputs →
        BucketAgrees user blockRows contextRows inputs) ∧
      (seed < 248320 → user.position ≤ 262112 → blockRows ≠ 1 → contextRows ∈ [256, 512, 1024, 2048] →
        user.historyRows ≤ contextRows →
        ∃ inputs, proposalInputs seed user.position user.historyRows blockRows contextRows = .ok inputs) := by
  have h : PackedUsers users blockRows keyMultiple spans keyRows := ⟨hvalid, segments_ok.mp hsegments⟩
  obtain ⟨mask, hmask, -⟩ := batchedAttentionMask_spec h.packs
  obtain ⟨plan, hplan, haxis⟩ := keyValuePlan_spec h.packs
  have hlength : (users.map User.historyRows).length = users.length := List.length_map _
  refine ⟨⟨mask, plan, hmask, hplan, fun rope hrope => ?_, fun row hrow => ?_, fun row hpadded hrow => ?_, ?_⟩,
    tables_total h, fun user huser => ⟨?_, fun seed contextRows =>
      ⟨fun inputs => bucketAgrees (hvalid user huser), ?_⟩⟩⟩
  · rw [haxis]
    exact packAgrees h hmask hrope
  · obtain ⟨s, hs, hlo, hhi⟩ := h.packs.owner (hlength.symm ▸ hrow)
    exact (packed_live_seen h.packs hmask hs hlo hhi).1
  · exact packed_padded_seen h.packs hmask hrow (hlength.symm ▸ hpadded)
  · rintro rfl
    exact validateBatchedMask_ok h.packs hmask
  · have hcontext : user.historyRows ≤ 262144 := Nat.le_trans (hvalid user huser).2.1 (by decide)
    obtain ⟨alone, halone, -⟩ := draftAttentionMask_spec hcontext h.packs.block (show 32 ∈ [32, 128] by decide)
    exact ⟨alone, halone⟩
  · intro hseed hposition hblock hcontext hroom
    obtain ⟨hlo, hhi, hle⟩ := hvalid user huser
    have hwide : ∀ rows ∈ [1, 8, 16, 32], rows ≠ 1 → rows ∈ [8, 16, 32] := by decide
    have hbucket : Bucketed seed user.position user.historyRows blockRows contextRows :=
      ⟨hseed, ⟨by omega, hposition⟩, ⟨hlo, by omega⟩, hwide _ h.packs.block hblock, hcontext, hroom⟩
    obtain ⟨inputs, hinputs, -⟩ := proposalInputs_spec hbucket
    exact ⟨inputs, hinputs⟩

end Layouts

/-- Two users, of histories 2048 and 700, in one block. -/
theorem draft_layouts_agree_sample :
    ∃ mask rope live, batchedAttentionMask [2048, 700] 16 32 = .ok mask ∧
      packedRopeTables [⟨5000, 2048⟩, ⟨777, 700⟩] 16 32 = .ok rope ∧
      liveKeyRope [⟨5000, 2048⟩, ⟨777, 700⟩] 16 32 = .ok live ∧
      validateBatchedMask mask [2048, 700] 16 = .ok ([⟨0, 2048, 0, 2080⟩, ⟨1, 700, 2080, 736⟩], 2816) := by
  obtain ⟨⟨mask, _, hmask, -, -, -, -, hvalidate⟩, htables, -⟩ := draft_layouts_agree [⟨5000, 2048⟩, ⟨777, 700⟩] 16 32
    [⟨0, 2048, 0, 2080⟩, ⟨1, 700, 2080, 736⟩] 2816 (by decide) rfl
  obtain ⟨rope, hrope, hlive⟩ := htables ⟨by decide, by decide⟩
  obtain ⟨live, hlive⟩ := hlive (Or.inl rfl)
  exact ⟨mask, rope, live, hmask, hrope, hlive, hvalidate rfl⟩

/-- Packs that `segments` admits and a layout refuses: a bucket at block width 1, positions past the tables' bound, and
the live key rows of a history whose span ends soon after its block. -/
theorem refused_layouts :
    (segments [10] 1 32 = .ok ([⟨0, 10, 0, 32⟩], 32) ∧ proposalInputs 0 20 10 1 256 =
      .error (.valueError "Committed history, anchor and explicit fixed draft bucket required")) ∧
    (segments [10] 16 32 = .ok ([⟨0, 10, 0, 32⟩], 32) ∧ packedRopeTables [⟨262140, 10⟩] 16 32 =
      .error (.valueError "Bounded absolute RoPE positions required")) ∧
    liveKeyRope [⟨20, 10⟩] 16 32 =
      .error (.assertionError "The live key RoPE must cover the whole 32-row proposal block") :=
  ⟨⟨rfl, rfl⟩, ⟨rfl, rfl⟩, rfl⟩

end BlackholeQwen.Dflash
