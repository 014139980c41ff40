import BlackholeQwen.Dflash.DraftMask

/-!
# The parts of a packed draft

`Packs` is what `segments` returns: spans end to end on the key axis, and blocks end to end on the rows. From it, what
each part of the pack is at a user's own rows and keys:

- `draftAttentionMask_spec`: the mask of a user alone, by the rule `Sees`.
- `batchedAttentionMask_spec`: the packed mask, by the same rule inside each span.
- `keyValuePlan_spec`, `axis_get`: the key axis that the plan assembles.
- `packedRopeTables_ok`, `liveRows_get`, `liveKeyRope_eq`: the tables of the pack, and its live key rows.
-/

namespace BlackholeQwen.Dflash

open Lib

/-! ## The rule of one row -/

/-- A row of a user's block sees a key of its span: a live one by the rule, a padded one the anchor. -/
def Sees (context blockRows row key : Nat) : Prop :=
  row < blockRows ∧ Allowed context blockRows 2048 (context + row) key ∨ blockRows ≤ row ∧ key = context

instance (context blockRows row key : Nat) : Decidable (Sees context blockRows row key) := by
  unfold Sees; infer_instance

@[simp] theorem admitWhere_zero {p : Prop} [Decidable p] : admitWhere p = .zero ↔ p := by
  unfold admitWhere
  split <;> simp_all

theorem admitWhere_ne_other {p : Prop} [Decidable p] : admitWhere p ≠ .other := by
  unfold admitWhere
  split <;> simp

theorem admitWhere_congr {p q : Prop} [Decidable p] [Decidable q] (h : p ↔ q) : admitWhere p = admitWhere q := by
  unfold admitWhere
  exact if_congr h rfl rfl

theorem admitWhere_true {p : Prop} [Decidable p] (h : p) : admitWhere p = .zero := admitWhere_zero.mpr h

theorem admitWhere_false {p : Prop} [Decidable p] (h : ¬p) : admitWhere p = .negInf := if_neg h

@[simp] theorem Mask.full_rows (rows keys : Nat) : (Mask.full rows keys).rows = rows := rfl
@[simp] theorem Mask.full_keys (rows keys : Nat) : (Mask.full rows keys).keys = keys := rfl
@[simp] theorem Mask.put_rows (m : Mask) (rows keys : Nat × Nat) (f : Nat → Nat → MaskValue) :
    (m.put rows keys f).rows = m.rows := rfl
@[simp] theorem Mask.put_keys (m : Mask) (rows keys : Nat × Nat) (f : Nat → Nat → MaskValue) :
    (m.put rows keys f).keys = m.keys := rfl

/-- A value inside an assigned slice. -/
theorem Mask.put_inside {m : Mask} {rows keys : Nat × Nat} {f : Nat → Nat → MaskValue} {row key : Nat}
    (hrow : rows.1 ≤ row ∧ row < rows.2) (hkey : keys.1 ≤ key ∧ key < keys.2) :
    (m.put rows keys f).value row key = f (row - rows.1) (key - keys.1) := if_pos ⟨hrow.1, hrow.2, hkey⟩

/-- A value outside an assigned slice. -/
theorem Mask.put_outside {m : Mask} {rows keys : Nat × Nat} {f : Nat → Nat → MaskValue} {row key : Nat}
    (h : ¬((rows.1 ≤ row ∧ row < rows.2) ∧ keys.1 ≤ key ∧ key < keys.2)) :
    (m.put rows keys f).value row key = m.value row key := if_neg fun h' => h ⟨⟨h'.1, h'.2.1⟩, h'.2.2⟩

section Aligned

variable {context blockRows keyMultiple : Nat}

/-- A span has room for its history and its block. -/
theorem le_alignedRows (hmultiple : keyMultiple ∈ [32, 128]) :
    context + blockRows ≤ alignedRows context blockRows keyMultiple := by
  unfold alignedRows
  simp only [List.mem_cons, List.not_mem_nil, or_false] at hmultiple
  rcases hmultiple with rfl | rfl <;> omega

/-- Spans of the wider block are no shorter. -/
theorem alignedRows_mono {wide : Nat} (hwide : blockRows ≤ wide) :
    alignedRows context blockRows keyMultiple ≤ alignedRows context wide keyMultiple :=
  Nat.mul_le_mul_right _ (Nat.div_le_div_right (by omega))

theorem alignedRows_mod : alignedRows context blockRows 32 % 32 = 0 := Nat.mul_mod_left _ _

end Aligned

/-! ## A user alone -/

section Alone

variable {context blockRows keyMultiple : Nat}

/-- The shared mask. -/
theorem originalMask_spec (hcontext : context ≤ 262144) (hblock : blockRows ∈ [1, 8, 32])
    (hmultiple : keyMultiple ∈ [32, 128]) :
    ∃ m, originalMask context blockRows keyMultiple = .ok m ∧ m.rows = 32 ∧
      m.keys = alignedRows context blockRows keyMultiple ∧
      ∀ row < 32, ∀ key < m.keys, m.value row key = admitWhere (Sees context blockRows row key) := by
  unfold originalMask
  rw [raiseIf_bind (by rintro (h | h | h) <;> [omega; exact h hblock; exact h hmultiple])]
  refine ⟨_, rfl, rfl, rfl, fun row hrow key hkey => ?_⟩
  rw [Mask.put_keys, Mask.put_keys, Mask.full_keys] at hkey
  by_cases hlive : row < blockRows
  · rw [Mask.put_outside (by simp only; omega), Mask.put_inside ⟨Nat.zero_le _, hlive⟩ ⟨Nat.zero_le _, hkey⟩]
    refine admitWhere_congr ⟨fun h => Or.inl ⟨hlive, h⟩, fun h => ?_⟩
    rcases h with ⟨-, h⟩ | ⟨h, -⟩
    · exact h
    · omega
  · by_cases hanchor : key = context
    · rw [Mask.put_inside ⟨by simp only; omega, hrow⟩ ⟨by simp only; omega, by simp only; omega⟩]
      exact (admitWhere_true (Or.inr ⟨by omega, hanchor⟩)).symm
    · rw [Mask.put_outside (by simp only; omega), Mask.put_outside (by simp only; omega)]
      refine (admitWhere_false ?_).symm
      rintro (⟨h, -⟩ | ⟨-, h⟩)
      · exact hlive h
      · exact hanchor h

/-- **The mask of a user alone**, at every block width. -/
theorem draftAttentionMask_spec (hcontext : context ≤ 262144) (hblock : blockRows ∈ [1, 8, 16, 32])
    (hmultiple : keyMultiple ∈ [32, 128]) :
    ∃ m, draftAttentionMask context blockRows keyMultiple = .ok m ∧ m.rows = 32 ∧
      m.keys = alignedRows context blockRows keyMultiple ∧
      ∀ row < 32, ∀ key < m.keys, m.value row key = admitWhere (Sees context blockRows row key) := by
  unfold draftAttentionMask
  by_cases h16 : blockRows = 16
  · subst h16
    obtain ⟨m, hm, hrows, hkeys, hvalue⟩ := originalMask_spec hcontext (show 32 ∈ [1, 8, 32] by decide) hmultiple
    rw [if_neg (by decide), hm]
    have hwide : alignedRows context 16 keyMultiple ≤ m.keys := by
      rw [hkeys]
      exact alignedRows_mono (by decide)
    refine ⟨_, rfl, hrows, Nat.min_eq_left hwide, fun row hrow key hkey => ?_⟩
    have hkey : key < alignedRows context 16 keyMultiple := Nat.lt_of_lt_of_le hkey (Nat.min_le_left _ _)
    by_cases hlive : row < 16
    · rw [Mask.put_outside (by simp only; omega), Mask.put_outside (by simp only; omega)]
      by_cases hpast : context + 16 ≤ key
      · rw [Mask.put_inside ⟨Nat.zero_le _, hlive⟩ ⟨hpast, hkey⟩]
        refine (admitWhere_false ?_).symm
        unfold Sees Allowed
        omega
      · rw [Mask.put_outside (by simp only; omega)]
        refine (hvalue row hrow key (by omega)).trans (admitWhere_congr ?_)
        unfold Sees Allowed
        omega
    · by_cases hanchor : key = context
      · rw [Mask.put_inside ⟨by simp only; omega, hrow⟩ ⟨by simp only; omega, by simp only; omega⟩]
        exact (admitWhere_true (Or.inr ⟨by omega, hanchor⟩)).symm
      · rw [Mask.put_outside (by simp only; omega), Mask.put_inside ⟨by simp only; omega, hrow⟩ ⟨Nat.zero_le _, hkey⟩]
        refine (admitWhere_false ?_).symm
        unfold Sees
        omega
  · rw [if_pos h16]
    refine originalMask_spec hcontext ?_ hmultiple
    simp only [List.mem_cons, List.not_mem_nil, or_false] at hblock ⊢
    omega

/-- The key multiples of a mask that exists. -/
theorem draftAttentionMask_multiple {m : Mask} (h : draftAttentionMask context blockRows keyMultiple = .ok m) :
    keyMultiple ∈ [32, 128] := by
  have horiginal : ∀ {rows : Nat} {m : Mask}, originalMask context rows keyMultiple = .ok m →
    keyMultiple ∈ [32, 128] := by
    intro rows m h
    unfold originalMask at h
    obtain ⟨_, hbounds, -⟩ := bind_ok h
    rw [raiseIf_ok, not_or, not_or, not_not, not_not] at hbounds
    exact hbounds.2.2
  unfold draftAttentionMask at h
  split at h
  · exact horiginal h
  · obtain ⟨_, hshared, -⟩ := bind_ok h
    exact horiginal hshared

end Alone

/-! ## The spans -/

section Spans

variable {blockRows keyMultiple : Nat}

/-- The spans lie end to end on the key axis. -/
theorem spansFrom_keys (hblock : 0 < blockRows) (hmultiple : keyMultiple ∈ [32, 128]) (contexts : List Nat)
    (index offset : Nat) : Spans Span.offset Span.span offset (spansFrom blockRows keyMultiple index offset contexts).1
      (spansFrom blockRows keyMultiple index offset contexts).2 := by
  induction contexts generalizing index offset with
  | nil => exact .nil offset
  | cons context contexts ih =>
    have hroom := @le_alignedRows context blockRows keyMultiple hmultiple
    exact .cons rfl (by simp only; omega) (ih _ _)

/-- Their blocks lie end to end on the rows. -/
theorem spansFrom_rows (hblock : 0 < blockRows) (contexts : List Nat) (index offset : Nat) :
    Spans (fun s : Span => s.user * blockRows) (fun _ => blockRows) (index * blockRows)
      (spansFrom blockRows keyMultiple index offset contexts).1 ((index + contexts.length) * blockRows) := by
  induction contexts generalizing index offset with
  | nil => exact .nil _
  | cons context contexts ih =>
    refine .cons rfl hblock ?_
    have h := ih (index + 1) (offset + alignedRows context blockRows keyMultiple)
    rw [Nat.add_mul, Nat.one_mul] at h
    rw [List.length_cons, show index + (contexts.length + 1) = index + 1 + contexts.length by omega]
    exact h

theorem spansFrom_length (contexts : List Nat) (index offset : Nat) :
    (spansFrom blockRows keyMultiple index offset contexts).1.length = contexts.length := by
  induction contexts generalizing index offset with
  | nil => rfl
  | cons context contexts ih => exact congrArg (· + 1) (ih _ _)

/-- The span of a user. -/
theorem spansFrom_get {contexts : List Nat} {index offset u : Nat} {s : Span}
    (h : (spansFrom blockRows keyMultiple index offset contexts).1[u]? = some s) :
    s.user = index + u ∧ contexts[u]? = some s.context ∧ s.span = alignedRows s.context blockRows keyMultiple := by
  induction contexts generalizing index offset u with
  | nil => simp [spansFrom] at h
  | cons context contexts ih =>
    cases u with
    | zero =>
      rw [spansFrom, List.getElem?_cons_zero, Option.some.injEq] at h
      subst h
      exact ⟨rfl, rfl, rfl⟩
    | succ u =>
      rw [spansFrom, List.getElem?_cons_succ] at h
      obtain ⟨huser, hcontext, hspan⟩ := ih h
      exact ⟨by omega, hcontext, hspan⟩

/-- What `segments` returns. -/
structure Packs (contexts : List Nat) (blockRows keyMultiple : Nat) (spans : List Span) (keyRows : Nat) : Prop where
  block : blockRows ∈ [1, 8, 16, 32]
  multiple : keyMultiple ∈ [32, 128]
  nonempty : contexts ≠ []
  used : contexts.length * blockRows ≤ 32
  bounded : ∀ context ∈ contexts, context ≤ 262144
  from_zero : spansFrom blockRows keyMultiple 0 0 contexts = (spans, keyRows)

theorem segments_ok {contexts : List Nat} {spans : List Span} {keyRows : Nat} :
    segments contexts blockRows keyMultiple = .ok (spans, keyRows) ↔
      Packs contexts blockRows keyMultiple spans keyRows := by
  unfold segments
  constructor
  · intro h
    obtain ⟨_, hgeometry, h⟩ := bind_ok h
    obtain ⟨_, husers, h⟩ := bind_ok h
    rw [raiseIf_ok, not_or, not_not, not_not] at hgeometry
    rw [raiseIf_ok, not_or, not_or] at husers
    refine ⟨hgeometry.1, hgeometry.2, husers.1, Nat.not_lt.mp husers.2.1, fun context hcontext => ?_, Except.ok.inj h⟩
    exact Nat.not_lt.mp fun hlt => husers.2.2 ⟨context, hcontext, hlt⟩
  · intro h
    rw [raiseIf_bind (not_or.mpr ⟨not_not.mpr h.block, not_not.mpr h.multiple⟩), raiseIf_bind, h.from_zero]
    · rfl
    · rintro (hnil | hused | ⟨context, hcontext, hlt⟩)
      · exact h.nonempty hnil
      · exact absurd h.used (Nat.not_le.mpr hused)
      · exact absurd (h.bounded context hcontext) (Nat.not_le.mpr hlt)

namespace Packs

variable {contexts : List Nat} {spans : List Span} {keyRows : Nat}

theorem pos (h : Packs contexts blockRows keyMultiple spans keyRows) : 0 < blockRows :=
  (by decide : ∀ rows ∈ [1, 8, 16, 32], 0 < rows) _ h.block

theorem length (h : Packs contexts blockRows keyMultiple spans keyRows) : spans.length = contexts.length := by
  have hlength := @spansFrom_length blockRows keyMultiple contexts 0 0
  rwa [h.from_zero] at hlength

theorem keys (h : Packs contexts blockRows keyMultiple spans keyRows) :
    Spans Span.offset Span.span 0 spans keyRows := by
  have hkeys := spansFrom_keys h.pos h.multiple contexts 0 0
  rwa [h.from_zero] at hkeys

theorem rows (h : Packs contexts blockRows keyMultiple spans keyRows) :
    Spans (fun s : Span => s.user * blockRows) (fun _ => blockRows) 0 spans (contexts.length * blockRows) := by
  have hrows := @spansFrom_rows blockRows keyMultiple h.pos contexts 0 0
  rwa [h.from_zero, Nat.zero_mul, Nat.zero_add] at hrows

theorem get (h : Packs contexts blockRows keyMultiple spans keyRows) {u : Nat} {s : Span} (hs : spans[u]? = some s) :
    s.user = u ∧ contexts[u]? = some s.context ∧ s.span = alignedRows s.context blockRows keyMultiple := by
  have hget := @spansFrom_get blockRows keyMultiple contexts 0 0 u s
  rw [h.from_zero, Nat.zero_add] at hget
  exact hget hs

/-- A span has room for its history and its block. -/
theorem room (h : Packs contexts blockRows keyMultiple spans keyRows) {s : Span} (hs : s ∈ spans) :
    s.context + blockRows ≤ s.span := by
  obtain ⟨u, hu⟩ := List.getElem?_of_mem hs
  rw [(h.get hu).2.2]
  exact le_alignedRows h.multiple

end Packs

end Spans

/-! ## The packed mask -/

section Packed

variable {blockRows keyMultiple : Nat} {contexts : List Nat} {spans : List Span} {keyRows : Nat}

@[simp] theorem foldl_putSpan_rows (spans : List Span) (m : Mask) :
    (spans.foldl (putSpan blockRows) m).rows = m.rows := by
  induction spans generalizing m with
  | nil => rfl
  | cons s spans ih => exact ih _

@[simp] theorem foldl_putSpan_keys (spans : List Span) (m : Mask) :
    (spans.foldl (putSpan blockRows) m).keys = m.keys := by
  induction spans generalizing m with
  | nil => rfl
  | cons s spans ih => exact ih _

/-- Rows outside the blocks keep their values. -/
theorem foldl_putSpan_outside {lo hi : Nat}
    (h : Spans (fun s : Span => s.user * blockRows) (fun _ => blockRows) lo spans hi)
    (m : Mask) {row key : Nat} (hrow : row < lo ∨ hi ≤ row) :
    (spans.foldl (putSpan blockRows) m).value row key = m.value row key := by
  induction h generalizing m with
  | nil => rfl
  | @cons lo hi s spans hstart hpos h ih =>
    have hle := h.le
    rw [List.foldl_cons, ih _ (by omega)]
    refine Mask.put_outside ?_
    rintro ⟨hin, -⟩
    simp only [Span.rows, Nat.add_mul, Nat.one_mul] at hin
    omega

/-- Rows of a block have the values of its user, inside its span. -/
theorem foldl_putSpan_inside {lo hi : Nat}
    (h : Spans (fun s : Span => s.user * blockRows) (fun _ => blockRows) lo spans hi)
    (m : Mask) {s : Span} (hs : s ∈ spans) {row key : Nat}
    (hrow : s.user * blockRows ≤ row ∧ row < s.user * blockRows + blockRows) :
    (spans.foldl (putSpan blockRows) m).value row key =
      if s.offset ≤ key ∧ key < s.offset + s.span then
        admitWhere (Allowed s.context blockRows 2048 (s.context + (row - s.user * blockRows)) (key - s.offset))
      else m.value row key := by
  induction h generalizing m with
  | nil => cases hs
  | @cons lo hi t spans hstart hpos h ih =>
    rw [List.foldl_cons]
    rcases List.mem_cons.mp hs with rfl | hs
    · rw [foldl_putSpan_outside h _ (Or.inl (by omega))]
      split
      · rename_i hkey
        exact Mask.put_inside ⟨hrow.1, by simp only [Span.rows, Nat.add_mul, Nat.one_mul]; omega⟩ hkey
      · rename_i hkey
        exact Mask.put_outside fun h' => hkey h'.2
    · have hlo := (h.bounds hs).1
      rw [ih _ hs]
      refine if_congr Iff.rfl rfl (Mask.put_outside ?_)
      rintro ⟨hin, -⟩
      simp only [Span.rows, Nat.add_mul, Nat.one_mul] at hin
      omega

/-- The anchor column of the padded rows. -/
theorem Packs.first (h : Packs contexts blockRows keyMultiple spans keyRows) :
    (spans.head?.map Span.context).getD 0 < keyRows := by
  cases hspans : spans with
  | nil =>
    have hlength := h.length
    rw [hspans] at hlength
    exact absurd (List.length_eq_zero_iff.mp hlength.symm) h.nonempty
  | cons s rest =>
    have hmem : s ∈ spans := hspans ▸ List.mem_cons_self
    have hbounds := h.keys.bounds hmem
    have hroom := h.room hmem
    have hpos := h.pos
    simp only [List.head?_cons, Option.map_some, Option.getD_some]
    omega

/-- **The packed mask.** A live row sees its own span by the rule, a padded row the anchor. -/
theorem batchedAttentionMask_spec (h : Packs contexts blockRows keyMultiple spans keyRows) :
    ∃ m, batchedAttentionMask contexts blockRows keyMultiple = .ok m ∧ m.rows = 32 ∧ m.keys = keyRows ∧
      (∀ s ∈ spans, ∀ row, s.user * blockRows ≤ row → row < s.user * blockRows + blockRows → ∀ key < keyRows,
        m.value row key = admitWhere ((s.offset ≤ key ∧ key < s.offset + s.span) ∧
          Allowed s.context blockRows 2048 (s.context + (row - s.user * blockRows)) (key - s.offset))) ∧
      ∀ row < 32, contexts.length * blockRows ≤ row → ∀ key < keyRows,
        m.value row key = admitWhere (key = (spans.head?.map Span.context).getD 0) := by
  unfold batchedAttentionMask
  rw [segments_ok.mpr h]
  refine ⟨_, rfl, ?_, ?_, ?_, ?_⟩
  · split <;> simp
  · split <;> simp
  · intro s hs row hlo hhi key hkey
    have hbounds := h.rows.bounds hs
    have hlive : (if spans.length * blockRows < 32 then
        ((spans.foldl (putSpan blockRows) (Mask.full 32 keyRows)).put (spans.length * blockRows, 32) (0, keyRows)
          fun _ _ => .negInf).put (spans.length * blockRows, 32) ((spans.head?.map Span.context).getD 0,
            (spans.head?.map Span.context).getD 0 + 1) fun _ _ => .zero
        else spans.foldl (putSpan blockRows) (Mask.full 32 keyRows)).value row key =
          (spans.foldl (putSpan blockRows) (Mask.full 32 keyRows)).value row key := by
      rw [h.length]
      split
      · rw [Mask.put_outside (by simp only; omega), Mask.put_outside (by simp only; omega)]
      · rfl
    refine hlive.trans ?_
    rw [foldl_putSpan_inside h.rows _ hs ⟨hlo, hhi⟩]
    split
    · rename_i hin
      exact admitWhere_congr ⟨fun h' => ⟨hin, h'⟩, fun h' => h'.2⟩
    · rename_i hout
      exact (admitWhere_false fun h' => hout h'.1).symm
  · intro row hrow hpadded key hkey
    rw [h.length, if_pos (by omega)]
    by_cases hanchor : key = (spans.head?.map Span.context).getD 0
    · rw [Mask.put_inside ⟨hpadded, hrow⟩ ⟨by simp only; omega, by simp only; omega⟩]
      exact (admitWhere_true hanchor).symm
    · rw [Mask.put_outside (by simp only; omega), Mask.put_inside ⟨hpadded, hrow⟩ ⟨Nat.zero_le _, hkey⟩]
      exact (admitWhere_false hanchor).symm

/-! ## The key axis -/

/-- The rows of a span: its history, its block, and padding. -/
def spanAxis (blockRows : Nat) (s : Span) : List KeyRow :=
  (List.range s.context).map (.cached s.user) ++ (List.range' (s.user * blockRows) blockRows).map .live ++
    List.replicate (s.span - s.context - blockRows) .pad

theorem spanAxis_get {s : Span} {j : Nat} {key : KeyRow} (h : (spanAxis blockRows s)[j]? = some key) :
    (j < s.context → key = .cached s.user j) ∧
      (s.context ≤ j → j < s.context + blockRows → key = .live (s.user * blockRows + (j - s.context))) := by
  unfold spanAxis at h
  constructor
  · intro hj
    rw [List.append_assoc, List.getElem?_append_left (by simpa using hj), List.getElem?_map,
      List.getElem?_range hj] at h
    exact (Option.some.inj h).symm
  · intro hj hlt
    rw [List.append_assoc, List.getElem?_append_right (by simpa using hj), List.getElem?_append_left (by simp; omega),
      List.getElem?_map, List.length_map, List.length_range, List.getElem?_range' (by omega)] at h
    rw [← Option.some.inj h, Nat.one_mul]

/-- **The key axis.** The plan covers the axis span by span. -/
theorem keyValuePlan_spec (h : Packs contexts blockRows keyMultiple spans keyRows) :
    ∃ plan, keyValuePlan contexts blockRows keyMultiple = .ok (plan, spans, keyRows) ∧
      assemble plan = spans.flatMap (spanAxis blockRows) := by
  have hpieces : ∀ s ∈ spans, ∃ pieces, spanPieces blockRows s = .ok pieces := fun s hs => by
    unfold spanPieces
    rw [raiseIf_bind (Nat.not_lt.mpr (h.room hs))]
    exact ⟨_, rfl⟩
  have hspan : ∀ s ∈ spans, ∀ pieces, spanPieces blockRows s = .ok pieces →
      (pieces.map Piece.rows).sum = s.span ∧ pieces.flatMap Piece.assemble = spanAxis blockRows s := by
    intro s hs pieces hok
    have hroom := h.room hs
    unfold spanPieces at hok
    rw [raiseIf_bind (Nat.not_lt.mpr hroom)] at hok
    cases hok
    by_cases hpad : s.span - s.context - blockRows = 0
    · simp only [hpad, if_true]
      refine ⟨by simp [Piece.rows]; omega, ?_⟩
      simp [spanAxis, Piece.assemble, hpad]
    · simp only [hpad, if_false]
      refine ⟨by simp [Piece.rows]; omega, ?_⟩
      simp [spanAxis, Piece.assemble]
  have hall : ∀ {lo hi : Nat} {part : List Span}, Spans Span.offset Span.span lo part hi → (∀ s ∈ part, s ∈ spans) →
      ∃ plan, part.mapM (spanPieces blockRows) = .ok plan ∧ lo + (plan.flatten.map Piece.rows).sum = hi ∧
        plan.flatten.flatMap Piece.assemble = part.flatMap (spanAxis blockRows) := by
    intro lo hi part hpart
    induction hpart with
    | nil lo => exact fun _ => ⟨[], rfl, rfl, rfl⟩
    | @cons lo hi s rest _ _ _ ih =>
      intro hsub
      have hs := hsub s List.mem_cons_self
      obtain ⟨pieces, hok⟩ := hpieces s hs
      obtain ⟨plan, hplan, hsum, haxis⟩ := ih fun t ht => hsub t (List.mem_cons_of_mem _ ht)
      obtain ⟨hrows, hpiece⟩ := hspan s hs pieces hok
      refine ⟨pieces :: plan, ?_, ?_, ?_⟩
      · rw [List.mapM_cons, hok, hplan]
        rfl
      · rw [List.flatten_cons, List.map_append, List.sum_append, hrows, ← Nat.add_assoc]
        exact hsum
      · rw [List.flatten_cons, List.flatMap_append, hpiece, haxis, List.flatMap_cons]
  obtain ⟨plan, hplan, hsum, haxis⟩ := hall h.keys fun s hs => hs
  refine ⟨plan.flatten, ?_, haxis⟩
  unfold keyValuePlan
  rw [segments_ok.mpr h]
  show (spans.mapM (spanPieces blockRows) >>= _) = _
  rw [hplan]
  show (raiseIf _ _ >>= _) = _
  rw [raiseIf_bind (by omega)]
  rfl

/-- A row of the packed key axis. -/
theorem axis_get (h : Packs contexts blockRows keyMultiple spans keyRows) {s : Span} (hs : s ∈ spans) {j : Nat}
    (hj : j < s.span) : (spans.flatMap (spanAxis blockRows))[s.offset + j]? = (spanAxis blockRows s)[j]? := by
  have hget := h.keys.getElem?_flatMap (f := spanAxis blockRows) (fun t ht => ?_) hs hj
  · rwa [Nat.sub_zero] at hget
  · have hroom := h.room ht
    unfold spanAxis
    simp only [List.length_append, List.length_map, List.length_range, List.length_range', List.length_replicate]
    omega

end Packed

/-! ## The packed tables -/

section Tables

variable {users : List User} {blockRows keyMultiple : Nat} {spans : List Span} {keyRows : Nat}

theorem ropeTables_ok {start rows : Nat} {table : RopeTable} :
    ropeTables start rows = .ok table ↔
      (1 ≤ rows ∧ start + rows ≤ 262144) ∧ table = (List.range' start rows).map some := by
  unfold ropeTables
  constructor
  · intro h
    obtain ⟨_, hbound, h⟩ := bind_ok h
    rw [raiseIf_ok] at hbound
    cases h
    exact ⟨by omega, rfl⟩
  · rintro ⟨hbound, rfl⟩
    rw [raiseIf_bind (by omega)]
    rfl

/-- Rows of a table. -/
theorem positions_get {start rows j : Nat} (hj : j < rows) :
    ((List.range' start rows).map some)[j]? = some (some (start + j)) := by
  rw [List.getElem?_map, List.getElem?_range' hj, Nat.one_mul]
  rfl

/-- The bounds of the tables of a user. -/
def InRange (blockRows : Nat) (p : User × Span) : Prop :=
  p.1.position + blockRows ≤ 262144 ∧ p.1.position - p.1.historyRows + p.2.span ≤ 262144

instance (blockRows : Nat) (p : User × Span) : Decidable (InRange blockRows p) := by unfold InRange; infer_instance

/-- The tables of a user in the bounds. -/
def userRope (blockRows : Nat) (p : User × Span) : Rope :=
  ⟨(List.range' p.1.position blockRows).map some, (List.range' (p.1.position - p.1.historyRows) p.2.span).map some⟩

theorem userTables_ok {p : User × Span} (hblock : 1 ≤ blockRows) (hspan : 1 ≤ p.2.span) {rope : Rope} :
    userTables blockRows p = .ok rope ↔ InRange blockRows p ∧ rope = userRope blockRows p := by
  unfold userTables
  constructor
  · intro h
    obtain ⟨q, hq, h⟩ := bind_ok h
    obtain ⟨k, hk, h⟩ := bind_ok h
    obtain ⟨hquery, rfl⟩ := ropeTables_ok.mp hq
    obtain ⟨hkey, rfl⟩ := ropeTables_ok.mp hk
    cases h
    exact ⟨⟨hquery.2, hkey.2⟩, rfl⟩
  · rintro ⟨⟨hq, hk⟩, rfl⟩
    rw [ropeTables_ok.mpr ⟨⟨hblock, hq⟩, rfl⟩, ropeTables_ok.mpr ⟨⟨hspan, hk⟩, rfl⟩]
    rfl

/-- The positions after the last user's block. -/
def fillerRows (users : List User) (blockRows used : Nat) : RopeTable :=
  if used < 32 then (List.range' ((users.getLast?.map User.position).getD 0 + blockRows) (32 - used)).map some else []

theorem fillerRows_length {used : Nat} (hused : used ≤ 32) : (fillerRows users blockRows used).length = 32 - used := by
  unfold fillerRows
  split
  · rw [List.length_map, List.length_range']
  · rw [List.length_nil]
    omega

theorem queryFiller_ok {used : Nat} (hused : used ≤ 32) {table : RopeTable} :
    queryFiller users blockRows used = .ok table ↔
      (used < 32 → (users.getLast?.map User.position).getD 0 + blockRows + (32 - used) ≤ 262144) ∧
        table = fillerRows users blockRows used := by
  unfold queryFiller fillerRows
  by_cases hlt : used < 32
  · rw [if_pos hlt, if_pos hlt, ropeTables_ok]
    exact ⟨fun h => ⟨fun _ => h.1.2, h.2⟩, fun h => ⟨⟨by omega, h.1 hlt⟩, h.2⟩⟩
  · rw [if_neg hlt, if_neg hlt, Except.ok.injEq]
    exact ⟨fun h => ⟨fun h' => absurd h' hlt, h.symm⟩, fun h => h.2.symm⟩

theorem slice_get (table : RopeTable) {start rows j : Nat} (hj : j < rows) :
    (sliceRows table start rows)[j]? = table[start + j]? := by
  unfold sliceRows
  rw [List.getElem?_take_of_lt hj, List.getElem?_drop]

theorem slice_length {table : RopeTable} {start rows : Nat} (hroom : start + rows ≤ table.length) :
    (sliceRows table start rows).length = rows := by
  unfold sliceRows
  rw [List.length_take, List.length_drop]
  omega

/-- The users of a pack, with their spans. -/
structure PackedUsers (users : List User) (blockRows keyMultiple : Nat) (spans : List Span) (keyRows : Nat) : Prop where
  valid : ∀ user ∈ users, user.Valid
  packs : Packs (users.map User.historyRows) blockRows keyMultiple spans keyRows

namespace PackedUsers

variable (h : PackedUsers users blockRows keyMultiple spans keyRows)

include h

theorem contexts : userContexts users = .ok (users.map User.historyRows) := by
  unfold userContexts
  rw [raiseIf_bind]
  · rfl
  · rintro ⟨user, huser, hbad⟩
    exact hbad (h.valid user huser)

theorem length : spans.length = users.length := h.packs.length.trans (List.length_map _)

/-- A user and its span. -/
theorem zip_get {u : Nat} {user : User} (hu : users[u]? = some user) :
    ∃ s, spans[u]? = some s ∧ (user, s) ∈ users.zip spans ∧ s ∈ spans ∧ s.user = u ∧ s.context = user.historyRows := by
  have hlt : u < spans.length := by
    rw [h.length]
    exact (List.getElem?_eq_some_iff.mp hu).1
  have hs := List.getElem?_eq_getElem hlt
  obtain ⟨huser, hcontext, -⟩ := h.packs.get hs
  rw [List.getElem?_map, hu] at hcontext
  refine ⟨_, hs, ?_, List.getElem_mem hlt, huser, (Option.some.inj hcontext).symm⟩
  refine List.mem_of_getElem? (i := u) ?_
  rw [List.getElem?_zip_eq_some]
  exact ⟨hu, hs⟩

theorem zip_mem {p : User × Span} (hp : p ∈ users.zip spans) :
    p.1 ∈ users ∧ p.2 ∈ spans ∧ p.2.context = p.1.historyRows := by
  obtain ⟨u, hu⟩ := List.getElem?_of_mem hp
  obtain ⟨huser, hspan⟩ := List.getElem?_zip_eq_some.mp hu
  obtain ⟨-, hcontext, -⟩ := h.packs.get hspan
  rw [List.getElem?_map, huser] at hcontext
  exact ⟨List.mem_of_getElem? huser, List.mem_of_getElem? hspan, (Option.some.inj hcontext).symm⟩

theorem zip_keys : Spans (fun p : User × Span => p.2.offset) (fun p => p.2.span) 0 (users.zip spans) keyRows := by
  refine @Spans.of_map Span Span.offset Span.span 0 keyRows _ Prod.snd _ ?_
  rw [List.map_snd_zip (Nat.le_of_eq h.length)]
  exact h.packs.keys

theorem zip_rows : Spans (fun p : User × Span => p.2.user * blockRows) (fun _ => blockRows) 0 (users.zip spans)
    (users.length * blockRows) := by
  refine @Spans.of_map Span (fun s => s.user * blockRows) (fun _ => blockRows) 0 _ _ Prod.snd _ ?_
  rw [List.map_snd_zip (Nat.le_of_eq h.length)]
  have hrows := h.packs.rows
  rwa [List.length_map] at hrows

theorem span_pos {s : Span} (hs : s ∈ spans) : 1 ≤ s.span := by
  have hroom := h.packs.room hs
  have hpos := h.packs.pos
  omega

theorem key_length : ((users.zip spans).flatMap fun p => (userRope blockRows p).k).length = keyRows := by
  have hlength := h.zip_keys.length_flatMap (f := fun p => (userRope blockRows p).k) fun p _ => by simp [userRope]
  omega

theorem query_length :
    ((users.zip spans).flatMap fun p => (userRope blockRows p).q).length = users.length * blockRows := by
  have hlength := h.zip_rows.length_flatMap (f := fun p => (userRope blockRows p).q) fun p _ => by simp [userRope]
  omega

theorem used : users.length * blockRows ≤ 32 := by
  have hused := h.packs.used
  rwa [List.length_map] at hused

/-- **The packed tables.** They exist where every position is in the bounds. -/
theorem packedRopeTables_ok {rope : Rope} : packedRopeTables users blockRows keyMultiple = .ok rope ↔
    ((∀ p ∈ users.zip spans, InRange blockRows p) ∧ (users.length * blockRows < 32 →
      (users.getLast?.map User.position).getD 0 + blockRows + (32 - users.length * blockRows) ≤ 262144)) ∧
    rope = ⟨((users.zip spans).flatMap fun p => (userRope blockRows p).q) ++
      fillerRows users blockRows (users.length * blockRows),
        (users.zip spans).flatMap fun p => (userRope blockRows p).k⟩ := by
  have hone := h.packs.pos
  have hused := h.used
  have hq := h.query_length
  have hk := h.key_length
  have hmem : ∀ p ∈ users.zip spans, 1 ≤ p.2.span := fun p hp => h.span_pos (h.zip_mem hp).2.1
  unfold packedRopeTables
  rw [h.contexts]
  show (segments (users.map User.historyRows) blockRows keyMultiple >>= _) = _ ↔ _
  rw [segments_ok.mpr h.packs]
  show ((users.zip spans).mapM (userTables blockRows) >>= fun parts => _) = _ ↔ _
  rw [h.length]
  constructor
  · intro hok
    obtain ⟨parts, hparts, hok⟩ := bind_ok hok
    have hrange : ∀ p ∈ users.zip spans, InRange blockRows p := fun p hp => by
      obtain ⟨y, hy⟩ := mapM_total.mp ⟨parts, hparts⟩ p hp
      exact ((userTables_ok hone (hmem p hp)).mp hy).1
    cases (mapM_eq_ok (g := userRope blockRows) fun p hp =>
      (userTables_ok hone (hmem p hp)).mpr ⟨hrange p hp, rfl⟩).symm.trans hparts
    obtain ⟨filler, hfiller, hok⟩ := bind_ok hok
    obtain ⟨_, -, hok⟩ := bind_ok hok
    obtain ⟨_, -, hok⟩ := bind_ok hok
    cases hok
    obtain ⟨hbound, rfl⟩ := (queryFiller_ok hused).mp hfiller
    refine ⟨⟨hrange, hbound⟩, ?_⟩
    rw [List.flatMap_map, List.flatMap_map]
  · rintro ⟨⟨hrange, hbound⟩, rfl⟩
    rw [mapM_eq_ok (g := userRope blockRows) fun p hp => (userTables_ok hone (hmem p hp)).mpr ⟨hrange p hp, rfl⟩]
    have hlength := @fillerRows_length users blockRows _ hused
    show (queryFiller users blockRows (users.length * blockRows) >>= _) = _
    rw [(queryFiller_ok hused).mpr ⟨hbound, rfl⟩]
    show (raiseIf _ _ >>= _) = _
    rw [List.flatMap_map, List.flatMap_map, raiseIf_bind (by rw [List.length_append, hq, hlength]; omega),
      raiseIf_bind (by rw [hk]; exact not_not.mpr rfl)]
    rfl

/-- The key tables of a pack: each row has its own position. -/
theorem key_get {p : User × Span} (hp : p ∈ users.zip spans) {j : Nat} (hj : j < p.2.span) :
    ((users.zip spans).flatMap fun p => (userRope blockRows p).k)[p.2.offset + j]? =
      some (some (p.1.position - p.1.historyRows + j)) := by
  have hget := h.zip_keys.getElem?_flatMap (f := fun p => (userRope blockRows p).k)
    (fun _ _ => by simp [userRope]) hp hj
  rw [Nat.sub_zero] at hget
  exact hget.trans (positions_get hj)

/-- The query tables of a pack. -/
theorem query_get {p : User × Span} (hp : p ∈ users.zip spans) {i : Nat} (hi : i < blockRows) (filler : RopeTable) :
    (((users.zip spans).flatMap fun p => (userRope blockRows p).q) ++ filler)[p.2.user * blockRows + i]? =
      some (some (p.1.position + i)) := by
  have hget := h.zip_rows.getElem?_flatMap (f := fun p => (userRope blockRows p).q)
    (fun _ _ => by simp [userRope]) hp hi
  rw [Nat.sub_zero] at hget
  have hbounds := h.zip_rows.bounds hp
  have hlength := h.query_length
  rw [List.getElem?_append_left (by omega)]
  exact hget.trans (positions_get hi)

/-! ### The live key rows -/

/-- The slices of the live rows are whole. -/
theorem live_slices {table : RopeTable} (htable : table.length = keyRows) :
    ∀ s ∈ spans, (sliceRows table (s.offset + s.context) blockRows).length = blockRows := by
  intro s hs
  have hbounds := h.packs.keys.bounds hs
  have hroom := h.packs.room hs
  exact slice_length (by omega)

/-- The live rows of a key table of the pack's length. -/
theorem liveRows_get {table live : RopeTable} (htable : table.length = keyRows)
    (hlive : liveRows table spans blockRows = .ok live) {s : Span} (hs : s ∈ spans) {j : Nat} (hj : j < blockRows) :
    live[s.user * blockRows + j]? = table[s.offset + (s.context + j)]? := by
  unfold liveRows at hlive
  obtain ⟨_, -, hlive⟩ := bind_ok hlive
  cases hlive
  have hslices := h.live_slices htable
  have hrows := h.packs.rows
  have hget := hrows.getElem?_flatMap (f := fun t => sliceRows table (t.offset + t.context) blockRows) hslices hs hj
  have hlength := hrows.length_flatMap (f := fun t => sliceRows table (t.offset + t.context) blockRows) hslices
  have hbounds := hrows.bounds hs
  rw [Nat.sub_zero] at hget
  rw [List.getElem?_append_left (by omega), hget, slice_get table hj, Nat.add_assoc]

/-- Where the block is full, or the last span has room for the padded rows, the live rows exist. -/
theorem liveRows_total {table : RopeTable} (htable : table.length = keyRows)
    (hroom : users.length * blockRows = 32 ∨ ∃ last, spans.getLast? = some last ∧
      last.context + blockRows + (32 - users.length * blockRows) ≤ last.span) :
    ∃ live, liveRows table spans blockRows = .ok live := by
  have hslices := h.live_slices htable
  have hlength := h.packs.rows.length_flatMap (f := fun t => sliceRows table (t.offset + t.context) blockRows) hslices
  rw [List.length_map] at hlength
  unfold liveRows
  rw [h.length]
  cases hlast : spans.getLast? with
  | none =>
    have hfull := hroom.resolve_right (by rintro ⟨_, hsome, -⟩; rw [hlast] at hsome; cases hsome)
    refine ⟨_, raiseIf_bind ?_⟩
    rw [List.length_append, List.length_nil]
    omega
  | some last =>
    have hmem := List.mem_of_getLast? hlast
    have hbounds := h.packs.keys.bounds hmem
    refine ⟨_, raiseIf_bind ?_⟩
    by_cases hlt : users.length * blockRows < 32
    · obtain ⟨last', hlast', hroom⟩ := hroom.resolve_left (by omega)
      rw [hlast] at hlast'
      cases hlast'
      simp only [if_pos hlt]
      rw [List.length_append, slice_length (by omega)]
      omega
    · have hused := h.used
      simp only [if_neg hlt]
      rw [List.length_append, List.length_nil]
      omega

/-- The two builds of the live key rows agree, wherever the packed tables exist. -/
theorem liveKeyRope_eq {rope : Rope} (hrope : packedRopeTables users blockRows keyMultiple = .ok rope) :
    liveKeyRope users blockRows keyMultiple = liveRows rope.k spans blockRows ∧
      liveKeyRopeFrom rope.k users blockRows keyMultiple = liveRows rope.k spans blockRows := by
  have hlength : rope.k.length = keyRows := by
    obtain ⟨-, rfl⟩ := h.packedRopeTables_ok.mp hrope
    exact h.key_length
  unfold liveKeyRope liveKeyRopeFrom
  rw [h.contexts, hrope]
  constructor
  · show (segments (users.map User.historyRows) blockRows keyMultiple >>= _) = _
    rw [segments_ok.mpr h.packs]
    rfl
  · show (segments (users.map User.historyRows) blockRows keyMultiple >>= _) = _
    rw [segments_ok.mpr h.packs]
    show (raiseIf _ _ >>= _) = _
    rw [raiseIf_bind (not_not.mpr hlength)]

end PackedUsers

end Tables

end BlackholeQwen.Dflash
