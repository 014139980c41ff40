import BlackholeQwen.Lib.Call
import BlackholeQwen.Lib.TopK

/-!
# The shared head's candidates (`draft_shared_head.py`)

Each chip holds half the vocabulary's logits and takes the 16 largest of each range of `candidateChunks`.
`mergeChunkCandidates` checks that it got every range of both chips once, and takes the 16 largest of all: it sorts the
candidates by token and then, stably, by descending value.

- `Supplies`: a chunk holds 16 of the largest logits of its range.
- `mergeRow_top`: the merged row holds 16 of the largest of the vocabulary, in order.
- `merged_candidates`: chunks that supply every range are accepted and merged; broken ones are refused.
-/

namespace BlackholeQwen.Dflash

open Lib

/-- `candidate_chunks`. -/
def candidateChunks : List (Nat × Nat) :=
  (List.range ((124160 + 32767) / 32768)).map fun i => (i * 32768, min (i * 32768 + 32768) 124160)

/-- A chunk of one chip as it was read back. -/
structure CandidateChunk (α : Type) where
  chip : Nat
  start : Nat
  stop : Nat
  /-- Both tensors are on the host. -/
  host : Bool
  /-- The values are floating-point. -/
  floating : Bool
  /-- The indices are 32- or 64-bit integers. -/
  integral : Bool
  values : List (List α)
  indices : List (List Int)

namespace CandidateChunk

variable {α : Type}

/-- `identity`. -/
def identity (c : CandidateChunk α) : Nat × Nat × Nat := (c.chip, c.start, c.stop)

/-- The first token of the chunk. -/
def base (c : CandidateChunk α) : Int := c.start + c.chip * 124160

/-- The tokens of one row. -/
def tokens (c : CandidateChunk α) (row : Nat) : List Int :=
  (c.indices.getD row []).map fun i => i + c.start + c.chip * 124160

end CandidateChunk

/-- The chunk of every range of both chips. -/
def expectedChunks : List (Nat × Nat × Nat) :=
  (List.range 2).flatMap fun chip => candidateChunks.map fun range => (chip, range.1, range.2)

/-- Adjacent members of a sorted row are equal. -/
def hasDuplicate (row : List Int) : Prop :=
  ∃ p ∈ (row.mergeSort (· ≤ ·)).tail.zip (row.mergeSort (· ≤ ·)), p.1 = p.2

instance (row : List Int) : Decidable (hasDuplicate row) := by unfold hasDuplicate; infer_instance

section Merge

variable {α : Type}

/-- The checks of one chunk. -/
def checkChunk (finite : α → Bool) (blockRows : Nat) (c : CandidateChunk α) : Except PyError Unit := do
  raiseIf (c.host = false ∨ c.values.length ≠ blockRows ∨ (∃ row ∈ c.values, row.length ≠ 16) ∨
      c.indices.length ≠ blockRows ∨ (∃ row ∈ c.indices, row.length ≠ 16) ∨ c.floating = false ∨
      (∃ row ∈ c.values, ∃ v ∈ row, finite v = false) ∨ c.integral = false ∨
      (∃ row ∈ c.indices, ∃ i ∈ row, i < 0) ∨ ∃ row ∈ c.indices, ∃ i ∈ row, (c.stop : Int) - c.start ≤ i)
    (.valueError "Finite complete-block top16 values and in-range integer indices required")
  raiseIf (∃ row ∈ c.indices, hasDuplicate row) (.valueError "Duplicate local candidate index")

/-- The loop over the chunks: the identities that it has seen. -/
def checkChunks (finite : α → Bool) (blockRows : Nat) :
    List (Nat × Nat × Nat) → List (CandidateChunk α) → Except PyError (List (Nat × Nat × Nat))
  | seen, [] => .ok seen
  | seen, c :: cs => do
    raiseIf (c.identity ∉ expectedChunks ∨ c.identity ∈ seen)
      (.valueError "Exactly one candidate chunk per chip/range required")
    checkChunk finite blockRows c
    checkChunks finite blockRows (seen ++ [c.identity]) cs

/-- The order of `tokens.argsort(stable=True)`. -/
def byToken (a b : Int × α) : Bool := decide (a.1 ≤ b.1)

/-- The order of `values.argsort(descending=True, stable=True)`. -/
def byValue [LinearOrder α] (a b : Int × α) : Bool := decide (b.2 ≤ a.2)

/-- One row of the merge: its 16 candidates, token and value. -/
def mergeRow [LinearOrder α] (tokens : List Int) (values : List α) : List (Int × α) :=
  (((tokens.zip values).mergeSort byToken).mergeSort byValue).take 16

/-- The merged rows of a block, the anchor's first. -/
def mergedRows [LinearOrder α] (chunks : List (CandidateChunk α)) (blockRows : Nat) : List (List (Int × α)) :=
  (List.range blockRows).map fun r =>
    mergeRow (chunks.flatMap fun c => c.tokens r) (chunks.flatMap fun c => c.values.getD r [])

/-- `merge_chunk_candidates`: the tokens and the values of the rows past the anchor's. -/
def mergeChunkCandidates [LinearOrder α] (finite : α → Bool) (chunks : List (CandidateChunk α)) (blockRows : Nat) :
    Except PyError (List (List Int) × List (List α)) := do
  raiseIf (blockRows ∉ [8, 16, 32]) (.valueError "Explicit eight/16/32-row candidate block required")
  let seen ← checkChunks finite blockRows [] chunks
  raiseIf (∃ e ∈ expectedChunks, e ∉ seen) (.valueError "Missing candidate chunks")
  let rows := (mergedRows chunks blockRows).drop 1
  return (rows.map (·.map Prod.fst), rows.map (·.map Prod.snd))

/-! ## The checks -/

/-- In a sorted list a repetition is adjacent. -/
theorem adjacent_iff : ∀ {row : List Int}, row.Pairwise (· ≤ ·) →
    ((∃ p ∈ row.tail.zip row, p.1 = p.2) ↔ ¬row.Nodup)
  | [], _ => by simp
  | [a], _ => by simp
  | a :: b :: row, h => by
    obtain ⟨ha, h⟩ := List.pairwise_cons.mp h
    have ih := adjacent_iff h
    rw [List.tail_cons, List.zip_cons_cons, List.nodup_cons, not_and_or, not_not, ← ih, List.tail_cons]
    have hfirst : a ∈ b :: row ↔ b = a := by
      constructor
      · intro hmem
        rcases List.mem_cons.mp hmem with rfl | hmem
        · rfl
        · exact le_antisymm ((List.pairwise_cons.mp h).1 a hmem) (ha b List.mem_cons_self)
      · rintro rfl
        exact List.mem_cons_self
    rw [hfirst]
    constructor
    · rintro ⟨p, hp, heq⟩
      rcases List.mem_cons.mp hp with rfl | hp
      · exact Or.inl heq
      · exact Or.inr ⟨p, hp, heq⟩
    · rintro (heq | ⟨p, hp, heq⟩)
      · exact ⟨_, List.mem_cons_self, heq⟩
      · exact ⟨p, List.mem_cons_of_mem _ hp, heq⟩

theorem hasDuplicate_iff (row : List Int) : hasDuplicate row ↔ ¬row.Nodup := by
  unfold hasDuplicate
  rw [adjacent_iff, (List.mergeSort_perm row _).nodup_iff]
  refine (List.pairwise_mergeSort ?_ ?_ row).imp fun {a b} h => of_decide_eq_true h
  · intro a b c hab hbc
    exact decide_eq_true ((of_decide_eq_true hab).trans (of_decide_eq_true hbc))
  · intro a b
    rw [Bool.or_eq_true, decide_eq_true_eq, decide_eq_true_eq]
    exact le_total a b

/-- What a checked chunk has. -/
structure Checked (finite : α → Bool) (blockRows : Nat) (c : CandidateChunk α) : Prop where
  host : c.host = true
  floating : c.floating = true
  integral : c.integral = true
  values : c.values.length = blockRows ∧ ∀ row ∈ c.values, row.length = 16
  indices : c.indices.length = blockRows ∧ ∀ row ∈ c.indices, row.length = 16
  finite : ∀ row ∈ c.values, ∀ v ∈ row, finite v = true
  range : ∀ row ∈ c.indices, ∀ i ∈ row, 0 ≤ i ∧ i < (c.stop : Int) - c.start
  nodup : ∀ row ∈ c.indices, row.Nodup

theorem checkChunk_ok {finite : α → Bool} {blockRows : Nat} {c : CandidateChunk α} {u : Unit} :
    checkChunk finite blockRows c = .ok u ↔ Checked finite blockRows c := by
  unfold checkChunk
  constructor
  · intro h
    obtain ⟨_, hshape, h⟩ := bind_ok h
    rw [raiseIf_ok] at hshape h
    simp only [not_or, not_exists, not_and, Bool.not_eq_false, not_not, Int.not_lt, Int.not_le] at hshape
    obtain ⟨hhost, hvalues, hwidth, hindices, hwidth', hfloating, hfinite, hintegral, hlo, hhi⟩ := hshape
    refine ⟨hhost, hfloating, hintegral, ⟨hvalues, hwidth⟩, ⟨hindices, hwidth'⟩, hfinite,
      fun row hrow i hi => ⟨hlo row hrow i hi, hhi row hrow i hi⟩, fun row hrow => ?_⟩
    by_contra hnot
    exact h ⟨row, hrow, (hasDuplicate_iff row).mpr hnot⟩
  · intro h
    rw [raiseIf_bind, raiseIf_ok]
    · rintro ⟨row, hrow, hduplicate⟩
      exact (hasDuplicate_iff row).mp hduplicate (h.nodup row hrow)
    · simp only [not_or, not_exists, not_and, Bool.not_eq_false, not_not, Int.not_lt, Int.not_le]
      exact ⟨h.host, h.values.1, h.values.2, h.indices.1, h.indices.2, h.floating, h.finite, h.integral,
        fun row hrow i hi => (h.range row hrow i hi).1, fun row hrow i hi => (h.range row hrow i hi).2⟩

/-- **The loop** accepts checked chunks of distinct expected ranges that it has not seen. -/
theorem checkChunks_ok {finite : α → Bool} {blockRows : Nat} {chunks : List (CandidateChunk α)}
    {seen seen' : List (Nat × Nat × Nat)} : checkChunks finite blockRows seen chunks = .ok seen' ↔
      (∀ c ∈ chunks, c.identity ∈ expectedChunks ∧ c.identity ∉ seen ∧ Checked finite blockRows c) ∧
        (chunks.map CandidateChunk.identity).Nodup ∧ seen' = seen ++ chunks.map CandidateChunk.identity := by
  induction chunks generalizing seen with
  | nil =>
    rw [checkChunks, Except.ok.injEq]
    simp [eq_comm]
  | cons c cs ih =>
    rw [checkChunks]
    constructor
    · intro h
      obtain ⟨_, hidentity, h⟩ := bind_ok h
      obtain ⟨_, hchecked, h⟩ := bind_ok h
      rw [raiseIf_ok, not_or, not_not] at hidentity
      obtain ⟨hall, hnd, rfl⟩ := ih.mp h
      refine ⟨fun d hd => ?_, ?_, by simp⟩
      · rcases List.mem_cons.mp hd with rfl | hd
        · exact ⟨hidentity.1, hidentity.2, checkChunk_ok.mp hchecked⟩
        · obtain ⟨hexpected, hfresh, hd⟩ := hall d hd
          exact ⟨hexpected, fun h => hfresh (List.mem_append_left _ h), hd⟩
      · refine List.nodup_cons.mpr ⟨fun hmem => ?_, hnd⟩
        obtain ⟨d, hd, heq⟩ := List.mem_map.mp hmem
        exact (hall d hd).2.1 (heq ▸ List.mem_append_right _ (List.mem_singleton_self _))
    · rintro ⟨hall, hnd, rfl⟩
      obtain ⟨hexpected, hfresh, hchecked⟩ := hall c List.mem_cons_self
      rw [List.map_cons, List.nodup_cons] at hnd
      rw [raiseIf_bind (not_or.mpr ⟨not_not.mpr hexpected, hfresh⟩), (checkChunk_ok (u := ())).mpr hchecked]
      refine ih.mpr ⟨fun d hd => ?_, hnd.2, by simp⟩
      obtain ⟨hexpected, hfresh, hd'⟩ := hall d (List.mem_cons_of_mem _ hd)
      refine ⟨hexpected, fun hmem => ?_, hd'⟩
      rcases List.mem_append.mp hmem with hmem | hmem
      · exact hfresh hmem
      · exact hnd.1 (List.mem_singleton.mp hmem ▸ List.mem_map_of_mem hd)

end Merge

/-! ## The ranges -/

/-- A token of the vocabulary. -/
def InVocabulary (t : Int) : Prop := 0 ≤ t ∧ t < 248320

/-- A token of a chunk's range. -/
def InRangeOf (e : Nat × Nat × Nat) (t : Int) :
    Prop := (e.2.1 : Int) + e.1 * 124160 ≤ t ∧ t < (e.2.2 : Int) + e.1 * 124160

theorem expectedChunks_eq : expectedChunks =
    [(0, 0, 32768), (0, 32768, 65536), (0, 65536, 98304), (0, 98304, 124160),
      (1, 0, 32768), (1, 32768, 65536), (1, 65536, 98304), (1, 98304, 124160)] := by decide

/-- The ranges cover the vocabulary. -/
theorem inVocabulary_iff (t : Int) : InVocabulary t ↔ ∃ e ∈ expectedChunks, InRangeOf e t := by
  rw [expectedChunks_eq]
  simp only [List.mem_cons, List.not_mem_nil, or_false, exists_eq_or_imp, exists_eq_left, InRangeOf, InVocabulary]
  omega

/-- Different ranges share no token. -/
theorem ranges_disjoint {e e' : Nat × Nat × Nat} (he : e ∈ expectedChunks) (he' : e' ∈ expectedChunks) (hne : e ≠ e')
    {t : Int} (ht : InRangeOf e t) : ¬InRangeOf e' t := by
  have hapart : ∀ e ∈ expectedChunks, ∀ e' ∈ expectedChunks, e ≠ e' →
      e.2.2 + e.1 * 124160 ≤ e'.2.1 + e'.1 * 124160 ∨ e'.2.2 + e'.1 * 124160 ≤ e.2.1 + e.1 * 124160 := by decide
  have hapart := hapart e he e' he' hne
  unfold InRangeOf at ht ⊢
  omega

/-! ## The merge -/

section Merge

variable {α : Type} [LinearOrder α]

/-- A chunk holds 16 of the largest logits of its range, in one row. -/
structure Supplies (logits : Int → α) (c : CandidateChunk α) (row : Nat) : Prop where
  length : (c.indices.getD row []).length = 16
  nodup : (c.indices.getD row []).Nodup
  range : ∀ i ∈ c.indices.getD row [], 0 ≤ i ∧ i < (c.stop : Int) - c.start
  values : c.values.getD row [] = (c.tokens row).map logits
  largest : ∀ i, 0 ≤ i → i < (c.stop : Int) - c.start → i ∉ c.indices.getD row [] → ∀ j ∈ c.indices.getD row [],
    logits (i + c.start + c.chip * 124160) ≤ logits (j + c.start + c.chip * 124160)

/-- Such a chunk's tokens are 16 of the largest of its range. -/
theorem Supplies.top {logits : Int → α} {c : CandidateChunk α} {row : Nat} (h : Supplies logits c row) :
    Top logits 16 (InRangeOf c.identity) (c.tokens row) := by
  have hmem : ∀ t, t ∈ c.tokens row ↔ t - c.start - c.chip * 124160 ∈ c.indices.getD row [] := fun t => by
    unfold CandidateChunk.tokens
    rw [List.mem_map]
    constructor
    · rintro ⟨i, hi, rfl⟩
      rwa [show i + (c.start : Int) + c.chip * 124160 - c.start - c.chip * 124160 = i by omega]
    · intro ht
      exact ⟨_, ht, by omega⟩
  refine ⟨h.nodup.map_on fun i _ j _ hij => by omega, ?_, fun t ht => ?_, fun t hrange hnot y hy => ?_⟩
  · unfold CandidateChunk.tokens
    rw [List.length_map, h.length]
  · have hbounds := h.range _ ((hmem t).mp ht)
    simp only [InRangeOf, CandidateChunk.identity]
    omega
  · simp only [InRangeOf, CandidateChunk.identity] at hrange
    rw [hmem] at hnot hy
    have hle := h.largest _ (by omega) (by omega) hnot _ hy
    rwa [show t - (c.start : Int) - c.chip * 124160 + c.start + c.chip * 124160 = t by omega,
      show y - (c.start : Int) - c.chip * 124160 + c.start + c.chip * 124160 = y by omega] at hle

/-- The order of the candidates: larger first, and of equal ones the smaller token. -/
def Precedes (logits : Int → α) (a b : Int) : Prop := logits b < logits a ∨ logits a = logits b ∧ a < b

/-- The chunks of a block: every range once, each with 16 of its largest logits in every row. -/
structure Complete (logits : Nat → Int → α) (finite : α → Bool) (blockRows : Nat) (chunks : List (CandidateChunk α)) :
    Prop where
  order : (chunks.map CandidateChunk.identity).Perm expectedChunks
  tensors : ∀ c ∈ chunks, c.host = true ∧ c.floating = true ∧ c.integral = true ∧ c.values.length = blockRows ∧
    c.indices.length = blockRows
  finite : ∀ row t, finite (logits row t) = true
  supplies : ∀ c ∈ chunks, ∀ row < blockRows, Supplies (logits row) c row

variable {logits : Nat → Int → α} {finite : α → Bool} {blockRows : Nat} {chunks : List (CandidateChunk α)}

theorem expectedChunks_nodup : expectedChunks.Nodup := by decide

/-- Complete chunks pass the checks. -/
theorem Complete.checked (h : Complete logits finite blockRows chunks) :
    checkChunks finite blockRows [] chunks = .ok (chunks.map CandidateChunk.identity) := by
  refine checkChunks_ok.mpr ⟨fun c hc => ⟨?_, List.not_mem_nil, ?_⟩, h.order.nodup_iff.mpr expectedChunks_nodup, rfl⟩
  · exact h.order.mem_iff.mp (List.mem_map_of_mem hc)
  · obtain ⟨hhost, hfloating, hintegral, hvalues, hindices⟩ := h.tensors c hc
    have hrow : ∀ {β : Type} {rows : List (List β)} {row : List β}, rows.length = blockRows → row ∈ rows →
        ∃ r < blockRows, rows.getD r [] = row := by
      intro β rows row hlength hmem
      obtain ⟨r, hr, hget⟩ := List.getElem_of_mem hmem
      exact ⟨r, hlength ▸ hr, by rw [List.getD_eq_getElem?_getD, List.getElem?_eq_getElem hr, hget]; rfl⟩
    refine ⟨hhost, hfloating, hintegral, ⟨hvalues, fun row hmem => ?_⟩, ⟨hindices, fun row hmem => ?_⟩,
      fun row hmem v hv => ?_, fun row hmem i hi => ?_, fun row hmem => ?_⟩
    · obtain ⟨r, hr, rfl⟩ := hrow hvalues hmem
      rw [(h.supplies c hc r hr).values, List.length_map, (h.supplies c hc r hr).top.length]
    · obtain ⟨r, hr, rfl⟩ := hrow hindices hmem
      exact (h.supplies c hc r hr).length
    · obtain ⟨r, hr, rfl⟩ := hrow hvalues hmem
      rw [(h.supplies c hc r hr).values] at hv
      obtain ⟨t, -, rfl⟩ := List.mem_map.mp hv
      exact h.finite r t
    · obtain ⟨r, hr, rfl⟩ := hrow hindices hmem
      exact (h.supplies c hc r hr).range i hi
    · obtain ⟨r, hr, rfl⟩ := hrow hindices hmem
      exact (h.supplies c hc r hr).nodup

omit [LinearOrder α] in
theorem byToken_trans (a b c : Int × α) (hab : byToken a b) (hbc : byToken b c) : byToken a c :=
  decide_eq_true ((of_decide_eq_true hab).trans (of_decide_eq_true hbc))

omit [LinearOrder α] in
theorem byToken_total (a b : Int × α) : byToken a b || byToken b a := by
  rw [Bool.or_eq_true, byToken, byToken, decide_eq_true_eq, decide_eq_true_eq]
  exact le_total _ _

theorem byValue_trans (a b c : Int × α) (hab : byValue a b) (hbc : byValue b c) : byValue a c :=
  decide_eq_true ((of_decide_eq_true hbc).trans (of_decide_eq_true hab))

theorem byValue_total (a b : Int × α) : byValue a b || byValue b a := by
  rw [Bool.or_eq_true, byValue, byValue, decide_eq_true_eq, decide_eq_true_eq]
  exact le_total _ _

/-- The tokens of a row. -/
def listed (chunks : List (CandidateChunk α)) (row : Nat) : List Int := chunks.flatMap fun c => c.tokens row

/-- The tokens of a row are different. -/
theorem Complete.listed_nodup (h : Complete logits finite blockRows chunks) {row : Nat} (hrow : row < blockRows) :
    (listed chunks row).Nodup := by
  unfold listed
  rw [List.nodup_flatMap]
  refine ⟨fun c hc => (h.supplies c hc row hrow).top.nodup, ?_⟩
  have hnd : chunks.Pairwise fun c d => c.identity ≠ d.identity :=
    List.pairwise_map.mp (h.order.nodup_iff.mpr expectedChunks_nodup)
  refine hnd.imp_of_mem fun {c d} hc hd hne => ?_
  intro t ht ht'
  refine ranges_disjoint (h.order.mem_iff.mp (List.mem_map_of_mem hc)) (h.order.mem_iff.mp (List.mem_map_of_mem hd)) hne
    ((h.supplies c hc row hrow).top.member t ht) ((h.supplies d hd row hrow).top.member t ht')

/-- The merged row, as tokens. -/
theorem Complete.mergeRow_eq (h : Complete logits finite blockRows chunks) {row : Nat} (hrow : row < blockRows) :
    ∃ sorted : List Int, sorted.Perm (listed chunks row) ∧ sorted.Pairwise (Precedes (logits row)) ∧
      mergeRow (listed chunks row) (chunks.flatMap fun c => c.values.getD row []) =
        (sorted.take 16).map fun t => (t, logits row t) := by
  have hvalues : (chunks.flatMap fun c => c.values.getD row []) = (listed chunks row).map (logits row) := by
    unfold listed
    rw [List.map_flatMap]
    exact List.flatMap_congr fun c hc => (h.supplies c hc row hrow).values
  have hnd : ((listed chunks row).map fun t => (t, logits row t)).Nodup :=
    (h.listed_nodup hrow).map_on fun a _ b _ hab => (Prod.mk.injEq .. ▸ hab).1
  have hperm : ((((listed chunks row).map fun t => (t, logits row t)).mergeSort byToken).mergeSort byValue).Perm
      ((listed chunks row).map fun t => (t, logits row t)) := (List.mergeSort_perm _ _).trans (List.mergeSort_perm _ _)
  have hvalue : ∀ p ∈ (((listed chunks row).map fun t => (t, logits row t)).mergeSort byToken).mergeSort byValue,
      (p.1, logits row p.1) = p := fun p hp => by
    obtain ⟨t, -, rfl⟩ := List.mem_map.mp (hperm.mem_iff.mp hp)
    rfl
  have hstacked := pairwise_stacked hnd (byToken_trans (α := α)) byToken_total byValue_trans byValue_total
  refine ⟨_, (hperm.map Prod.fst).trans ?_, ?_, ?_⟩
  · rw [List.map_map]
    exact (List.map_id _).symm ▸ List.Perm.refl _
  · refine List.pairwise_map.mpr ((hstacked.and (hperm.nodup_iff.mpr hnd)).imp_of_mem ?_)
    rintro p q hp hq ⟨⟨hdesc, htie⟩, hne⟩
    rw [← hvalue p hp, ← hvalue q hq] at hdesc htie hne
    simp only [byValue, byToken, decide_eq_true_eq] at hdesc htie
    rcases hdesc.lt_or_eq with hlt | heq
    · exact Or.inl hlt
    · refine Or.inr ⟨heq.symm, lt_of_le_of_ne (htie heq.ge) fun htoken => hne ?_⟩
      rw [htoken]
  · rw [mergeRow, hvalues, ← List.map_prod_left_eq_zip, List.map_take, List.map_map]
    refine congrArg (List.take 16) ?_
    exact ((List.map_congr_left hvalue).trans (List.map_id _)).symm

omit [LinearOrder α] in
/-- The listed tokens, part by part. -/
theorem mem_listed {row : Nat} {t : Int} : t ∈ listed chunks row ↔ ∃ c ∈ chunks, t ∈ c.tokens row := List.mem_flatMap

/-- **One row.** The merged row holds 16 of the largest logits of the vocabulary, in order. -/
theorem Complete.mergeRow_top (h : Complete logits finite blockRows chunks) {row : Nat} (hrow : row < blockRows) :
    ∃ merged : List Int, mergeRow (listed chunks row) (chunks.flatMap fun c => c.values.getD row []) =
        merged.map (fun t => (t, logits row t)) ∧ Top (logits row) 16 InVocabulary merged ∧
      (∀ t ∈ merged, t ∈ listed chunks row) ∧ merged.Pairwise (Precedes (logits row)) ∧
      ∀ t ∈ listed chunks row, t ∉ merged → ∀ t' ∈ merged, Precedes (logits row) t' t := by
  obtain ⟨sorted, hperm, hsorted, heq⟩ := h.mergeRow_eq hrow
  have hdesc : sorted.Pairwise fun a b => logits row b ≤ logits row a := hsorted.imp fun {a b} hab => by
    rcases hab with hlt | ⟨heq, -⟩
    · exact hlt.le
    · exact heq.ge
  have hnd : sorted.Nodup := hperm.nodup_iff.mpr (h.listed_nodup hrow)
  have hlength : 16 ≤ sorted.length := by
    have hfirst : (0, 0, 32768) ∈ chunks.map CandidateChunk.identity := h.order.mem_iff.mpr (by decide)
    obtain ⟨c, hc, -⟩ := List.mem_map.mp hfirst
    have htop := (h.supplies c hc row hrow).top
    rw [hperm.length_eq, ← htop.length]
    exact (htop.nodup.subperm fun t ht => mem_listed.mpr ⟨c, hc, ht⟩).length_le
  have hparts : ∀ p ∈ chunks.map fun c => (InRangeOf c.identity, c.tokens row), Top (logits row) 16 p.1 p.2 := by
    intro p hp
    obtain ⟨c, hc, rfl⟩ := List.mem_map.mp hp
    exact (h.supplies c hc row hrow).top
  have hcover : ∀ t, InVocabulary t ↔ ∃ p ∈ chunks.map fun c => (InRangeOf c.identity, c.tokens row), p.1 t := by
    intro t
    rw [inVocabulary_iff]
    constructor
    · rintro ⟨e, he, ht⟩
      obtain ⟨c, hc, rfl⟩ := List.mem_map.mp (h.order.mem_iff.mpr he)
      exact ⟨_, List.mem_map_of_mem hc, ht⟩
    · rintro ⟨p, hp, ht⟩
      obtain ⟨c, hc, rfl⟩ := List.mem_map.mp hp
      exact ⟨_, h.order.mem_iff.mp (List.mem_map_of_mem hc), ht⟩
  have hlisted : Top (logits row) 16 (fun t => ∃ p ∈ chunks.map fun c => (InRangeOf c.identity, c.tokens row), t ∈ p.2)
      (sorted.take 16) := by
    have htake := Top.take hnd hdesc hlength
    have hmem : ∀ t, t ∈ sorted ↔ ∃ p ∈ chunks.map fun c => (InRangeOf c.identity, c.tokens row), t ∈ p.2 := by
      intro t
      rw [hperm.mem_iff, mem_listed]
      constructor
      · rintro ⟨c, hc, ht⟩
        exact ⟨_, List.mem_map_of_mem hc, ht⟩
      · rintro ⟨p, hp, ht⟩
        obtain ⟨c, hc, rfl⟩ := List.mem_map.mp hp
        exact ⟨c, hc, ht⟩
    exact ⟨htake.nodup, htake.length, fun t ht => (hmem t).mp (htake.member t ht),
      fun t ht => htake.largest t ((hmem t).mpr ht)⟩
  refine ⟨sorted.take 16, heq, Top.merge hparts hcover hlisted,
    fun t ht => hperm.mem_iff.mp (List.mem_of_mem_take ht), hsorted.sublist (List.take_sublist 16 sorted), ?_⟩
  intro t ht hnot t' ht'
  rw [← hperm.mem_iff, ← List.take_append_drop 16 sorted] at ht
  rw [← List.take_append_drop 16 sorted] at hsorted
  exact (List.pairwise_append.mp hsorted).2.2 t' ht' t ((List.mem_append.mp ht).resolve_left hnot)

/-- The tokens below a bound. -/
def tokensBelow (n : Nat) : List Int := (List.range n).map Int.ofNat

theorem mem_tokensBelow {n : Nat} {t : Int} : t ∈ tokensBelow n ↔ 0 ≤ t ∧ t < n := by
  unfold tokensBelow
  rw [List.mem_map]
  constructor
  · rintro ⟨i, hi, rfl⟩
    rw [List.mem_range] at hi
    exact ⟨Int.natCast_nonneg i, Int.ofNat_lt.mpr hi⟩
  · rintro ⟨hlo, hhi⟩
    exact ⟨t.toNat, List.mem_range.mpr (by omega), Int.toNat_of_nonneg hlo⟩

theorem tokensBelow_nodup (n : Nat) : (tokensBelow n).Nodup :=
  List.nodup_range.map fun _ _ h => Int.ofNat.inj h

/-- The tokens of the vocabulary. -/
def vocabulary : List Int := tokensBelow 248320

/-- A row of candidates: the first 16 of the listed tokens, whose values are the 16 largest of the vocabulary. -/
structure Merged (logits : Int → α) (listed merged : List Int) (values : List α) : Prop where
  scores : values = merged.map logits
  length : merged.length = 16
  nodup : merged.Nodup
  known : ∀ t ∈ merged, InVocabulary t
  supplied : ∀ t ∈ merged, t ∈ listed
  order : merged.Pairwise (Precedes logits)
  first : ∀ t ∈ listed, t ∉ merged → ∀ t' ∈ merged, Precedes logits t' t
  largest : values = ((vocabulary.map logits).mergeSort fun a b => decide (b ≤ a)).take 16

/-- A chunk is missing or repeated, or has a repeated or out-of-range index. -/
def Broken (chunks : List (CandidateChunk α)) : Prop :=
  (∃ e ∈ expectedChunks, e ∉ chunks.map CandidateChunk.identity) ∨ ¬(chunks.map CandidateChunk.identity).Nodup ∨
    ∃ c ∈ chunks, ∃ row ∈ c.indices, ¬row.Nodup ∨ ∃ i ∈ row, ¬(0 ≤ i ∧ i < (c.stop : Int) - c.start)

omit [LinearOrder α] in
/-- Broken chunks do not pass the checks. -/
theorem Broken.refused (h : Broken chunks) {seen : List (Nat × Nat × Nat)}
    (hchecked : checkChunks finite blockRows [] chunks = .ok seen) : ∃ e ∈ expectedChunks, e ∉ seen := by
  obtain ⟨hall, hnd, rfl⟩ := checkChunks_ok.mp hchecked
  rcases h with hmissing | hrepeated | ⟨c, hc, row, hrow, hbad⟩
  · exact hmissing
  · exact absurd hnd hrepeated
  · obtain ⟨-, -, hc⟩ := hall c hc
    rcases hbad with hduplicate | ⟨i, hi, hrange⟩
    · exact absurd (hc.nodup row hrow) hduplicate
    · exact absurd (hc.range row hrow i hi) hrange

/-- **Main result.** Chunks that supply every range are merged into the largest of the vocabulary, and broken ones are
refused. -/
theorem merged_candidates (finite : α → Bool) (blockRows : Nat) :
    (∀ logits chunks, blockRows ∈ [8, 16, 32] → Complete logits finite blockRows chunks →
      ∃ tokens values, mergeChunkCandidates finite chunks blockRows = .ok (tokens, values) ∧
        tokens.length = blockRows - 1 ∧ values.length = blockRows - 1 ∧ ∀ row, 1 ≤ row → row < blockRows →
          ∃ merged scores, tokens[row - 1]? = some merged ∧ values[row - 1]? = some scores ∧
            Merged (logits row) (listed chunks row) merged scores) ∧
    ∀ chunks : List (CandidateChunk α), Broken chunks →
      ∃ e, mergeChunkCandidates finite chunks blockRows = .error e := by
  constructor
  · intro logits chunks hblock h
    have hexpected : ¬∃ e ∈ expectedChunks, e ∉ chunks.map CandidateChunk.identity := by
      rintro ⟨e, he, hnot⟩
      exact hnot (h.order.mem_iff.mpr he)
    have hlength : ((mergedRows chunks blockRows).drop 1).length = blockRows - 1 := by
      rw [mergedRows, List.length_drop, List.length_map, List.length_range]
    refine ⟨((mergedRows chunks blockRows).drop 1).map (·.map Prod.fst),
      ((mergedRows chunks blockRows).drop 1).map (·.map Prod.snd), ?_, ?_, ?_, fun row hlo hhi => ?_⟩
    · unfold mergeChunkCandidates
      rw [raiseIf_bind (not_not.mpr hblock), h.checked]
      show (raiseIf _ _ >>= _) = _
      rw [raiseIf_bind hexpected]
      rfl
    · rw [List.length_map, hlength]
    · rw [List.length_map, hlength]
    · obtain ⟨merged, hmerged, htop, hlisted, horder, hfirst⟩ := h.mergeRow_top hhi
      have hrow : ((mergedRows chunks blockRows).drop 1)[row - 1]? = some (merged.map fun t => (t, logits row t)) := by
        rw [List.getElem?_drop, mergedRows, List.getElem?_map, show 1 + (row - 1) = row by omega,
          List.getElem?_range hhi, Option.map_some]
        exact congrArg some hmerged
      refine ⟨merged, merged.map (logits row), ?_, ?_, ?_⟩
      · rw [List.getElem?_map, hrow, Option.map_some, List.map_map]
        exact congrArg some (List.map_id _)
      · rw [List.getElem?_map, hrow, Option.map_some, List.map_map]
        rfl
      · refine ⟨rfl, htop.length, htop.nodup, htop.member, hlisted, horder, hfirst, ?_⟩
        refine Top.values (tokensBelow_nodup _) ⟨htop.nodup, htop.length,
          fun t ht => mem_tokensBelow.mpr (htop.member t ht), fun t ht => htop.largest t (mem_tokensBelow.mp ht)⟩
          (horder.imp fun {a b} hab => ?_)
        rcases hab with hlt | ⟨heq, -⟩
        · exact hlt.le
        · exact heq.ge
  · intro chunks h
    cases hresult : mergeChunkCandidates finite chunks blockRows with
    | error e => exact ⟨e, rfl⟩
    | ok result =>
      unfold mergeChunkCandidates at hresult
      obtain ⟨_, -, hresult⟩ := bind_ok hresult
      obtain ⟨seen, hseen, hresult⟩ := bind_ok hresult
      obtain ⟨_, hmissing, -⟩ := bind_ok hresult
      exact absurd (h.refused hseen) (raiseIf_ok.mp hmissing)

end Merge

/-- The last 16 indices of a range. -/
def lastIndices (e : Nat × Nat × Nat) : List Int :=
  (List.range 16).map fun j : Nat => (e.2.2 : Int) - e.2.1 - 16 + (j : Int)

/-- A chunk of a head whose logits grow with the token. -/
def growingChunk (e : Nat × Nat × Nat) : CandidateChunk Int :=
  ⟨e.1, e.2.1, e.2.2, true, true, true,
    List.replicate 8 ((lastIndices e).map fun i => i + e.2.1 + e.1 * 124160), List.replicate 8 (lastIndices e)⟩

theorem growingChunk_supplies {e : Nat × Nat × Nat} (he : e ∈ expectedChunks) {row : Nat} (hrow : row < 8) :
    Supplies id (growingChunk e) row := by
  have hwide : ∀ e ∈ expectedChunks, e.2.1 + 16 ≤ e.2.2 := by decide
  have hwide := hwide e he
  have hindices : (growingChunk e).indices.getD row [] = lastIndices e := by
    rw [growingChunk, List.getD_eq_getElem?_getD, List.getElem?_replicate_of_lt hrow]
    rfl
  have hmem : ∀ i, i ∈ lastIndices e ↔ (e.2.2 : Int) - e.2.1 - 16 ≤ i ∧ i < (e.2.2 : Int) - e.2.1 := fun i => by
    unfold lastIndices
    rw [List.mem_map]
    constructor
    · rintro ⟨j, hj, rfl⟩
      rw [List.mem_range] at hj
      omega
    · rintro ⟨hlo, hhi⟩
      exact ⟨(i - ((e.2.2 : Int) - e.2.1 - 16)).toNat, List.mem_range.mpr (by omega), by omega⟩
  have hstart : (growingChunk e).start = e.2.1 := rfl
  have hstop : (growingChunk e).stop = e.2.2 := rfl
  refine ⟨?_, ?_, ?_, ?_, ?_⟩
  · rw [hindices, lastIndices, List.length_map, List.length_range]
  · rw [hindices]
    exact List.nodup_range.map fun _ _ h => by omega
  · rw [hindices, hstart, hstop]
    intro i hi
    have hi := (hmem i).mp hi
    omega
  · rw [CandidateChunk.tokens, hindices, List.map_id, growingChunk, List.getD_eq_getElem?_getD,
      List.getElem?_replicate_of_lt hrow]
    rfl
  · rw [hindices, hstart, hstop]
    intro i hlo hhi hnot j hj
    rw [hmem] at hnot hj
    simp only [id_eq]
    omega

/-- Chunks of growing logits, in the order of their ranges. -/
theorem merged_candidates_sample :
    ∃ tokens values, mergeChunkCandidates (fun _ => true) (expectedChunks.map growingChunk) 8 = .ok (tokens, values) ∧
      tokens.length = 7 ∧ values.length = 7 := by
  have hcomplete : Complete (fun _ => id) (fun _ : Int => true) 8 (expectedChunks.map growingChunk) := by
    refine ⟨?_, fun c hc => ?_, fun _ _ => rfl, fun c hc row hrow => ?_⟩
    · rw [List.map_map]
      exact (List.map_id expectedChunks).symm ▸ List.Perm.refl _
    · obtain ⟨e, -, rfl⟩ := List.mem_map.mp hc
      exact ⟨rfl, rfl, rfl, rfl, rfl⟩
    · obtain ⟨e, he, rfl⟩ := List.mem_map.mp hc
      exact growingChunk_supplies he hrow
  obtain ⟨tokens, values, hok, htokens, hvalues, -⟩ :=
    (merged_candidates (fun _ => true) 8).1 (fun _ => id) (expectedChunks.map growingChunk) (by decide) hcomplete
  exact ⟨tokens, values, hok, htokens, hvalues⟩

end BlackholeQwen.Dflash
