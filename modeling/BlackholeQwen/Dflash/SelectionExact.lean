import BlackholeQwen.Dflash.Selection
import BlackholeQwen.Lib.Indices

/-!
# The packed selection is each user's own

`searchUser` is the search of one user over the full codebooks: at each position it takes the first candidate of
greatest score after the token before (`searchUser_greedy`).

- `searchPositions_rows`: a batch searches its users side by side.
- `searchUser_renumber`: renumbering changes nothing but the names.
- `searchBlocks_rows`: nor does cutting the positions into blocks.
- `selectActiveCandidates_rows`: so every user of a batch gets its own search.
- `packed_selection`: `selectPacked` and `selectPackedBatched` agree with it.
- `splitSelection_operands`: the parts of a block are operands of both.
-/

namespace BlackholeQwen.Dflash.Selection

open Lib

variable {Hidden Code S : Type}

/-! ## The greedy search -/

theorem getElem?_eq_getD {α : Type} {xs : List α} {i : Nat} (h : i < xs.length) (d : α) :
    xs[i]? = some (xs.getD i d) := by
  rw [List.getD_eq_getElem?_getD, List.getElem?_eq_getElem h]
  rfl

section Greatest

variable [LinearOrder S]

/-- The first index of a greatest score. -/
def FirstGreatest (scores : List S) (j : Nat) : Prop :=
  ∃ s, scores[j]? = some s ∧ (∀ x ∈ scores, x ≤ s) ∧ ∀ (i : Nat) (x : S), i < j → scores[i]? = some x → x < s

theorem exists_greatest {scores : List S} (h : scores ≠ []) : ∃ s ∈ scores, ∀ x ∈ scores, x ≤ s := by
  induction scores with
  | nil => exact absurd rfl h
  | cons a scores ih =>
    by_cases hnil : scores = []
    · subst hnil
      exact ⟨a, List.mem_cons_self, fun x hx => (List.mem_singleton.mp hx).le⟩
    · obtain ⟨s, hs, hle⟩ := ih hnil
      rcases le_total a s with has | hsa
      · refine ⟨s, List.mem_cons_of_mem _ hs, fun x hx => ?_⟩
        rcases List.mem_cons.mp hx with rfl | hx
        · exact has
        · exact hle x hx
      · refine ⟨a, List.mem_cons_self, fun x hx => ?_⟩
        rcases List.mem_cons.mp hx with rfl | hx
        · exact le_rfl
        · exact (hle x hx).trans hsa

/-- `argmax` takes the first index of a greatest score. -/
theorem argmax_first {scores : List S} (h : scores ≠ []) : FirstGreatest scores (argmax scores) := by
  obtain ⟨s, hs, hle⟩ := exists_greatest h
  have hfound : argmax scores < scores.length := by
    refine List.findIdx_lt_length_of_exists ⟨s, hs, ?_⟩
    exact List.all_eq_true.mpr fun y hy => decide_eq_true (hle y hy)
  have hgreatest : ∀ x ∈ scores, x ≤ scores[argmax scores] := fun x hx =>
    of_decide_eq_true (List.all_eq_true.mp
      (List.findIdx_getElem (p := fun x => scores.all fun y => decide (y ≤ x)) (w := hfound)) x hx)
  refine ⟨scores[argmax scores], List.getElem?_eq_getElem hfound, hgreatest, fun i x hi hx => ?_⟩
  obtain ⟨hlt, rfl⟩ := List.getElem?_eq_some_iff.mp hx
  have hnot := List.not_of_lt_findIdx hi
  by_contra hge
  refine absurd (List.all_eq_true.mpr fun y hy => decide_eq_true ?_) (Bool.not_eq_true _ ▸ hnot)
  exact (hgreatest y hy).trans (not_lt.mp hge)

/-- A list has one first greatest score. -/
theorem FirstGreatest.unique {scores : List S} {i j : Nat} (hi : FirstGreatest scores i) (hj : FirstGreatest scores j) :
    i = j := by
  obtain ⟨x, hx, hxmax, hxfirst⟩ := hi
  obtain ⟨y, hy, hymax, hyfirst⟩ := hj
  rcases Nat.lt_trichotomy i j with hlt | heq | hlt
  · exact absurd (hxmax y (List.mem_of_getElem? hy)) (not_le.mpr (hyfirst i x hlt hx))
  · exact heq
  · exact absurd (hymax x (List.mem_of_getElem? hx)) (not_le.mpr (hxfirst j y hlt hy))

end Greatest

section Search

variable [Inhabited Hidden] [Inhabited Code] [Add S] [LinearOrder S]

/-- The search of one user. -/
def searchUser (sc : Scoring Hidden Code S) (books : Codebooks Code) (part : Part Hidden S) :
    List Nat → Nat → List (Nat × List S)
  | [], _ => []
  | position :: positions, predecessor => choose sc books part position predecessor ::
      searchUser sc books part positions (choose sc books part position predecessor).1

/-- A greedy path from a position on: each token is the first candidate of greatest score after the one before. -/
inductive Greedy (sc : Scoring Hidden Code S) (books : Codebooks Code) (part : Part Hidden S) :
    Nat → Nat → List Nat → Prop
  | done {position predecessor : Nat} (h : position = part.hidden.length) : Greedy sc books part position predecessor []
  | step {position predecessor j token : Nat} {tokens : List Nat} (hin : position < part.hidden.length)
      (hfirst : FirstGreatest (scoresAt sc books part position predecessor) j)
      (htoken : (part.candidates.getD position [])[j]? = some token)
      (h : Greedy sc books part (position + 1) token tokens) :
        Greedy sc books part position predecessor (token :: tokens)

/-- The operands determine the greedy path. -/
theorem Greedy.unique {sc : Scoring Hidden Code S} {books : Codebooks Code} {part : Part Hidden S}
    {position predecessor : Nat} {xs ys : List Nat} (hx : Greedy sc books part position predecessor xs)
    (hy : Greedy sc books part position predecessor ys) : xs = ys := by
  induction hx generalizing ys with
  | done h =>
    cases hy with
    | done _ => rfl
    | step hin _ _ _ => omega
  | step hin hfirst htoken _ ih =>
    cases hy with
    | done h => omega
    | step _ hfirst' htoken' h' =>
      obtain rfl := hfirst.unique hfirst'
      obtain rfl := Option.some.inj (htoken.symm.trans htoken')
      rw [ih h']

variable {sc : Scoring Hidden Code S} {books : Codebooks Code} {part : Part Hidden S} {positions width : Nat}

variable (sc books) in
omit [LinearOrder S] in
/-- A position of a part has as many candidates as scores. -/
theorem scoresAt_length (h : part.Shaped positions width) {position : Nat} (hp : position < positions)
    (predecessor : Nat) :
    (part.candidates.getD position []).length = width ∧
      (scoresAt sc books part position predecessor).length = width := by
  obtain ⟨-, hcandidates, hunary, hrows, hscores⟩ := h
  have hrow : ∀ {β : Type} {rows : List (List β)}, rows.length = positions → (∀ row ∈ rows, row.length = width) →
      (rows.getD position []).length = width := by
    intro β rows hlength hall
    rw [List.getD_eq_getElem?_getD, List.getElem?_eq_getElem (by omega)]
    exact hall _ (List.getElem_mem _)
  refine ⟨hrow hcandidates hrows, ?_⟩
  rw [scoresAt, List.length_zipWith, hrow hcandidates hrows, hrow hunary hscores, Nat.min_self]

variable (sc books) in
/-- The choice is a candidate of the position. -/
theorem choose_token (h : part.Shaped positions width) (hwidth : 1 ≤ width) {position : Nat} (hp : position < positions)
    (predecessor : Nat) :
    argmax (scoresAt sc books part position predecessor) < (part.candidates.getD position []).length ∧
      FirstGreatest (scoresAt sc books part position predecessor)
        (argmax (scoresAt sc books part position predecessor)) := by
  obtain ⟨hcandidates, hscores⟩ := scoresAt_length sc books h hp predecessor
  have hfirst := argmax_first (List.length_pos_iff.mp (by rw [hscores]; exact hwidth))
  obtain ⟨s, hget, -⟩ := id hfirst
  exact ⟨by rw [hcandidates, ← hscores]; exact (List.getElem?_eq_some_iff.mp hget).1, hfirst⟩

variable (sc books) in
/-- **The search is greedy.** -/
theorem searchUser_greedy (h : part.Shaped positions width) (hwidth : 1 ≤ width) (n : Nat) :
    ∀ {position : Nat} (predecessor : Nat), position + n = positions →
      Greedy sc books part position predecessor
        ((searchUser sc books part (List.range' position n) predecessor).map Prod.fst) := by
  induction n with
  | zero => exact fun predecessor hend => .done (by rw [h.1]; exact hend)
  | succ n ih =>
    intro position predecessor hend
    rw [List.range'_succ, searchUser, List.map_cons]
    obtain ⟨hlt, hfirst⟩ := choose_token sc books h hwidth (show position < positions by omega) predecessor
    refine .step (h.1 ▸ (by omega)) hfirst ?_ (ih _ (by omega))
    exact getElem?_eq_getD hlt 0

theorem searchUser_length (ps : List Nat) (predecessor : Nat) :
    (searchUser sc books part ps predecessor).length = ps.length := by
  induction ps generalizing predecessor with
  | nil => rfl
  | cons p ps ih => exact congrArg (· + 1) (ih _)

/-- The token before the rest of a search. -/
def lastToken (rows : List (Nat × List S)) (predecessor : Nat) : Nat := (rows.getLast?.map Prod.fst).getD predecessor

/-- A search in two parts: the second goes on from the last token of the first. -/
theorem searchUser_append (ps qs : List Nat) (predecessor : Nat) : searchUser sc books part (ps ++ qs) predecessor =
    searchUser sc books part ps predecessor ++
      searchUser sc books part qs (lastToken (searchUser sc books part ps predecessor) predecessor) := by
  induction ps generalizing predecessor with
  | nil => rfl
  | cons p ps ih =>
    have hlast : lastToken (searchUser sc books part ps (choose sc books part p predecessor).1)
        (choose sc books part p predecessor).1 =
          lastToken (choose sc books part p predecessor ::
            searchUser sc books part ps (choose sc books part p predecessor).1) predecessor := by
      cases hrest : searchUser sc books part ps (choose sc books part p predecessor).1 with
      | nil => rfl
      | cons r rest =>
        unfold lastToken
        rw [List.getLast?_cons_cons]
        cases hget : (r :: rest).getLast? with
        | none => simp at hget
        | some t => rfl
    rw [List.cons_append, searchUser, searchUser, ih, List.cons_append, hlast]

end Search

/-! ## A batch -/

section Batch

variable [Inhabited Hidden] [Inhabited Code] [Add S] [LinearOrder S]

/-- The rows of a batch's search hold the search of each user. -/
structure Rows (sc : Scoring Hidden Code S) (books : Codebooks Code) (batch : List (Part Hidden S))
    (positions : List Nat)
    (predecessors : List Nat) (rows : List (List (Nat × List S))) : Prop where
  length : ∀ row ∈ rows, row.length = batch.length
  user : ∀ (u : Nat) (part : Part Hidden S) (predecessor : Nat), batch[u]? = some part →
    predecessors[u]? = some predecessor →
    rows.map (·.getD u default) = searchUser sc books part positions predecessor

/-- The scores of every user's search are finite. -/
def FiniteSearch (sc : Scoring Hidden Code S) (books : Codebooks Code) (batch : List (Part Hidden S))
    (positions predecessors : List Nat) : Prop :=
  ∀ (u : Nat) (part : Part Hidden S) (predecessor : Nat), batch[u]? = some part → predecessors[u]? = some predecessor →
    ∀ row ∈ searchUser sc books part positions predecessor, ∀ s ∈ row.2, sc.finite s = true

variable {sc : Scoring Hidden Code S} {books : Codebooks Code} {batch : List (Part Hidden S)}

/-- **Side by side.** A batch searches each of its users. -/
theorem searchPositions_rows {positions predecessors : List Nat} (hlength : predecessors.length = batch.length)
    (hfinite : FiniteSearch sc books batch positions predecessors) :
    ∃ rows, searchPositions sc books batch positions predecessors = .ok rows ∧
      Rows sc books batch positions predecessors rows := by
  induction positions generalizing predecessors with
  | nil => exact ⟨[], rfl, fun _ h => (by cases h), fun _ _ _ _ _ => rfl⟩
  | cons p ps ih =>
    have hchosen : ∀ (u : Nat) (part : Part Hidden S) (predecessor : Nat), batch[u]? = some part →
        predecessors[u]? = some predecessor →
          (chooseAll sc books batch p predecessors)[u]? =
            some (choose sc books part p predecessor) := fun u part predecessor hpart hpredecessor => by
      rw [chooseAll, List.getElem?_zipWith, hpart, hpredecessor]
    have hall : ¬∃ row ∈ chooseAll sc books batch p predecessors,
        ∃ s ∈ row.2, sc.finite s = false := by
      rintro ⟨row, hrow, s, hs, hbad⟩
      obtain ⟨u, hu⟩ := List.getElem?_of_mem hrow
      obtain ⟨part, predecessor, hpart, hpredecessor, rfl⟩ := List.getElem?_zipWith_eq_some.mp hu
      have hgood := hfinite u part predecessor hpart hpredecessor _ List.mem_cons_self s hs
      rw [hgood] at hbad
      cases hbad
    have hnext : ∀ (u : Nat) (part : Part Hidden S) (token : Nat), batch[u]? = some part →
        ((chooseAll sc books batch p predecessors).map
          Prod.fst)[u]? = some token → ∃ predecessor, predecessors[u]? = some predecessor ∧
            token = (choose sc books part p predecessor).1 := by
      intro u part token hpart htoken
      have hlt : u < predecessors.length := hlength ▸ (List.getElem?_eq_some_iff.mp hpart).1
      have hpredecessor := List.getElem?_eq_getElem hlt
      rw [List.getElem?_map, hchosen u part _ hpart hpredecessor] at htoken
      exact ⟨_, hpredecessor, (Option.some.inj htoken).symm⟩
    have hwhole : (chooseAll sc books batch p predecessors).length = batch.length := by
      rw [chooseAll, List.length_zipWith, hlength, Nat.min_self]
    have hnextfinite : FiniteSearch sc books batch ps ((chooseAll sc books batch p predecessors).map Prod.fst) := by
      intro u part token hpart htoken row hrow
      obtain ⟨predecessor, hpredecessor, rfl⟩ := hnext u part token hpart htoken
      exact hfinite u part predecessor hpart hpredecessor row (List.mem_cons_of_mem _ hrow)
    obtain ⟨rest, hrest, hrows⟩ := ih ((List.length_map _).trans hwhole) hnextfinite
    refine ⟨chooseAll sc books batch p predecessors :: rest, ?_, ?_, ?_⟩
    · rw [searchPositions]
      show (raiseIf _ _ >>= _) = _
      rw [raiseIf_bind hall, hrest]
      rfl
    · intro row hrow
      rcases List.mem_cons.mp hrow with rfl | hrow
      · exact hwhole
      · exact hrows.length row hrow
    · intro u part predecessor hpart hpredecessor
      have hget := hchosen u part predecessor hpart hpredecessor
      rw [List.map_cons, searchUser, List.getD_eq_getElem?_getD, hget]
      refine congrArg (choose sc books part p predecessor :: ·) (hrows.user u part _ hpart ?_)
      rw [List.getElem?_map, hget]
      rfl

end Batch

/-! ## Renumbering -/

section Renumber

variable [Inhabited Code]
variable {sc : Scoring Hidden Code S} {books : Codebooks Code} {part : Part Hidden S} {positions width : Nat}
  {ids : List Nat}

/-- The codes of the ids of a batch. -/
def localBooks (books : Codebooks Code) (ids : List Nat) : Codebooks Code :=
  ⟨gather books.predecessors ids, gather books.successors ids⟩

/-- An id's code, by its new name. -/
theorem gather_idxOf (codes : List Code) {x : Nat} (h : x ∈ ids) :
    (gather codes ids).getD (ids.idxOf x) default = codes.getD x default := by
  rw [gather, List.getD_eq_getElem?_getD, List.getElem?_map, List.getElem?_idxOf h]
  rfl

theorem zipWith_congr_left {α β γ : Type} {f g : α → β → γ} {xs : List α} (h : ∀ x ∈ xs, f x = g x) (ys : List β) :
    List.zipWith f xs ys = List.zipWith g xs ys := by
  induction xs generalizing ys with
  | nil => rfl
  | cons x xs ih =>
    cases ys with
    | nil => rfl
    | cons y ys =>
      rw [List.zipWith_cons_cons, List.zipWith_cons_cons, h x List.mem_cons_self,
        ih fun z hz => h z (List.mem_cons_of_mem _ hz)]

theorem renumber_row (f : Nat → Nat) (part : Part Hidden S) (position : Nat) :
    (part.renumber f).candidates.getD position [] = (part.candidates.getD position []).map f := by
  rw [Part.renumber, List.getD_eq_getElem?_getD, List.getD_eq_getElem?_getD, List.getElem?_map]
  cases part.candidates[position]? <;> rfl

/-- The ids of a part. -/
def Known (ids : List Nat) (part : Part Hidden S) : Prop := ∀ row ∈ part.candidates, ∀ t ∈ row, t ∈ ids

theorem Known.row (h : Known ids part) (position : Nat) : ∀ t ∈ part.candidates.getD position [], t ∈ ids := by
  rw [List.getD_eq_getElem?_getD]
  cases hrow : part.candidates[position]? with
  | none => exact fun t ht => (by cases ht)
  | some row => exact h row (List.mem_of_getElem? hrow)

variable [Inhabited Hidden] [Add S]

/-- Renumbering keeps the scores. -/
theorem scoresAt_renumber (hknown : Known ids part) {predecessor : Nat} (hpredecessor : predecessor ∈ ids)
    (position : Nat) : scoresAt sc (localBooks books ids) (part.renumber ids.idxOf) position (ids.idxOf predecessor) =
      scoresAt sc books part position predecessor := by
  unfold scoresAt
  rw [renumber_row, List.zipWith_map_left]
  refine zipWith_congr_left (fun candidate hcandidate => ?_) _
  funext unary
  rw [localBooks, gather_idxOf _ hpredecessor, gather_idxOf _ (hknown.row position candidate hcandidate)]
  rfl

variable [LinearOrder S]

/-- The tokens of a search are candidates. -/
theorem searchUser_known (h : part.Shaped positions width) (hwidth : 1 ≤ width) (hknown : Known ids part)
    {ps : List Nat} (hps : ∀ p ∈ ps, p < positions) (predecessor : Nat) :
    ∀ row ∈ searchUser sc books part ps predecessor, row.1 ∈ ids := by
  induction ps generalizing predecessor with
  | nil => exact fun row hrow => (by cases hrow)
  | cons p ps ih =>
    intro row hrow
    rcases List.mem_cons.mp hrow with rfl | hrow
    · obtain ⟨hlt, -⟩ := choose_token sc books h hwidth (hps p List.mem_cons_self) predecessor
      exact hknown.row p _ (List.mem_of_getElem? (getElem?_eq_getD hlt 0))
    · exact ih (fun q hq => hps q (List.mem_cons_of_mem _ hq)) _ row hrow

/-- **Renumbering changes nothing but the names.** -/
theorem searchUser_renumber (h : part.Shaped positions width) (hwidth : 1 ≤ width) (hknown : Known ids part)
    {ps : List Nat} (hps : ∀ p ∈ ps, p < positions) {predecessor : Nat} (hpredecessor : predecessor ∈ ids) :
    searchUser sc (localBooks books ids) (part.renumber ids.idxOf) ps (ids.idxOf predecessor) =
      (searchUser sc books part ps predecessor).map (fun row => (ids.idxOf row.1, row.2)) := by
  induction ps generalizing predecessor with
  | nil => rfl
  | cons p ps ih =>
    obtain ⟨hlt, -⟩ := choose_token sc books h hwidth (hps p List.mem_cons_self) predecessor
    have hmem : (choose sc books part p predecessor).1 ∈ ids :=
      hknown.row p _ (List.mem_of_getElem? (getElem?_eq_getD hlt 0))
    have hchoose : choose sc (localBooks books ids) (part.renumber ids.idxOf) p (ids.idxOf predecessor) =
        (ids.idxOf (choose sc books part p predecessor).1, (choose sc books part p predecessor).2) := by
      unfold choose
      rw [scoresAt_renumber hknown hpredecessor, renumber_row, List.getD_eq_getElem?_getD, List.getElem?_map,
        getElem?_eq_getD hlt 0]
      rfl
    rw [searchUser, searchUser, hchoose, List.map_cons, ih (fun q hq => hps q (List.mem_cons_of_mem _ hq)) hmem]

end Renumber

/-! ## The checks -/

/-- Operands that the search accepts. -/
structure Operands (sc : Scoring Hidden Code S) (books : Codebooks Code) (batch : List (Part Hidden S))
    (anchors : List Nat) (positions width : Nat) : Prop where
  nonempty : batch ≠ []
  codebooks : books.successors.length = books.predecessors.length
  candidates : 1 ≤ width ∧ width ≤ 16
  positive : 1 ≤ positions
  shaped : ∀ part ∈ batch, part.Shaped positions width
  seeded : anchors.length = batch.length
  hidden : ∀ part ∈ batch, ∀ h ∈ part.hidden, sc.finiteHidden h = true
  unary : ∀ part ∈ batch, ∀ row ∈ part.unary, ∀ s ∈ row, sc.finite s = true
  codes : ∀ c ∈ books.predecessors ++ books.successors, sc.finiteCode c = true
  ids : ∀ part ∈ batch, ∀ row ∈ part.candidates, ∀ t ∈ row, t < books.predecessors.length
  anchorIds : ∀ t ∈ anchors, t < books.predecessors.length
  unique : ∀ part ∈ batch, ∀ row ∈ part.candidates, row.Nodup

namespace Operands

variable {sc : Scoring Hidden Code S} {books : Codebooks Code} {batch : List (Part Hidden S)} {anchors : List Nat}
  {positions width : Nat}

/-- The shape of a batch is its first part's. -/
theorem shape (h : Operands sc books batch anchors positions width) :
    positionsOf batch = positions ∧ widthOf batch = width := by
  obtain ⟨part, rest, rfl⟩ := List.exists_cons_of_ne_nil h.nonempty
  obtain ⟨hhidden, hcandidates, -, hrows, -⟩ := h.shaped part List.mem_cons_self
  refine ⟨hhidden, ?_⟩
  obtain ⟨row, rows, hrow⟩ := List.exists_cons_of_length_pos (hcandidates ▸ h.positive : 0 < part.candidates.length)
  show (part.candidates.head?.map List.length).getD 0 = width
  rw [hrow]
  exact hrows row (hrow ▸ List.mem_cons_self)

/-- The vocabulary has the candidates of a position. -/
theorem width_le (h : Operands sc books batch anchors positions width) : width ≤ books.predecessors.length := by
  obtain ⟨part, rest, rfl⟩ := List.exists_cons_of_ne_nil h.nonempty
  obtain ⟨-, hcandidates, -, hrows, -⟩ := h.shaped part List.mem_cons_self
  obtain ⟨row, rows, hrow⟩ := List.exists_cons_of_length_pos (hcandidates ▸ h.positive : 0 < part.candidates.length)
  have hmem : row ∈ part.candidates := hrow ▸ List.mem_cons_self
  rw [← hrows row hmem]
  exact Indices.length_le (h.unique part List.mem_cons_self row hmem) (h.ids part List.mem_cons_self row hmem)

/-- Eight positions of such operands pass the checks. -/
theorem validated (h : Operands sc books batch anchors positions width) (hblock : positions ≤ 8) :
    validateSelectorOperands sc books batch anchors = .ok () := by
  have hwidth := h.width_le
  have hcandidates := h.candidates
  have hsome := h.positive
  have hshaped : ¬∃ part ∈ batch, ¬part.Shaped positions width := by
    rintro ⟨part, hpart, hnot⟩
    exact hnot (h.shaped part hpart)
  unfold validateSelectorOperands
  rw [h.shape.1, h.shape.2, raiseIf_bind, raiseIf_bind, raiseIf_bind, raiseIf_ok]
  · rintro ⟨part, hpart, row, hrow, hnot⟩
    exact hnot (h.unique part hpart row hrow)
  · rintro (⟨part, hpart, row, hrow, t, ht, hle⟩ | ⟨t, ht, hle⟩)
    · exact absurd (h.ids part hpart row hrow t ht) (Nat.not_lt.mpr hle)
    · exact absurd (h.anchorIds t ht) (Nat.not_lt.mpr hle)
  · rintro (⟨part, hpart, row, hrow, hbad⟩ | ⟨part, hpart, row, hrow, s, hs, hbad⟩ | ⟨c, hc, hbad⟩ | ⟨c, hc, hbad⟩)
    · exact absurd (h.hidden part hpart row hrow) (hbad ▸ Bool.false_ne_true)
    · exact absurd (h.unary part hpart row hrow s hs) (hbad ▸ Bool.false_ne_true)
    · exact absurd (h.codes c (List.mem_append_left _ hc)) (hbad ▸ Bool.false_ne_true)
    · exact absurd (h.codes c (List.mem_append_right _ hc)) (hbad ▸ Bool.false_ne_true)
  · rintro (hnil | hpositions | hvocabulary | hcodebooks | hbound | hshape | hlength)
    · exact h.nonempty hnil
    · omega
    · omega
    · exact hcodebooks h.codebooks
    · exact hbound ⟨hcandidates.1, by omega⟩
    · exact hshaped hshape
    · exact hlength h.seeded

/-- The ids that the operands mention. -/
theorem mem_uniqueIds : ∀ {t : Nat}, t ∈ uniqueIds batch anchors ↔
    t ∈ anchors ∨ ∃ part ∈ batch, ∃ row ∈ part.candidates, t ∈ row := by
  intro t
  unfold uniqueIds
  rw [List.mem_mergeSort, List.mem_dedup, List.mem_append, List.mem_flatMap]
  simp only [List.mem_flatten]

/-- The candidates of a batch are among its ids. -/
theorem known {part : Part Hidden S} (hpart : part ∈ batch) : Known (uniqueIds batch anchors) part :=
  fun row hrow _ ht => mem_uniqueIds.mpr (.inr ⟨part, hpart, row, hrow, ht⟩)

/-- An id of the operands is one of the vocabulary. -/
theorem uniqueIds_lt (h : Operands sc books batch anchors positions width) :
    ∀ t ∈ uniqueIds batch anchors, t < books.predecessors.length := by
  intro t ht
  rcases mem_uniqueIds.mp ht with hanchor | ⟨part, hpart, row, hrow, hmem⟩
  · exact h.anchorIds t hanchor
  · exact h.ids part hpart row hrow t hmem

/-- A part's shape does not depend on its names. -/
theorem shaped_renumber {part : Part Hidden S} (h : part.Shaped positions width) (f : Nat → Nat) :
    (part.renumber f).Shaped positions width := by
  obtain ⟨hhidden, hcandidates, hunary, hrows, hscores⟩ := h
  refine ⟨hhidden, (List.length_map _).trans hcandidates, hunary, fun row hrow => ?_, hscores⟩
  obtain ⟨row, hold, rfl⟩ := List.mem_map.mp hrow
  exact (List.length_map _).trans (hrows row hold)

/-- **Renumbered operands are accepted.** -/
theorem renumbered [Inhabited Code] (h : Operands sc books batch anchors positions width) {ids : List Nat}
    (hids : ids = uniqueIds batch anchors) :
    Operands sc (localBooks books ids) (batch.map (Part.renumber ids.idxOf))
      (anchors.map ids.idxOf) positions width where
  nonempty := by simpa using h.nonempty
  codebooks := by simp [localBooks, gather]
  candidates := h.candidates
  positive := h.positive
  shaped := by
    intro part hpart
    obtain ⟨part, hmem, rfl⟩ := List.mem_map.mp hpart
    exact shaped_renumber (h.shaped part hmem) _
  seeded := by rw [List.length_map, List.length_map, h.seeded]
  hidden := by
    intro part hpart
    obtain ⟨part, hmem, rfl⟩ := List.mem_map.mp hpart
    exact h.hidden part hmem
  unary := by
    intro part hpart
    obtain ⟨part, hmem, rfl⟩ := List.mem_map.mp hpart
    exact h.unary part hmem
  codes := by
    subst hids
    have hcode : ∀ codes : List Code, codes.length = books.predecessors.length →
        (∀ c ∈ codes, sc.finiteCode c = true) →
          ∀ c ∈ gather codes (uniqueIds batch anchors), sc.finiteCode c = true := by
      intro codes hlength hall c hc
      obtain ⟨t, ht, rfl⟩ := List.mem_map.mp hc
      have hlt : t < codes.length := hlength ▸ h.uniqueIds_lt t ht
      exact hall _ (List.mem_of_getElem? (getElem?_eq_getD hlt default))
    intro c hc
    rcases List.mem_append.mp hc with hc | hc
    · exact hcode _ rfl (fun c hc => h.codes c (List.mem_append_left _ hc)) c hc
    · exact hcode _ h.codebooks (fun c hc => h.codes c (List.mem_append_right _ hc)) c hc
  ids := by
    subst hids
    intro part hpart row hrow t ht
    obtain ⟨part, hmem, rfl⟩ := List.mem_map.mp hpart
    obtain ⟨row, hold, rfl⟩ := List.mem_map.mp hrow
    obtain ⟨t, hseen, rfl⟩ := List.mem_map.mp ht
    rw [localBooks, gather, List.length_map]
    exact List.idxOf_lt_length_of_mem (known hmem row hold t hseen)
  anchorIds := by
    subst hids
    intro t ht
    obtain ⟨t, hseen, rfl⟩ := List.mem_map.mp ht
    rw [localBooks, gather, List.length_map]
    exact List.idxOf_lt_length_of_mem (mem_uniqueIds.mpr (.inl hseen))
  unique := by
    subst hids
    intro part hpart row hrow
    obtain ⟨part, hmem, rfl⟩ := List.mem_map.mp hpart
    obtain ⟨row, hold, rfl⟩ := List.mem_map.mp hrow
    refine List.Nodup.map_on (fun x hx y _ hxy => ?_) (h.unique part hmem row hold)
    exact (List.idxOf_inj (known hmem row hold x hx)).mp hxy

/-- A block of a part has its shape. -/
theorem shaped_slice {part : Part Hidden S} (h : part.Shaped positions width) (start : Nat) :
    (part.slice start).Shaped (min 8 (positions - start)) width := by
  obtain ⟨hhidden, hcandidates, hunary, hrows, hscores⟩ := h
  refine ⟨?_, ?_, ?_, fun row hrow => ?_, fun row hrow => ?_⟩
  · rw [Part.slice, List.length_take, List.length_drop, hhidden]
  · rw [Part.slice, List.length_take, List.length_drop, hcandidates]
  · rw [Part.slice, List.length_take, List.length_drop, hunary]
  · exact hrows row (List.mem_of_mem_drop (List.mem_of_mem_take hrow))
  · exact hscores row (List.mem_of_mem_drop (List.mem_of_mem_take hrow))

/-- **A block of accepted operands is accepted**, with anchors of the vocabulary. -/
theorem sliced (h : Operands sc books batch anchors positions width) {start : Nat} (hstart : start < positions)
    {next : List Nat} (hlength : next.length = batch.length) (hnext : ∀ t ∈ next, t < books.predecessors.length) :
    Operands sc books (batch.map (Part.slice · start)) next (min 8 (positions - start)) width where
  nonempty := by simpa using h.nonempty
  codebooks := h.codebooks
  candidates := h.candidates
  positive := by omega
  shaped := by
    intro part hpart
    obtain ⟨part, hmem, rfl⟩ := List.mem_map.mp hpart
    exact shaped_slice (h.shaped part hmem) start
  seeded := by rw [hlength, List.length_map]
  hidden := by
    intro part hpart x hx
    obtain ⟨part, hmem, rfl⟩ := List.mem_map.mp hpart
    exact h.hidden part hmem x (List.mem_of_mem_drop (List.mem_of_mem_take hx))
  unary := by
    intro part hpart row hrow
    obtain ⟨part, hmem, rfl⟩ := List.mem_map.mp hpart
    exact h.unary part hmem row (List.mem_of_mem_drop (List.mem_of_mem_take hrow))
  codes := h.codes
  ids := by
    intro part hpart row hrow
    obtain ⟨part, hmem, rfl⟩ := List.mem_map.mp hpart
    exact h.ids part hmem row (List.mem_of_mem_drop (List.mem_of_mem_take hrow))
  anchorIds := hnext
  unique := by
    intro part hpart row hrow
    obtain ⟨part, hmem, rfl⟩ := List.mem_map.mp hpart
    exact h.unique part hmem row (List.mem_of_mem_drop (List.mem_of_mem_take hrow))

end Operands

/-! ## Blocks -/

section Blocks

/-- The token before the rest of a search has any property that the candidates and the first one have. -/
theorem lastToken_mem {predecessor : Nat} {rows : List (Nat × List S)} {ids : List Nat}
    (hrows : ∀ row ∈ rows, row.1 ∈ ids)
    (hpredecessor : predecessor ∈ ids) : lastToken rows predecessor ∈ ids := by
  rw [lastToken]
  cases hlast : rows.getLast? with
  | none => exact hpredecessor
  | some row => exact hrows row (List.mem_of_getLast? hlast)

variable [Inhabited Hidden] [Inhabited Code] [Add S] [LinearOrder S]
variable {sc : Scoring Hidden Code S} {books : Codebooks Code} {part : Part Hidden S} {positions width : Nat}

theorem slice_getD {α : Type} (xs : List α) (start : Nat) {i : Nat} (hi : i < 8) (d : α) :
    ((xs.drop start).take 8).getD i d = xs.getD (start + i) d := by
  rw [List.getD_eq_getElem?_getD, List.getElem?_take_of_lt hi, List.getElem?_drop, List.getD_eq_getElem?_getD]

/-- A block of a part searches its own positions. -/
theorem searchUser_slice (start : Nat) {ps : List Nat} (hps : ∀ p ∈ ps, p < 8) (predecessor : Nat) :
    searchUser sc books (part.slice start) ps predecessor =
      searchUser sc books part (ps.map (start + ·)) predecessor := by
  induction ps generalizing predecessor with
  | nil => rfl
  | cons p ps ih =>
    have hchoose : ∀ predecessor, choose sc books (part.slice start) p predecessor =
        choose sc books part (start + p) predecessor := fun predecessor => by
      have hp := hps p List.mem_cons_self
      unfold choose scoresAt Part.slice
      rw [slice_getD _ _ hp, slice_getD _ _ hp, slice_getD _ _ hp]
    rw [searchUser, List.map_cons, searchUser, hchoose, ih fun q hq => hps q (List.mem_cons_of_mem _ hq)]

/-- The positions from a block on. -/
theorem positions_split (c positions : Nat) : List.range' (8 * c) (positions - 8 * c) =
    List.range' (8 * c) (min 8 (positions - 8 * c)) ++ List.range' (8 * (c + 1)) (positions - 8 * (c + 1)) := by
  rcases Nat.le_total 8 (positions - 8 * c) with hfull | hlast
  · rw [Nat.min_eq_left hfull, show 8 * (c + 1) = 8 * c + 1 * 8 by omega, List.range'_append]
    exact congrArg (List.range' (8 * c)) (by omega)
  · rw [Nat.min_eq_right hlast, show positions - 8 * (c + 1) = 0 by omega, List.range'_zero, List.append_nil]

variable {batch : List (Part Hidden S)} {anchors : List Nat}

/-- A search has rows for its positions. -/
theorem Rows.nonempty {ps predecessors : List Nat} {rows : List (List (Nat × List S))}
    (h : Rows sc books batch ps predecessors rows) (hps : ps ≠ []) {u predecessor : Nat} (hpart : batch[u]? = some part)
    (hpredecessor : predecessors[u]? = some predecessor) : rows ≠ [] := by
  rintro rfl
  have hlength := congrArg List.length (h.user u part predecessor hpart hpredecessor)
  rw [searchUser_length] at hlength
  exact hps (List.length_eq_zero_iff.mp hlength.symm)

/-- The last choice for a user. -/
theorem Rows.last {ps predecessors : List Nat} {rows : List (List (Nat × List S))}
    (h : Rows sc books batch ps predecessors rows) (hps : ps ≠ []) {u predecessor : Nat} (hpart : batch[u]? = some part)
    (hpredecessor : predecessors[u]? = some predecessor) : ((rows.getLast?.getD []).map Prod.fst)[u]? =
      some (lastToken (searchUser sc books part ps predecessor) predecessor) := by
  have hnonempty := h.nonempty hps hpart hpredecessor
  have hlt : u < (rows.getLast hnonempty).length := by
    rw [h.length _ (List.getLast_mem hnonempty)]
    exact (List.getElem?_eq_some_iff.mp hpart).1
  rw [← h.user u part predecessor hpart hpredecessor, lastToken, List.getLast?_map,
    List.getLast?_eq_some_getLast hnonempty, Option.getD_some, List.getElem?_map, getElem?_eq_getD hlt default]
  rfl

/-- A block searches its own positions of every user. -/
theorem block_rows (h : Operands sc books batch anchors positions width) {start : Nat} (hstart : start < positions)
    {next : List Nat} (hlength : next.length = batch.length) (hnext : ∀ t ∈ next, t < books.predecessors.length)
    (hfinite : FiniteSearch sc books batch (List.range' start (min 8 (positions - start))) next) :
    ∃ rows, greedySelectorReference sc books (batch.map (Part.slice · start)) next = .ok rows ∧
      Rows sc books batch (List.range' start (min 8 (positions - start))) next rows := by
  have hblock := h.sliced hstart hlength hnext
  have hslice : ∀ (part : Part Hidden S) (predecessor : Nat),
      searchUser sc books (part.slice start) (List.range (min 8 (positions - start))) predecessor =
        searchUser sc books part (List.range' start (min 8 (positions - start))) predecessor :=
      fun part predecessor => by
    rw [searchUser_slice _ (fun p hp => by have := List.mem_range.mp hp; omega), List.range_eq_range',
      List.map_add_range', Nat.add_zero]
  have hblockfinite : FiniteSearch sc books (batch.map (Part.slice · start))
      (List.range (min 8 (positions - start))) next := by
    intro u sliced predecessor hsliced hpredecessor row hrow
    rw [List.getElem?_map] at hsliced
    obtain ⟨part, hpart, rfl⟩ := Option.map_eq_some_iff.mp hsliced
    rw [hslice] at hrow
    exact hfinite u part predecessor hpart hpredecessor row hrow
  obtain ⟨rows, hok, hrows⟩ := searchPositions_rows (hlength.trans (List.length_map _).symm) hblockfinite
  refine ⟨rows, ?_, fun row hrow => (hrows.length row hrow).trans (List.length_map _), ?_⟩
  · rw [greedySelectorReference, hblock.validated (Nat.min_le_left _ _), hblock.shape.1]
    exact hok
  · intro u part predecessor hpart hpredecessor
    rw [hrows.user u (part.slice start) predecessor (by rw [List.getElem?_map, hpart]; rfl) hpredecessor, hslice]

/-- The choices before the next block are tokens of the vocabulary. -/
theorem block_next (h : Operands sc books batch anchors positions width) {ps next : List Nat}
    {rows : List (List (Nat × List S))} (hrows : Rows sc books batch ps next rows) (hps : ps ≠ [])
    (hin : ∀ p ∈ ps, p < positions) (hlength : next.length = batch.length)
    (hnext : ∀ t ∈ next, t < books.predecessors.length) : ((rows.getLast?.getD []).map Prod.fst).length = batch.length ∧
      ∀ t ∈ (rows.getLast?.getD []).map Prod.fst, t < books.predecessors.length := by
  obtain ⟨first, others, hbatch⟩ := List.exists_cons_of_ne_nil h.nonempty
  have hfirst : batch[0]? = some first := by rw [hbatch]; rfl
  have hseed := List.getElem?_eq_getElem (show 0 < next.length from hlength ▸ List.length_pos_iff.mpr h.nonempty)
  have hnonempty := hrows.nonempty hps hfirst hseed
  have hwhole : ((rows.getLast?.getD []).map Prod.fst).length = batch.length := by
    rw [List.length_map, List.getLast?_eq_some_getLast hnonempty]
    exact hrows.length _ (List.getLast_mem hnonempty)
  refine ⟨hwhole, fun t ht => ?_⟩
  obtain ⟨u, hu⟩ := List.getElem?_of_mem ht
  have hlt : u < batch.length := hwhole ▸ (List.getElem?_eq_some_iff.mp hu).1
  have hpart := List.getElem?_eq_getElem hlt
  have hmem := List.getElem_mem hlt
  have hpredecessor := List.getElem?_eq_getElem (show u < next.length from hlength ▸ hlt)
  rw [hrows.last hps hpart hpredecessor, Option.some.injEq] at hu
  refine List.mem_range.mp (hu ▸ lastToken_mem (searchUser_known (h.shaped _ hmem) h.candidates.1 ?_ hin _) ?_)
  · exact fun row hrow t ht => List.mem_range.mpr (h.ids _ hmem row hrow t ht)
  · exact List.mem_range.mpr (hnext _ (List.getElem_mem _))

/-- **Blocks.** Cutting the positions into blocks of 8 changes nothing: the last choices of a block anchor the next. -/
theorem searchBlocks_rows (h : Operands sc books batch anchors positions width) (n : Nat) :
    ∀ (c : Nat) (next : List Nat), c + n = (positions + 7) / 8 → next.length = batch.length →
      (∀ t ∈ next, t < books.predecessors.length) →
        FiniteSearch sc books batch (List.range' (8 * c) (positions - 8 * c)) next →
          ∃ rows, searchBlocks sc books batch ((List.range' c n).map (· * 8)) next = .ok rows ∧
            Rows sc books batch (List.range' (8 * c) (positions - 8 * c)) next rows := by
  induction n with
  | zero =>
    intro c next hend _ _ _
    rw [show positions - 8 * c = 0 by omega]
    exact ⟨[], rfl, fun _ hrow => (by cases hrow), fun _ _ _ _ _ => rfl⟩
  | succ n ih =>
    intro c next hend hlength hnext hfinite
    have hstart : 8 * c < positions := by omega
    rw [positions_split] at hfinite ⊢
    have hblockfinite : FiniteSearch sc books batch (List.range' (8 * c) (min 8 (positions - 8 * c))) next :=
      fun u part predecessor hpart hpredecessor row hrow => hfinite u part predecessor hpart hpredecessor row (by
        rw [searchUser_append]
        exact List.mem_append_left _ hrow)
    obtain ⟨rows, hok, hrows⟩ := block_rows h hstart hlength hnext hblockfinite
    have hsome : List.range' (8 * c) (min 8 (positions - 8 * c)) ≠ [] := by
      rw [Ne, List.range'_eq_nil_iff]
      omega
    obtain ⟨hcarried, hvocabulary⟩ := block_next h hrows hsome
      (fun p hp => by have := List.mem_range'_1.mp hp; omega) hlength hnext
    have hcarry : ∀ (u : Nat) (part : Part Hidden S) (predecessor token : Nat), batch[u]? = some part →
        next[u]? = some predecessor → ((rows.getLast?.getD []).map Prod.fst)[u]? = some token →
          token = lastToken (searchUser sc books part (List.range' (8 * c) (min 8 (positions - 8 * c))) predecessor)
            predecessor := fun u part predecessor token hpart hpredecessor htoken =>
      Option.some.inj (htoken.symm.trans (hrows.last hsome hpart hpredecessor))
    have hrestfinite : FiniteSearch sc books batch (List.range' (8 * (c + 1)) (positions - 8 * (c + 1)))
        ((rows.getLast?.getD []).map Prod.fst) := by
      intro u part token hpart htoken row hrow
      have hpredecessor := List.getElem?_eq_getElem (show u < next.length from
        hlength ▸ (List.getElem?_eq_some_iff.mp hpart).1)
      rw [hcarry u part _ token hpart hpredecessor htoken] at hrow
      refine hfinite u part _ hpart hpredecessor row ?_
      rw [searchUser_append]
      exact List.mem_append_right _ hrow
    obtain ⟨rest, hrest, hrestrows⟩ := ih (c + 1) _ (by omega) hcarried hvocabulary hrestfinite
    refine ⟨rows ++ rest, ?_, fun row hrow => ?_, fun u part predecessor hpart hpredecessor => ?_⟩
    · rw [List.range'_succ, List.map_cons, searchBlocks, Nat.mul_comm c 8, hok]
      show (searchBlocks sc books batch _ _ >>= _) = _
      rw [hrest]
      rfl
    · exact (List.mem_append.mp hrow).elim (hrows.length row) (hrestrows.length row)
    · rw [List.map_append, searchUser_append, hrows.user u part predecessor hpart hpredecessor,
        hrestrows.user u part _ hpart (hrows.last hsome hpart hpredecessor)]

end Blocks

/-! ## Active candidates -/

section Active

variable [Inhabited Hidden] [Inhabited Code] [Add S] [LinearOrder S]
variable {sc : Scoring Hidden Code S} {books : Codebooks Code} {batch : List (Part Hidden S)} {anchors : List Nat}
  {positions width : Nat}

/-- An id, by its new name. -/
theorem getD_idxOf {ids : List Nat} {t : Nat} (h : t ∈ ids) : ids.getD (ids.idxOf t) 0 = t := by
  rw [List.getD_eq_getElem?_getD, List.getElem?_idxOf h]
  rfl

/-- The renumbered search of a user. -/
theorem Operands.searchUser_local (h : Operands sc books batch anchors positions width) {ids : List Nat}
    (hids : ids = uniqueIds batch anchors) {u seed : Nat} {part : Part Hidden S} (hpart : batch[u]? = some part)
    (hseed : anchors[u]? = some seed) :
    searchUser sc (localBooks books ids) (part.renumber ids.idxOf) (List.range positions) (ids.idxOf seed) =
      (searchUser sc books part (List.range positions) seed).map fun row => (ids.idxOf row.1, row.2) := by
  subst hids
  have hmem := List.mem_of_getElem? hpart
  refine searchUser_renumber (h.shaped part hmem) h.candidates.1 (known hmem) (fun p hp => List.mem_range.mp hp) ?_
  exact mem_uniqueIds.mpr (.inl (List.mem_of_getElem? hseed))

/-- **Every user of a batch gets its own search.** -/
theorem selectActiveCandidates_rows (h : Operands sc books batch anchors positions width) (hmost : positions ≤ 31)
    (hfinite : FiniteSearch sc books batch (List.range positions) anchors) :
    ∃ users, selectActiveCandidates sc books batch anchors = .ok users ∧ users.length = batch.length ∧
      ∀ (u : Nat) (part : Part Hidden S) (seed : Nat), batch[u]? = some part → anchors[u]? = some seed →
        users[u]? = some (searchUser sc books part (List.range positions) seed) := by
  generalize hids : uniqueIds batch anchors = ids
  have hlocal := h.renumbered hids.symm
  have hpositive := h.positive
  have hpositions : List.range' (8 * 0) (positions - 8 * 0) = List.range positions := List.range_eq_range'.symm
  have hlocalfinite : FiniteSearch sc (localBooks books ids) (batch.map (Part.renumber ids.idxOf))
      (List.range' (8 * 0) (positions - 8 * 0)) (anchors.map ids.idxOf) := by
    rw [hpositions]
    intro u part seed hpart hseed row hrow
    rw [List.getElem?_map] at hpart hseed
    obtain ⟨own, hown, rfl⟩ := Option.map_eq_some_iff.mp hpart
    obtain ⟨anchor, hanchor, rfl⟩ := Option.map_eq_some_iff.mp hseed
    rw [h.searchUser_local hids.symm hown hanchor] at hrow
    obtain ⟨named, hnamed, rfl⟩ := List.mem_map.mp hrow
    exact hfinite u own anchor hown hanchor named hnamed
  obtain ⟨rows, hok, hrows⟩ := searchBlocks_rows hlocal ((positions + 7) / 8) 0 _ (by omega) hlocal.seeded
    hlocal.anchorIds hlocalfinite
  rw [hpositions] at hrows
  refine ⟨(List.range batch.length).map fun user =>
    rows.map fun row => (ids.getD (row.getD user default).1 0, (row.getD user default).2), ?_, by simp, ?_⟩
  · unfold selectActiveCandidates
    rw [h.shape.1, h.shape.2, raiseIf_bind, raiseIf_bind, hids]
    · show (searchBlocks sc (localBooks books ids) _ (((List.range ((positions + 7) / 8)).map (· * 8))) _ >>= _) = _
      rw [List.range_eq_range', hok]
      rfl
    · rintro (⟨part, hpart, row, hrow, t, ht, hle⟩ | ⟨t, ht, hle⟩)
      · exact absurd (h.ids part hpart row hrow t ht) (Nat.not_lt.mpr hle)
      · exact absurd (h.anchorIds t ht) (Nat.not_lt.mpr hle)
    · rintro (hbound | ⟨part, hpart, hnot⟩ | hlength | hcodebooks)
      · exact hbound ⟨hpositive, hmost⟩
      · exact hnot (h.shaped part hpart)
      · exact hlength h.seeded
      · exact hcodebooks h.codebooks
  · intro u part seed hpart hseed
    have hmem := List.mem_of_getElem? hpart
    have hlt : u < batch.length := (List.getElem?_eq_some_iff.mp hpart).1
    have huser := hrows.user u (part.renumber ids.idxOf) (ids.idxOf seed) (by rw [List.getElem?_map, hpart]; rfl)
      (by rw [List.getElem?_map, hseed]; rfl)
    rw [h.searchUser_local hids.symm hpart hseed] at huser
    have hnames : rows.map (fun row => (ids.getD (row.getD u default).1 0, (row.getD u default).2)) =
        (rows.map (·.getD u default)).map fun row => (ids.getD row.1 0, row.2) := by
      rw [List.map_map]
      rfl
    rw [List.getElem?_map, List.getElem?_range hlt]
    refine congrArg some (hnames.trans ?_)
    rw [huser, List.map_map]
    refine (List.map_congr_left fun row hrow => ?_).trans (List.map_id _)
    have hrowknown := searchUser_known (h.shaped part hmem) h.candidates.1 (hids ▸ Operands.known hmem)
      (fun p hp => List.mem_range.mp hp) seed row hrow
    exact Prod.ext (getD_idxOf hrowknown) rfl

end Active

/-! ## Packed users -/

section Packed

variable {sc : Scoring Hidden Code S} {books : Codebooks Code} {parts : List (Part Hidden S)} {seeds counts : List Nat}
  {positions width : Nat}

/-- The operands of one user are accepted where the batch's are. -/
theorem Operands.single (h : Operands sc books parts seeds positions width) {part : Part Hidden S} {seed : Nat}
    (hpart : part ∈ parts) (hseed : seed ∈ seeds) : Operands sc books [part] [seed] positions width where
  nonempty := List.cons_ne_nil _ _
  codebooks := h.codebooks
  candidates := h.candidates
  positive := h.positive
  shaped := fun _ hp => List.mem_singleton.mp hp ▸ h.shaped part hpart
  seeded := rfl
  hidden := fun _ hp => List.mem_singleton.mp hp ▸ h.hidden part hpart
  unary := fun _ hp => List.mem_singleton.mp hp ▸ h.unary part hpart
  codes := h.codes
  ids := fun _ hp => List.mem_singleton.mp hp ▸ h.ids part hpart
  anchorIds := fun _ ht => List.mem_singleton.mp ht ▸ h.anchorIds seed hseed
  unique := fun _ hp => List.mem_singleton.mp hp ▸ h.unique part hpart

theorem countCheck_ok {part : Part Hidden S} {count : Nat} (h : 1 ≤ count ∧ count ≤ part.candidates.length) :
    countCheck part count = .ok () := by
  rw [countCheck, raiseIf_ok, not_not]
  exact h

variable [Inhabited Hidden] [Inhabited Code] [Add S] [LinearOrder S]

/-- The tokens of a user. -/
def userTokens (sc : Scoring Hidden Code S) (books : Codebooks Code) (positions : Nat) (p : Part Hidden S × Nat × Nat) :
    List Nat := ((searchUser sc books p.1 (List.range positions) p.2.1).map Prod.fst).take p.2.2

/-- One user of `select_packed` gets its own search. -/
theorem selectUser_ok (h : Operands sc books parts seeds positions width) (hmost : positions ≤ 31)
    (hfinite : FiniteSearch sc books parts (List.range positions) seeds) {u seed count : Nat} {part : Part Hidden S}
    (hpart : parts[u]? = some part) (hseed : seeds[u]? = some seed) (hcount : 1 ≤ count ∧ count ≤ positions) :
    selectUser sc books (part, seed, count) = .ok (userTokens sc books positions (part, seed, count)) := by
  have hmem := List.mem_of_getElem? hpart
  have hown : FiniteSearch sc books [part] (List.range positions) [seed] := by
    intro v p s hp hs
    cases v with
    | zero =>
      obtain rfl := Option.some.inj hp
      obtain rfl := Option.some.inj hs
      exact hfinite u part seed hpart hseed
    | succ v => cases hp
  obtain ⟨users, hok, -, huser⟩ :=
    selectActiveCandidates_rows (h.single hmem (List.mem_of_getElem? hseed)) hmost hown
  rw [selectUser, countCheck_ok ⟨hcount.1, (h.shaped part hmem).2.1.symm ▸ hcount.2⟩]
  show (selectActiveCandidates sc books [part] [seed] >>= _) = _
  rw [hok]
  show Except.ok _ = _
  rw [List.getD_eq_getElem?_getD, huser 0 part seed rfl rfl]
  rfl

theorem getElem?_zip {α β : Type} {xs : List α} {ys : List β} {u : Nat} {x : α} {y : β} (hx : xs[u]? = some x)
    (hy : ys[u]? = some y) : (xs.zip ys)[u]? = some (x, y) :=
  List.getElem?_zip_eq_some.mpr ⟨hx, hy⟩

/-- `select_packed` gives each user its own tokens. -/
theorem selectPacked_ok (h : Operands sc books parts seeds positions width) (hmost : positions ≤ 31)
    (hfinite : FiniteSearch sc books parts (List.range positions) seeds) (hlength : counts.length = parts.length)
    (hcounts : ∀ count ∈ counts, 1 ≤ count ∧ count ≤ positions) : selectPacked sc books parts seeds counts =
      .ok ((parts.zip (seeds.zip counts)).map (userTokens sc books positions)) := by
  have hseeded := h.seeded
  rw [selectPacked, raiseIf_bind (by omega)]
  refine mapM_eq_ok fun p hp => ?_
  obtain ⟨u, hu⟩ := List.getElem?_of_mem hp
  obtain ⟨part, seed, count⟩ := p
  obtain ⟨hpart, hrest⟩ := List.getElem?_zip_eq_some.mp hu
  obtain ⟨hseed, hcount⟩ := List.getElem?_zip_eq_some.mp hrest
  exact selectUser_ok h hmost hfinite hpart hseed (hcounts count (List.mem_of_getElem? hcount))

/-- `select_packed_batched` gives each user its own tokens. -/
theorem selectPackedBatched_ok (h : Operands sc books parts seeds positions width) (hmost : positions ≤ 31)
    (hfinite : FiniteSearch sc books parts (List.range positions) seeds) (hlength : counts.length = parts.length)
    (hcounts : ∀ count ∈ counts, 1 ≤ count ∧ count ≤ positions) : selectPackedBatched sc books parts seeds counts =
      .ok ((parts.zip (seeds.zip counts)).map (userTokens sc books positions)) := by
  have hseeded := h.seeded
  obtain ⟨users, hok, husers, huser⟩ := selectActiveCandidates_rows h hmost hfinite
  have hcheck : (parts.zip counts).mapM (fun p => countCheck p.1 p.2) = .ok ((parts.zip counts).map fun _ => ()) := by
    refine mapM_eq_ok fun p hp => ?_
    obtain ⟨hpart, hcount⟩ := List.of_mem_zip hp
    obtain ⟨hleast, hbound⟩ := hcounts p.2 hcount
    exact countCheck_ok ⟨hleast, (h.shaped p.1 hpart).2.1.symm ▸ hbound⟩
  have hpaths : (users.zip counts).map (fun p => (p.1.map Prod.fst).take p.2) =
      (parts.zip (seeds.zip counts)).map (userTokens sc books positions) := by
    refine List.ext_getElem? fun u => ?_
    by_cases hu : u < parts.length
    · have hpart := List.getElem?_eq_getElem hu
      have hseed := List.getElem?_eq_getElem (show u < seeds.length by omega)
      have hcount := List.getElem?_eq_getElem (show u < counts.length by omega)
      rw [List.getElem?_map, List.getElem?_map, getElem?_zip (huser u _ _ hpart hseed) hcount,
        getElem?_zip hpart (getElem?_zip hseed hcount)]
      rfl
    · have hnone : ∀ {α : Type} {xs : List α}, xs.length ≤ parts.length → xs[u]? = none := fun hle =>
        List.getElem?_eq_none (by omega)
      rw [hnone (by simp; omega), hnone (by simp)]
  rw [selectPackedBatched, raiseIf_bind (by
    rintro (hnil | hseeds | hwrong)
    · exact h.nonempty hnil
    · exact hseeds hseeded.symm
    · exact hwrong hlength.symm), hcheck]
  show (raiseIf _ _ >>= _) = _
  rw [h.shape.1, h.shape.2, raiseIf_bind (by
    rintro ⟨part, hpart, hnot⟩
    exact hnot (h.shaped part hpart)), hok]
  exact congrArg Except.ok hpaths

/-- **Main result.** `select_packed_batched` and `select_packed` both give every user the first `count` tokens of the
one greedy path over the full codebooks from its own seed, whatever users it is packed with. -/
theorem packed_selection (h : Operands sc books parts seeds positions width) (hmost : positions ≤ 31)
    (hfinite : FiniteSearch sc books parts (List.range positions) seeds) (hlength : counts.length = parts.length)
    (hcounts : ∀ count ∈ counts, 1 ≤ count ∧ count ≤ positions) :
    ∃ paths, selectPackedBatched sc books parts seeds counts = .ok paths ∧
      selectPacked sc books parts seeds counts = .ok paths ∧ paths.length = parts.length ∧
      ∀ (u : Nat) (part : Part Hidden S) (seed count : Nat), parts[u]? = some part → seeds[u]? = some seed →
        counts[u]? = some count → ∃ tokens, Greedy sc books part 0 seed tokens ∧
          (∀ others, Greedy sc books part 0 seed others → others = tokens) ∧ paths[u]? = some (tokens.take count) := by
  have hseeded := h.seeded
  refine ⟨_, selectPackedBatched_ok h hmost hfinite hlength hcounts, selectPacked_ok h hmost hfinite hlength hcounts,
    by simp; omega, fun u part seed count hpart hseed hcount => ?_⟩
  have hgreedy := searchUser_greedy sc books (h.shaped part (List.mem_of_getElem? hpart))
    h.candidates.1 positions seed (Nat.zero_add positions)
  refine ⟨_, hgreedy, fun others hothers => hothers.unique hgreedy, ?_⟩
  rw [List.getElem?_map, getElem?_zip hpart (getElem?_zip hseed hcount), ← List.range_eq_range']
  rfl

/-- Two users with nine positions, so that the second block starts from a carried anchor. -/
theorem packed_selection_sample :
    let sc : Scoring Int Int Int := ⟨fun p h c => p * h * c, fun _ => true, fun _ => true, fun _ => true⟩
    let parts : List (Part Int Int) := [⟨List.replicate 9 1, List.replicate 9 [0, 2], List.replicate 9 [5, 4]⟩,
      ⟨List.replicate 9 2, List.replicate 9 [1, 0], List.replicate 9 [0, 0]⟩]
    ∃ paths, selectPackedBatched sc ⟨[1, 2, -1], [3, -2, 1]⟩ parts [0, 1] [9, 3] = .ok paths ∧ paths.length = 2 := by
  intro sc parts
  obtain ⟨paths, hok, -, hlength, -⟩ := @packed_selection Int Int Int sc ⟨[1, 2, -1], [3, -2, 1]⟩ parts [0, 1]
    [9, 3] 9 2 _ _ _ _
    { nonempty := by decide
      codebooks := rfl
      candidates := by decide
      positive := by decide
      shaped := by decide
      seeded := rfl
      hidden := fun _ _ _ _ => rfl
      unary := fun _ _ _ _ _ _ => rfl
      codes := fun _ _ => rfl
      ids := by decide
      anchorIds := by decide
      unique := by decide }
    (by decide) (fun _ _ _ _ _ _ _ _ _ => rfl) rfl (by decide)
  exact ⟨paths, hok, hlength⟩

end Packed

/-! ## The block's parts -/

section Block

variable {hidden : List Hidden} {candidates : List (List Nat)} {unary : List (List S)} {parts : List (Part Hidden S)}
  {users blockRows blockWidth width : Nat}

/-- The parts of a block have one shape, and each holds its own user's rows: the features past the anchor, with the
candidates that the anchor's row and those after it have. -/
theorem splitSelection_part (h : splitSelection hidden candidates unary users blockRows blockWidth = .ok parts)
    (hwidth : ∀ row ∈ candidates, row.length = width) :
    parts.length = users ∧ ∀ (u : Nat) (part : Part Hidden S), parts[u]? = some part →
      part.Shaped (blockRows - 1) width ∧ ∀ i < blockRows - 1,
        part.hidden[i]? = hidden[u * blockRows + 1 + i]? ∧ part.candidates[i]? = candidates[u * blockRows + i]? ∧
          part.unary[i]? = unary[u * blockRows + i]? := by
  unfold splitSelection at h
  obtain ⟨_, -, h⟩ := bind_ok h
  obtain ⟨_, hshape, h⟩ := bind_ok h
  obtain ⟨_, -, h⟩ := bind_ok h
  have hgeometry := raiseIf_ok.mp hshape
  simp only [not_or, not_not] at hgeometry
  obtain ⟨-, -, hlength, hwidths⟩ := hgeometry
  have hunary : ∀ row ∈ unary, row.length = width := by
    intro row hrow
    obtain ⟨other, hother, heq⟩ := List.mem_map.mp (hwidths ▸ List.mem_map_of_mem hrow : row.length ∈
      candidates.map List.length)
    exact heq ▸ hwidth other hother
  obtain ⟨hcount, hget⟩ := mapM_get h
  rw [List.length_range] at hcount
  refine ⟨hcount, fun u part hpart => ?_⟩
  have hu : u < users := hcount ▸ (List.getElem?_eq_some_iff.mp hpart).1
  obtain ⟨y, hy, hpartok⟩ := hget u u (List.getElem?_range hu)
  obtain rfl := Option.some.inj (hpart.symm.trans hy)
  obtain ⟨_, hhidden, hpartok⟩ := bind_ok hpartok
  obtain ⟨_, hcandidates, hpartok⟩ := bind_ok hpartok
  have hhidden := not_not.mp (raiseIf_ok.mp hhidden)
  have hcandidates := not_not.mp (raiseIf_ok.mp hcandidates)
  cases hpartok
  refine ⟨⟨by omega, by omega, ?_, fun row hrow => ?_, fun row hrow => ?_⟩, fun i hi => ⟨?_, ?_, ?_⟩⟩
  · simp only [List.length_take, List.length_drop] at hcandidates ⊢
    omega
  · exact hwidth row (List.mem_of_mem_drop (List.mem_of_mem_take hrow))
  · exact hunary row (List.mem_of_mem_drop (List.mem_of_mem_take hrow))
  · rw [List.getElem?_take_of_lt hi, List.getElem?_drop]
  · rw [List.getElem?_take_of_lt hi, List.getElem?_drop]
  · rw [List.getElem?_take_of_lt hi, List.getElem?_drop]

/-- **Where the search accepts the block as one user's, it accepts its parts**, from any seeds of the vocabulary. -/
theorem splitSelection_operands {sc : Scoring Hidden Code S} {books : Codebooks Code} {anchor : Nat} {seeds : List Nat}
    (h : splitSelection hidden candidates unary users blockRows blockWidth = .ok parts)
    (hwhole : Operands sc books [⟨hidden.drop 1, candidates, unary⟩] [anchor] (blockWidth - 1) width)
    (hrows : 2 ≤ blockRows) (hseeded : seeds.length = users) (hseeds : ∀ t ∈ seeds, t < books.predecessors.length) :
    Operands sc books parts seeds (blockRows - 1) width := by
  have hone := List.mem_singleton_self (⟨hidden.drop 1, candidates, unary⟩ : Part Hidden S)
  obtain ⟨hlength, hparts⟩ := splitSelection_part h (hwhole.shaped _ hone).2.2.2.1
  have hpart : ∀ part ∈ parts, part.Shaped (blockRows - 1) width ∧ (∀ x ∈ part.hidden, x ∈ hidden.drop 1) ∧
      (∀ row ∈ part.candidates, row ∈ candidates) ∧ ∀ row ∈ part.unary, row ∈ unary := by
    intro part hmem
    obtain ⟨u, hu⟩ := List.mem_iff_getElem?.mp hmem
    obtain ⟨hshaped, hget⟩ := hparts u part hu
    have hin : ∀ {α : Type} {xs : List α} {x : α}, xs.length = blockRows - 1 → x ∈ xs →
        ∃ i < blockRows - 1, xs[i]? = some x := fun hxs hx => by
      obtain ⟨i, hi⟩ := List.mem_iff_getElem?.mp hx
      exact ⟨i, hxs ▸ (List.getElem?_eq_some_iff.mp hi).1, hi⟩
    refine ⟨hshaped, fun x hx => ?_, fun row hrow => ?_, fun row hrow => ?_⟩
    · obtain ⟨i, hi, hx⟩ := hin hshaped.1 hx
      refine List.mem_of_getElem? (i := u * blockRows + i) ?_
      rw [List.getElem?_drop, show 1 + (u * blockRows + i) = u * blockRows + 1 + i by omega, ← (hget i hi).1, hx]
    · obtain ⟨i, hi, hrow⟩ := hin hshaped.2.1 hrow
      exact List.mem_of_getElem? ((hget i hi).2.1.symm.trans hrow)
    · obtain ⟨i, hi, hrow⟩ := hin hshaped.2.2.1 hrow
      exact List.mem_of_getElem? ((hget i hi).2.2.symm.trans hrow)
  have husers : parts ≠ [] := by
    obtain ⟨_, -, h⟩ := bind_ok h
    obtain ⟨_, -, h⟩ := bind_ok h
    obtain ⟨_, hfit, -⟩ := bind_ok h
    have hfit := not_not.mp (raiseIf_ok.mp hfit)
    exact List.ne_nil_of_length_pos (by omega)
  exact {
    nonempty := husers
    codebooks := hwhole.codebooks
    candidates := hwhole.candidates
    positive := by omega
    shaped := fun part hmem => (hpart part hmem).1
    seeded := hseeded.trans hlength.symm
    hidden := fun part hmem x hx => hwhole.hidden _ hone x ((hpart part hmem).2.1 x hx)
    unary := fun part hmem row hrow => hwhole.unary _ hone row ((hpart part hmem).2.2.2 row hrow)
    codes := hwhole.codes
    ids := fun part hmem row hrow => hwhole.ids _ hone row ((hpart part hmem).2.2.1 row hrow)
    anchorIds := hseeds
    unique := fun part hmem row hrow => hwhole.unique _ hone row ((hpart part hmem).2.2.1 row hrow) }

end Block

end BlackholeQwen.Dflash.Selection
