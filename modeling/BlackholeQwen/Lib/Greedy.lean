import Mathlib.Data.List.Basic

/-!
# Greedy decoding and speculative verification

The abstract layer of speculative decoding, over any token type.

* `continuation T stop n ctx`: the text a target `T` writes after `ctx`, one token at a time, up to and including the
  first stop token, at most `n` tokens.
* `speculate stop draft predictions`: what one verification of a draft emits — the longest prefix of the draft the
  predictions agree with, then the first prediction that differs; a stop token inside the draft ends it there.
* `Conforms T ctx draft predictions`: the predictions are the target's own wherever a verification reads them.

A conforming verification emits the next tokens of the continuation (`continuation_speculate`), whatever the draft.
`Written` is what a decoder that has emitted `out` owes: `out` is the beginning of the continuation, and `finished`
tells whether it is all of it; verifications keep it (`Written.speculate`).
-/

namespace Lib.Greedy

variable {α : Type}

/-- The greedy continuation of `ctx`. -/
def continuation (T : List α → α) (stop : α → Bool) : Nat → List α → List α
  | 0, _ => []
  | n + 1, ctx => if stop (T ctx) then [T ctx] else T ctx :: continuation T stop n (ctx ++ [T ctx])

section Speculate

variable [DecidableEq α]

/-- One verification: the emitted tokens, and whether the last of them stops the text. -/
def speculate (stop : α → Bool) : List α → List α → List α × Bool
  | _, [] => ([], false)
  | [], p :: _ => ([p], stop p)
  | d :: ds, p :: ps =>
    if d ≠ p then ([p], stop p)
    else if stop d then ([d], true)
    else (d :: (speculate stop ds ps).1, (speculate stop ds ps).2)

/-- A verification emits at most one token more than the draft. -/
theorem length_speculate_le (stop : α → Bool) :
    ∀ ds ps : List α, (speculate stop ds ps).1.length ≤ ds.length + 1
  | _, [] => by simp [speculate]
  | [], p :: _ => by simp [speculate]
  | d :: ds, p :: ps => by
    have ih := length_speculate_le stop ds ps
    simp only [speculate]
    split_ifs <;> (simp; try omega)

/-- A verification with a prediction emits at least one token. -/
theorem length_speculate_pos (stop : α → Bool) : ∀ (ds : List α) {ps : List α}, ps ≠ [] →
    0 < (speculate stop ds ps).1.length
  | _, [], h => absurd rfl h
  | [], p :: _, _ => by simp [speculate]
  | d :: ds, p :: ps, _ => by simp only [speculate]; split_ifs <;> simp

end Speculate

/-- The predictions are the target's at every row up to and including the first where draft and target differ. -/
def Conforms (T : List α → α) (ctx draft predictions : List α) : Prop :=
  ∀ i ≤ draft.length, (∀ j < i, draft[j]? = some (T (ctx ++ draft.take j))) →
    predictions[i]? = some (T (ctx ++ draft.take i))

variable {T : List α → α} {stop : α → Bool} {ctx draft predictions : List α}

/-- The first prediction of a conforming list is the target's. -/
theorem Conforms.head (h : Conforms T ctx draft predictions) : ∃ ps, predictions = T ctx :: ps := by
  have h0 := h 0 (Nat.zero_le _) (fun j hj => absurd hj (Nat.not_lt_zero j))
  cases predictions with
  | nil => simp at h0
  | cons p ps => simp at h0; exact ⟨ps, by rw [h0]⟩

/-- Past an accepted token the remaining predictions conform to the remaining draft. -/
theorem Conforms.tail {d : α} {ds ps : List α} (h : Conforms T ctx (d :: ds) (T ctx :: ps)) (hd : d = T ctx) :
    Conforms T (ctx ++ [d]) ds ps := by
  intro i hi hj
  have := h (i + 1) (by simpa using hi) (by
    rintro (_ | j) hlt
    · simp [hd]
    · simpa using hj j (by omega))
  simpa using this

/-- A cap on the rows keeps conformance. -/
theorem Conforms.take (h : Conforms T ctx draft predictions) (n : Nat) :
    Conforms T ctx (draft.take n) (predictions.take (n + 1)) := by
  intro i hi hj
  have hin : i ≤ n := Nat.le_trans hi (List.length_take_le _ _)
  have hid : i ≤ draft.length := Nat.le_trans hi (List.length_take_le' _ _)
  have htake : (draft.take n).take i = draft.take i := by rw [List.take_take, Nat.min_eq_left hin]
  rw [List.getElem?_take_of_lt (by omega), htake]
  refine h i hid fun j hlt => ?_
  have := hj j hlt
  rwa [List.getElem?_take_of_lt (by omega), List.take_take, Nat.min_eq_left (by omega)] at this

/-- **A conforming verification emits the target's next tokens.** -/
theorem continuation_speculate [DecidableEq α] : ∀ (draft : List α) {ctx predictions : List α} {m : Nat},
    Conforms T ctx draft predictions → draft.length < m →
      continuation T stop m ctx = (speculate stop draft predictions).1 ++
        if (speculate stop draft predictions).2 then []
        else continuation T stop (m - (speculate stop draft predictions).1.length)
          (ctx ++ (speculate stop draft predictions).1)
  | draft, ctx, predictions, 0, _, hm => absurd hm (Nat.not_lt_zero _)
  | [], ctx, predictions, m + 1, h, _ => by
    obtain ⟨ps, rfl⟩ := h.head
    simp only [speculate, continuation, List.length_singleton, Nat.add_sub_cancel]
    split_ifs <;> simp
  | d :: ds, ctx, predictions, m + 1, h, hm => by
    obtain ⟨ps, rfl⟩ := h.head
    simp only [speculate, continuation]
    by_cases hd : d = T ctx
    · have ih := continuation_speculate ds (h.tail hd) (m := m) (by simpa using hm)
      subst hd
      by_cases hs : stop (T ctx)
      · simp [hs]
      · simp only [ne_eq, not_true_eq_false, if_false, hs, Bool.false_eq_true, List.length_cons,
          Nat.add_sub_add_right, List.cons_append]
        rw [ih]
        simp
    · simp only [ne_eq, hd, not_false_eq_true, if_true, List.length_singleton, Nat.add_sub_cancel]
      split_ifs <;> simp

/-- The beginning of a continuation is all of it exactly when it stops or fills the budget. -/
theorem eq_continuation_iff : ∀ (n : Nat) {ctx out : List α}, out = (continuation T stop n ctx).take out.length →
    (out = continuation T stop n ctx ↔ (∃ t ∈ out, stop t = true) ∨ out.length = n)
  | 0, ctx, out, h => by
    have : out = [] := by simpa [continuation] using h
    simp [this, continuation]
  | n + 1, ctx, [], _ => by
    simp only [continuation]
    split_ifs <;> simp
  | n + 1, ctx, t :: out, h => by
    simp only [continuation] at h ⊢
    split_ifs at h ⊢ with hs
    · simp only [List.length_cons, List.take_succ_cons, List.take_nil, List.cons.injEq] at h
      obtain ⟨rfl, rfl⟩ := h
      simp [hs]
    · simp only [List.length_cons, List.take_succ_cons, List.cons.injEq] at h
      obtain ⟨rfl, h⟩ := h
      have ih := eq_continuation_iff n h
      simp only [List.cons.injEq, true_and, ih, List.mem_cons, exists_eq_or_imp, List.length_cons,
        Nat.add_right_cancel_iff, hs, false_or, Bool.false_eq_true]

/-- What a decoder with budget `n` owes once it has emitted `out`. -/
structure Written (T : List α → α) (stop : α → Bool) (n : Nat) (prompt out : List α) (finished : Bool) : Prop where
  /-- The rest of the continuation is still to come, unless finished. -/
  text : continuation T stop n prompt =
    out ++ if finished then [] else continuation T stop (n - out.length) (prompt ++ out)
  /-- An unfinished decoder has budget left. -/
  room : finished = false → out.length < n

namespace Written

variable {n : Nat} {prompt out : List α} {finished : Bool}

/-- The first token, taken from the target itself. -/
theorem seed (hn : 1 ≤ n) : Written T stop n prompt [T prompt] (stop (T prompt) || n == 1) := by
  obtain ⟨m, rfl⟩ : ∃ m, n = m + 1 := ⟨n - 1, by omega⟩
  constructor
  · simp only [continuation, List.length_singleton, Nat.add_sub_cancel]
    cases m with
    | zero => cases stop (T prompt) <;> simp [continuation]
    | succ m => cases stop (T prompt) <;> simp
  · intro h
    simp only [Bool.or_eq_false_iff, beq_eq_false_iff_ne] at h
    simp only [List.length_singleton]; omega

/-- A conforming verification within the budget keeps the debt. -/
theorem speculate [DecidableEq α] (h : Written T stop n prompt out false) {ds ps : List α}
    (hc : Conforms T (prompt ++ out) ds ps) (hw : out.length + ds.length < n) :
    Written T stop n prompt (out ++ (Greedy.speculate stop ds ps).1)
      ((Greedy.speculate stop ds ps).2 || (out ++ (Greedy.speculate stop ds ps).1).length == n) := by
  have hlen := length_speculate_le stop ds ps
  have htext := h.text
  rw [if_neg Bool.false_ne_true, continuation_speculate ds hc (m := n - out.length) (by omega)] at htext
  constructor
  · rw [htext]
    cases hs : (Greedy.speculate stop ds ps).2 with
    | true => simp
    | false =>
      by_cases hn : (out ++ (Greedy.speculate stop ds ps).1).length = n
      · have h0 : n - out.length - (Greedy.speculate stop ds ps).1.length = 0 := by
          rw [List.length_append] at hn; omega
        simp [hn, h0, continuation]
      · rw [beq_eq_false_iff_ne.mpr hn]
        simp [Nat.sub_sub]
  · intro hf
    simp only [Bool.or_eq_false_iff, beq_eq_false_iff_ne] at hf
    have := hf.2
    rw [List.length_append] at this ⊢
    omega

/-- The emitted text is the beginning of the continuation. -/
theorem take_eq (h : Written T stop n prompt out finished) : out = (continuation T stop n prompt).take out.length := by
  rw [h.text]; simp

/-- Finished means that the whole continuation is out. -/
theorem finished_iff (h : Written T stop n prompt out finished) :
    finished = true ↔ out = continuation T stop n prompt := by
  have htext := h.text
  cases finished with
  | true => simp only [if_true, List.append_nil] at htext; simp [htext]
  | false =>
    have hroom := h.room rfl
    simp only [Bool.false_eq_true, if_false] at htext
    refine ⟨fun h => absurd h Bool.false_ne_true, fun he => ?_⟩
    rw [← he] at htext
    obtain ⟨m, hm⟩ : ∃ m, n - out.length = m + 1 := ⟨n - out.length - 1, by omega⟩
    have hnil := List.self_eq_append_right.mp htext
    rw [hm, continuation] at hnil
    split_ifs at hnil

end Written

end Lib.Greedy
