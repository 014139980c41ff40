import Mathlib.Data.List.Basic
import Mathlib.Logic.Function.Basic

/-!
# Consecutive spans, and scattered writes

- `Spans start len lo xs hi`: the spans `[start x, start x + len x)` of a list lie end to end from `lo` to `hi`. Each
  point of `[lo, hi)` is then in one span of one place (`Spans.find`), also when the list comes in pieces
  (`Spans.locate`), and spans of one length start at regular distances (`Spans.start_eq`). Pieces of the spans' lengths
  put end to end are read back at the spans (`Spans.getElem?_flatMap`).
- `scatter`: writes at given addresses, in order; at distinct addresses each write is read back (`scatter_apply`).
-/

namespace Lib

/-! ## Spans -/

/-- The spans of a list lie end to end. -/
inductive Spans {α : Type} (start len : α → Nat) : Nat → List α → Nat → Prop
  | nil (lo : Nat) : Spans start len lo [] lo
  | cons {lo hi : Nat} {x : α} {xs : List α} (hstart : start x = lo) (hpos : 0 < len x)
      (h : Spans start len (lo + len x) xs hi) : Spans start len lo (x :: xs) hi

namespace Spans

variable {α : Type} {start len : α → Nat} {lo hi : Nat} {xs ys : List α}

theorem le (h : Spans start len lo xs hi) : lo ≤ hi := by
  induction h with
  | nil => exact Nat.le_refl _
  | cons _ hpos _ ih => omega

/-- Spans in two pieces meet somewhere. -/
theorem append_iff : Spans start len lo (xs ++ ys) hi ↔
    ∃ mid, Spans start len lo xs mid ∧ Spans start len mid ys hi := by
  constructor
  · intro h
    induction xs generalizing lo with
    | nil => exact ⟨lo, .nil lo, h⟩
    | cons x xs ih =>
      cases h with
      | cons hstart hpos h =>
        obtain ⟨mid, h1, h2⟩ := ih h
        exact ⟨mid, .cons hstart hpos h1, h2⟩
  · rintro ⟨mid, h1, h2⟩
    induction h1 with
    | nil => exact h2
    | cons hstart hpos _ ih => exact .cons hstart hpos (ih h2)

/-- One more span at the end. -/
theorem snoc (h : Spans start len lo xs hi) {x : α} (hstart : start x = hi) (hpos : 0 < len x) :
    Spans start len lo (xs ++ [x]) (hi + len x) :=
  append_iff.mpr ⟨hi, h, .cons hstart hpos (.nil _)⟩

/-- The spans of a mapped list. -/
theorem of_map {β : Type} {f : β → α} {zs : List β} (h : Spans start len lo (zs.map f) hi) :
    Spans (fun z => start (f z)) (fun z => len (f z)) lo zs hi := by
  induction zs generalizing lo with
  | nil =>
    cases h
    exact .nil _
  | cons z zs ih =>
    cases h with
    | cons hstart hpos h => exact .cons hstart hpos (ih h)

/-- A span lies between the ends. -/
theorem bounds (h : Spans start len lo xs hi) {x : α} (hx : x ∈ xs) : lo ≤ start x ∧ start x + len x ≤ hi := by
  induction h with
  | nil => cases hx
  | cons hstart hpos h ih =>
    have hle := h.le
    rcases List.mem_cons.mp hx with rfl | hx
    · omega
    · have := ih hx; omega

/-- Spans of one length start at regular distances. -/
theorem start_eq {c : Nat} (h : Spans start len lo xs hi) (hc : ∀ x ∈ xs, len x = c) {i : Nat} {x : α}
    (hx : xs[i]? = some x) : start x = lo + i * c := by
  induction h generalizing i with
  | nil => simp at hx
  | @cons lo hi y ys hstart hpos h ih =>
    cases i with
    | zero =>
      simp only [List.getElem?_cons_zero, Option.some.injEq] at hx
      rw [← hx]; omega
    | succ i =>
      have hy := hc y (by simp)
      rw [ih (fun z hz => hc z (List.mem_cons_of_mem _ hz)) (by simpa using hx), hy, Nat.succ_mul]
      omega

/-- Each piece of the whole is spans that lie end to end. -/
theorem of_mem_flatten {bs : List (List α)} (h : Spans start len lo bs.flatten hi) {b : List α} (hb : b ∈ bs) :
    ∃ lo' hi', Spans start len lo' b hi' := by
  obtain ⟨front, back, rfl⟩ := List.append_of_mem hb
  rw [List.flatten_append, List.flatten_cons] at h
  obtain ⟨_, -, h⟩ := append_iff.mp h
  obtain ⟨_, h, -⟩ := append_iff.mp h
  exact ⟨_, _, h⟩

/-- **A point of the whole is in one span.** -/
theorem find (h : Spans start len lo xs hi) {r : Nat} (hlo : lo ≤ r) (hhi : r < hi) :
    ∃! p : Nat × Nat, ∃ x, xs[p.1]? = some x ∧ p.2 < len x ∧ start x + p.2 = r := by
  induction h with
  | nil => omega
  | @cons lo hi y ys hstart hpos h ih =>
    by_cases hr : r < lo + len y
    · refine ⟨(0, r - lo), ⟨y, rfl, by omega, by omega⟩, ?_⟩
      rintro ⟨i, t⟩ ⟨x, hx, ht, hsum⟩
      cases i with
      | zero =>
        simp only [List.getElem?_cons_zero, Option.some.injEq] at hx
        subst hx
        ext
        · simp only
        · simp only
          omega
      | succ i =>
        -- a span of the rest starts at or past `lo + len y`
        have hmem : x ∈ ys := List.mem_of_getElem? (by simpa using hx)
        have := h.bounds hmem
        simp only at hsum
        omega
    · obtain ⟨⟨i, t⟩, ⟨x, hx, ht, hsum⟩, huniq⟩ := ih (by omega) hhi
      refine ⟨(i + 1, t), ⟨x, by simpa using hx, ht, hsum⟩, ?_⟩
      rintro ⟨j, u⟩ ⟨z, hz, hu, hsum'⟩
      cases j with
      | zero =>
        simp only [List.getElem?_cons_zero, Option.some.injEq] at hz
        subst hz
        simp only at hu hsum'
        omega
      | succ j =>
        have := huniq (j, u) ⟨z, by simpa using hz, hu, hsum'⟩
        simp only [Prod.mk.injEq] at this ⊢
        omega

/-- **A point of the whole is in one span of one piece.** -/
theorem locate {bs : List (List α)} (h : Spans start len lo bs.flatten hi) {r : Nat} (hlo : lo ≤ r) (hhi : r < hi) :
    ∃! p : Nat × Nat × Nat, ∃ b x, bs[p.1]? = some b ∧ b[p.2.1]? = some x ∧ p.2.2 < len x ∧
      start x + p.2.2 = r := by
  induction bs generalizing lo with
  | nil =>
    have hle : hi ≤ lo := by
      cases h with
      | nil => exact Nat.le_refl _
    omega
  | cons b bs ih =>
    obtain ⟨mid, h1, h2⟩ := append_iff.mp h
    by_cases hr : r < mid
    · obtain ⟨⟨i, t⟩, ⟨x, hx, ht, hsum⟩, huniq⟩ := h1.find hlo hr
      refine ⟨(0, i, t), ⟨b, x, rfl, hx, ht, hsum⟩, ?_⟩
      rintro ⟨j, i', t'⟩ ⟨b', x', hb', hx', ht', hsum'⟩
      cases j with
      | zero =>
        simp only [List.getElem?_cons_zero, Option.some.injEq] at hb'
        subst hb'
        have := huniq (i', t') ⟨x', hx', ht', hsum'⟩
        simp only [Prod.mk.injEq] at this
        rw [this.1, this.2]
      | succ j =>
        have hmem : x' ∈ bs.flatten := List.mem_flatten.mpr
          ⟨b', List.mem_of_getElem? (by simpa using hb'), List.mem_of_getElem? hx'⟩
        have := h2.bounds hmem
        simp only at hsum'
        omega
    · obtain ⟨⟨j, i, t⟩, ⟨b', x, hb, hx, ht, hsum⟩, huniq⟩ := ih h2 (by omega)
      refine ⟨(j + 1, i, t), ⟨b', x, by simpa using hb, hx, ht, hsum⟩, ?_⟩
      rintro ⟨k, i', t'⟩ ⟨c, x', hc, hx', ht', hsum'⟩
      cases k with
      | zero =>
        simp only [List.getElem?_cons_zero, Option.some.injEq] at hc
        subst hc
        have := h1.bounds (List.mem_of_getElem? hx')
        simp only at ht' hsum'
        omega
      | succ k =>
        have := huniq (k, i', t') ⟨c, x', by simpa using hc, hx', ht', hsum'⟩
        simp only [Prod.mk.injEq] at this
        rw [this.1, this.2.1, this.2.2]

/-- The points of the spans, in order, are the points of the whole. -/
theorem flatMap_range (h : Spans start len lo xs hi) :
    xs.flatMap (fun x => List.range' (start x) (len x)) = List.range' lo (hi - lo) := by
  induction h with
  | nil => simp
  | @cons lo hi y ys hstart hpos h ih =>
    have hle := h.le
    rw [List.flatMap_cons, ih, hstart, List.range'_append_1]
    congr 1
    omega

/-- The points of the spans at or above a bound, in order, are the points of the whole at or above it. -/
theorem flatMap_range_above (h : Spans start len lo xs hi) (w : Nat) :
    xs.flatMap (fun x => List.range' (max w (start x)) (start x + len x - max w (start x))) =
      List.range' (max w lo) (hi - max w lo) := by
  induction h with
  | nil lo =>
    rw [show lo - max w lo = 0 by omega]
    rfl
  | @cons lo hi y ys hstart hpos h ih =>
    have hle := h.le
    rw [List.flatMap_cons, ih, hstart]
    by_cases hw : lo + len y ≤ w
    · rw [show lo + len y - max w lo = 0 by omega, show max w (lo + len y) = max w lo by omega]
      rfl
    · rw [show max w (lo + len y) = max w lo + (lo + len y - max w lo) by omega, List.range'_append_1]
      congr 1
      omega

/-- Pieces of the spans' lengths fill the whole. -/
theorem length_flatMap {β : Type} {f : α → List β} (h : Spans start len lo xs hi)
    (hf : ∀ x ∈ xs, (f x).length = len x) : lo + (xs.flatMap f).length = hi := by
  induction h with
  | nil => rfl
  | @cons lo hi x xs _ _ _ ih =>
    rw [List.flatMap_cons, List.length_append, hf x List.mem_cons_self, ← Nat.add_assoc]
    exact ih fun y hy => hf y (List.mem_cons_of_mem _ hy)

/-- **Pieces end to end.** A piece of a span's length is read back from the span. -/
theorem getElem?_flatMap {β : Type} {f : α → List β} (h : Spans start len lo xs hi)
    (hf : ∀ x ∈ xs, (f x).length = len x) {x : α} (hx : x ∈ xs) {j : Nat} (hj : j < len x) :
    (xs.flatMap f)[start x - lo + j]? = (f x)[j]? := by
  induction h with
  | nil => cases hx
  | @cons lo hi y ys hstart hpos h ih =>
    have hy := hf y List.mem_cons_self
    rw [List.flatMap_cons]
    rcases List.mem_cons.mp hx with rfl | hx
    · rw [hstart, Nat.sub_self, Nat.zero_add, List.getElem?_append_left (by omega)]
    · have hlo := (h.bounds hx).1
      rw [List.getElem?_append_right (by omega), ← ih (fun z hz => hf z (List.mem_cons_of_mem _ hz)) hx]
      congr 1
      omega

end Spans

/-! ## Scattered writes -/

/-- Writes at addresses, in order. -/
def scatter {ν : Type} (writes : List (Nat × ν)) (g : Nat → ν) : Nat → ν :=
  writes.foldl (fun g w => Function.update g w.1 w.2) g

theorem scatter_of_not_mem {ν : Type} {writes : List (Nat × ν)} {g : Nat → ν} {a : Nat}
    (h : a ∉ writes.map Prod.fst) : scatter writes g a = g a := by
  induction writes generalizing g with
  | nil => rfl
  | cons w ws ih =>
    simp only [List.map_cons, List.mem_cons, not_or] at h
    show scatter ws (Function.update g w.1 w.2) a = g a
    rw [ih h.2, Function.update_of_ne h.1]

/-- **At distinct addresses each write is read back.** -/
theorem scatter_apply {ν : Type} {writes : List (Nat × ν)} {g : Nat → ν} (hnd : (writes.map Prod.fst).Nodup)
    {a : Nat} {v : ν} (h : (a, v) ∈ writes) : scatter writes g a = v := by
  induction writes generalizing g with
  | nil => cases h
  | cons w ws ih =>
    simp only [List.map_cons, List.nodup_cons] at hnd
    show scatter ws (Function.update g w.1 w.2) a = v
    rcases List.mem_cons.mp h with rfl | h
    · rw [scatter_of_not_mem hnd.1, Function.update_self]
    · exact ih hnd.2 h

end Lib
