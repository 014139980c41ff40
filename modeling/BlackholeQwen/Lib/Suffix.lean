import Mathlib.Data.List.Basic
import Mathlib.Order.Basic

/-!
# Common suffixes, and the best of a scan

- `commonSuffix xs ys`: the length of the longest common suffix of two lists (`le_commonSuffix`).
- `Best P score lo hi e`: of the points of `[lo, hi)` with `P`, `e` has the greatest score. A scan from the top down
  skips a point (`Best.skip`), keeps its best (`Best.keep`) or takes the point (`Best.take`); it may stop where no lower
  point can win (`Best.stop`).
-/

namespace Lib

/-! ## Common suffixes -/

section Suffix

variable {α : Type} [DecidableEq α]

/-- The length of the longest common prefix. -/
def commonPrefix : List α → List α → Nat
  | a :: as, b :: bs => if a = b then commonPrefix as bs + 1 else 0
  | _, _ => 0

/-- The length of the longest common suffix. -/
def commonSuffix (xs ys : List α) : Nat := commonPrefix xs.reverse ys.reverse

/-- How far two lists agree from their beginnings. -/
theorem le_commonPrefix {k : Nat} {xs ys : List α} :
    k ≤ commonPrefix xs ys ↔ k ≤ xs.length ∧ k ≤ ys.length ∧ ∀ i < k, xs[i]? = ys[i]? := by
  induction xs generalizing k ys with
  | nil =>
    simp only [commonPrefix, List.length_nil, Nat.le_zero]
    exact ⟨fun h => ⟨h, by omega, fun i hi => by omega⟩, fun h => h.1⟩
  | cons a as ih =>
    cases ys with
    | nil =>
      simp only [commonPrefix, List.length_nil, Nat.le_zero]
      exact ⟨fun h => ⟨by omega, h, fun i hi => by omega⟩, fun h => h.2.1⟩
    | cons b bs =>
      cases k with
      | zero => simp
      | succ k =>
        rw [commonPrefix]
        by_cases hab : a = b
        · rw [if_pos hab, Nat.add_le_add_iff_right, ih]
          simp only [List.length_cons, Nat.add_le_add_iff_right]
          refine and_congr_right fun _ => and_congr_right fun _ => ⟨fun h i hi => ?_, fun h i hi => ?_⟩
          · cases i with
            | zero => simp [hab]
            | succ i => simpa using h i (by omega)
          · simpa using h (i + 1) (by omega)
        · rw [if_neg hab]
          refine ⟨fun h => by omega, fun h => ?_⟩
          have h0 := h.2.2 0 (by omega)
          simp only [List.getElem?_cons_zero, Option.some.injEq] at h0
          exact absurd h0 hab

/-- How far two lists agree from their ends. -/
theorem le_commonSuffix {k : Nat} {xs ys : List α} :
    k ≤ commonSuffix xs ys ↔
      k ≤ xs.length ∧ k ≤ ys.length ∧ ∀ i < k, xs[xs.length - 1 - i]? = ys[ys.length - 1 - i]? := by
  rw [commonSuffix, le_commonPrefix, List.length_reverse, List.length_reverse]
  refine and_congr_right fun hx => and_congr_right fun hy => forall_congr' fun i => imp_congr_right fun hi => ?_
  rw [List.getElem?_reverse (by omega), List.getElem?_reverse (by omega)]

end Suffix

/-! ## The best of a scan -/

/-- The point of greatest score among those of `[lo, hi)` with `P`. -/
structure Best {β : Type} [Preorder β] (P : Nat → Prop) (score : Nat → β) (lo hi e : Nat) : Prop where
  low : lo ≤ e
  high : e < hi
  holds : P e
  greatest : ∀ e', lo ≤ e' → e' < hi → P e' → score e' ≤ score e

namespace Best

variable {β : Type} [Preorder β] {P : Nat → Prop} {score : Nat → β} {lo hi e : Nat}

/-- A point without `P` is skipped. -/
theorem skip (h : Best P score (lo + 1) hi e) (hp : ¬P lo) : Best P score lo hi e := by
  refine ⟨by have := h.low; omega, h.high, h.holds, fun e' hlo hhi hp' => ?_⟩
  rcases Nat.eq_or_lt_of_le hlo with rfl | hlt
  · exact absurd hp' hp
  · exact h.greatest e' hlt hhi hp'

/-- A point that is no better is passed over. -/
theorem keep (h : Best P score (lo + 1) hi e) (hs : score lo ≤ score e) : Best P score lo hi e := by
  refine ⟨by have := h.low; omega, h.high, h.holds, fun e' hlo hhi hp' => ?_⟩
  rcases Nat.eq_or_lt_of_le hlo with rfl | hlt
  · exact hs
  · exact h.greatest e' hlt hhi hp'

/-- A better point is taken. -/
theorem take (h : Best P score (lo + 1) hi e) (hp : P lo) (hs : score e ≤ score lo) : Best P score lo hi lo := by
  refine ⟨Nat.le_refl _, by have := h.low; have := h.high; omega, hp, fun e' hlo hhi hp' => ?_⟩
  rcases Nat.eq_or_lt_of_le hlo with rfl | hlt
  · exact le_rfl
  · exact (h.greatest e' hlt hhi hp').trans hs

/-- The first point with `P` is taken. -/
theorem first (hno : ∀ e', lo < e' → e' < hi → ¬P e') (hlt : lo < hi) (hp : P lo) : Best P score lo hi lo := by
  refine ⟨Nat.le_refl _, hlt, hp, fun e' hlo hhi hp' => ?_⟩
  rcases Nat.eq_or_lt_of_le hlo with rfl | hlt
  · exact le_rfl
  · exact absurd hp' (hno e' hlt hhi)

/-- Where no lower point wins the scan may stop. -/
theorem stop (h : Best P score lo hi e) (hs : ∀ e' < lo, P e' → score e' ≤ score e) : Best P score 0 hi e := by
  refine ⟨Nat.zero_le _, h.high, h.holds, fun e' _ hhi hp' => ?_⟩
  by_cases hlo : lo ≤ e'
  · exact h.greatest e' hlo hhi hp'
  · exact hs e' (by omega) hp'

end Best

end Lib
