import Mathlib.Data.List.Nodup
import Mathlib.Data.List.Perm.Subperm
import Mathlib.Data.List.Range
import Mathlib.Order.Monotone.Defs

/-!
# Indices

The entries of a list of distinct ones say where they are (`getD_inj`). A list of distinct indices below `n` has at most
`n` of them (`length_le`), and one of length `n` holds every index (`mem_of_full`), each once (`count_of_full`). Ranges
and blocks that follow each other are one range (`ranges_append`, `blocks_append`), and the entries of equal rows are
found by row and column (`flatten_getElem?`).
-/

namespace Lib.Indices

variable {l : List Nat} {n : Nat}

/-- The entries of a list of distinct ones say where they are. -/
theorem getD_inj {α : Type} {xs : List α} {a b : Nat} {v : α} (hnd : xs.Nodup) (ha : a < xs.length) (hb : b < xs.length)
    (h : xs.getD a v = xs.getD b v) : a = b := by
  simp only [List.getD_eq_getElem?_getD, List.getElem?_eq_getElem ha, List.getElem?_eq_getElem hb,
    Option.getD_some] at h
  exact (List.Nodup.getElem_inj_iff hnd).mp h

theorem length_le (hnd : l.Nodup) (hlt : ∀ i ∈ l, i < n) : l.length ≤ n := by
  have hsub : l.Subperm (List.range n) := hnd.subperm fun i hi => List.mem_range.mpr (hlt i hi)
  have h := hsub.length_le
  rwa [List.length_range] at h

theorem mem_of_full (hnd : l.Nodup) (hlt : ∀ i ∈ l, i < n) (hlen : l.length = n) : ∀ i < n, i ∈ l := by
  intro i hi
  have hsub : l.Subperm (List.range n) := hnd.subperm fun i hi => List.mem_range.mpr (hlt i hi)
  have hperm : l.Perm (List.range n) := hsub.perm_of_length_le (by rw [List.length_range]; omega)
  exact hperm.mem_iff.mpr (List.mem_range.mpr hi)

theorem count_of_full (hnd : l.Nodup) (hlt : ∀ i ∈ l, i < n) (hlen : l.length = n) : ∀ i < n, l.count i = 1 :=
  fun i hi => List.count_eq_one_of_mem hnd (mem_of_full hnd hlt hlen i hi)

/-- Ranges that follow each other. -/
theorem ranges_append {f : Nat → Nat} (hmono : Monotone f) (hzero : f 0 = 0) (n : Nat) :
    ((List.range n).flatMap fun w => List.range' (f w) (f (w + 1) - f w)) = List.range (f n) := by
  induction n with
  | zero => simp [hzero]
  | succ n ih =>
    rw [List.range_succ, List.flatMap_append, ih, List.flatMap_singleton, List.range_eq_range', List.range_eq_range']
    have hle := hmono (Nat.le_succ n)
    have happend := List.range'_append_1 (s := 0) (m := f n) (n := f (n + 1) - f n)
    rw [Nat.zero_add] at happend
    rw [happend, Nat.add_sub_cancel' hle]

/-- Blocks that follow each other. -/
theorem blocks_append (a b n : Nat) :
    ((List.range n).flatMap fun r => List.range' (a + r * b) b) = List.range' a (n * b) := by
  induction n with
  | zero => simp
  | succ n ih =>
    rw [List.range_succ, List.flatMap_append, ih, List.flatMap_singleton, List.range'_append_1, Nat.succ_mul]

/-- What one of several lists has once, and the others do not have. -/
theorem countP_flatMap_one {κ α : Type} {P : α → Bool} {f : κ → List α} {ks : List κ} (hnodup : ks.Nodup) {k : κ}
    (hk : k ∈ ks) (hone : (f k).countP P = 1) (hnone : ∀ k' ∈ ks, k' ≠ k → (f k').countP P = 0) :
    (ks.flatMap f).countP P = 1 := by
  induction ks with
  | nil => cases hk
  | cons first ks ih =>
    obtain ⟨hfirst, hnodup⟩ := List.nodup_cons.mp hnodup
    rw [List.flatMap_cons, List.countP_append]
    by_cases hmem : k ∈ ks
    · rw [ih hnodup hmem fun k' hk' => hnone k' (List.mem_cons_of_mem _ hk'),
        hnone first List.mem_cons_self fun heq => hfirst (heq ▸ hmem)]
    · obtain rfl : k = first := (List.mem_cons.mp hk).resolve_right hmem
      have hrest : (ks.flatMap f).countP P = 0 := List.countP_eq_zero.mpr fun a ha => by
        obtain ⟨k', hk', ha⟩ := List.mem_flatMap.mp ha
        have hzero := hnone k' (List.mem_cons_of_mem _ hk') fun heq => hmem (heq ▸ hk')
        exact List.countP_eq_zero.mp hzero a ha
      rw [hone, hrest]

theorem flatten_length {α : Type} {rows : List (List α)} {n : Nat} (h : ∀ row ∈ rows, row.length = n) :
    rows.flatten.length = rows.length * n := by
  induction rows with
  | nil => simp
  | cons row rows ih =>
    rw [List.flatten_cons, List.length_append, h row List.mem_cons_self,
      ih fun row' hrow' => h row' (List.mem_cons_of_mem _ hrow'), List.length_cons, Nat.succ_mul, Nat.add_comm]

/-- The entries of equal rows, one row after the other. -/
theorem flatten_getElem? {α : Type} {rows : List (List α)} {n : Nat} (h : ∀ row ∈ rows, row.length = n) (r : Nat)
    {j : Nat}
    (hj : j < n) : rows.flatten[n * r + j]? = rows[r]?.bind fun row => row[j]? := by
  induction rows generalizing r with
  | nil => simp
  | cons row rows ih =>
    have hrow := h row List.mem_cons_self
    rw [List.flatten_cons]
    cases r with
    | zero => rw [Nat.mul_zero, Nat.zero_add, List.getElem?_append_left (by omega)]; rfl
    | succ r =>
      rw [List.getElem?_append_right (by rw [Nat.mul_succ]; omega), List.getElem?_cons_succ,
        ← ih (fun row' hrow' => h row' (List.mem_cons_of_mem _ hrow')), hrow]
      congr 1
      rw [Nat.mul_succ]
      omega

end Lib.Indices
