import Mathlib.Data.List.Nodup
import Mathlib.Data.List.Perm.Subperm
import Mathlib.Data.List.Sort
import Mathlib.Order.Lattice

/-!
# The `k` largest

`Top f k U l`: the list `l` holds `k` of the members of `U` that are largest by `f`, ties broken anyhow.

- `Top.merge`: the `k` largest of what the parts of a whole list as their `k` largest are `k` largest of the whole.
- `Top.take`: the first `k` of a descending list.
- `Top.values`: the values of the `k` largest do not depend on how ties are broken.
- `pairwise_stacked`: a stable sort of a sorted list is sorted by both, the second first.
-/

namespace Lib

variable {ι β : Type} [LinearOrder β] {f : ι → β} {k : Nat}

/-- `k` members that are largest by `f`. -/
structure Top (f : ι → β) (k : Nat) (U : ι → Prop) (l : List ι) : Prop where
  nodup : l.Nodup
  length : l.length = k
  member : ∀ x ∈ l, U x
  largest : ∀ x, U x → x ∉ l → ∀ y ∈ l, f x ≤ f y

namespace Top

variable {U : ι → Prop} {l : List ι}

/-- **Parts of a whole.** What a part lists beside a member that it leaves out is at least as large; if the merged list
left one of these out too, it holds nothing smaller, and otherwise it is the part's own list. -/
theorem merge {parts : List ((ι → Prop) × List ι)} (hparts : ∀ p ∈ parts, Top f k p.1 p.2)
    (hcover : ∀ x, U x ↔ ∃ p ∈ parts, p.1 x) (h : Top f k (fun x => ∃ p ∈ parts, x ∈ p.2) l) : Top f k U l := by
  refine ⟨h.nodup, h.length, fun x hx => ?_, fun x hU hx z hz => ?_⟩
  · obtain ⟨p, hp, hxp⟩ := h.member x hx
    exact (hcover x).mpr ⟨p, hp, (hparts p hp).member x hxp⟩
  · obtain ⟨p, hp, hxp⟩ := (hcover x).mp hU
    by_cases hlisted : x ∈ p.2
    · exact h.largest x ⟨p, hp, hlisted⟩ hx z hz
    · by_cases hsub : ∀ y ∈ p.2, y ∈ l
      · -- as many as the merged list holds, so the same
        have hperm := (hparts p hp).nodup.subperm hsub
        have hmem : z ∈ p.2 := (hperm.perm_of_length_le (by rw [h.length, (hparts p hp).length])).mem_iff.mpr hz
        exact (hparts p hp).largest x hxp hlisted z hmem
      · push Not at hsub
        obtain ⟨y, hy, hyl⟩ := hsub
        exact ((hparts p hp).largest x hxp hlisted y hy).trans (h.largest y ⟨p, hp, hy⟩ hyl z hz)

/-- The first `k` of a descending list. -/
theorem take {xs : List ι} (hnd : xs.Nodup) (hsorted : xs.Pairwise fun x y => f y ≤ f x) (hk : k ≤ xs.length) :
    Top f k (· ∈ xs) (xs.take k) := by
  refine ⟨hnd.sublist (List.take_sublist k xs), by rw [List.length_take]; omega,
    fun x hx => List.mem_of_mem_take hx, ?_⟩
  intro x hx hnot y hy
  rw [← List.take_append_drop k xs] at hx hsorted
  exact (List.pairwise_append.mp hsorted).2.2 y hy x ((List.mem_append.mp hx).resolve_left hnot)

/-- **The values of the `k` largest**, in descending order, are the first `k` of all. -/
theorem values {xs : List ι} (hnd : xs.Nodup) (h : Top f k (· ∈ xs) l) (hsorted : l.Pairwise fun x y => f y ≤ f x) :
    l.map f = ((xs.map f).mergeSort fun a b => decide (b ≤ a)).take k := by
  classical
  have hdesc : ∀ ys : List β, (ys.mergeSort fun a b => decide (b ≤ a)).Pairwise fun a b => b ≤ a := fun ys => by
    refine (List.pairwise_mergeSort ?_ ?_ ys).imp fun {a b} hab => of_decide_eq_true hab
    · intro a b c hab hbc
      exact decide_eq_true ((of_decide_eq_true hbc).trans (of_decide_eq_true hab))
    · intro a b
      rw [Bool.or_eq_true, decide_eq_true_eq, decide_eq_true_eq]
      exact le_total b a
  have hperm : xs.Perm (l ++ xs.filter (· ∉ l)) := by
    refine (List.perm_ext_iff_of_nodup hnd ?_).mpr fun x => ?_
    · refine List.nodup_append.mpr ⟨h.nodup, hnd.filter _, fun a ha b hb hab => ?_⟩
      subst hab
      exact of_decide_eq_true (List.mem_filter.mp hb).2 ha
    · rw [List.mem_append, List.mem_filter, decide_eq_true_eq]
      by_cases hx : x ∈ l
      · exact ⟨fun _ => Or.inl hx, fun _ => h.member x hx⟩
      · exact ⟨fun hxs => Or.inr ⟨hxs, hx⟩, fun h' => (h'.resolve_left hx).1⟩
  have heq : (xs.map f).mergeSort (fun a b => decide (b ≤ a)) =
      l.map f ++ ((xs.filter (· ∉ l)).map f).mergeSort fun a b => decide (b ≤ a) := by
    refine List.Perm.eq_of_pairwise (fun a b _ _ hab hba => le_antisymm hba hab) (hdesc _) ?_ ?_
    · refine List.pairwise_append.mpr ⟨List.pairwise_map.mpr hsorted, hdesc _, fun a ha b hb => ?_⟩
      obtain ⟨y, hy, rfl⟩ := List.mem_map.mp ha
      obtain ⟨x, hx, rfl⟩ := List.mem_map.mp (List.mem_mergeSort.mp hb)
      obtain ⟨hxs, hnot⟩ := List.mem_filter.mp hx
      exact h.largest x hxs (of_decide_eq_true hnot) y hy
    · refine (List.mergeSort_perm _ _).trans ((hperm.map f).trans ?_)
      rw [List.map_append]
      exact List.Perm.append_left _ (List.mergeSort_perm _ _).symm
  rw [heq, List.take_left' (by rw [List.length_map, h.length])]

end Top

/-! ## Stacked stable sorts -/

/-- Two members of a list without repetition come in one order. -/
theorem not_both_orders {α : Type} {l : List α} (hnd : l.Nodup) {a b : α} (hab : [a, b].Sublist l)
    (hba : [b, a].Sublist l) : False := by
  classical
  have hsorted : l.Pairwise fun x y => l.idxOf x < l.idxOf y := by
    rw [List.pairwise_iff_getElem]
    intro i j hi hj hij
    rw [hnd.idxOf_getElem i hi, hnd.idxOf_getElem j hj]
    exact hij
  have hlt := List.pairwise_iff_forall_sublist.mp hsorted hab
  have hgt := List.pairwise_iff_forall_sublist.mp hsorted hba
  omega

/-- **Stacked sorts.** Sorting a list by one order, then stably by another, sorts it by the second, then the first. -/
theorem pairwise_stacked {α : Type} {first second : α → α → Bool} {l : List α} (hnd : l.Nodup)
    (htrans₁ : ∀ a b c, first a b → first b c → first a c) (htotal₁ : ∀ a b, first a b || first b a)
    (htrans₂ : ∀ a b c, second a b → second b c → second a c) (htotal₂ : ∀ a b, second a b || second b a) :
    ((l.mergeSort first).mergeSort second).Pairwise fun a b => second a b ∧ (second b a → first a b) := by
  have hsorted₁ := List.pairwise_mergeSort htrans₁ htotal₁ l
  have hsorted₂ := List.pairwise_mergeSort htrans₂ htotal₂ (l.mergeSort first)
  have hnd₂ : ((l.mergeSort first).mergeSort second).Nodup :=
    ((List.mergeSort_perm _ _).trans (List.mergeSort_perm _ _)).nodup_iff.mpr hnd
  rw [List.pairwise_iff_forall_sublist]
  intro a b hab
  refine ⟨List.pairwise_iff_forall_sublist.mp hsorted₂ hab, fun hback => ?_⟩
  by_contra hnot
  have ha : a ∈ l.mergeSort first := List.mem_mergeSort.mp (hab.subset List.mem_cons_self)
  have hb : b ∈ l.mergeSort first := List.mem_mergeSort.mp (hab.subset (List.mem_cons_of_mem _ List.mem_cons_self))
  -- the first sort has `b` before `a`, and the second keeps that order
  obtain ⟨before, after, hsplit⟩ := List.append_of_mem hb
  rw [hsplit] at ha hsorted₁
  have hne : a ≠ b := by
    rintro rfl
    exact hnot (by simpa using htotal₁ a a)
  rcases List.mem_append.mp ha with ha | ha
  · exact hnot ((List.pairwise_append.mp hsorted₁).2.2 a ha b List.mem_cons_self)
  · have ha := (List.mem_cons.mp ha).resolve_left hne
    have hba : [b, a].Sublist (l.mergeSort first) := by
      rw [hsplit]
      exact (List.Sublist.cons_cons b (List.singleton_sublist.mpr ha)).trans (List.sublist_append_right _ _)
    exact not_both_orders hnd₂ hab (List.pair_sublist_mergeSort htrans₂ htotal₂ hback hba)

end Lib
