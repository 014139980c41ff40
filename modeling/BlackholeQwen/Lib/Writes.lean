import Mathlib.Data.List.Nodup
import Mathlib.Data.Set.Defs
import Mathlib.Logic.Function.Basic

/-!
# Lists of writes to a memory, folds that write, and dated records

`store m l` is the memory `m` after the writes `l`, in order. With distinct destinations the order is immaterial and
every destination holds its value (`store_mem`); leaving out the writes whose destinations already hold their values
changes nothing (`store_changed`).

`splice` overwrites a span; in a fold of such steps a place that no step writes is as it was (`foldl_kept`), and one
that some step writes, and none with another value, has that value (`foldl_written`). Steps with targets of their own
leave each target as its own step does (`foldl_each`).

A record says what some destinations hold, and is dated with the value of a counter. If every write to the memory moves
the counter, the record is true as long as the counter stays at its date (`Dated`): `Dated.moved` lets anything happen
to the memory while the counter moves, and `Dated.taken` takes a record.
-/

namespace Lib

variable {α β : Type}

/-- A record of a memory, dated with a counter: it is not from the future, and true while the counter stays. -/
structure Dated (now : Nat) (m : α → β) (date : Nat) (record : List (α × β)) : Prop where
  le : date ≤ now
  holds : date = now → ∀ p ∈ record, m p.1 = p.2

/-- While the counter moves, anything may happen to the memory. -/
theorem Dated.moved {now now' date : Nat} {m m' : α → β} {record : List (α × β)} (h : Dated now m date record)
    (hlt : now < now') : Dated now' m' date record :=
  ⟨Nat.le_trans h.le (Nat.le_of_lt hlt), fun hd => absurd h.le (by omega)⟩

variable [DecidableEq α]

/-- The memory after writes. -/
def store (m : α → β) (l : List (α × β)) : α → β := l.foldl (fun m p => Function.update m p.1 p.2) m

@[simp] theorem store_cons (m : α → β) (p : α × β) (l : List (α × β)) :
    store m (p :: l) = store (Function.update m p.1 p.2) l := rfl

/-- Other destinations are left alone. -/
theorem store_notMem {l : List (α × β)} {a : α} (m : α → β) (h : a ∉ l.map Prod.fst) : store m l a = m a := by
  induction l generalizing m with
  | nil => rfl
  | cons p l ih =>
    rw [List.map_cons, List.mem_cons, not_or] at h
    rw [store_cons, ih _ h.2, Function.update_of_ne h.1]

/-- Every destination holds its value. -/
theorem store_mem {l : List (α × β)} {p : α × β} (m : α → β) (hnd : (l.map Prod.fst).Nodup) (h : p ∈ l) :
    store m l p.1 = p.2 := by
  induction l generalizing m with
  | nil => cases h
  | cons q l ih =>
    rw [List.map_cons, List.nodup_cons] at hnd
    rw [store_cons]
    rcases List.mem_cons.mp h with rfl | h
    · rw [store_notMem _ hnd.1, Function.update_self]
    · exact ih _ hnd.2 h

/-- **Writes whose destinations already hold their values may be left out.** -/
theorem store_changed {m : α → β} {l l' : List (α × β)} (hsub : ∀ p ∈ l', p ∈ l)
    (hnd : (l.map Prod.fst).Nodup) (hnd' : (l'.map Prod.fst).Nodup) (hkept : ∀ p ∈ l, p ∉ l' → m p.1 = p.2) :
    store m l' = store m l := by
  have unique : ∀ p ∈ l, ∀ q ∈ l, p.1 = q.1 → p = q := List.inj_on_of_nodup_map hnd
  funext a
  by_cases ha : a ∈ l.map Prod.fst
  · obtain ⟨p, hp, rfl⟩ := List.mem_map.mp ha
    rw [store_mem m hnd hp]
    by_cases hp' : p ∈ l'
    · exact store_mem m hnd' hp'
    · rw [store_notMem m fun h => hp' ?_, hkept p hp hp']
      obtain ⟨q, hq, he⟩ := List.mem_map.mp h
      exact unique q (hsub q hq) p hp he ▸ hq
  · rw [store_notMem m ha, store_notMem m fun h => ha ?_]
    obtain ⟨q, hq, rfl⟩ := List.mem_map.mp h
    exact List.mem_map_of_mem (hsub q hq)

/-- A record of what has just been written. -/
theorem Dated.taken {now : Nat} {m : α → β} {l : List (α × β)} (hnd : (l.map Prod.fst).Nodup) :
    Dated now (store m l) now l :=
  ⟨Nat.le_refl _, fun _ _ hp => store_mem m hnd hp⟩

/-! ## Folds that write -/

section

variable {ν : Type} {window tile : Nat → ν} {a b n i : Nat}

/-- `window[a:a + n] = tile[b:b + n]`. -/
def splice (window tile : Nat → ν) (a b n : Nat) : Nat → ν := fun i =>
  if a ≤ i ∧ i < a + n then tile (b + (i - a)) else window i

theorem splice_inside (h : a ≤ i ∧ i < a + n) : splice window tile a b n i = tile (b + (i - a)) := if_pos h

theorem splice_outside (h : ¬(a ≤ i ∧ i < a + n)) : splice window tile a b n i = window i := if_neg h

end

section

variable {κ ν : Type} {f : (Nat → ν) → κ → Nat → ν} {ks : List κ} {i : Nat} {v : ν}

/-- A place that no step writes. -/
theorem foldl_kept (h : ∀ k ∈ ks, ∀ w, f w k i = w i) (w : Nat → ν) : ks.foldl f w i = w i := by
  induction ks generalizing w with
  | nil => rfl
  | cons k ks ih =>
    rw [List.foldl_cons, ih fun k' hk' => h k' (List.mem_cons_of_mem _ hk')]
    exact h k List.mem_cons_self w

/-- A place that some step writes, and no step with another value. -/
theorem foldl_written {k : κ} (hk : k ∈ ks) (hwrite : ∀ w, f w k i = v)
    (hsame : ∀ k ∈ ks, ∀ w, f w k i = w i ∨ f w k i = v) (w : Nat → ν) : ks.foldl f w i = v := by
  have hlast : ∀ (ks : List κ) (w : Nat → ν), (∀ k ∈ ks, ∀ w, f w k i = w i ∨ f w k i = v) → w i = v →
      ks.foldl f w i = v := by
    intro ks
    induction ks with
    | nil => exact fun w _ hw => hw
    | cons k ks ih =>
      intro w hsame hw
      refine ih _ (fun k' hk' => hsame k' (List.mem_cons_of_mem _ hk')) ?_
      rcases hsame k List.mem_cons_self w with h | h
      · rw [h, hw]
      · exact h
  induction ks generalizing w with
  | nil => cases hk
  | cons first ks ih =>
    have hsame' : ∀ k ∈ ks, ∀ w, f w k i = w i ∨ f w k i = v := fun k' hk' =>
      hsame k' (List.mem_cons_of_mem _ hk')
    rcases List.mem_cons.mp hk with rfl | hk
    · exact hlast ks _ hsame' (hwrite w)
    · exact ih hk hsame' _

end

/-! ## Steps with targets of their own -/

section

variable {κ σ β γ : Type} {f : σ → κ → σ} {ks : List κ} (get : σ → β → γ)

/-- What no step changes. -/
theorem foldl_get_kept {c : β} (h : ∀ k ∈ ks, ∀ s, get (f s k) c = get s c) (s : σ) :
    get (ks.foldl f s) c = get s c := by
  induction ks generalizing s with
  | nil => rfl
  | cons k ks ih =>
    rw [List.foldl_cons, ih fun k' hk' => h k' (List.mem_cons_of_mem _ hk')]
    exact h k List.mem_cons_self s

/-- **Steps with targets of their own**, that keep an invariant and do not touch each other's targets: each target ends
with what its own step brings. -/
theorem foldl_each (targets : κ → Set β) (inv : σ → Prop) (brings : κ → β → γ → Prop)
    (hstep : ∀ k ∈ ks, ∀ s, inv s → inv (f s k) ∧ ∀ c ∈ targets k, brings k c (get (f s k) c))
    (hkeep : ∀ k ∈ ks, ∀ k' ∈ ks, k ≠ k' → ∀ s, ∀ c ∈ targets k, get (f s k') c = get s c) (hnodup : ks.Nodup) {s : σ}
    (hinv : inv s) : inv (ks.foldl f s) ∧ ∀ k ∈ ks, ∀ c ∈ targets k, brings k c (get (ks.foldl f s) c) := by
  induction ks generalizing s with
  | nil => exact ⟨hinv, by simp⟩
  | cons first ks ih =>
    obtain ⟨hfirst, hnodup⟩ := List.nodup_cons.mp hnodup
    obtain ⟨hinv', hvalue⟩ := hstep first List.mem_cons_self s hinv
    have hkeep' : ∀ k ∈ ks, ∀ k' ∈ ks, k ≠ k' → ∀ s, ∀ c ∈ targets k, get (f s k') c = get s c :=
      fun k hk k' hk' => hkeep k (List.mem_cons_of_mem _ hk) k' (List.mem_cons_of_mem _ hk')
    obtain ⟨hend, hvalues⟩ := ih (fun k hk => hstep k (List.mem_cons_of_mem _ hk)) hkeep' hnodup hinv'
    rw [List.foldl_cons]
    refine ⟨hend, fun k hk c hc => ?_⟩
    by_cases hmem : k ∈ ks
    · exact hvalues k hmem c hc
    · obtain rfl : k = first := (List.mem_cons.mp hk).resolve_right hmem
      rw [foldl_get_kept get fun k' hk' s => hkeep k List.mem_cons_self k' (List.mem_cons_of_mem _ hk')
        (fun heq => hmem (heq ▸ hk')) s c hc]
      exact hvalue c hc

end

end Lib
