import BlackholeQwen.Lib.Dict

/-!
# The first key that two items share

Items are scanned in order, each with the keys it names (`f`, which may fail), and every key goes to the first item that
names it; the scan stops at a key that another item owns (`scan`). `scan_none_iff` says when nothing is shared, and
`scan_some` that a key reported as shared is shared.
-/

namespace Lib.Owners

variable {α κ ε : Type} [DecidableEq κ]

/-- Two items that share a key. -/
structure Shared (κ : Type) where
  first : Nat
  second : Nat
  key : κ
  deriving DecidableEq, Repr

/-- The keys of an item, each to its first owner, up to one that another item owns. -/
def claim (item : Nat) : List κ → Dict κ Nat → Except (Shared κ) (Dict κ Nat)
  | [], owner => .ok owner
  | key :: keys, owner =>
    match owner.get? key with
    | none => claim item keys (owner.set key item)
    | some first => if first = item then claim item keys owner else .error ⟨first, item, key⟩

/-- The items from number `n` on. -/
def scan (f : α → Except ε (List κ)) : Nat → List α → Dict κ Nat → Except ε (Option (Shared κ))
  | _, [], _ => .ok none
  | n, x :: xs, owner =>
    match f x with
    | .error e => .error e
    | .ok keys =>
      match claim n keys owner with
      | .error shared => .ok (some shared)
      | .ok owner => scan f (n + 1) xs owner

/-- The keys claimed are owned, and nothing else changes. -/
theorem claim_ok {item : Nat} {keys : List κ} {owner owner' : Dict κ Nat} (h : claim item keys owner = .ok owner')
    (k : κ) (u : Nat) : owner'.get? k = some u ↔ owner.get? k = some u ∨ k ∈ keys ∧ u = item := by
  induction keys generalizing owner with
  | nil => cases h; simp
  | cons key keys ih =>
    unfold claim at h
    cases hg : owner.get? key with
    | none =>
      simp only [hg] at h
      rw [ih h]
      by_cases hk : k = key
      · subst hk
        rw [Dict.get?_set_self, hg]
        simp only [Option.some.injEq, List.mem_cons, true_or, true_and, reduceCtorEq, false_or]
        constructor
        · rintro (rfl | ⟨-, rfl⟩) <;> rfl
        · rintro rfl; exact Or.inl rfl
      · rw [Dict.get?_set_of_ne _ _ hk]
        simp [hk]
    | some first =>
      simp only [hg] at h
      split at h
      · rename_i heq
        subst heq
        rw [ih h]
        constructor
        · rintro (hu | ⟨hk, rfl⟩)
          · exact Or.inl hu
          · exact Or.inr ⟨List.mem_cons_of_mem _ hk, rfl⟩
        · rintro (hu | ⟨hk, rfl⟩)
          · exact Or.inl hu
          · rcases List.mem_cons.mp hk with rfl | hk
            · exact Or.inl hg
            · exact Or.inr ⟨hk, rfl⟩
      · cases h

/-- A refused claim names a key of the item that another item owned before it. -/
theorem claim_error {item : Nat} {keys : List κ} {owner : Dict κ Nat} {c : Shared κ}
    (h : claim item keys owner = .error c) :
    c.second = item ∧ c.first ≠ item ∧ c.key ∈ keys ∧ owner.get? c.key = some c.first := by
  induction keys generalizing owner with
  | nil => cases h
  | cons key keys ih =>
    unfold claim at h
    cases hg : owner.get? key with
    | none =>
      simp only [hg] at h
      obtain ⟨h1, h2, h3, h4⟩ := ih h
      refine ⟨h1, h2, List.mem_cons_of_mem _ h3, ?_⟩
      by_cases hk : c.key = key
      · rw [hk, Dict.get?_set_self, Option.some.injEq] at h4
        exact absurd h4.symm h2
      · rwa [Dict.get?_set_of_ne _ _ hk] at h4
    | some first =>
      simp only [hg] at h
      split at h
      · obtain ⟨h1, h2, h3, h4⟩ := ih h
        exact ⟨h1, h2, List.mem_cons_of_mem _ h3, h4⟩
      · rename_i hne
        cases h
        exact ⟨rfl, hne, List.mem_cons_self, hg⟩

variable {f : α → Except ε (List κ)}

/-- Every key scanned so far has its one item as its owner. -/
def Owned (f : α → Except ε (List κ)) (done : List α) (owner : Dict κ Nat) : Prop :=
  ∀ k u, owner.get? k = some u ↔ ∃ x ks, done[u]? = some x ∧ f x = .ok ks ∧ k ∈ ks

/-- The invariant of the scan through one item. -/
theorem Owned.claim {done : List α} {owner owner' : Dict κ Nat} (h : Owned f done owner) {x : α} {keys : List κ}
    (hx : f x = .ok keys) (hc : Owners.claim done.length keys owner = .ok owner') :
    Owned f (done ++ [x]) owner' := by
  intro k u
  rw [claim_ok hc, h k u]
  constructor
  · rintro (⟨y, ks, hy, hf, hk⟩ | ⟨hk, rfl⟩)
    · have hlt := (List.getElem?_eq_some_iff.mp hy).1
      exact ⟨y, ks, by rw [List.getElem?_append_left hlt]; exact hy, hf, hk⟩
    · exact ⟨x, keys, by simp, hx, hk⟩
  · rintro ⟨y, ks, hy, hf, hk⟩
    rcases Nat.lt_trichotomy u done.length with hlt | heq | hgt
    · rw [List.getElem?_append_left hlt] at hy
      exact Or.inl ⟨y, ks, hy, hf, hk⟩
    · subst heq
      rw [List.getElem?_concat_length, Option.some.injEq] at hy
      subst hy
      rw [hx] at hf
      cases hf
      exact Or.inr ⟨hk, rfl⟩
    · rw [List.getElem?_eq_none (by simp; omega)] at hy
      cases hy

/-- What the result of a scan says of all items and of those scanned last. -/
def Explained (f : α → Except ε (List κ)) (all rest : List α) : Except ε (Option (Shared κ)) → Prop
  | .error _ => ∃ x ∈ rest, ∀ ks, f x ≠ .ok ks
  | .ok none => (∃ owner, Owned f all owner) ∧ ∀ x ∈ rest, ∃ ks, f x = .ok ks
  | .ok (some c) => c.first < c.second ∧ ∃ x y ks ls, all[c.first]? = some x ∧ all[c.second]? = some y ∧
      f x = .ok ks ∧ f y = .ok ls ∧ c.key ∈ ks ∧ c.key ∈ ls

/-- The scan of the rest, whichever way it ends. -/
theorem scan_spec (rest : List α) : ∀ {done : List α} {owner : Dict κ Nat}, Owned f done owner →
    Explained f (done ++ rest) rest (scan f done.length rest owner) := by
  induction rest with
  | nil =>
    intro done owner h
    exact ⟨⟨owner, by rwa [List.append_nil]⟩, fun x hx => by cases hx⟩
  | cons x xs ih =>
    intro done owner h
    cases hx : f x with
    | error e =>
      simp only [scan, hx]
      exact ⟨x, List.mem_cons_self, fun ks hks => by rw [hx] at hks; cases hks⟩
    | ok keys =>
      cases hc : claim done.length keys owner with
      | error c =>
        simp only [scan, hx, hc]
        obtain ⟨h1, -, h3, h4⟩ := claim_error hc
        obtain ⟨y, ks, hy, hf, hk⟩ := (h c.key c.first).mp h4
        have hlt := (List.getElem?_eq_some_iff.mp hy).1
        refine ⟨by omega, y, x, ks, keys, ?_, ?_, hf, hx, hk, h3⟩
        · rw [List.getElem?_append_left hlt]; exact hy
        · rw [h1, List.getElem?_append_right (Nat.le_refl _), Nat.sub_self]; rfl
      | ok owner' =>
        simp only [scan, hx, hc]
        have hnext := ih (h.claim hx hc)
        simp only [List.length_append, List.length_singleton, List.append_assoc, List.singleton_append] at hnext
        generalize scan f (done.length + 1) xs owner' = result at hnext ⊢
        match result, hnext with
        | .error e, ⟨y, hy, hf⟩ => exact ⟨y, List.mem_cons_of_mem _ hy, hf⟩
        | .ok none, ⟨howned, hall⟩ =>
          refine ⟨howned, fun y hy => ?_⟩
          rcases List.mem_cons.mp hy with rfl | hy
          · exact ⟨keys, hx⟩
          · exact hall y hy
        | .ok (some c), hshared => exact hshared

/-- Items share no key: each has keys, and no key of one is a key of another. -/
def Apart (f : α → Except ε (List κ)) (xs : List α) : Prop :=
  (∀ x ∈ xs, ∃ ks, f x = .ok ks) ∧ ∀ {i j : Nat} {x y : α} {ks ls : List κ}, i ≠ j → xs[i]? = some x →
    xs[j]? = some y → f x = .ok ks → f y = .ok ls → ∀ k ∈ ks, k ∉ ls

theorem owned_nil : Owned f [] (Dict.empty : Dict κ Nat) := by
  intro k u
  constructor
  · intro h; cases h
  · rintro ⟨x, ks, hx, -⟩; cases hx

/-- **A key reported as shared is a key of both items.** -/
theorem scan_some {xs : List α} {c : Shared κ} (h : scan f 0 xs Dict.empty = .ok (some c)) :
    c.first < c.second ∧ ∃ x y ks ls, xs[c.first]? = some x ∧ xs[c.second]? = some y ∧ f x = .ok ks ∧ f y = .ok ls ∧
      c.key ∈ ks ∧ c.key ∈ ls := by
  have hspec := scan_spec (f := f) xs owned_nil
  rw [List.length_nil, List.nil_append, h] at hspec
  exact hspec

/-- **The scan finds nothing exactly when the items share no key.** -/
theorem scan_none_iff {xs : List α} : scan f 0 xs Dict.empty = .ok none ↔ Apart f xs := by
  have hspec := scan_spec (f := f) xs owned_nil
  rw [List.length_nil, List.nil_append] at hspec
  constructor
  · intro h
    rw [h] at hspec
    obtain ⟨⟨owner, howned⟩, hall⟩ := hspec
    refine ⟨hall, ?_⟩
    intro i j x y ks ls hne hx hy hfx hfy k hk hl
    have hi := (howned k i).mpr ⟨x, ks, hx, hfx, hk⟩
    have hj := (howned k j).mpr ⟨y, ls, hy, hfy, hl⟩
    rw [hi, Option.some.injEq] at hj
    exact hne hj
  · rintro ⟨hall, hapart⟩
    cases hs : scan f 0 xs Dict.empty with
    | error e =>
      rw [hs] at hspec
      obtain ⟨x, hx, hno⟩ := hspec
      obtain ⟨ks, hks⟩ := hall x hx
      exact absurd hks (hno ks)
    | ok r =>
      cases r with
      | none => rfl
      | some c =>
        rw [hs] at hspec
        obtain ⟨hlt, x, y, ks, ls, hx, hy, hfx, hfy, hk, hl⟩ := hspec
        exact absurd hl (hapart (by omega) hx hy hfx hfy _ hk)

end Lib.Owners
