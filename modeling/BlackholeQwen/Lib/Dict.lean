import Mathlib.Data.List.Nodup
import Mathlib.Algebra.BigOperators.Group.List.Basic
import Mathlib.Algebra.Ring.Int.Defs

/-!
# Insertion-ordered dictionaries

`Dict κ ν` is Python's `dict` and `OrderedDict`: the items in insertion order, with distinct keys as a field. Writing
to a present key keeps its place, writing to a new key appends; `erase` is `pop`, `moveToEnd` is `move_to_end`.

Membership of `items` says everything about a dictionary but its order, and the `mem_*` lemmas reduce every operation
to it; `perm_erase` and `perm_moveToEnd` carry sums and counts over the items.
-/

namespace Lib

/-- A dictionary: its items in insertion order, no key twice. -/
structure Dict (κ ν : Type) where
  items : List (κ × ν)
  nodup : (items.map Prod.fst).Nodup

namespace Dict

variable {κ ν : Type}

/-- `{}`. -/
def empty : Dict κ ν := ⟨[], by simp⟩

instance : Inhabited (Dict κ ν) := ⟨empty⟩

/-- The keys in order. -/
def keys (d : Dict κ ν) : List κ := d.items.map Prod.fst

/-- The values in order. -/
def values (d : Dict κ ν) : List ν := d.items.map Prod.snd

/-- The sum of a weight over the values. -/
def sum (d : Dict κ ν) (f : ν → Int) : Int := (d.items.map (fun p => f p.2)).sum

/-- How many items hold a value with `q`. -/
def count (d : Dict κ ν) (q : ν → Bool) : Nat := d.items.countP (fun p => q p.2)

@[simp] theorem items_empty : (empty : Dict κ ν).items = [] := rfl

theorem mem_keys {d : Dict κ ν} {k : κ} : k ∈ d.keys ↔ ∃ v, (k, v) ∈ d.items := by
  simp [keys]

theorem items_nodup (d : Dict κ ν) : d.items.Nodup := d.nodup.of_map

variable [DecidableEq κ]

instance [DecidableEq ν] : DecidableEq (Dict κ ν) := fun d e =>
  decidable_of_iff (d.items = e.items) (by cases d; cases e; simp)

/-- `d.get(k)`. -/
def get? (d : Dict κ ν) (k : κ) : Option ν := (d.items.find? (fun p => p.1 = k)).map Prod.snd

/-- `d.pop(k, None)`, the value dropped. -/
def erase (d : Dict κ ν) (k : κ) : Dict κ ν :=
  ⟨d.items.filter (fun p => p.1 ≠ k), (List.filter_sublist.map Prod.fst).nodup d.nodup⟩

/-- `d[k] = v` of a present key: the value changes in its place. -/
def update (d : Dict κ ν) (k : κ) (v : ν) : Dict κ ν :=
  ⟨d.items.map (fun p => if p.1 = k then (k, v) else p), by
    have h : (d.items.map (fun p => if p.1 = k then (k, v) else p)).map Prod.fst = d.items.map Prod.fst := by
      rw [List.map_map]
      refine List.map_congr_left fun p _ => ?_
      by_cases hp : p.1 = k <;> simp [hp]
    rw [h]; exact d.nodup⟩

/-- The items without `k`, then `(k, v)`: `move_to_end` and the assignment to a new key. -/
def push (d : Dict κ ν) (k : κ) (v : ν) : Dict κ ν :=
  ⟨(d.erase k).items ++ [(k, v)], by
    rw [List.map_append, List.nodup_append]
    refine ⟨(d.erase k).nodup, by simp, ?_⟩
    intro a ha b hb
    simp only [erase, List.mem_map, List.mem_filter, decide_eq_true_eq] at ha
    simp only [List.map_cons, List.map_nil, List.mem_singleton] at hb
    obtain ⟨p, ⟨-, hp⟩, rfl⟩ := ha
    rw [hb]; exact hp⟩

/-- `d[k] = v`. -/
def set (d : Dict κ ν) (k : κ) (v : ν) : Dict κ ν := if (d.get? k).isSome then d.update k v else d.push k v

/-- `d.move_to_end(k)`. -/
def moveToEnd (d : Dict κ ν) (k : κ) : Dict κ ν :=
  match d.get? k with
  | some v => d.push k v
  | none => d

/-- `dict(pairs)`: a later pair overrides an earlier one of the same key. -/
def ofList (l : List (κ × ν)) : Dict κ ν := l.foldl (fun d p => d.set p.1 p.2) empty

/-! ## Membership -/

theorem get?_eq_some_iff {d : Dict κ ν} {k : κ} {v : ν} : d.get? k = some v ↔ (k, v) ∈ d.items := by
  obtain ⟨l, hl⟩ := d
  simp only [get?]
  induction l with
  | nil => simp
  | cons p l ih =>
    simp only [List.map_cons, List.nodup_cons, List.mem_map] at hl
    by_cases hp : p.1 = k
    · have hnot : (k, v) ∉ l := fun h => hl.1 ⟨(k, v), h, hp.symm⟩
      obtain ⟨a, b⟩ := p
      simp only at hp
      subst hp
      simp [hnot, eq_comm]
    · have hne : (k, v) ≠ p := fun h => hp (by rw [← h])
      simp [hp, ih hl.2, hne]

theorem get?_eq_none_iff {d : Dict κ ν} {k : κ} : d.get? k = none ↔ k ∉ d.keys := by
  constructor
  · intro h hk
    obtain ⟨⟨k', v⟩, hp, rfl⟩ := List.mem_map.mp hk
    rw [get?_eq_some_iff.mpr hp] at h; cases h
  · intro h
    cases hg : d.get? k with
    | none => rfl
    | some v => exact absurd (List.mem_map.mpr ⟨(k, v), get?_eq_some_iff.mp hg, rfl⟩) h

theorem mem_keys_of_get? {d : Dict κ ν} {k : κ} {v : ν} (h : d.get? k = some v) : k ∈ d.keys :=
  mem_keys.mpr ⟨v, get?_eq_some_iff.mp h⟩

theorem isSome_get? {d : Dict κ ν} {k : κ} : (d.get? k).isSome ↔ k ∈ d.keys := by
  cases h : d.get? k with
  | none => simp [get?_eq_none_iff.mp h]
  | some v => simp [mem_keys_of_get? h]

/-- A key determines its value. -/
theorem value_unique {d : Dict κ ν} {k : κ} {v w : ν} (h : (k, v) ∈ d.items) (h' : (k, w) ∈ d.items) : v = w := by
  have := get?_eq_some_iff.mpr h
  rw [get?_eq_some_iff.mpr h'] at this
  exact (Option.some.inj this).symm

/-- An item under a looked-up key holds the value found. -/
theorem eq_of_mem {d : Dict κ ν} {p : κ × ν} {k : κ} {v : ν} (hp : p ∈ d.items) (hk : p.1 = k)
    (hv : d.get? k = some v) : p.2 = v := by
  subst hk; exact value_unique hp (get?_eq_some_iff.mp hv)

@[simp] theorem get?_empty (k : κ) : (empty : Dict κ ν).get? k = none := rfl

@[simp] theorem mem_erase {d : Dict κ ν} {k : κ} {p : κ × ν} : p ∈ (d.erase k).items ↔ p ∈ d.items ∧ p.1 ≠ k := by
  simp [erase]

@[simp] theorem mem_push {d : Dict κ ν} {k : κ} {v : ν} {p : κ × ν} :
    p ∈ (d.push k v).items ↔ (p ∈ d.items ∧ p.1 ≠ k) ∨ p = (k, v) := by
  show p ∈ (d.erase k).items ++ [(k, v)] ↔ _
  rw [List.mem_append, mem_erase, List.mem_singleton]

theorem mem_update {d : Dict κ ν} {k : κ} {v : ν} {p : κ × ν} (hk : k ∈ d.keys) :
    p ∈ (d.update k v).items ↔ (p ∈ d.items ∧ p.1 ≠ k) ∨ p = (k, v) := by
  simp only [update, List.mem_map]
  constructor
  · rintro ⟨q, hq, rfl⟩
    by_cases h : q.1 = k
    · exact Or.inr (by simp [h])
    · exact Or.inl (by simpa [h] using hq)
  · rintro (⟨hp, hne⟩ | rfl)
    · exact ⟨p, hp, by simp [hne]⟩
    · obtain ⟨w, hw⟩ := mem_keys.mp hk
      exact ⟨(k, w), hw, by simp⟩

@[simp] theorem mem_set {d : Dict κ ν} {k : κ} {v : ν} {p : κ × ν} :
    p ∈ (d.set k v).items ↔ (p ∈ d.items ∧ p.1 ≠ k) ∨ p = (k, v) := by
  unfold set
  split
  · rename_i h; exact mem_update (isSome_get?.mp h)
  · exact mem_push

@[simp] theorem mem_moveToEnd {d : Dict κ ν} {k : κ} {p : κ × ν} : p ∈ (d.moveToEnd k).items ↔ p ∈ d.items := by
  unfold moveToEnd
  split
  · rename_i v hv
    have hkv := get?_eq_some_iff.mp hv
    rw [mem_push]
    constructor
    · rintro (h | rfl)
      · exact h.1
      · exact hkv
    · intro h
      by_cases hp : p.1 = k
      · refine Or.inr ?_
        obtain ⟨a, b⟩ := p
        simp only at hp
        subst hp
        rw [value_unique h hkv]
      · exact Or.inl ⟨h, hp⟩
  · rfl

/-- The items of `dict(pairs)` are among the pairs. -/
theorem mem_ofList {l : List (κ × ν)} {p : κ × ν} (h : p ∈ (ofList l).items) : p ∈ l := by
  have hfold : ∀ (l : List (κ × ν)) (d : Dict κ ν), p ∈ (l.foldl (fun d p => d.set p.1 p.2) d).items →
      p ∈ d.items ∨ p ∈ l := by
    intro l
    induction l with
    | nil => exact fun d h => Or.inl h
    | cons q l ih =>
      intro d h
      rcases ih _ h with h | h
      · rcases mem_set.mp h with ⟨h, -⟩ | rfl
        · exact Or.inl h
        · exact Or.inr List.mem_cons_self
      · exact Or.inr (List.mem_cons_of_mem _ h)
  rcases hfold l empty h with h | h
  · simp at h
  · exact h

/-- Every listed key is a key of `dict(pairs)`. -/
theorem mem_keys_ofList {l : List (κ × ν)} {p : κ × ν} (h : p ∈ l) : p.1 ∈ (ofList l).keys := by
  have hfold : ∀ (l : List (κ × ν)) (d : Dict κ ν), p ∈ l ∨ p.1 ∈ d.keys →
      p.1 ∈ (l.foldl (fun d p => d.set p.1 p.2) d).keys := by
    intro l
    induction l with
    | nil => exact fun d h => h.resolve_left (by simp)
    | cons q l ih =>
      intro d h
      refine ih _ ?_
      rcases h with h | h
      · rcases List.mem_cons.mp h with rfl | h
        · exact Or.inr (mem_keys.mpr ⟨p.2, mem_set.mpr (Or.inr rfl)⟩)
        · exact Or.inl h
      · by_cases hk : p.1 = q.1
        · exact Or.inr (mem_keys.mpr ⟨q.2, mem_set.mpr (Or.inr (by rw [hk]))⟩)
        · obtain ⟨v, hv⟩ := mem_keys.mp h
          exact Or.inr (mem_keys.mpr ⟨v, mem_set.mpr (Or.inl ⟨hv, hk⟩)⟩)
  exact hfold l empty (Or.inl h)

/-! ## Lookups -/

theorem get?_congr {d e : Dict κ ν} {k : κ} (h : ∀ v, (k, v) ∈ d.items ↔ (k, v) ∈ e.items) : d.get? k = e.get? k := by
  cases he : e.get? k with
  | none =>
    rw [get?_eq_none_iff, mem_keys] at he ⊢
    rintro ⟨v, hv⟩; exact he ⟨v, (h v).mp hv⟩
  | some v => exact get?_eq_some_iff.mpr ((h v).mpr (get?_eq_some_iff.mp he))

@[simp] theorem get?_set_self (d : Dict κ ν) (k : κ) (v : ν) : (d.set k v).get? k = some v :=
  get?_eq_some_iff.mpr (mem_set.mpr (Or.inr rfl))

theorem get?_set_of_ne (d : Dict κ ν) {k k' : κ} (v : ν) (h : k' ≠ k) : (d.set k v).get? k' = d.get? k' :=
  get?_congr fun w => by simp [h]

@[simp] theorem get?_erase_self (d : Dict κ ν) (k : κ) : (d.erase k).get? k = none :=
  get?_eq_none_iff.mpr (by simp [mem_keys])

theorem get?_erase_of_ne (d : Dict κ ν) {k k' : κ} (h : k' ≠ k) : (d.erase k).get? k' = d.get? k' :=
  get?_congr fun w => by simp [h]

/-- Several keys erased. -/
theorem get?_foldl_erase (ks : List κ) (d : Dict κ ν) (k : κ) :
    (ks.foldl erase d).get? k = if k ∈ ks then none else d.get? k := by
  induction ks generalizing d with
  | nil => simp
  | cons a ks ih =>
    rw [List.foldl_cons, ih]
    by_cases hk : k = a
    · subst hk; simp
    · simp [hk, get?_erase_of_ne]

@[simp] theorem mem_keys_set {d : Dict κ ν} {k k' : κ} {v : ν} : k' ∈ (d.set k v).keys ↔ k' ∈ d.keys ∨ k' = k := by
  by_cases h : k' = k
  · subst h; simp [mem_keys]
  · simp [mem_keys, h]

@[simp] theorem mem_keys_erase {d : Dict κ ν} {k k' : κ} : k' ∈ (d.erase k).keys ↔ k' ∈ d.keys ∧ k' ≠ k := by
  simp [mem_keys]

@[simp] theorem mem_keys_moveToEnd {d : Dict κ ν} {k k' : κ} : k' ∈ (d.moveToEnd k).keys ↔ k' ∈ d.keys := by
  simp [mem_keys]

/-! ## Order: what sums and counts over the items see -/

/-- Writing a new key appends. -/
theorem items_set_new {d : Dict κ ν} {k : κ} (v : ν) (h : d.get? k = none) :
    (d.set k v).items = d.items ++ [(k, v)] := by
  have hk := get?_eq_none_iff.mp h
  have hf : d.items.filter (fun p => p.1 ≠ k) = d.items := by
    refine List.filter_eq_self.mpr fun p hp => ?_
    exact decide_eq_true fun he => hk (mem_keys.mpr ⟨p.2, by rw [← he]; exact hp⟩)
  rw [set, h]
  show d.items.filter (fun p => p.1 ≠ k) ++ [(k, v)] = _
  rw [hf]

/-- The items are the erased item and the rest. -/
theorem perm_erase {d : Dict κ ν} {k : κ} {v : ν} (h : d.get? k = some v) :
    d.items.Perm ((k, v) :: (d.erase k).items) := by
  refine (List.perm_ext_iff_of_nodup d.items_nodup ?_).mpr fun p => ?_
  · exact List.nodup_cons.mpr ⟨by simp, (d.erase k).items_nodup⟩
  · have hkv := get?_eq_some_iff.mp h
    rw [List.mem_cons, mem_erase]
    constructor
    · intro hp
      by_cases hk : p.1 = k
      · refine Or.inl ?_
        obtain ⟨a, b⟩ := p
        simp only at hk
        subst hk
        rw [value_unique hp hkv]
      · exact Or.inr ⟨hp, hk⟩
    · rintro (rfl | hp)
      · exact hkv
      · exact hp.1

/-- Erasing an absent key changes nothing. -/
theorem erase_of_get?_none {d : Dict κ ν} {k : κ} (h : d.get? k = none) : d.erase k = d := by
  have hk := get?_eq_none_iff.mp h
  obtain ⟨l, hl⟩ := d
  simp only [erase, mk.injEq]
  refine List.filter_eq_self.mpr fun p hp => ?_
  exact decide_eq_true fun he => hk (List.mem_map.mpr ⟨p, hp, he⟩)

theorem perm_moveToEnd (d : Dict κ ν) (k : κ) : (d.moveToEnd k).items.Perm d.items :=
  (List.perm_ext_iff_of_nodup (d.moveToEnd k).items_nodup d.items_nodup).mpr fun _ => mem_moveToEnd

theorem sum_erase {d : Dict κ ν} {k : κ} {v : ν} (f : ν → Int) (h : d.get? k = some v) :
    (d.erase k).sum f = d.sum f - f v := by
  have := ((perm_erase h).map (fun p => f p.2)).sum_eq
  simp only [List.map_cons, List.sum_cons] at this
  unfold sum; omega

theorem sum_set_new {d : Dict κ ν} {k : κ} (f : ν → Int) (v : ν) (h : d.get? k = none) :
    (d.set k v).sum f = d.sum f + f v := by
  simp [sum, items_set_new v h]

@[simp] theorem sum_moveToEnd (d : Dict κ ν) (k : κ) (f : ν → Int) : (d.moveToEnd k).sum f = d.sum f := by
  unfold sum; exact ((perm_moveToEnd d k).map (fun p => f p.2)).sum_eq

theorem count_erase {d : Dict κ ν} {k : κ} {v : ν} (q : ν → Bool) (h : d.get? k = some v) :
    d.count q = (d.erase k).count q + (if q v then 1 else 0) := by
  have := (perm_erase h).countP_eq (fun p => q p.2)
  rw [List.countP_cons] at this
  exact this

theorem count_set_new {d : Dict κ ν} {k : κ} (q : ν → Bool) (v : ν) (h : d.get? k = none) :
    (d.set k v).count q = d.count q + (if q v then 1 else 0) := by
  simp [count, items_set_new v h, List.countP_append, List.countP_cons]

/-! ## Order: what a removal and an append leave -/

theorem keys_erase (d : Dict κ ν) (k : κ) : (d.erase k).keys = d.keys.filter (· ≠ k) := by
  show (d.items.filter fun p => p.1 ≠ k).map Prod.fst = (d.items.map Prod.fst).filter fun x => x ≠ k
  rw [List.filter_map]
  rfl

theorem keys_set_new (d : Dict κ ν) {k : κ} (v : ν) (h : k ∉ d.keys) : (d.set k v).keys = d.keys ++ [k] := by
  have hitems := items_set_new v (get?_eq_none_iff.mpr h)
  show (d.set k v).items.map Prod.fst = _
  rw [hitems, List.map_append]
  rfl

/-! ## Equality and restriction -/

/-- `d == e`: the same items, in any order. -/
def Same (d e : Dict κ ν) : Prop := ∀ k, d.get? k = e.get? k

theorem same_iff {d e : Dict κ ν} :
    d.Same e ↔ (∀ p ∈ d.items, e.get? p.1 = some p.2) ∧ ∀ k ∈ e.keys, k ∈ d.keys := by
  constructor
  · intro h
    refine ⟨fun p hp => (h p.1).symm.trans (get?_eq_some_iff.mpr hp), fun k hk => ?_⟩
    rw [← isSome_get?, h k, isSome_get?]
    exact hk
  · rintro ⟨hitems, hkeys⟩ k
    cases hd : d.get? k with
    | some v => exact (hitems (k, v) (get?_eq_some_iff.mp hd)).symm
    | none => exact (get?_eq_none_iff.mpr fun hk => get?_eq_none_iff.mp hd (hkeys k hk)).symm

instance [DecidableEq ν] (d e : Dict κ ν) : Decidable (d.Same e) := decidable_of_iff' _ same_iff

theorem Same.perm {d e : Dict κ ν} (h : d.Same e) : d.items.Perm e.items :=
  (List.perm_ext_iff_of_nodup d.items_nodup e.items_nodup).mpr fun p => by
    rw [← get?_eq_some_iff (k := p.1) (v := p.2), ← get?_eq_some_iff (k := p.1) (v := p.2), h p.1]

/-- The items of a dictionary made of pairs with distinct keys are the pairs. -/
theorem get?_ofList {l : List (κ × ν)} (hnd : (l.map Prod.fst).Nodup) {k : κ} {v : ν} :
    (ofList l).get? k = some v ↔ (k, v) ∈ l := by
  constructor
  · exact fun h => mem_ofList (get?_eq_some_iff.mp h)
  · intro h
    obtain ⟨w, hw⟩ := mem_keys.mp (mem_keys_ofList h)
    have hp := List.inj_on_of_nodup_map hnd (mem_ofList hw) h rfl
    rw [Prod.mk.injEq] at hp
    exact get?_eq_some_iff.mpr (hp.2 ▸ hw)

/-- A dictionary that equals one made of pairs with distinct keys. -/
theorem same_ofList {d : Dict κ ν} {l : List (κ × ν)} (hnd : (l.map Prod.fst).Nodup) :
    d.Same (ofList l) ↔ (∀ p ∈ l, d.get? p.1 = some p.2) ∧ ∀ k ∈ d.keys, k ∈ l.map Prod.fst := by
  constructor
  · intro h
    refine ⟨fun p hp => (h p.1).trans ((get?_ofList hnd).mpr hp), fun k hk => ?_⟩
    rw [← isSome_get?, h k, isSome_get?] at hk
    obtain ⟨v, hv⟩ := mem_keys.mp hk
    exact List.mem_map.mpr ⟨(k, v), mem_ofList hv, rfl⟩
  · rintro ⟨hitems, hkeys⟩
    refine same_iff.mpr ⟨fun p hp => ?_, fun k hk => ?_⟩
    · obtain ⟨q, hq, hk⟩ := List.mem_map.mp (hkeys p.1 (mem_keys.mpr ⟨p.2, hp⟩))
      have hv := hitems q hq
      rw [hk, get?_eq_some_iff.mpr hp, Option.some.injEq] at hv
      exact (get?_ofList hnd).mpr (by rw [hv, ← hk]; exact hq)
    · obtain ⟨v, hv⟩ := mem_keys.mp hk
      exact mem_keys_of_get? (hitems _ (mem_ofList hv))

/-- The dictionary without the other keys. -/
def only (d : Dict κ ν) (k : κ) : Dict κ ν :=
  ⟨d.items.filter fun p => p.1 = k, (List.filter_sublist.map Prod.fst).nodup d.nodup⟩

theorem items_only (d : Dict κ ν) (k : κ) : (d.only k).items = (d.get? k).toList.map (Prod.mk k) := by
  obtain ⟨l, hl⟩ := d
  show l.filter (fun p => p.1 = k) = _
  unfold get?
  induction l with
  | nil => rfl
  | cons p l ih =>
    obtain ⟨hnot, hl⟩ := List.nodup_cons.mp hl
    by_cases hp : p.1 = k
    · subst hp
      have hrest : l.filter (fun q => q.1 = p.1) = [] := by
        rw [List.filter_eq_nil_iff]
        intro q hq hk
        exact hnot (List.mem_map.mpr ⟨q, hq, of_decide_eq_true hk⟩)
      rw [List.filter_cons_of_pos (by simp), hrest]
      simp
    · rw [List.filter_cons_of_neg (by simpa using hp), ih hl]
      simp [hp]

/-- A dictionary of one key at most. -/
theorem items_single {d : Dict κ ν} {k : κ} (h : ∀ k' ∈ d.keys, k' = k) :
    d.items = (d.get? k).toList.map (Prod.mk k) := by
  rw [← items_only]
  refine (List.filter_eq_self.mpr fun p hp => ?_).symm
  exact decide_eq_true (h p.1 (mem_keys.mpr ⟨p.2, hp⟩))

@[simp] theorem get?_only_self (d : Dict κ ν) (k : κ) : (d.only k).get? k = d.get? k :=
  get?_congr fun v => by simp [only]

end Dict

end Lib
