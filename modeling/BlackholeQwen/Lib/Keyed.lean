import BlackholeQwen.Lib.Dict
import Mathlib.Data.List.Induction

/-!
# Fusing a stream by key

`accumulate` lets each part of a stream act on the state of its key, in a dictionary that keeps the keys in the order
they are first seen. `fuse` combines the parts of a key into one. If acting with a combined part is acting with one
part after the other, fusing a stream first changes nothing (`accumulate_fuse`).
-/

namespace Lib

namespace Dict

variable {κ ν : Type} [DecidableEq κ]

omit [DecidableEq κ] in
theorem ext_items {d e : Dict κ ν} (h : d.items = e.items) : d = e := by
  cases d
  cases e
  cases h
  rfl

/-- The second of two writes to a key counts. -/
theorem set_set (d : Dict κ ν) (k : κ) (v w : ν) : (d.set k v).set k w = d.set k w := by
  have hpresent : ((d.set k v).get? k).isSome := by rw [get?_set_self]; rfl
  refine ext_items ?_
  rw [set, if_pos hpresent]
  cases hk : d.get? k with
  | none =>
    have hnot : ∀ p ∈ d.items, p.1 ≠ k := fun p hp heq =>
      get?_eq_none_iff.mp hk (heq ▸ List.mem_map_of_mem hp)
    show ((d.set k v).items.map _) = _
    rw [items_set_new v hk, items_set_new w hk, List.map_append]
    have hsame : (d.items.map fun p => if p.1 = k then (k, w) else p) = d.items :=
      (List.map_congr_left fun p hp => if_neg (hnot p hp)).trans (List.map_id _)
    rw [hsame]
    simp
  | some u =>
    rw [set, if_pos (by rw [hk]; rfl), set, if_pos (by rw [hk]; rfl)]
    show (d.items.map _).map _ = d.items.map _
    rw [List.map_map]
    refine List.map_congr_left fun p _ => ?_
    by_cases hp : p.1 = k
    · simp [hp]
    · simp [hp]

/-- A write to a present key and one to another key commute. -/
theorem set_comm {d : Dict κ ν} {k k' : κ} (h : (d.get? k).isSome) (hne : k' ≠ k) (v w : ν) :
    (d.set k v).set k' w = (d.set k' w).set k v := by
  have hpresent : ((d.set k' w).get? k).isSome := by rw [get?_set_of_ne _ _ hne.symm]; exact h
  refine ext_items ?_
  have hupdate : d.set k v = d.update k v := by rw [set, if_pos h]
  rw [show (d.set k' w).set k v = (d.set k' w).update k v by rw [set, if_pos hpresent]]
  cases hk' : d.get? k' with
  | none =>
    have hnone : (d.set k v).get? k' = none := by rw [get?_set_of_ne _ _ hne]; exact hk'
    rw [items_set_new w hnone, hupdate]
    show _ = (d.set k' w).items.map _
    rw [items_set_new w hk', List.map_append, List.map_singleton, if_neg hne]
    rfl
  | some u =>
    have hother : ((d.set k v).get? k').isSome := by rw [get?_set_of_ne _ _ hne, hk']; rfl
    rw [set, if_pos hother, hupdate, show d.set k' w = d.update k' w by rw [set, if_pos (by rw [hk']; rfl)]]
    show (d.items.map _).map _ = (d.items.map _).map _
    rw [List.map_map, List.map_map]
    refine List.map_congr_left fun p _ => ?_
    by_cases hp : p.1 = k
    · simp [hp, hne.symm]
    · by_cases hp' : p.1 = k'
      · simp [hp', hne]
      · simp [hp, hp']

end Dict

section

variable {α σ κ : Type} [DecidableEq κ] {key : α → κ} {act : Option σ → α → σ} {op : α → α → α}

variable (key act) in
/-- A part acts on the state of its key. -/
def receive (d : Dict κ σ) (x : α) : Dict κ σ := d.set (key x) (act (d.get? (key x)) x)

variable (key act) in
/-- The parts of a stream act one after the other. -/
def accumulate (d : Dict κ σ) (xs : List α) : Dict κ σ := xs.foldl (receive key act) d

variable (key op) in
/-- The parts of a stream, combined by key. -/
def fuse (xs : List α) : Dict κ α := accumulate key (fun o x => (o.map (op · x)).getD x) Dict.empty xs

theorem accumulate_append (d : Dict κ σ) (xs ys : List α) :
    accumulate key act d (xs ++ ys) = accumulate key act (accumulate key act d xs) ys :=
  List.foldl_append

theorem accumulate_cons (d : Dict κ σ) (x : α) (xs : List α) :
    accumulate key act d (x :: xs) = accumulate key act (receive key act d x) xs := rfl

/-- A combined part acts as its parts do. -/
theorem receive_op (hact : ∀ o x y, act (some (act o x)) y = act o (op x y)) {x y : α} (hx : key x = key y)
    (hop : key (op x y) = key x) (d : Dict κ σ) :
    receive key act d (op x y) = receive key act (receive key act d x) y := by
  unfold receive
  rw [hop, ← hx, Dict.get?_set_self, hact, Dict.set_set]

/-- Parts of different keys commute, once the later key has been seen. -/
theorem receive_comm {d : Dict κ σ} {x y : α} (hy : (d.get? (key y)).isSome) (hne : key x ≠ key y) :
    receive key act (receive key act d y) x = receive key act (receive key act d x) y := by
  unfold receive
  rw [Dict.get?_set_of_ne _ _ hne, Dict.get?_set_of_ne _ _ hne.symm, Dict.set_comm hy hne]

theorem receive_isSome {d : Dict κ σ} {k : κ} (x : α) (h : (d.get? k).isSome) :
    ((receive key act d x).get? k).isSome := by
  unfold receive
  by_cases hk : k = key x
  · rw [hk, Dict.get?_set_self]
    rfl
  · rw [Dict.get?_set_of_ne _ _ hk]
    exact h

theorem accumulate_late {y : α} : ∀ {xs : List α} {d : Dict κ σ}, (d.get? (key y)).isSome → (∀ x ∈ xs, key x ≠ key y) →
    accumulate key act (receive key act d y) xs = receive key act (accumulate key act d xs) y
  | [], _, _, _ => rfl
  | x :: xs, d, hy, hne => by
    rw [accumulate_cons, receive_comm hy (hne x List.mem_cons_self), accumulate_cons]
    exact accumulate_late (receive_isSome x hy) fun z hz => hne z (List.mem_cons_of_mem _ hz)

/-- Fused parts stand under their own keys. -/
theorem fuse_key (hop : ∀ x y, key x = key y → key (op x y) = key x) (xs : List α) :
    ∀ p ∈ (fuse key op xs).items, key p.2 = p.1 := by
  induction xs using List.reverseRecOn with
  | nil => exact fun p hp => (by cases hp)
  | append_singleton xs x ih =>
    intro p hp
    rw [fuse, accumulate_append] at hp
    rcases Dict.mem_set.mp hp with ⟨hold, -⟩ | rfl
    · exact ih p hold
    · show key ((((fuse key op xs).get? (key x)).map (op · x)).getD x) = key x
      cases hget : (fuse key op xs).get? (key x) with
      | none => rfl
      | some e =>
        have he := ih _ (Dict.get?_eq_some_iff.mp hget)
        exact (hop e x he).trans he

/-- **Fusing a stream first changes nothing.** -/
theorem accumulate_fuse (hact : ∀ o x y, act (some (act o x)) y = act o (op x y))
    (hop : ∀ x y, key x = key y → key (op x y) = key x) (d : Dict κ σ) (xs : List α) :
    accumulate key act d (fuse key op xs).values = accumulate key act d xs := by
  induction xs using List.reverseRecOn with
  | nil => rfl
  | append_singleton xs x ih =>
    rw [accumulate_append, ← ih]
    have hstep : fuse key op (xs ++ [x]) = (fuse key op xs).set (key x)
        ((((fuse key op xs).get? (key x)).map (op · x)).getD x) := accumulate_append _ _ _
    cases hget : (fuse key op xs).get? (key x) with
    | none =>
      have hvalues : (fuse key op (xs ++ [x])).values = (fuse key op xs).values ++ [x] := by
        rw [hstep, hget]
        unfold Dict.values
        rw [Dict.items_set_new _ hget, List.map_append]
        rfl
      rw [hvalues, accumulate_append]
    | some e =>
      have hmem := Dict.get?_eq_some_iff.mp hget
      have he : key e = key x := fuse_key hop xs _ hmem
      obtain ⟨before, after, hitems⟩ := List.append_of_mem hmem
      -- the key stands nowhere else, so the combined part takes the place of the old one
      have hnd := (fuse key op xs).nodup
      rw [hitems, List.map_append, List.map_cons, List.nodup_append'] at hnd
      obtain ⟨-, hafter, hbefore⟩ := hnd
      have hpre : ∀ p ∈ before, p.1 ≠ key x := fun p hp heq =>
        hbefore (List.mem_map_of_mem hp) (heq ▸ List.mem_cons_self)
      have hpost : ∀ p ∈ after, p.1 ≠ key x := fun p hp heq =>
        (List.nodup_cons.mp hafter).1 (List.mem_map.mpr ⟨p, hp, heq⟩)
      have hkeep : ∀ {ps : List (κ × α)}, (∀ p ∈ ps, p.1 ≠ key x) →
          ps.map (fun p => if p.1 = key x then (key x, op e x) else p) = ps := fun hps =>
        (List.map_congr_left fun p hp => if_neg (hps p hp)).trans (List.map_id _)
      have hvalues : (fuse key op (xs ++ [x])).values =
          before.map Prod.snd ++ op e x :: after.map Prod.snd := by
        rw [hstep, Dict.set, if_pos (by rw [hget]; rfl), hget]
        show (((fuse key op xs).items.map fun p => if p.1 = key x then (key x, op e x) else p).map Prod.snd) = _
        rw [hitems, List.map_append, List.map_cons, if_pos rfl, hkeep hpre, hkeep hpost, List.map_append]
        rfl
      have hold : (fuse key op xs).values = before.map Prod.snd ++ e :: after.map Prod.snd := by
        unfold Dict.values
        rw [hitems, List.map_append]
        rfl
      have hlater : ∀ z ∈ after.map Prod.snd, key z ≠ key x := by
        intro z hz
        obtain ⟨p, hp, rfl⟩ := List.mem_map.mp hz
        rw [fuse_key hop xs p (hitems ▸ List.mem_append_right _ (List.mem_cons_of_mem _ hp))]
        exact hpost p hp
      rw [hvalues, hold, accumulate_append, accumulate_append, accumulate_cons, accumulate_cons,
        receive_op hact he (hop e x he)]
      refine accumulate_late ?_ hlater
      unfold receive
      rw [he, Dict.get?_set_self]
      rfl

end

end Lib
