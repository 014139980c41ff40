import BlackholeQwen.Lib.Call
import BlackholeQwen.Lib.Dict
import Mathlib.Data.List.Induction

/-!
# Serving a list in groups

Entries are grouped by a key that some may lack (`groupBy`), the groups are served key by key, and the answers are
gathered under the entries' own identities (`gather`) into the entries' own order.

`perm_groups` says that the groups of distinct keys that cover the entries, with the entries that have none, are the
entries; `gather_record` and `gather_eq` that answers recorded under their identities come back in the order asked for.
-/

namespace Lib

section

variable {α κ : Type} [DecidableEq κ]

/-- The entries by their key, in the order that the keys are first seen, and those without a key. -/
def groupBy (key : α → Option κ) (l : List α) : Dict κ (List α) × List α :=
  l.foldl (fun g x => match key x with
    | none => (g.1, g.2 ++ [x])
    | some k => (g.1.set k ((g.1.get? k).getD [] ++ [x]), g.2)) (Dict.empty, [])

theorem groupBy_append (key : α → Option κ) (l : List α) (x : α) :
    groupBy key (l ++ [x]) = match key x with
      | none => ((groupBy key l).1, (groupBy key l).2 ++ [x])
      | some k => ((groupBy key l).1.set k (((groupBy key l).1.get? k).getD [] ++ [x]), (groupBy key l).2) := by
  unfold groupBy
  rw [List.foldl_append]
  rfl

/-- The entries without a key, in order. -/
theorem groupBy_snd (key : α → Option κ) (l : List α) : (groupBy key l).2 = l.filter fun x => key x = none := by
  induction l using List.reverseRecOn with
  | nil => rfl
  | append_singleton l x ih =>
    rw [groupBy_append, List.filter_append]
    cases hx : key x with
    | none => simp [ih, hx]
    | some k => simp [ih, hx]

/-- The group of a key: its entries in order, if it has any. -/
theorem groupBy_get? (key : α → Option κ) (l : List α) (k : κ) :
    (groupBy key l).1.get? k =
      if (l.filter fun x => key x = some k) = [] then none else some (l.filter fun x => key x = some k) := by
  induction l using List.reverseRecOn with
  | nil => rfl
  | append_singleton l x ih =>
    rw [groupBy_append, List.filter_append]
    cases hx : key x with
    | none => simp [ih, hx]
    | some k' =>
      by_cases hk : k' = k
      · subst hk
        simp only [Dict.get?_set_self, ih]
        by_cases hl : (l.filter fun x => key x = some k') = [] <;> simp [hl, hx]
      · simp [Dict.get?_set_of_ne _ _ (Ne.symm hk), ih, hx, hk]

/-- **The entries without a key, and those of distinct keys that cover the others, are the entries.** -/
theorem perm_groups (key : α → Option κ) {l : List α} {ks : List κ} (hnd : ks.Nodup)
    (hcover : ∀ x ∈ l, ∀ k, key x = some k → k ∈ ks) :
    ((l.filter fun x => key x = none) ++ ks.flatMap fun k => l.filter fun x => key x = some k).Perm l := by
  induction ks generalizing l with
  | nil =>
    have hall : l.filter (fun x => key x = none) = l := List.filter_eq_self.mpr fun x hx => by
      cases hk : key x with
      | none => rfl
      | some k => exact absurd (hcover x hx k hk) List.not_mem_nil
    rw [hall, List.flatMap_nil, List.append_nil]
  | cons k ks ih =>
    rw [List.nodup_cons] at hnd
    -- the other entries, without those of the first key
    have hrest := ih (l := l.filter fun x => key x ≠ some k) hnd.2 fun x hx k' hk' => by
      rw [List.mem_filter] at hx
      rcases List.mem_cons.mp (hcover x hx.1 k' hk') with rfl | h
      · exact absurd hk' (by simpa using hx.2)
      · exact h
    have hnone : ((l.filter fun x => key x ≠ some k).filter fun x => key x = none) =
        l.filter fun x => key x = none := by
      rw [List.filter_filter]
      refine List.filter_congr fun x _ => ?_
      cases key x <;> simp
    have hgroups : (ks.flatMap fun k' => (l.filter fun x => key x ≠ some k).filter fun x => key x = some k') =
        ks.flatMap fun k' => l.filter fun x => key x = some k' := by
      refine List.flatMap_congr fun k' hk' => ?_
      rw [List.filter_filter]
      refine List.filter_congr fun x _ => ?_
      by_cases hx : key x = some k'
      · have hne : k' ≠ k := fun h => hnd.1 (h ▸ hk')
        simp [hx, hne]
      · simp [hx]
    rw [hnone, hgroups] at hrest
    rw [List.flatMap_cons]
    calc _ = (l.filter fun x => key x = none) ++ ((l.filter fun x => key x = some k) ++
          ks.flatMap fun k' => l.filter fun x => key x = some k') := rfl
      _ |>.Perm ((l.filter fun x => key x = some k) ++ ((l.filter fun x => key x = none) ++
          ks.flatMap fun k' => l.filter fun x => key x = some k')) := List.perm_append_comm_assoc ..
      _ |>.Perm ((l.filter fun x => key x = some k) ++ l.filter fun x => key x ≠ some k) := hrest.append_left _
      _ |>.Perm l := by
        have := List.filter_append_perm (fun x => decide (key x = some k)) l
        simpa [decide_not] using this

end

/-! ## Gathering -/

section

variable {κ ν : Type} [DecidableEq κ]

/-- The answers recorded, each under its own identity. -/
def record (name : ν → κ) (d : Dict κ ν) (answers : List ν) : Dict κ ν := answers.foldl (fun d a => d.set (name a) a) d

/-- The answers of these identities, in order. -/
def gather (d : Dict κ ν) (ids : List κ) : Except PyError (List ν) :=
  ids.mapM fun k => match d.get? k with
    | some a => .ok a
    | none => .error .keyError

/-- Every recorded answer is under its own identity. -/
def Named (name : ν → κ) (d : Dict κ ν) : Prop := ∀ k a, d.get? k = some a → name a = k

theorem Named.record {name : ν → κ} {d : Dict κ ν} (h : Named name d) (answers : List ν) :
    Named name (record name d answers) := by
  induction answers generalizing d with
  | nil => exact h
  | cons a answers ih =>
    refine ih fun k b hb => ?_
    by_cases hk : k = name a
    · subst hk
      rw [Dict.get?_set_self] at hb
      exact Option.some.inj hb ▸ rfl
    · rw [Dict.get?_set_of_ne _ _ hk] at hb
      exact h k b hb

/-- What is gathered has the identities asked for. -/
theorem Named.gather {name : ν → κ} {d : Dict κ ν} (h : Named name d) {ids : List κ} {answers : List ν}
    (hg : gather d ids = .ok answers) : answers.map name = ids := by
  obtain ⟨hlen, hget⟩ := mapM_get hg
  refine List.ext_getElem? fun i => ?_
  rw [List.getElem?_map]
  cases hi : ids[i]? with
  | none =>
    have : ids.length ≤ i := List.getElem?_eq_none_iff.mp hi
    rw [List.getElem?_eq_none (by omega)]
    rfl
  | some k =>
    obtain ⟨a, ha, hfound⟩ := hget i k hi
    rw [ha]
    cases hk : d.get? k with
    | none => simp only [hk] at hfound; cases hfound
    | some b =>
      simp only [hk] at hfound
      obtain rfl := Except.ok.inj hfound
      exact congrArg some (h k b hk)

/-- Other identities keep their answers. -/
theorem record_get?_notMem {name : ν → κ} {answers : List ν} {k : κ} (d : Dict κ ν) (h : k ∉ answers.map name) :
    (record name d answers).get? k = d.get? k := by
  induction answers generalizing d with
  | nil => rfl
  | cons a answers ih =>
    rw [List.map_cons, List.mem_cons, not_or] at h
    show (record name (d.set (name a) a) answers).get? k = _
    rw [ih _ h.2, Dict.get?_set_of_ne _ _ h.1]

/-- Recorded answers are found. -/
theorem record_get? {name : ν → κ} {answers : List ν} {a : ν} (d : Dict κ ν) (hnd : (answers.map name).Nodup)
    (ha : a ∈ answers) : (record name d answers).get? (name a) = some a := by
  induction answers generalizing d with
  | nil => cases ha
  | cons b answers ih =>
    rw [List.map_cons, List.nodup_cons] at hnd
    show (record name (d.set (name b) b) answers).get? (name a) = _
    rcases List.mem_cons.mp ha with rfl | ha
    · rw [record_get?_notMem _ hnd.1, Dict.get?_set_self]
    · exact ih _ hnd.2 ha

/-- **Answers recorded under distinct identities come back in their order.** -/
theorem gather_record {name : ν → κ} {answers : List ν} (d : Dict κ ν) (hnd : (answers.map name).Nodup) :
    gather (record name d answers) (answers.map name) = .ok answers := by
  unfold gather
  rw [List.mapM_map]
  have h := mapM_eq_ok (f := (fun k => match (record name d answers).get? k with
    | some a => Except.ok a
    | none => .error PyError.keyError) ∘ name) (g := id) fun a (ha : a ∈ answers) => by
      simp only [Function.comp_apply, record_get? d hnd ha, id]
  rw [h, List.map_id]

end

end Lib
