import BlackholeQwen.Lib.Movers
import BlackholeQwen.Lib.Writes

/-!
# One interleaving decides all

An order of the instructions of all programs in which no acquisition has to wait, each transfer happening as it is
issued, is one run of the machine (`order_runs`). When the programs keep to the discipline, every other run can still
get to where that run ends, over the same acts (`Interleaving.joins`): it is never stuck before (`Interleaving.live`),
and when it has ended the memory is that of the order, run one instruction after the other (`Interleaving.finished`).
-/

namespace Lib.Movers

variable {ι α ν ρ τ : Type}

/-! ## The memory of a serial run -/

section

variable [DecidableEq α] {p p' : List (Instr α ν ρ τ)} {m : α → ν}

/-- What an instruction does to the memory when its transfer happens at once. -/
def Instr.run (x : Instr α ν ρ τ) (m : α → ν) : α → ν :=
  match x with
  | .compute f => f m
  | .copy op => op.apply m
  | _ => m

/-- What instructions do to the memory one after the other. -/
def serial (p : List (Instr α ν ρ τ)) (m : α → ν) : α → ν := p.foldl (fun m x => x.run m) m

@[simp] theorem serial_nil : serial ([] : List (Instr α ν ρ τ)) m = m := rfl

@[simp] theorem serial_cons (x : Instr α ν ρ τ) : serial (x :: p) m = serial p (x.run m) := rfl

theorem serial_compute (f : (α → ν) → α → ν) : serial (.compute f :: p) m = serial p (f m) := rfl

theorem serial_settle (kind : Kind) : serial (.settle kind :: p) m = serial p m := rfl

theorem serial_acquire (r : ρ) (ts : List τ) : serial (.acquire r ts :: p) m = serial p m := rfl

theorem serial_release (r : ρ) (ts : List τ) : serial (.release r ts :: p) m = serial p m := rfl

theorem serial_append : serial (p ++ p') m = serial p' (serial p m) := List.foldl_append

/-- A cell that no instruction writes is as it was. -/
theorem serial_kept {c : α} (h : ∀ x ∈ p, ∀ m : α → ν, x.run m c = m c) : serial p m c = m c := by
  induction p generalizing m with
  | nil => rfl
  | cons x p ih =>
    rw [serial_cons, ih fun y hy => h y (List.mem_cons_of_mem _ hy)]
    exact h x List.mem_cons_self m

/-- Transfers of cells that none of them writes leave the others' targets alone. -/
theorem serial_copies_kept {ops : List (Op α)} {c : α} (h : ∀ op ∈ ops, op.dst ≠ c) :
    serial (ops.map (.copy : Op α → Instr α ν ρ τ)) m c = m c :=
  serial_kept fun x hx m => by
    obtain ⟨op, hop, rfl⟩ := List.mem_map.mp hx
    exact Function.update_of_ne (Ne.symm (h op hop)) _ _

/-- **Transfers to cells that the others neither read nor write** bring what was at their sources. -/
theorem serial_copies {ops : List (Op α)} (h : ops.Pairwise fun op op' => op.dst ≠ op'.dst ∧ op.dst ≠ op'.src)
    {op : Op α}
    (hop : op ∈ ops) : serial (ops.map (.copy : Op α → Instr α ν ρ τ)) m op.dst = m op.src := by
  induction ops generalizing m with
  | nil => cases hop
  | cons first ops ih =>
    obtain ⟨hfirst, hrest⟩ := List.pairwise_cons.mp h
    rw [List.map_cons, serial_cons]
    rcases List.mem_cons.mp hop with rfl | hop
    · rw [serial_copies_kept fun op' hop' => Ne.symm (hfirst op' hop').1]
      exact Function.update_self _ _ _
    · rw [ih hrest hop]
      exact Function.update_of_ne (Ne.symm (hfirst op hop).2) _ _

/-- Transfers one after the other are one computation. -/
theorem serial_moved (ops : List (Op α)) : serial (ops.map (.copy : Op α → Instr α ν ρ τ)) m = moved ops m := by
  induction ops generalizing m with
  | nil => rfl
  | cons op ops ih => exact ih

theorem moved_append (ops ops' : List (Op α)) : moved (ops ++ ops') m = moved ops' (moved ops m) := List.foldl_append

/-- Cells that are no target are as they were. -/
theorem moved_kept {ops : List (Op α)} {c : α} (h : ∀ op ∈ ops, op.dst ≠ c) : moved ops m c = m c := by
  rw [← serial_moved (ρ := Empty) (τ := Empty)]
  exact serial_copies_kept h

/-- A target whose transfers all have one source, which is no target, has what was there. -/
theorem moved_eq {ops : List (Op α)} {c a : α} (hsrc : ∀ op ∈ ops, op.dst = c → op.src = a)
    (hmem : ∃ op ∈ ops, op.dst = c)
    (hsep : ∀ op ∈ ops, op.dst ≠ a) : moved ops m c = m a := by
  induction ops generalizing m with
  | nil => exact absurd hmem (by simp)
  | cons op ops ih =>
    show moved ops (op.apply m) c = m a
    have hkeep : op.apply m a = m a := Function.update_of_ne (Ne.symm (hsep op List.mem_cons_self)) _ _
    by_cases hrest : ∃ op' ∈ ops, op'.dst = c
    · rw [ih (fun op' hop' => hsrc op' (List.mem_cons_of_mem _ hop')) hrest
        fun op' hop' => hsep op' (List.mem_cons_of_mem _ hop')]
      exact hkeep
    · obtain ⟨op', hop', heq⟩ := hmem
      have hfirst : op' = op := (List.mem_cons.mp hop').resolve_right fun hin => hrest ⟨op', hin, heq⟩
      subst hfirst
      rw [moved_kept fun op'' hop'' heq' => hrest ⟨op'', hop'', heq'⟩, ← heq, ← hsrc op' hop' heq]
      exact Function.update_self _ _ _

/-- A process with nothing under way, at an instruction. -/
theorem next_idle (x : Instr α ν ρ τ) : (⟨x :: p, []⟩ : Proc α ν ρ τ).next =
    some (x, ⟨p, match x with | .copy op => [op] | _ => []⟩) := by
  cases x with
  | settle kind =>
    unfold Proc.next
    exact if_pos fun op hop => absurd hop List.not_mem_nil
  | copy | compute | acquire | release => rfl

end

/-! ## The rings -/

section

variable [DecidableEq ρ] {p p' : List (Instr α ν ρ τ)} {queue : ρ → List τ}

/-- What they do to the rings, when none has to wait. -/
def ringsAfter (p : List (Instr α ν ρ τ)) (queue : ρ → List τ) : Option (ρ → List τ) :=
  p.foldlM (fun queue x => x.rings queue) queue

/-- Rings that flow do not make anything wait. -/
theorem Flows.ringsAfter {q : ρ → List τ} (h : Flows p queue q) : ringsAfter p queue = some q := by
  induction h with
  | nil => rfl
  | compute _ ih => exact ih
  | copy _ ih => exact ih
  | settle _ ih => exact ih
  | @acquire r ts rest p queue q heq _ ih =>
    have hle : ts.length ≤ (queue r).length := by rw [heq, List.length_append]; omega
    have hfirst : (Instr.acquire r ts : Instr α ν ρ τ).rings queue = some (Function.update queue r rest) := by
      rw [Instr.rings, if_pos hle, heq, List.drop_left]
    exact (congrArg (fun x => x >>= _) hfirst).trans ih
  | release _ ih => exact ih

end

/-! ## Programs that keep apart -/

/-- A program that asks of no ring and gives to none. -/
def Quiet (p : List (Instr α ν ρ τ)) : Prop := ∀ x ∈ p, ∀ r ts, x ≠ .acquire r ts ∧ x ≠ .release r ts

theorem Quiet.append {p p' : List (Instr α ν ρ τ)} (h : Quiet p) (h' : Quiet p') : Quiet (p ++ p') :=
  fun x hx => (List.mem_append.mp hx).elim (h x) (h' x)

theorem Quiet.flatMap {κ : Type} {f : κ → List (Instr α ν ρ τ)} {ks : List κ} (h : ∀ k ∈ ks, Quiet (f k)) :
    Quiet (ks.flatMap f) := fun x hx => by
  obtain ⟨k, hk, hx⟩ := List.mem_flatMap.mp hx
  exact h k hk x hx

theorem Quiet.copies (ops : List (Op α)) : Quiet (ops.map (.copy : Op α → Instr α ν ρ τ)) := fun x hx r ts => by
  obtain ⟨op, -, rfl⟩ := List.mem_map.mp hx
  exact ⟨by simp, by simp⟩

section

variable [DecidableEq α] {S C : Set α} {d : Discipline ι α ρ τ} {held : Set α}
  {pending : List (Op α)} {i : ι} {p : List (Instr α ν ρ τ)} {m : α → ν}

/-- Every instruction of a typed program keeps to a region that has what its process holds and comes to hold. -/
theorem Typed.run_footprint (h : Typed d i held pending p) (hheld : held ⊆ S)
    (hasked : ∀ r ts, .acquire r ts ∈ p → d.cellsOf ts ⊆ S) {x : Instr α ν ρ τ} (hx : x ∈ p) :
    Footprint x.run (S ∪ d.constant) S := by
  have hreads : ∀ {held : Set α} {pending : List (Op α)} {c : α}, held ⊆ S → Readable d held pending c →
      c ∈ S ∪ d.constant := fun hheld h => h.1.imp_left (hheld ·)
  have hquiet : Footprint (fun m : α → ν => m) (S ∪ d.constant) S :=
    Footprint.id.within (Set.empty_subset _) (Set.empty_subset _)
  induction h with
  | nil => cases hx
  | compute R W hfoot hR hW _ ih =>
    rcases List.mem_cons.mp hx with rfl | hx
    · exact hfoot.within (fun c hc => hreads hheld (hR c hc)) fun c hc => hheld (hW c hc).1
    · exact ih hheld (fun r ts hmem => hasked r ts (List.mem_cons_of_mem _ hmem)) hx
  | copy hsrc hdst _ ih =>
    rcases List.mem_cons.mp hx with rfl | hx
    · exact (Op.footprint _).within (Set.singleton_subset_iff.mpr (hreads hheld hsrc))
        (Set.singleton_subset_iff.mpr (hheld hdst.1))
    · exact ih hheld (fun r ts hmem => hasked r ts (List.mem_cons_of_mem _ hmem)) hx
  | settle _ ih =>
    rcases List.mem_cons.mp hx with rfl | hx
    · exact hquiet
    · exact ih hheld (fun r ts hmem => hasked r ts (List.mem_cons_of_mem _ hmem)) hx
  | acquire _ _ ih =>
    rcases List.mem_cons.mp hx with rfl | hx
    · exact hquiet
    · exact ih (Set.union_subset hheld (hasked _ _ List.mem_cons_self))
        (fun r ts hmem => hasked r ts (List.mem_cons_of_mem _ hmem)) hx
  | release _ _ _ _ ih =>
    rcases List.mem_cons.mp hx with rfl | hx
    · exact hquiet
    · exact ih (Set.sdiff_subset.trans hheld) (fun r ts hmem => hasked r ts (List.mem_cons_of_mem _ hmem)) hx

/-- Instructions that keep to a region, one after the other. -/
theorem serial_footprint (h : ∀ x ∈ p, Footprint x.run (S ∪ C) S) : Footprint (serial p) (S ∪ C) S := by
  induction p with
  | nil => exact Footprint.id.within (Set.empty_subset _) (Set.empty_subset _)
  | cons x p ih => exact (h x List.mem_cons_self).comp (ih fun y hy => h y (List.mem_cons_of_mem _ hy))

/-- Programs one after the other. -/
theorem serial_flatMap {κ : Type} (programs : κ → List (Instr α ν ρ τ)) (ks : List κ) (m : α → ν) :
    serial (ks.flatMap programs) m = ks.foldl (fun m k => serial (programs k) m) m := by
  induction ks generalizing m with
  | nil => rfl
  | cons k ks ih => rw [List.flatMap_cons, serial_append, ih, List.foldl_cons]

/-- What no program of several writes is as it was. -/
theorem serial_flatMap_kept {κ : Type} {programs : κ → List (Instr α ν ρ τ)} {ks : List κ} {c : α}
    (h : ∀ k ∈ ks, ∀ m, serial (programs k) m c = m c) : serial (ks.flatMap programs) m c = m c := by
  rw [serial_flatMap]
  exact foldl_get_kept (fun m c => m c) h m

/-- Programs of regions that keep apart leave outside of them what was there. -/
theorem serial_flatMap_outside {κ : Type} {programs : κ → List (Instr α ν ρ τ)} {region : κ → Set α} {ks : List κ}
    (hfoot : ∀ k ∈ ks, Footprint (serial (programs k)) (region k ∪ C) (region k)) {c : α}
    (hc : ∀ k ∈ ks, c ∉ region k) : serial (ks.flatMap programs) m c = m c :=
  serial_flatMap_kept fun k hk m => (hfoot k hk).outside m c (hc k hk)

/-- **Programs of regions that keep apart**: in its region, each does what it does alone. -/
theorem serial_flatMap_inside {κ : Type} {programs : κ → List (Instr α ν ρ τ)} {region : κ → Set α} {ks : List κ}
    (hfoot : ∀ k ∈ ks, Footprint (serial (programs k)) (region k ∪ C) (region k))
    (hapart : ks.Pairwise fun k k' => Disjoint (region k) (region k')) (hconstant : ∀ k ∈ ks, Disjoint (region k) C)
    {k : κ} (hk : k ∈ ks) {c : α} (hc : c ∈ region k) : serial (ks.flatMap programs) m c = serial (programs k) m c := by
  induction ks generalizing m with
  | nil => cases hk
  | cons first ks ih =>
    obtain ⟨hfirst, hrest⟩ := List.pairwise_cons.mp hapart
    have hfoot' : ∀ k ∈ ks, Footprint (serial (programs k)) (region k ∪ C) (region k) :=
      fun k hk => hfoot k (List.mem_cons_of_mem _ hk)
    rw [List.flatMap_cons, serial_append]
    by_cases hmem : k ∈ ks
    · rw [ih hfoot' hrest (fun k hk => hconstant k (List.mem_cons_of_mem _ hk)) hmem]
      refine (hfoot' k hmem).inside _ m (fun c' hc' => ?_) c hc
      refine (hfoot first List.mem_cons_self).outside m c' fun hin => ?_
      rcases hc' with hc' | hc'
      · exact Set.disjoint_left.mp (hfirst k hmem) hin hc'
      · exact Set.disjoint_left.mp (hconstant first List.mem_cons_self) hin hc'
    · obtain rfl : k = first := (List.mem_cons.mp hk).resolve_right hmem
      exact serial_flatMap_outside hfoot' fun k' hk' hin => Set.disjoint_left.mp (hfirst k' hk') hc hin

/-- **Programs one after the other, each with targets of its own**, that keep an invariant and do not touch each other's
targets: each target ends with what its own program brings. -/
theorem serial_flatMap_each {κ : Type} {programs : κ → List (Instr α ν ρ τ)} {ks : List κ} (targets : κ → Set α)
    (inv : (α → ν) → Prop) (brings : κ → α → ν → Prop)
    (hstep : ∀ k ∈ ks, ∀ m, inv m → inv (serial (programs k) m) ∧ ∀ c ∈ targets k, brings k c (serial (programs k) m c))
    (hkeep : ∀ k ∈ ks, ∀ k' ∈ ks, k ≠ k' → ∀ m, ∀ c ∈ targets k, serial (programs k') m c = m c) (hnodup : ks.Nodup)
    (hinv : inv m) : inv (serial (ks.flatMap programs) m) ∧
      ∀ k ∈ ks, ∀ c ∈ targets k, brings k c (serial (ks.flatMap programs) m c) := by
  rw [serial_flatMap]
  exact foldl_each (fun m c => m c) targets inv brings hstep hkeep hnodup hinv

end

/-! ## Orders -/

/-- The acts of an instruction whose transfer happens at once. -/
def acts (e : ι × Instr α ν ρ τ) : List (Act ι α) :=
  match e.2 with
  | .copy op => [.exec e.1, .perform e.1 op]
  | _ => [.exec e.1]

/-- The transfers of a program, in order. -/
def copies (p : List (Instr α ν ρ τ)) : List (Op α) :=
  p.filterMap fun x => match x with | .copy op => some op | _ => none

/-- How many transfers of a run go to a cell. -/
def writesTo [DecidableEq α] (c : α) (ls : List (Act ι α)) : Nat :=
  ls.countP fun l => match l with | .perform _ op => decide (op.dst = c) | .exec _ => false

section

variable {p : List (Instr α ν ρ τ)}

@[simp] theorem copies_nil : copies ([] : List (Instr α ν ρ τ)) = [] := rfl

@[simp] theorem copies_compute (f : (α → ν) → α → ν) : copies (.compute f :: p) = copies p := rfl

@[simp] theorem copies_copy (op : Op α) : copies (.copy op :: p) = op :: copies p := rfl

@[simp] theorem copies_settle (kind : Kind) : copies (.settle kind :: p) = copies p := rfl

@[simp] theorem copies_acquire (r : ρ) (ts : List τ) : copies (.acquire r ts :: p) = copies p := rfl

@[simp] theorem copies_release (r : ρ) (ts : List τ) : copies (.release r ts :: p) = copies p := rfl

end

theorem copies_cons (x : Instr α ν ρ τ) (p : List (Instr α ν ρ τ)) : copies (x :: p) = copies [x] ++ copies p := by
  cases x <;> rfl

theorem copies_append (p p' : List (Instr α ν ρ τ)) : copies (p ++ p') = copies p ++ copies p' := List.filterMap_append

theorem copies_flatMap {κ : Type} (f : κ → List (Instr α ν ρ τ)) (ks : List κ) :
    copies (ks.flatMap f) = ks.flatMap fun k => copies (f k) := by
  induction ks with
  | nil => rfl
  | cons k ks ih => rw [List.flatMap_cons, copies_append, ih, List.flatMap_cons]

theorem copies_map (ops : List (Op α)) : copies (ops.map (.copy : Op α → Instr α ν ρ τ)) = ops := by
  unfold copies
  rw [List.filterMap_map]
  exact List.filterMap_some

/-- In an order with every transfer at once, as many as it has. -/
theorem writesTo_acts [DecidableEq α] (c : α) (order : List (ι × Instr α ν ρ τ)) :
    writesTo c (order.flatMap acts) = (copies (order.map Prod.snd)).countP fun op => op.dst = c := by
  induction order with
  | nil => rfl
  | cons e order ih =>
    rw [List.flatMap_cons, List.map_cons, copies_cons, List.countP_append, ← ih]
    unfold writesTo
    rw [List.countP_append]
    congr 1
    obtain ⟨i, x⟩ := e
    cases x <;> simp [acts, copies, List.countP_cons]

/-- One program after the other. -/
def inTurn (programs : ι → List (Instr α ν ρ τ)) (is : List ι) : List (ι × Instr α ν ρ τ) :=
  is.flatMap fun i => (programs i).map fun x => (i, x)

theorem inTurn_snd (programs : ι → List (Instr α ν ρ τ)) (is : List ι) :
    (inTurn programs is).map Prod.snd = is.flatMap programs := by
  simp [inTurn, List.map_flatMap, Function.comp_def]

section

variable [DecidableEq ι] {order order' : List (ι × Instr α ν ρ τ)} {i : ι}

/-- The transfers of a process that happen in a run. -/
def performs (i : ι) (ls : List (Act ι α)) : List (Op α) :=
  ls.filterMap fun l => match l with | .perform j op => if j = i then some op else none | .exec _ => none

/-- The part of one process in an order of instructions. -/
def share (order : List (ι × Instr α ν ρ τ)) (i : ι) : List (Instr α ν ρ τ) :=
  order.filterMap fun e => if e.1 = i then some e.2 else none

theorem share_cons (e : ι × Instr α ν ρ τ) :
    share (e :: order) i = (if e.1 = i then [e.2] else []) ++ share order i := by
  unfold share
  rw [List.filterMap_cons]
  split_ifs <;> rfl

theorem share_append : share (order ++ order') i = share order i ++ share order' i := List.filterMap_append

theorem share_flatMap {β : Type} (f : β → List (ι × Instr α ν ρ τ)) (xs : List β) :
    share (xs.flatMap f) i = xs.flatMap fun x => share (f x) i := by
  induction xs with
  | nil => rfl
  | cons x xs ih => rw [List.flatMap_cons, share_append, ih, List.flatMap_cons]

theorem mem_share {x : Instr α ν ρ τ} : x ∈ share order i ↔ (i, x) ∈ order := by
  unfold share
  simp only [List.mem_filterMap, Prod.exists]
  constructor
  · rintro ⟨j, y, hmem, heq⟩
    split_ifs at heq with hj
    subst hj
    cases heq
    exact hmem
  · exact fun hmem => ⟨i, x, hmem, if_pos rfl⟩

/-- One instruction of the order, and what is left. -/
theorem share_update (order : List (ι × Instr α ν ρ τ)) (e : ι × Instr α ν ρ τ) (tail : ι → List (Instr α ν ρ τ)) :
    Function.update (fun j => (⟨share (e :: order) j ++ tail j, []⟩ : Proc α ν ρ τ)) e.1 ⟨share order e.1 ++ tail e.1,
      []⟩ =
      fun j => ⟨share order j ++ tail j, []⟩ := by
  funext j
  by_cases hj : j = e.1
  · subst hj
    rw [Function.update_self]
  · rw [Function.update_of_ne hj, share_cons, if_neg (Ne.symm hj)]
    rfl

theorem share_tagged (p : List (Instr α ν ρ τ)) (i j : ι) :
    share (p.map fun x => (j, x)) i = if j = i then p else [] := by
  unfold share
  rw [List.filterMap_map]
  split_ifs with h
  · have hsome : ((fun e : ι × Instr α ν ρ τ => if e.1 = i then some e.2 else none) ∘ fun x => (j, x)) = some :=
      funext fun x => if_pos h
    rw [hsome, List.filterMap_some]
  · exact List.filterMap_eq_nil_iff.mpr fun x _ => if_neg h

/-- In turn, each has its program. -/
theorem share_inTurn {programs : ι → List (Instr α ν ρ τ)} {is : List ι} (hnodup : is.Nodup) (i : ι) :
    share (inTurn programs is) i = if i ∈ is then programs i else [] := by
  induction is with
  | nil => rfl
  | cons j is ih =>
    obtain ⟨hj, hnodup⟩ := List.nodup_cons.mp hnodup
    show share ((programs j).map _ ++ inTurn programs is) i = _
    rw [share_append, share_tagged, ih hnodup]
    by_cases hi : j = i
    · subst hi
      rw [if_pos rfl, if_neg hj, if_pos List.mem_cons_self, List.append_nil]
    · simp only [if_neg hi, List.nil_append, List.mem_cons, Ne.symm hi, false_or]

/-- What an order gives to a ring, one process gives, when it alone does. -/
theorem given_share [DecidableEq ρ] {r : ρ} (h : ∀ e ∈ order, ∀ ts, e.2 = .release r ts → e.1 = i) :
    given r (share order i) = given r (order.map Prod.snd) := by
  induction order with
  | nil => rfl
  | cons e order ih =>
    rw [share_cons, List.map_cons, given_append, given_cons r e.2, ih fun e' he' => h e' (List.mem_cons_of_mem _ he')]
    congr 1
    split_ifs with hi
    · rfl
    · obtain ⟨j, x⟩ := e
      cases x with
      | release r' ts =>
        have hr : r' ≠ r := fun heq => hi (h _ List.mem_cons_self ts (heq ▸ rfl))
        exact (if_neg hr).symm
      | compute | copy | settle | acquire => rfl

/-- What it asks of a ring, one process asks. -/
theorem asked_share [DecidableEq ρ] {r : ρ} (h : ∀ e ∈ order, ∀ ts, e.2 = .acquire r ts → e.1 = i) :
    asked r (share order i) = asked r (order.map Prod.snd) := by
  induction order with
  | nil => rfl
  | cons e order ih =>
    rw [share_cons, List.map_cons, asked_append, asked_cons r e.2, ih fun e' he' => h e' (List.mem_cons_of_mem _ he')]
    congr 1
    split_ifs with hi
    · rfl
    · obtain ⟨j, x⟩ := e
      cases x with
      | acquire r' ts =>
        have hr : r' ≠ r := fun heq => hi (h _ List.mem_cons_self ts (heq ▸ rfl))
        exact (if_neg hr).symm
      | compute | copy | settle | release => rfl

/-- The transfers that happen in the order are those of the programs. -/
theorem performs_acts (i : ι) (order : List (ι × Instr α ν ρ τ)) :
    performs i (order.flatMap acts) = copies (share order i) := by
  induction order with
  | nil => rfl
  | cons e order ih =>
    rw [List.flatMap_cons, share_cons]
    unfold performs copies at *
    rw [List.filterMap_append, List.filterMap_append, ih]
    congr 1
    obtain ⟨j, x⟩ := e
    by_cases hj : j = i <;> cases x <;> simp [acts, hj]

end

/-! ## An order as a run -/

/-- Processes that are yet to start. -/
def initial (programs : ι → List (Instr α ν ρ τ)) (queue : ρ → List τ) (m : α → ν) : State ι α ν ρ τ :=
  ⟨m, ⟨fun i => ⟨programs i, []⟩, queue⟩⟩

/-- Nothing is left to do. -/
def State.Ended (s : State ι α ν ρ τ) : Prop := ∀ i, s.control.proc i = ⟨[], []⟩

section

variable [DecidableEq ι] [DecidableEq α] [DecidableEq ρ] {order : List (ι × Instr α ν ρ τ)} {m : α → ν}
  {queue q : ρ → List τ} {i : ι}

/-- A process that can go on, goes on. -/
theorem step_exec {s : State ι α ν ρ τ} {p p' : Proc α ν ρ τ} {x : Instr α ν ρ τ} (hp : s.control.proc i = p)
    (hnext : p.next = some (x, p')) (hrings : x.rings s.control.queue = some q) :
    step s (.exec i) = some ⟨x.effect s.mem, ⟨Function.update s.control.proc i p', q⟩⟩ := by
  have heffect : s.control.effect (.exec i) s.mem = x.effect s.mem := by
    simp only [Control.effect, hp, hnext, Option.elim_some]
  simp only [step, Control.exec_of hp hnext hrings, Option.map_some, heffect]

/-- A transfer under way happens. -/
theorem step_perform {s : State ι α ν ρ τ} {p p' : Proc α ν ρ τ} {op : Op α} (hp : s.control.proc i = p)
    (hperformed : p.performed op = some p') :
    step s (.perform i op) = some ⟨op.apply s.mem, ⟨Function.update s.control.proc i p', s.control.queue⟩⟩ := by
  simp only [step, Control.perform_of hp hperformed, Option.map_some]
  rfl

/-- One instruction, its transfer happening at once. -/
theorem acts_run (e : ι × Instr α ν ρ τ) (tail : ι → List (Instr α ν ρ τ)) (hrings : e.2.rings queue = some q) :
    Run (Steps step) ⟨m, ⟨fun j => ⟨share (e :: order) j ++ tail j, []⟩, queue⟩⟩ (acts e)
      ⟨e.2.run m, ⟨fun j => ⟨share order j ++ tail j, []⟩, q⟩⟩ := by
  obtain ⟨i, x⟩ := e
  have hproc : (⟨share ((i, x) :: order) i ++ tail i, []⟩ : Proc α ν ρ τ) = ⟨x :: (share order i ++ tail i), []⟩ := by
    rw [share_cons, if_pos rfl]
    rfl
  have hdone := share_update order (i, x) tail
  have hexec := step_exec (s := ⟨m, ⟨fun j => ⟨share ((i, x) :: order) j ++ tail j, []⟩, queue⟩⟩) hproc (next_idle x)
    hrings
  cases x with
  | compute | settle | acquire | release =>
    refine .single (hexec.trans ?_)
    rw [hdone]
    rfl
  | copy op =>
    refine Run.cons hexec (.single ?_)
    have hself : Function.update (fun j => (⟨share ((i, .copy op) :: order) j ++ tail j, []⟩ : Proc α ν ρ τ)) i
        ⟨share order i ++ tail i, [op]⟩ i = ⟨share order i ++ tail i, [op]⟩ := Function.update_self _ _ _
    have hperformed : (⟨share order i ++ tail i, [op]⟩ : Proc α ν ρ τ).performed op =
        some ⟨share order i ++ tail i, []⟩ := by
      unfold Proc.performed
      rw [if_pos List.mem_cons_self, List.erase_cons_head]
    have hperform := step_perform (s := ⟨m, ⟨Function.update
      (fun j => ⟨share ((i, .copy op) :: order) j ++ tail j, []⟩) i ⟨share order i ++ tail i, [op]⟩, q⟩⟩)
      hself hperformed
    refine hperform.trans ?_
    simp only [Function.update_idem, hdone]
    rfl

/-- **An order in which nothing waits is a run.** -/
theorem order_runs (order : List (ι × Instr α ν ρ τ)) (tail : ι → List (Instr α ν ρ τ))
    (hrings : ringsAfter (order.map Prod.snd) queue = some q) :
    Run (Steps step) ⟨m, ⟨fun j => ⟨share order j ++ tail j, []⟩, queue⟩⟩ (order.flatMap acts)
      ⟨serial (order.map Prod.snd) m, ⟨fun j => ⟨tail j, []⟩, q⟩⟩ := by
  induction order generalizing m queue with
  | nil =>
    cases hrings
    exact .nil
  | cons e order ih =>
    obtain ⟨queue', hfirst, hrest⟩ := Option.bind_eq_some_iff.mp hrings
    exact (acts_run e tail hfirst).append (ih hrest)

end

/-! ## Every run -/

variable [DecidableEq ι] [DecidableEq α] [DecidableEq ρ]

/-- Programs that keep to the discipline, with an order of their instructions in which nothing waits. -/
structure Interleaving (d : Discipline ι α ρ τ) (programs : ι → List (Instr α ν ρ τ)) (queue : ρ → List τ) where
  order : List (ι × Instr α ν ρ τ)
  ends : ρ → List τ
  left : ρ → List τ
  held : ι → Set α
  shares : ∀ i, share order i = programs i
  rings : ringsAfter (order.map Prod.snd) queue = some ends
  owned : Owned d left held ⟨fun i => ⟨programs i, []⟩, queue⟩

namespace Interleaving

variable {d : Discipline ι α ρ τ} {programs : ι → List (Instr α ν ρ τ)} {queue : ρ → List τ} {m : α → ν}
  {s : State ι α ν ρ τ} {ls : List (Act ι α)}

/-- **An order over whose acquisitions the rings flow**, of programs typed from cells that are apart. -/
def ofFlow (order : List (ι × Instr α ν ρ τ)) (ends : ρ → List τ) (held : ι → Set α)
    (shares : ∀ i, share order i = programs i) (flows : Flows (order.map Prod.snd) queue ends)
    (typed : ∀ i, Typed d i (held i) [] (programs i)) (apart : ∀ i j, i ≠ j → Disjoint (held i) (held j))
    (constant : ∀ i, Disjoint (held i) d.constant)
    (queued : ∀ r, ∀ t ∈ queue r, Disjoint (d.cells t) d.constant ∧ ∀ i, Disjoint (d.cells t) (held i))
    (within : ∀ r, (queue r).Pairwise fun t t' => Disjoint (d.cells t) (d.cells t'))
    (across : ∀ r r', r ≠ r' → ∀ t ∈ queue r, ∀ t' ∈ queue r', Disjoint (d.cells t) (d.cells t')) :
    Interleaving d programs queue where
  order := order
  ends := ends
  left := ends
  held := held
  shares := shares
  rings := flows.ringsAfter
  owned :=
    { typed := typed
      underWay := fun _ => ⟨fun _ hop => absurd hop List.not_mem_nil, .nil⟩
      balance := fun r => by
        have hproducer : ∀ e ∈ order, ∀ ts, e.2 = .release r ts → e.1 = d.producer r := fun e he ts heq => by
          have hmem : (.release r ts : Instr α ν ρ τ) ∈ programs e.1 := by
            rw [← shares, mem_share, ← heq]
            exact he
          exact ((typed e.1).producer hmem).symm
        have hconsumer : ∀ e ∈ order, ∀ ts, e.2 = .acquire r ts → e.1 = d.consumer r := fun e he ts heq => by
          have hmem : (.acquire r ts : Instr α ν ρ τ) ∈ programs e.1 := by
            rw [← shares, mem_share, ← heq]
            exact he
          exact ((typed e.1).consumer hmem).symm
        show queue r ++ given r (programs _) = asked r (programs _) ++ ends r
        rw [← shares, ← shares, given_share hproducer, asked_share hconsumer]
        exact flows.balance r
      apart := apart
      constant := constant
      queued := queued
      within := within
      across := across }

/-- Where the order ends. -/
def final (w : Interleaving d programs queue) (m : α → ν) : State ι α ν ρ τ :=
  ⟨serial (w.order.map Prod.snd) m, ⟨fun _ => ⟨[], []⟩, w.ends⟩⟩

/-- The order is a run. -/
theorem reference (w : Interleaving d programs queue) (m : α → ν) :
    Run (Steps step) (initial programs queue m) (w.order.flatMap acts) (w.final m) := by
  have hrun := order_runs (m := m) w.order (fun _ => []) w.rings
  simp only [List.append_nil, w.shares] at hrun
  exact hrun

/-- The discipline is kept throughout. -/
theorem sound (w : Interleaving d programs queue) (hrun : Run (Steps step) (initial programs queue m) ls s) :
    Sound d w.left s :=
  Run.invariant_state ⟨w.held, w.owned⟩ (fun h hstep => (diamond d w.left).kept h hstep) hrun

/-- Nothing happens when all have ended. -/
theorem stops (h : s.Ended) (l : Act ι α) : step s l = none := by
  cases l with
  | exec i => simp only [step, Control.step, h i, Proc.next, Option.bind_none, Option.map_none]
  | perform i op => simp only [step, Control.step, h i, Proc.performed, List.not_mem_nil, if_false, Option.map_none]

/-- **Every run can go on to where the order ends**, over the same acts. -/
theorem joins (w : Interleaving d programs queue) (hrun : Run (Steps step) (initial programs queue m) ls s) :
    ∃ ls', Run (Steps step) s ls' (w.final m) ∧ (ls ++ ls').Perm (w.order.flatMap acts) :=
  (diamond d w.left).join ⟨w.held, w.owned⟩ (stops fun _ => rfl) (w.reference m) hrun

/-- **No run is stuck** before all have ended. -/
theorem live (w : Interleaving d programs queue) (hrun : Run (Steps step) (initial programs queue m) ls s)
    (hne : ¬ s.Ended) : ∃ l t, step s l = some t :=
  (diamond d w.left).live ⟨w.held, w.owned⟩ (stops fun _ => rfl)
    (w.reference m) hrun fun heq => hne (heq ▸ fun _ => rfl)

/-- **A run that has ended** has done what the order does. -/
theorem finished (w : Interleaving d programs queue) (hrun : Run (Steps step) (initial programs queue m) ls s)
    (hend : s.Ended) : s.mem = serial (w.order.map Prod.snd) m ∧ ls.Perm (w.order.flatMap acts) := by
  obtain ⟨rfl, hperm⟩ := (diamond d w.left).unique ⟨w.held, w.owned⟩ (stops fun _ => rfl) (w.reference m)
    (stops hend) hrun
  exact ⟨rfl, hperm⟩

/-- **No cell is written while a transfer is yet to read it**, but by that transfer itself. -/
theorem source_kept (w : Interleaving d programs queue) (hrun : Run (Steps step) (initial programs queue m) ls s)
    {l : Act ι α} {t : State ι α ν ρ τ} (hstep : step s l = some t) {i : ι} {op : Op α}
    (hop : op ∈ (s.control.proc i).pending) (hne : l ≠ .perform i op) : t.mem op.src = s.mem op.src :=
  (w.sound hrun).source_kept hstep hop hne

/-- No transfer that can happen has the source of another as its target. -/
theorem target_apart (w : Interleaving d programs queue) (hrun : Run (Steps step) (initial programs queue m) ls s)
    {i j : ι} {op op' : Op α} (hop : op ∈ (s.control.proc i).pending) (hop' : op' ∈ (s.control.proc j).pending)
    (hne : i = j → op ≠ op') : op'.dst ≠ op.src := by
  obtain ⟨held, h⟩ := w.sound hrun
  exact h.target_apart hop hop' hne

/-- **Each transfer of a program happens as often as the program issues it.** -/
theorem performed (w : Interleaving d programs queue) (hrun : Run (Steps step) (initial programs queue m) ls s)
    (hend : s.Ended) (i : ι) : (performs i ls).Perm (copies (programs i)) := by
  rw [← w.shares i, ← performs_acts]
  exact (w.finished hrun hend).2.filterMap _

/-- **A cell is written as often as the order writes it.** -/
theorem written (w : Interleaving d programs queue) (hrun : Run (Steps step) (initial programs queue m) ls s)
    (hend : s.Ended) (c : α) : writesTo c ls = (copies (w.order.map Prod.snd)).countP fun op => op.dst = c := by
  rw [← writesTo_acts]
  exact (w.finished hrun hend).2.countP_eq _

end Interleaving

/-! ## Programs without rings -/

section

variable {d : Discipline ι α ρ τ} {programs : ι → List (Instr α ν ρ τ)} {held : ι → Set α} {is : List ι}

omit [DecidableEq α] in
/-- It leaves the rings alone. -/
theorem Quiet.flows {p : List (Instr α ν ρ τ)} (h : Quiet p) (queue : ρ → List τ) : Flows p queue queue := by
  induction p with
  | nil => exact .nil
  | cons x p ih =>
    have hx := h x List.mem_cons_self
    have hrest := ih fun y hy => h y (List.mem_cons_of_mem _ hy)
    cases x with
    | compute => exact .compute hrest
    | copy => exact .copy hrest
    | settle => exact .settle hrest
    | acquire r ts => exact absurd rfl (hx r ts).1
    | release r ts => exact absurd rfl (hx r ts).2

namespace Interleaving

/-- Programs without rings, typed from cells that are apart, in turn. -/
def solo (hnodup : is.Nodup) (houtside : ∀ i, i ∉ is → programs i = []) (quiet : ∀ i, Quiet (programs i))
    (typed : ∀ i, Typed d i (held i) [] (programs i)) (apart : ∀ i j, i ≠ j → Disjoint (held i) (held j))
    (constant : ∀ i, Disjoint (held i) d.constant) : Interleaving d programs fun _ => [] :=
  ofFlow (inTurn programs is) (fun _ => []) held
    (fun i => by
      rw [share_inTurn hnodup]
      split_ifs with hi
      · rfl
      · exact (houtside i hi).symm)
    (by
      rw [inTurn_snd]
      exact (Quiet.flatMap fun i _ => quiet i).flows _) typed apart constant (by simp) (by simp) (by simp)

/-- **Every run of them that has ended** has at the cells of each what it leaves there alone, and elsewhere what was
there. -/
theorem solo_finished (hnodup : is.Nodup) (houtside : ∀ i, i ∉ is → programs i = []) (quiet : ∀ i, Quiet (programs i))
    (typed : ∀ i, Typed d i (held i) [] (programs i)) (apart : ∀ i j, i ≠ j → Disjoint (held i) (held j))
    (constant : ∀ i, Disjoint (held i) d.constant) {m : α → ν} {s : State ι α ν ρ τ} {ls : List (Act ι α)}
    (hrun : Run (Steps step) (initial programs (fun _ => []) m) ls s) (hend : s.Ended) :
    (∀ i, ∀ c ∈ held i, s.mem c = serial (programs i) m c) ∧ ∀ c, (∀ i, c ∉ held i) → s.mem c = m c := by
  have hmem := ((solo hnodup houtside quiet typed apart constant).finished hrun hend).1
  have hserial : s.mem = serial (is.flatMap programs) m := hmem.trans (by rw [← inTurn_snd]; rfl)
  have hfoot : ∀ i, Footprint (serial (programs i)) (held i ∪ d.constant) (held i) := fun i =>
    serial_footprint fun x hx => (typed i).run_footprint subset_rfl
      (fun r ts hmem => absurd rfl (quiet i _ hmem r ts).1) hx
  refine ⟨fun i c hc => ?_, fun c hc => ?_⟩
  · rw [hserial]
    by_cases hi : i ∈ is
    · exact serial_flatMap_inside (fun k _ => hfoot k)
        (hnodup.imp fun {a b} hne => apart a b hne) (fun k _ => constant k) hi hc
    · rw [houtside i hi]
      exact serial_flatMap_outside (fun k _ => hfoot k) fun k hk hin =>
        Set.disjoint_left.mp (apart i k fun heq => hi (heq ▸ hk)) hc hin
  · rw [hserial]
    exact serial_flatMap_outside (fun k _ => hfoot k) fun k _ => hc k

end Interleaving

end

end Lib.Movers
