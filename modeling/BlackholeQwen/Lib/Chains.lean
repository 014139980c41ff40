import BlackholeQwen.Lib.Runs
import Mathlib.Algebra.Order.BigOperators.Group.Finset
import Mathlib.Data.Nat.Cast.Basic
import Mathlib.Logic.Function.Basic

/-!
# Chained read-modify-writes

A launch is one worker a row: the worker starts when its semaphore has been raised, if it waits at all, reads the cell
of its key, writes the cell back, and raises its successor's semaphore, if it signals at all. `Step` interleaves the
workers in any order.

Where waiting rows follow a signalling one and rows of one key are linked by waits (`Chained`), no launch deadlocks
(`Chained.live`) and every finished one leaves what the rows leave one at a time, in row order (`Chained.finished`).
-/

namespace Lib.Chains

variable {κ ν : Type}

/-- The rows of a launch: the flags and successor of each worker, its key, and what it makes of the cell it reads. -/
structure Launch (κ ν : Type) where
  rows : Nat
  wait : Nat → Bool
  signal : Nat → Bool
  next : Nat → Nat
  key : Nat → κ
  modify : Nat → ν → ν

/-- How far a worker is. -/
inductive Phase (ν : Type)
  | idle
  | read (v : ν)
  | written
  | done

/-- The memory, the workers, and their semaphores. -/
structure State (κ ν : Type) where
  mem : κ → ν
  phase : Nat → Phase ν
  sem : Nat → Nat

/-- The start of a launch. -/
def State.init (m : κ → ν) : State κ ν := ⟨m, fun _ => .idle, fun _ => 0⟩

/-- What a worker does next. -/
inductive Act
  | read (i : Nat)
  | write (i : Nat)
  | signal (i : Nat)
  deriving DecidableEq, Repr

/-- The worker that acts. -/
def Act.row : Act → Nat
  | .read i => i
  | .write i => i
  | .signal i => i

section

variable [DecidableEq κ]

/-- One act of one worker. -/
inductive Step (l : Launch κ ν) : State κ ν → Act → State κ ν → Prop
  | read {s : State κ ν} {i : Nat} : i < l.rows → s.phase i = .idle → (l.wait i = true → 0 < s.sem i) →
      Step l s (.read i) { s with phase := Function.update s.phase i (.read (s.mem (l.key i))) }
  | write {s : State κ ν} {i : Nat} {v : ν} : i < l.rows → s.phase i = .read v →
      Step l s (.write i)
        { s with
          mem := Function.update s.mem (l.key i) (l.modify i v)
          phase := Function.update s.phase i .written }
  | signal {s : State κ ν} {i : Nat} : i < l.rows → s.phase i = .written →
      Step l s (.signal i)
        { s with
          phase := Function.update s.phase i .done
          sem := if l.signal i then Function.update s.sem (l.next i) (s.sem (l.next i) + 1) else s.sem }

/-- The worker can act. -/
def Able (l : Launch κ ν) (s : State κ ν) (i : Nat) : Prop := ∃ a s', a.row = i ∧ Step l s a s'

/-- One row by itself. -/
def Launch.apply (l : Launch κ ν) (m : κ → ν) (i : Nat) : κ → ν :=
  Function.update m (l.key i) (l.modify i (m (l.key i)))

/-- The rows one at a time, in order. -/
def Launch.sequential (l : Launch κ ν) (m : κ → ν) : κ → ν := (List.range l.rows).foldl l.apply m

/-- Every worker is done. -/
def Finished (l : Launch κ ν) (s : State κ ν) : Prop := ∀ i < l.rows, s.phase i = .done

/-- Launches one after the other. -/
inductive Executes : List (Launch κ ν) → (κ → ν) → (κ → ν) → Prop
  | nil {m : κ → ν} : Executes [] m m
  | cons {l : Launch κ ν} {ls : List (Launch κ ν)} {m m' : κ → ν} {acts : List Act} {s : State κ ν} :
      Run (Step l) (State.init m) acts s → Finished l s → Executes ls s.mem m' → Executes (l :: ls) m m'

/-- The rows that wait follow a row that signals them, and the rows from one row to the next of its key all wait. -/
structure Chained (l : Launch κ ν) : Prop where
  next : ∀ p, l.signal p = true → l.next p = p + 1
  waits : ∀ q < l.rows, l.wait q = true → ∃ p, q = p + 1 ∧ l.signal p = true
  keys : ∀ i j, i < j → j < l.rows → l.key i = l.key j → ∀ k, i < k → k ≤ j → l.wait k = true

/-! ## What the rows that have written leave -/

/-- The value of a cell after the rows of `w`, in row order. -/
def cell (l : Launch κ ν) (w : Nat → Bool) (k : κ) (n : Nat) (v : ν) : ν :=
  (List.range n).foldl (fun v i => if w i = true ∧ l.key i = k then l.modify i v else v) v

theorem cell_succ (l : Launch κ ν) (w : Nat → Bool) (k : κ) (n : Nat) (v : ν) :
    cell l w k (n + 1) v = if w n = true ∧ l.key n = k then l.modify n (cell l w k n v) else cell l w k n v := by
  simp only [cell, List.range_succ, List.foldl_append, List.foldl_cons, List.foldl_nil]

theorem cell_congr {l : Launch κ ν} {w w' : Nat → Bool} {k : κ} {n : Nat} (v : ν)
    (h : ∀ i < n, l.key i = k → w i = w' i) : cell l w k n v = cell l w' k n v := by
  induction n with
  | zero => rfl
  | succ n ih =>
    rw [cell_succ, cell_succ, ih fun i hi => h i (Nat.lt_succ_of_lt hi)]
    by_cases hk : l.key n = k
    · rw [h n (Nat.lt_succ_self n) hk]
    · rw [if_neg (fun h' => hk h'.2), if_neg (fun h' => hk h'.2)]

/-- A row that writes after the others of its key. -/
theorem cell_write {l : Launch κ ν} {w : Nat → Bool} {i n : Nat} (v : ν) (hi : i < n)
    (hlast : ∀ j < n, i ≤ j → l.key j = l.key i → w j = false) :
    cell l (Function.update w i true) (l.key i) n v = l.modify i (cell l w (l.key i) n v) := by
  induction n with
  | zero => cases hi
  | succ n ih =>
    rw [cell_succ, cell_succ]
    rcases Nat.eq_or_lt_of_le (Nat.lt_succ_iff.mp hi) with rfl | hlt
    · rw [if_pos ⟨Function.update_self i true w, rfl⟩, if_neg (by simp [hlast i (Nat.lt_succ_self i) le_rfl rfl])]
      congr 1
      exact cell_congr v fun j hj _ => Function.update_of_ne (Nat.ne_of_lt hj) _ _
    · have hn : ¬(w n = true ∧ l.key n = l.key i) := by
        rintro ⟨hw, hk⟩
        rw [hlast n (Nat.lt_succ_self n) hlt.le hk] at hw
        cases hw
      rw [Function.update_of_ne (Nat.ne_of_gt hlt), if_neg hn, if_neg hn]
      exact ih hlt fun j hj => hlast j (Nat.lt_succ_of_lt hj)

/-- One cell of the sequential rows. -/
theorem sequential_cell (l : Launch κ ν) (m : κ → ν) (n : Nat) (k : κ) :
    (List.range n).foldl l.apply m k = cell l (fun _ => true) k n (m k) := by
  induction n with
  | zero => rfl
  | succ n ih =>
    rw [cell_succ, List.range_succ, List.foldl_append, List.foldl_cons, List.foldl_nil, Launch.apply]
    by_cases hk : l.key n = k
    · subst hk
      rw [Function.update_self, if_pos ⟨rfl, rfl⟩, ih]
    · rw [Function.update_of_ne (Ne.symm hk), if_neg (fun h => hk h.2), ih]

/-! ## The invariant -/

/-- The worker has written. -/
def Phase.wrote : Phase ν → Bool
  | .written => true
  | .done => true
  | _ => false

/-- The memory holds what the rows that have written leave; a worker that has read holds the cell's value; a worker that
waited started after the one before it was done. -/
structure Inv (l : Launch κ ν) (m : κ → ν) (s : State κ ν) : Prop where
  sem : ∀ p, 0 < s.sem (p + 1) → s.phase p = .done
  raised : ∀ p, l.signal p = true → s.phase p = .done → 0 < s.sem (p + 1)
  started : ∀ p, p + 1 < l.rows → l.wait (p + 1) = true → s.phase (p + 1) ≠ .idle → s.phase p = .done
  read : ∀ i v, i < l.rows → s.phase i = .read v → v = s.mem (l.key i)
  mem : ∀ k, s.mem k = cell l (fun i => (s.phase i).wrote) k l.rows (m k)

namespace Inv

variable {l : Launch κ ν} {m : κ → ν} {s s' : State κ ν}

theorem init (l : Launch κ ν) (m : κ → ν) : Inv l m (State.init m) where
  sem _ h := by cases h
  raised _ _ h := by cases h
  started _ _ _ h := absurd rfl h
  read _ _ _ h := by cases h
  mem k := by
    have : ∀ n, cell l (fun _ => false) k n (m k) = m k := by
      intro n
      induction n with
      | zero => rfl
      | succ n ih => rw [cell_succ, if_neg (by simp), ih]
    exact (this l.rows).symm

/-- A row that started has every earlier row of its key done. -/
theorem ordered (h : Inv l m s) (hc : Chained l) {i j : Nat} (hij : i < j) (hj : j < l.rows)
    (hkey : l.key i = l.key j) (hstarted : s.phase j ≠ .idle) : s.phase i = .done := by
  -- down the waiting rows from `j`
  have hdown : ∀ n k, k + n = j → i ≤ k → s.phase k ≠ .idle := by
    intro n
    induction n with
    | zero => intro k hk _; rw [show k = j by omega]; exact hstarted
    | succ n ih =>
      intro k hk hik
      have hnext := ih (k + 1) (by omega) (by omega)
      rw [h.started k (by omega) (hc.keys i j hij hj hkey (k + 1) (by omega) (by omega)) hnext]
      simp
  exact h.started i (by omega) (hc.keys i j hij hj hkey (i + 1) (by omega) (by omega))
    (hdown (j - (i + 1)) (i + 1) (by omega) (by omega))

/-- Every act keeps it. -/
theorem step (h : Inv l m s) (hc : Chained l) {a : Act} (hs : Step l s a s') : Inv l m s' := by
  cases hs with
  | @read i hi hidle hwait =>
    have hne : ∀ p, s.phase p = .done → p ≠ i := by
      rintro p hp rfl
      rw [hidle] at hp
      cases hp
    refine ⟨fun p hp => ?_, fun p hp hd => ?_, fun p hp hw hst => ?_, fun j v hj hv => ?_, fun k => ?_⟩ <;>
      simp only at *
    · have hd := h.sem p hp
      rwa [Function.update_of_ne (hne p hd)]
    · by_cases hpi : p = i
      · rw [hpi, Function.update_self] at hd; cases hd
      · exact h.raised p hp (by rwa [Function.update_of_ne hpi] at hd)
    · have hd : s.phase p = .done := by
        by_cases hpi : p + 1 = i
        · exact h.sem p (by rw [hpi] at hw ⊢; exact hwait hw)
        · exact h.started p hp hw (by rwa [Function.update_of_ne hpi] at hst)
      rwa [Function.update_of_ne (hne p hd)]
    · by_cases hji : j = i
      · subst hji
        rw [Function.update_self] at hv
        cases hv
        rfl
      · exact h.read j v hj (by rwa [Function.update_of_ne hji] at hv)
    · rw [h.mem k]
      refine cell_congr _ fun j _ _ => ?_
      by_cases hji : j = i
      · subst hji; rw [Function.update_self, hidle]; rfl
      · rw [Function.update_of_ne hji]
  | @write i v hi hread =>
    have hne : ∀ p, s.phase p = .done → p ≠ i := by
      rintro p hp rfl
      rw [hread] at hp
      cases hp
    -- no other row of the key is between its read and its signal
    have halone : ∀ j < l.rows, j ≠ i → l.key j = l.key i → s.phase j = .idle ∨ s.phase j = .done := by
      intro j hj hji hkey
      by_contra hcon
      rw [not_or] at hcon
      rcases Nat.lt_or_gt_of_ne hji with hlt | hgt
      · exact hcon.2 (h.ordered hc hlt hi hkey (by rw [hread]; simp))
      · exact hne i (h.ordered hc hgt hj hkey.symm hcon.1) rfl
    have hlater : ∀ j < l.rows, i ≤ j → l.key j = l.key i → (s.phase j).wrote = false := by
      intro j hj hij hkey
      rcases Nat.eq_or_lt_of_le hij with rfl | hlt
      · rw [hread]; rfl
      · cases hp : s.phase j with
        | idle => rfl
        | read _ => rfl
        | _ =>
          have := h.ordered hc hlt hj hkey.symm (by rw [hp]; simp)
          rw [hread] at this
          cases this
    refine ⟨fun p hp => ?_, fun p hp hd => ?_, fun p hp hw hst => ?_, fun j u hj hu => ?_, fun k => ?_⟩ <;>
      simp only at *
    · have hd := h.sem p hp
      rwa [Function.update_of_ne (hne p hd)]
    · by_cases hpi : p = i
      · rw [hpi, Function.update_self] at hd; cases hd
      · exact h.raised p hp (by rwa [Function.update_of_ne hpi] at hd)
    · have hd : s.phase p = .done := by
        refine h.started p hp hw ?_
        by_cases hpi : p + 1 = i
        · rw [hpi, hread]; simp
        · rwa [Function.update_of_ne hpi] at hst
      rwa [Function.update_of_ne (hne p hd)]
    · have hji : j ≠ i := by
        rintro rfl
        rw [Function.update_self] at hu
        cases hu
      rw [Function.update_of_ne hji] at hu
      by_cases hkey : l.key j = l.key i
      · rcases halone j hj hji hkey with hp | hp <;> rw [hp] at hu <;> cases hu
      · rw [Function.update_of_ne hkey]
        exact h.read j u hj hu
    · have hw : (fun j => (Function.update s.phase i Phase.written j).wrote) =
          Function.update (fun j => (s.phase j).wrote) i true := by
        funext j
        by_cases hji : j = i
        · subst hji; simp [Phase.wrote]
        · simp [Function.update_of_ne hji]
      rw [hw]
      by_cases hkey : k = l.key i
      · subst hkey
        rw [Function.update_self, cell_write _ hi hlater, h.read i v hi hread, ← h.mem]
      · rw [Function.update_of_ne hkey, h.mem k]
        exact cell_congr _ fun j _ hj => by
          rw [Function.update_of_ne (by rintro rfl; exact hkey hj.symm)]
  | @signal i hi hwritten =>
    have hdone : ∀ p, Function.update s.phase i Phase.done p = .done ↔ p = i ∨ s.phase p = .done := by
      intro p
      by_cases hpi : p = i
      · subst hpi; simp
      · simp [hpi]
    refine ⟨fun p hp => ?_, fun p hp hd => ?_, fun p hp hw hst => ?_, fun j u hj hu => ?_, fun k => ?_⟩ <;>
      simp only at *
    · rw [hdone]
      split at hp
      · rename_i hsig
        rw [hc.next i hsig] at hp
        by_cases hpi : p = i
        · exact Or.inl hpi
        · rw [Function.update_of_ne (by omega)] at hp
          exact Or.inr (h.sem p hp)
      · exact Or.inr (h.sem p hp)
    · rw [hdone] at hd
      rcases hd with rfl | hd
      · rw [if_pos hp, hc.next p hp, Function.update_self]
        exact Nat.succ_pos _
      · have := h.raised p hp hd
        split
        · rename_i hsig
          by_cases hpi : p + 1 = l.next i
          · rw [hpi, Function.update_self]; exact Nat.succ_pos _
          · rwa [Function.update_of_ne hpi]
        · exact this
    · rw [hdone]
      refine Or.inr (h.started p hp hw ?_)
      by_cases hpi : p + 1 = i
      · rw [hpi, hwritten]; simp
      · rwa [Function.update_of_ne hpi] at hst
    · by_cases hji : j = i
      · subst hji; rw [Function.update_self] at hu; cases hu
      · exact h.read j u hj (by rwa [Function.update_of_ne hji] at hu)
    · rw [h.mem k]
      refine cell_congr _ fun j _ _ => ?_
      by_cases hji : j = i
      · subst hji; rw [Function.update_self, hwritten]; rfl
      · rw [Function.update_of_ne hji]

end Inv

theorem Chained.inv {l : Launch κ ν} (hc : Chained l) {m : κ → ν} {acts : List Act} {s : State κ ν}
    (h : Run (Step l) (State.init m) acts s) : Inv l m s :=
  h.invariant_state (Inv.init l m) fun ht hs => ht.step hc hs

/-- **The order of the acts does not matter.** A finished launch leaves what its rows leave one at a time. -/
theorem Chained.finished {l : Launch κ ν} (hc : Chained l) {m : κ → ν} {acts : List Act} {s : State κ ν}
    (h : Run (Step l) (State.init m) acts s) (hf : Finished l s) : s.mem = l.sequential m := by
  funext k
  rw [(hc.inv h).mem k, Launch.sequential, sequential_cell]
  exact cell_congr _ fun i hi _ => by rw [hf i hi]; rfl

/-! ## Progress -/

/-- What a worker still has to do. -/
def Phase.left : Phase ν → Nat
  | .idle => 3
  | .read _ => 2
  | .written => 1
  | .done => 0

/-- The acts left to the first rows. -/
def State.left (s : State κ ν) (n : Nat) : Nat := ((List.range n).map fun i => (s.phase i).left).sum

omit [DecidableEq κ] in
theorem State.left_update (s : State κ ν) (mem : κ → ν) (sem : Nat → Nat) {i n : Nat} (p : Phase ν) (hi : i < n) :
    State.left ⟨mem, Function.update s.phase i p, sem⟩ n + (s.phase i).left = s.left n + p.left := by
  induction n with
  | zero => cases hi
  | succ n ih =>
    simp only [State.left, List.range_succ, List.map_append, List.map_cons, List.map_nil, List.sum_append,
      List.sum_singleton] at ih ⊢
    rcases Nat.eq_or_lt_of_le (Nat.lt_succ_iff.mp hi) with rfl | hlt
    · rw [Function.update_self, List.map_congr_left fun j hj =>
        show (Function.update s.phase i p j).left = (s.phase j).left by
          rw [Function.update_of_ne (Nat.ne_of_lt (List.mem_range.mp hj))]]
      omega
    · have := ih hlt
      rw [Function.update_of_ne (Nat.ne_of_gt hlt)]
      omega

/-- Each act is one of those left. -/
theorem Step.left {l : Launch κ ν} {s s' : State κ ν} {a : Act} (h : Step l s a s') :
    s'.left l.rows + 1 = s.left l.rows := by
  cases h with
  | @read i hi hidle _ =>
    have := s.left_update s.mem s.sem (.read (s.mem (l.key i))) hi
    rw [hidle] at this
    simp only [Phase.left] at this
    omega
  | @write i v hi hread =>
    have := s.left_update (Function.update s.mem (l.key i) (l.modify i v)) s.sem .written hi
    rw [hread] at this
    simp only [Phase.left] at this
    omega
  | @signal i hi hwritten =>
    have := s.left_update s.mem
      (if l.signal i then Function.update s.sem (l.next i) (s.sem (l.next i) + 1) else s.sem) .done hi
    rw [hwritten] at this
    simp only [Phase.left] at this
    omega

/-- **No run is longer than three acts a row.** -/
theorem run_length {l : Launch κ ν} {m : κ → ν} {acts : List Act} {s : State κ ν}
    (h : Run (Step l) (State.init m) acts s) : acts.length ≤ 3 * l.rows := by
  have hinit : (State.init m : State κ ν).left l.rows = 3 * l.rows := by
    unfold State.left State.init
    simp [Phase.left, Nat.mul_comm]
  have hrun : acts.length + s.left l.rows = (State.init m : State κ ν).left l.rows :=
    h.invariant (P := fun acts s => acts.length + s.left l.rows = (State.init m : State κ ν).left l.rows)
      (Nat.zero_add _) fun _ hi hs => by
        have := hs.left
        simp only [List.length_append, List.length_singleton]
        omega
  omega

/-- A worker that can act still can after the others' acts. -/
theorem Able.stays {l : Launch κ ν} {s s' : State κ ν} {i : Nat} {a : Act} (h : Able l s i) (hs : Step l s a s')
    (hne : a.row ≠ i) : Able l s' i := by
  have hphase : s'.phase i = s.phase i ∧ s.sem i ≤ s'.sem i := by
    cases hs <;> simp only [Act.row] at hne ⊢
    case signal j _ _ =>
      refine ⟨Function.update_of_ne (Ne.symm hne) _ _, ?_⟩
      split
      · by_cases hi : i = l.next j
        · rw [hi, Function.update_self]; exact Nat.le_succ _
        · rw [Function.update_of_ne hi]
      · exact le_rfl
    all_goals exact ⟨Function.update_of_ne (Ne.symm hne) _ _, le_rfl⟩
  obtain ⟨b, t, rfl, ht⟩ := h
  cases ht with
  | read hi hidle hwait =>
    exact ⟨_, _, rfl, .read hi (hphase.1.trans hidle) fun hw => Nat.lt_of_lt_of_le (hwait hw) hphase.2⟩
  | write hi hread => exact ⟨_, _, rfl, .write hi (hphase.1.trans hread)⟩
  | signal hi hwritten => exact ⟨_, _, rfl, .signal hi (hphase.1.trans hwritten)⟩

/-- **A row that is not done can act, or a row before it in its own chain can.** -/
theorem Inv.able {l : Launch κ ν} {m : κ → ν} {s : State κ ν} (h : Inv l m s) (hc : Chained l) :
    ∀ {i : Nat}, i < l.rows → s.phase i ≠ .done →
      ∃ j ≤ i, Able l s j ∧ ∀ k, j < k → k ≤ i → l.wait k = true := by
  intro i
  induction i with
  | zero =>
    intro hi hnot
    refine ⟨0, le_rfl, ?_, fun k hk hk' => by omega⟩
    cases hp : s.phase 0 with
    | idle =>
      refine ⟨_, _, rfl, .read hi hp fun hw => ?_⟩
      obtain ⟨p, hp, -⟩ := hc.waits 0 hi hw
      cases hp
    | read v => exact ⟨_, _, rfl, .write hi hp⟩
    | written => exact ⟨_, _, rfl, .signal hi hp⟩
    | done => exact absurd hp hnot
  | succ i ih =>
    intro hi hnot
    have hself : Able l s (i + 1) → ∃ j ≤ i + 1, Able l s j ∧ ∀ k, j < k → k ≤ i + 1 → l.wait k = true :=
      fun hable => ⟨i + 1, le_rfl, hable, fun k hk hk' => by omega⟩
    cases hp : s.phase (i + 1) with
    | idle =>
      by_cases hw : l.wait (i + 1) = true
      · obtain ⟨p, hpi, hsig⟩ := hc.waits (i + 1) hi hw
        obtain rfl : i = p := by omega
        by_cases hdone : s.phase i = .done
        · exact hself ⟨_, _, rfl, .read hi hp fun _ => h.raised i hsig hdone⟩
        · obtain ⟨j, hj, hable, hchain⟩ := ih (by omega) hdone
          refine ⟨j, by omega, hable, fun k hk hk' => ?_⟩
          rcases Nat.eq_or_lt_of_le hk' with rfl | hlt
          · exact hw
          · exact hchain k hk (by omega)
      · exact hself ⟨_, _, rfl, .read hi hp fun hw' => absurd hw' hw⟩
    | read v => exact hself ⟨_, _, rfl, .write hi hp⟩
    | written => exact hself ⟨_, _, rfl, .signal hi hp⟩
    | done => exact absurd hp hnot

/-- A launch makes progress whatever its workers do: no run is longer than three acts a row; a row that is not done can
act, or a row before it in its own chain can; a worker that can act still can after the others' acts; and a run that
cannot go on has every worker done. -/
structure Live (l : Launch κ ν) (m : κ → ν) (acts : List Act) (s : State κ ν) : Prop where
  bounded : acts.length ≤ 3 * l.rows
  able : ∀ i < l.rows, s.phase i ≠ .done → ∃ j ≤ i, Able l s j ∧ ∀ k, j < k → k ≤ i → l.wait k = true
  stays : ∀ i a s', Able l s i → Step l s a s' → a.row ≠ i → Able l s' i
  finished : (∀ a s', ¬Step l s a s') → Finished l s

theorem Chained.live {l : Launch κ ν} (hc : Chained l) {m : κ → ν} {acts : List Act} {s : State κ ν}
    (h : Run (Step l) (State.init m) acts s) : Live l m acts s where
  bounded := run_length h
  able _ hi hnot := (hc.inv h).able hc hi hnot
  stays _ _ _ hable hs hne := hable.stays hs hne
  finished hstuck i hi := by
    by_contra hnot
    obtain ⟨j, -, ⟨a, s', -, hs⟩, -⟩ := (hc.inv h).able hc hi hnot
    exact hstuck a s' hs

/-- A launch can be finished. -/
theorem Chained.completes {l : Launch κ ν} (hc : Chained l) (m : κ → ν) :
    ∃ acts s, Run (Step l) (State.init m) acts s ∧ Finished l s := by
  have hgo : ∀ n acts (s : State κ ν), Run (Step l) (State.init m) acts s → s.left l.rows ≤ n →
      ∃ acts s, Run (Step l) (State.init m) acts s ∧ Finished l s := by
    intro n
    induction n with
    | zero =>
      intro acts s h hleft
      exact ⟨acts, s, h, (hc.live h).finished fun a s' hs => by have := hs.left; omega⟩
    | succ n ih =>
      intro acts s h hleft
      by_cases hstuck : ∀ a s', ¬Step l s a s'
      · exact ⟨acts, s, h, (hc.live h).finished hstuck⟩
      · push Not at hstuck
        obtain ⟨a, s', hs⟩ := hstuck
        exact ih _ s' (h.snoc hs) (by have := hs.left; omega)
  exact hgo _ [] _ .nil le_rfl

/-- Launches can be executed. -/
theorem executes_exists : ∀ {ls : List (Launch κ ν)}, (∀ l ∈ ls, Chained l) → ∀ m, ∃ m', Executes ls m m'
  | [], _, m => ⟨m, .nil⟩
  | l :: ls, hc, m => by
    obtain ⟨acts, s, hrun, hf⟩ := (hc l List.mem_cons_self).completes m
    obtain ⟨m', h⟩ := executes_exists (fun l' hl' => hc l' (List.mem_cons_of_mem _ hl')) s.mem
    exact ⟨m', .cons hrun hf h⟩

/-- Launches one after the other leave what their rows leave one at a time. -/
theorem Executes.sequential {ls : List (Launch κ ν)} {m m' : κ → ν} (h : Executes ls m m')
    (hc : ∀ l ∈ ls, Chained l) : m' = ls.foldl (fun m l => l.sequential m) m := by
  induction h with
  | nil => rfl
  | @cons l ls m m' acts s hrun hf _ ih =>
    rw [ih fun l' hl' => hc l' (List.mem_cons_of_mem _ hl'), List.foldl_cons,
      (hc l List.mem_cons_self).finished hrun hf]

end

end Lib.Chains
