import BlackholeQwen.Lib.Diamond
import Mathlib.Data.List.Pairwise
import Mathlib.Data.Set.Lattice
import Mathlib.Logic.Function.Basic
import Mathlib.Order.CompletePartialOrder

/-!
# Programs that move data and hand cells over

Processes share one memory. Each runs a straight-line program that computes on cells, issues transfers of single cells,
which happen at any moment up to the next `settle` of their kind, and hands tokens over through first-in first-out
rings: `acquire` waits until a ring holds as many tokens as it asks for, `release` never waits. A token stands for
cells.

A program is `Typed` when, from the cells its process holds at each point, it touches only what it holds or what is
constant, and nothing that a transfer of its own still reads or writes. For typed programs over rings with one producer
and one consumer each, whose tokens arrive in the order in which they are asked for (`Owned`), steps of different labels
commute (`diamond`): whatever the schedule, no process is stuck before all have ended, they end in the same memory, and
no cell that a transfer is yet to read is written (`source_kept`).
-/

namespace Lib.Movers

variable {ι α ν ρ τ : Type}

/-! ## The machine -/

/-- What a transfer is settled with. -/
inductive Kind
  | load
  | store
  deriving DecidableEq, Repr

/-- A transfer of one cell. -/
structure Op (α : Type) where
  kind : Kind
  src : α
  dst : α
  deriving DecidableEq

/-- An instruction. -/
inductive Instr (α ν ρ τ : Type)
  | compute (f : (α → ν) → α → ν)
  | copy (op : Op α)
  | settle (kind : Kind)
  | acquire (ring : ρ) (tokens : List τ)
  | release (ring : ρ) (tokens : List τ)

/-- A process: the rest of its program, and its transfers under way. -/
structure Proc (α ν ρ τ : Type) where
  rest : List (Instr α ν ρ τ)
  pending : List (Op α)

/-- The processes and the rings. -/
structure Control (ι α ν ρ τ : Type) where
  proc : ι → Proc α ν ρ τ
  queue : ρ → List τ

/-- A state: the memory and the control. -/
structure State (ι α ν ρ τ : Type) where
  mem : α → ν
  control : Control ι α ν ρ τ

/-- A process goes on, or one of its transfers happens. -/
inductive Act (ι α : Type)
  | exec (i : ι)
  | perform (i : ι) (op : Op α)
  deriving DecidableEq

/-- The instruction that a process is at, and the process after it; a settlement waits for the transfers of its kind. -/
def Proc.next [DecidableEq α] (p : Proc α ν ρ τ) : Option (Instr α ν ρ τ × Proc α ν ρ τ) :=
  match p.rest with
  | [] => none
  | .copy op :: rest => some (.copy op, ⟨rest, p.pending ++ [op]⟩)
  | .settle kind :: rest => if ∀ op ∈ p.pending, op.kind ≠ kind then some (.settle kind, ⟨rest, p.pending⟩) else none
  | x :: rest => some (x, ⟨rest, p.pending⟩)

/-- A transfer of a process happens. -/
def Proc.performed [DecidableEq α] (p : Proc α ν ρ τ) (op : Op α) : Option (Proc α ν ρ τ) :=
  if op ∈ p.pending then some { p with pending := p.pending.erase op } else none

/-- What an instruction does to the rings; an acquisition waits for its tokens. -/
def Instr.rings [DecidableEq ρ] (x : Instr α ν ρ τ) (queue : ρ → List τ) : Option (ρ → List τ) :=
  match x with
  | .acquire r ts =>
    if ts.length ≤ (queue r).length then some (Function.update queue r ((queue r).drop ts.length)) else none
  | .release r ts => some (Function.update queue r (queue r ++ ts))
  | _ => some queue

/-- What an instruction does to the memory at once. -/
def Instr.effect (x : Instr α ν ρ τ) (m : α → ν) : α → ν :=
  match x with
  | .compute f => f m
  | _ => m

/-- A transfer. -/
def Op.apply [DecidableEq α] (op : Op α) (m : α → ν) : α → ν := Function.update m op.dst (m op.src)

namespace Control

/-- The control after an act. -/
def step [DecidableEq ι] [DecidableEq α] [DecidableEq ρ] (c : Control ι α ν ρ τ) : Act ι α → Option (Control ι α ν ρ τ)
  | .exec i => (c.proc i).next.bind fun x => (x.1.rings c.queue).map fun queue => ⟨Function.update c.proc i x.2, queue⟩
  | .perform i op => ((c.proc i).performed op).map fun p => ⟨Function.update c.proc i p, c.queue⟩

/-- What an act does to the memory. -/
def effect [DecidableEq α] (c : Control ι α ν ρ τ) : Act ι α → (α → ν) → α → ν
  | .exec i => (c.proc i).next.elim id fun x => x.1.effect
  | .perform _ op => op.apply

end Control

/-- One step. -/
def step [DecidableEq ι] [DecidableEq α] [DecidableEq ρ] (s : State ι α ν ρ τ) (a : Act ι α) :
    Option (State ι α ν ρ τ) :=
  (s.control.step a).map fun c => ⟨s.control.effect a s.mem, c⟩

/-! ## The discipline -/

/-- What is constant, the cells of a token, and who produces and consumes the tokens of a ring. -/
structure Discipline (ι α ρ τ : Type) where
  constant : Set α
  cells : τ → Set α
  producer : ρ → ι
  consumer : ρ → ι

/-- `f` reads `R` and writes `W` only. -/
structure Footprint (f : (α → ν) → α → ν) (R W : Set α) : Prop where
  outside : ∀ m c, c ∉ W → f m c = m c
  inside : ∀ m m' : α → ν, (∀ c ∈ R, m c = m' c) → ∀ c ∈ W, f m c = f m' c

/-- The cells of several tokens. -/
def Discipline.cellsOf (d : Discipline ι α ρ τ) (ts : List τ) : Set α := {c | ∃ t ∈ ts, c ∈ d.cells t}

/-- A cell that a process with these transfers under way may read. -/
def Readable (d : Discipline ι α ρ τ) (held : Set α) (pending : List (Op α)) (c : α) : Prop :=
  (c ∈ held ∨ c ∈ d.constant) ∧ ∀ op ∈ pending, op.dst ≠ c

/-- A cell that it may write. -/
def Writable (held : Set α) (pending : List (Op α)) (c : α) : Prop :=
  c ∈ held ∧ ∀ op ∈ pending, op.src ≠ c ∧ op.dst ≠ c

/-- A program that touches only what its process holds. -/
inductive Typed (d : Discipline ι α ρ τ) (i : ι) : Set α → List (Op α) → List (Instr α ν ρ τ) → Prop
  | nil {held : Set α} {pending : List (Op α)} : Typed d i held pending []
  | compute {held : Set α} {pending : List (Op α)} {rest : List (Instr α ν ρ τ)} {f : (α → ν) → α → ν} (R W : Set α) :
      Footprint f R W → (∀ c ∈ R, Readable d held pending c) → (∀ c ∈ W, Writable held pending c) →
      Typed d i held pending rest → Typed d i held pending (.compute f :: rest)
  | copy {held : Set α} {pending : List (Op α)} {rest : List (Instr α ν ρ τ)} {op : Op α} :
      Readable d held pending op.src → Writable held pending op.dst →
      Typed d i held (pending ++ [op]) rest → Typed d i held pending (.copy op :: rest)
  | settle {held : Set α} {pending : List (Op α)} {rest : List (Instr α ν ρ τ)} {kind : Kind} :
      Typed d i held (pending.filter fun op => op.kind ≠ kind) rest → Typed d i held pending (.settle kind :: rest)
  | acquire {held : Set α} {pending : List (Op α)} {rest : List (Instr α ν ρ τ)} {r : ρ} {ts : List τ} :
      d.consumer r = i → Typed d i (held ∪ d.cellsOf ts) pending rest → Typed d i held pending (.acquire r ts :: rest)
  | release {held : Set α} {pending : List (Op α)} {rest : List (Instr α ν ρ τ)} {r : ρ} {ts : List τ} :
      d.producer r = i → (∀ c ∈ d.cellsOf ts, Writable held pending c) →
      ts.Pairwise (fun t t' => Disjoint (d.cells t) (d.cells t')) → Typed d i (held \ d.cellsOf ts) pending rest →
      Typed d i held pending (.release r ts :: rest)

/-- The tokens that a program asks of a ring, in order. -/
def asked [DecidableEq ρ] (r : ρ) : List (Instr α ν ρ τ) → List τ
  | [] => []
  | .acquire r' ts :: rest => if r' = r then ts ++ asked r rest else asked r rest
  | _ :: rest => asked r rest

/-- The tokens that it gives to a ring, in order. -/
def given [DecidableEq ρ] (r : ρ) : List (Instr α ν ρ τ) → List τ
  | [] => []
  | .release r' ts :: rest => if r' = r then ts ++ given r rest else given r rest
  | _ :: rest => given r rest

/-- The transfers of a process under way: they are within what it holds, and none touches what another writes. -/
structure UnderWay (d : Discipline ι α ρ τ) (held : Set α) (pending : List (Op α)) : Prop where
  within : ∀ op ∈ pending, (op.src ∈ held ∨ op.src ∈ d.constant) ∧ op.dst ∈ held
  apart : pending.Pairwise fun op op' => op.dst ≠ op'.dst ∧ op.dst ≠ op'.src ∧ op.src ≠ op'.dst

/-- **Every cell is held by one process, or waits in one token, or is constant**, the programs are typed from what their
processes hold, and the tokens of each ring are in the order in which they are asked for, `left` of them at the end. -/
structure Owned [DecidableEq ρ] (d : Discipline ι α ρ τ) (left : ρ → List τ) (held : ι → Set α)
    (c : Control ι α ν ρ τ) : Prop where
  typed : ∀ i, Typed d i (held i) (c.proc i).pending (c.proc i).rest
  underWay : ∀ i, UnderWay d (held i) (c.proc i).pending
  balance : ∀ r, c.queue r ++ given r (c.proc (d.producer r)).rest = asked r (c.proc (d.consumer r)).rest ++ left r
  apart : ∀ i j, i ≠ j → Disjoint (held i) (held j)
  constant : ∀ i, Disjoint (held i) d.constant
  queued : ∀ r, ∀ t ∈ c.queue r, Disjoint (d.cells t) d.constant ∧ ∀ i, Disjoint (d.cells t) (held i)
  within : ∀ r, (c.queue r).Pairwise fun t t' => Disjoint (d.cells t) (d.cells t')
  across : ∀ r r', r ≠ r' → ∀ t ∈ c.queue r, ∀ t' ∈ c.queue r', Disjoint (d.cells t) (d.cells t')

/-! ## Typed programs -/

section

variable {f g : (α → ν) → α → ν} {R W R' W' : Set α} {d : Discipline ι α ρ τ} {held : Set α} {pending : List (Op α)}
  {i : ι}

/-- Two of them keep apart. -/
theorem UnderWay.apart_of (h : UnderWay d held pending)
    {op op' : Op α} (hop : op ∈ pending) (hop' : op' ∈ pending) (hne : op ≠ op') :
    op.dst ≠ op'.dst ∧ op.dst ≠ op'.src ∧ op.src ≠ op'.dst := by
  have : Std.Symm fun op op' : Op α => op.dst ≠ op'.dst ∧ op.dst ≠ op'.src ∧ op.src ≠ op'.dst :=
    ⟨fun _ _ h => ⟨Ne.symm h.1, Ne.symm h.2.2, Ne.symm h.2.1⟩⟩
  exact h.apart.forall hop hop' hne

/-- **Functions that do not write what the other reads or writes commute.** -/
theorem Footprint.comm (hf : Footprint f R W) (hg : Footprint g R' W') (hleft : ∀ c ∈ W, c ∉ R' ∧ c ∉ W')
    (hright : ∀ c ∈ W', c ∉ R) (m : α → ν) : f (g m) = g (f m) := by
  funext c
  by_cases hc : c ∈ W
  · rw [hg.outside _ c (hleft c hc).2]
    exact hf.inside _ _ (fun c' hc' => hg.outside _ c' fun hw => hright c' hw hc') c hc
  · rw [hf.outside _ c hc]
    by_cases hc' : c ∈ W'
    · exact hg.inside _ _ (fun c'' hr => (hf.outside _ c'' fun hw => (hleft c'' hw).1 hr).symm) c hc'
    · rw [hg.outside _ c hc', hg.outside _ c hc', hf.outside _ c hc]

theorem Footprint.id : Footprint (fun m : α → ν => m) ∅ ∅ := ⟨fun _ _ _ => rfl, fun _ _ _ _ hc => absurd hc (by simp)⟩

/-- A function that reads and writes within a region. -/
theorem Footprint.within {S C : Set α} (h : Footprint f R W) (hread : R ⊆ S ∪ C) (hwrite : W ⊆ S) :
    Footprint f (S ∪ C) S where
  outside := fun m c hc => h.outside m c fun hw => hc (hwrite hw)
  inside := fun m m' heq c hc => by
    by_cases hw : c ∈ W
    · exact h.inside m m' (fun c' hc' => heq c' (hread hc')) c hw
    · rw [h.outside m c hw, h.outside m' c hw]
      exact heq c (Or.inl hc)

/-- Two of them, one after the other. -/
theorem Footprint.comp {S C : Set α} (hf : Footprint f (S ∪ C) S) (hg : Footprint g (S ∪ C) S) :
    Footprint (fun m => g (f m)) (S ∪ C) S where
  outside := fun m c hc => (hg.outside _ c hc).trans (hf.outside m c hc)
  inside := fun m m' heq c hc => hg.inside _ _ (fun c' hc' => by
    by_cases hs : c' ∈ S
    · exact hf.inside m m' heq c' hs
    · rw [hf.outside m c' hs, hf.outside m' c' hs]
      exact heq c' hc') c hc

/-- A program is typed with fewer transfers under way. -/
theorem Typed.mono {rest : List (Instr α ν ρ τ)} (h : Typed d i held pending rest) {pending' : List (Op α)}
    (hsub : ∀ op ∈ pending', op ∈ pending) : Typed d i held pending' rest := by
  have hread : ∀ {held pending pending' : _} {c : α}, (∀ op ∈ pending', op ∈ pending) →
      Readable d held pending c → Readable d held pending' c :=
    fun hsub h => ⟨h.1, fun op hop => h.2 op (hsub op hop)⟩
  have hwrite : ∀ {held : Set α} {pending pending' : List (Op α)} {c : α}, (∀ op ∈ pending', op ∈ pending) →
      Writable held pending c → Writable held pending' c :=
    fun hsub h => ⟨h.1, fun op hop => h.2 op (hsub op hop)⟩
  induction h generalizing pending' with
  | nil => exact .nil
  | compute R W hfoot hR hW _ ih =>
    exact .compute R W hfoot (fun c hc => hread hsub (hR c hc)) (fun c hc => hwrite hsub (hW c hc)) (ih hsub)
  | copy hsrc hdst _ ih =>
    refine .copy (hread hsub hsrc) (hwrite hsub hdst) (ih fun op hop => ?_)
    rcases List.mem_append.mp hop with hop | hop
    · exact List.mem_append_left _ (hsub op hop)
    · exact List.mem_append_right _ hop
  | settle _ ih =>
    refine .settle (ih fun op hop => ?_)
    obtain ⟨hop, hkind⟩ := List.mem_filter.mp hop
    exact List.mem_filter.mpr ⟨hsub op hop, hkind⟩
  | acquire hcons _ ih => exact .acquire hcons (ih hsub)
  | release hprod hcells hpair _ ih => exact .release hprod (fun c hc => hwrite hsub (hcells c hc)) hpair (ih hsub)

/-- A typed program gives only to rings that its process produces for. -/
theorem Typed.producer {p : List (Instr α ν ρ τ)} (h : Typed d i held pending p) {r : ρ} {ts : List τ}
    (hmem : .release r ts ∈ p) : d.producer r = i := by
  induction h with
  | nil => cases hmem
  | compute _ _ _ _ _ _ ih => exact ih (List.mem_of_ne_of_mem (by simp) hmem)
  | copy _ _ _ ih => exact ih (List.mem_of_ne_of_mem (by simp) hmem)
  | settle _ ih => exact ih (List.mem_of_ne_of_mem (by simp) hmem)
  | acquire _ _ ih => exact ih (List.mem_of_ne_of_mem (by simp) hmem)
  | release hprod _ _ _ ih =>
    rcases List.mem_cons.mp hmem with heq | hmem
    · cases heq
      exact hprod
    · exact ih hmem

/-- And asks only of rings that its process consumes. -/
theorem Typed.consumer {p : List (Instr α ν ρ τ)} (h : Typed d i held pending p) {r : ρ} {ts : List τ}
    (hmem : .acquire r ts ∈ p) : d.consumer r = i := by
  induction h with
  | nil => cases hmem
  | compute _ _ _ _ _ _ ih => exact ih (List.mem_of_ne_of_mem (by simp) hmem)
  | copy _ _ _ ih => exact ih (List.mem_of_ne_of_mem (by simp) hmem)
  | settle _ ih => exact ih (List.mem_of_ne_of_mem (by simp) hmem)
  | release _ _ _ _ ih => exact ih (List.mem_of_ne_of_mem (by simp) hmem)
  | acquire hcons _ ih =>
    rcases List.mem_cons.mp hmem with heq | hmem
    · cases heq
      exact hcons
    · exact ih hmem

/-- Transfers that keep out of each other's way, issued one after the other. -/
theorem Typed.copies {ops : List (Op α)} {rest : List (Instr α ν ρ τ)} (h : UnderWay d held (pending ++ ops))
    (hrest : Typed d i held (pending ++ ops) rest) : Typed d i held pending (ops.map .copy ++ rest) := by
  induction ops generalizing pending with
  | nil => rwa [List.append_nil] at hrest
  | cons op ops ih =>
    have hsplit : pending ++ op :: ops = (pending ++ [op]) ++ ops := by rw [List.append_assoc]; rfl
    have hop : op ∈ pending ++ op :: ops := List.mem_append_right _ List.mem_cons_self
    have hapart : ∀ op' ∈ pending, op'.dst ≠ op.dst ∧ op'.dst ≠ op.src ∧ op'.src ≠ op.dst := fun op' hop' =>
      (List.pairwise_append.mp h.apart).2.2 op' hop' op List.mem_cons_self
    refine .copy ⟨(h.within op hop).1, fun op' hop' => (hapart op' hop').2.1⟩
      ⟨(h.within op hop).2, fun op' hop' => ⟨(hapart op' hop').2.2, (hapart op' hop').1⟩⟩ ?_
    rw [hsplit] at h hrest
    exact ih h hrest

/-- Such transfers of one kind, settled. -/
theorem Typed.phase {ops : List (Op α)} {rest : List (Instr α ν ρ τ)} {kind : Kind} (hkind : ∀ op ∈ ops, op.kind = kind)
    (h : UnderWay d held ops) (hrest : Typed d i held [] rest) :
    Typed d i held [] (ops.map .copy ++ .settle kind :: rest) := by
  refine .copies (by rwa [List.nil_append]) (.settle ?_)
  have hnone : (([] : List (Op α)) ++ ops).filter (fun op => op.kind ≠ kind) = [] :=
    List.filter_eq_nil_iff.mpr fun op hop => by simpa using hkind op hop
  rwa [hnone]

/-- A program is typed from more cells. -/
theorem Typed.weaken {rest : List (Instr α ν ρ τ)} (h : Typed d i held pending rest) {held' : Set α}
    (hsub : held ⊆ held') :
    Typed d i held' pending rest := by
  have hread : ∀ {held held' : Set α} {pending : List (Op α)} {c : α}, held ⊆ held' → Readable d held pending c →
      Readable d held' pending c := fun hsub h => ⟨h.1.imp_left (hsub ·), h.2⟩
  have hwrite : ∀ {held held' : Set α} {pending : List (Op α)} {c : α}, held ⊆ held' → Writable held pending c →
      Writable held' pending c := fun hsub h => ⟨hsub h.1, h.2⟩
  induction h generalizing held' with
  | nil => exact .nil
  | compute R W hfoot hR hW _ ih =>
    exact .compute R W hfoot (fun c hc => hread hsub (hR c hc)) (fun c hc => hwrite hsub (hW c hc)) (ih hsub)
  | copy hsrc hdst _ ih => exact .copy (hread hsub hsrc) (hwrite hsub hdst) (ih hsub)
  | settle _ ih => exact .settle (ih hsub)
  | acquire hcons _ ih => exact .acquire hcons (ih (Set.union_subset_union_left _ hsub))
  | release hprod hcells hpair _ ih =>
    exact .release hprod (fun c hc => hwrite hsub (hcells c hc)) hpair (ih (Set.sdiff_subset_sdiff_left hsub))

/-- Transfers to different cells, which read what none of them writes, keep out of each other's way. -/
theorem UnderWay.of_nodup {ops : List (Op α)}
    (hwithin : ∀ op ∈ ops, (op.src ∈ held ∨ op.src ∈ d.constant) ∧ op.dst ∈ held) (hnodup : (ops.map Op.dst).Nodup)
    (hsep : ∀ op ∈ ops, ∀ op' ∈ ops, op.src ≠ op'.dst) : UnderWay d held ops where
  within := hwithin
  apart := (List.pairwise_map.mp hnodup).imp_of_mem fun hop hop' hne =>
    ⟨hne, Ne.symm (hsep _ hop' _ hop), hsep _ hop _ hop'⟩

/-- Transfers of one kind issued and settled, over transfers of other kinds under way. -/
theorem Typed.settled {ops : List (Op α)} {rest : List (Instr α ν ρ τ)} {kind : Kind}
    (hkind : ∀ op ∈ ops, op.kind = kind) (hpending : ∀ op ∈ pending, op.kind ≠ kind)
      (h : UnderWay d held (pending ++ ops))
    (hrest : Typed d i held pending rest) : Typed d i held pending (ops.map .copy ++ .settle kind :: rest) := by
  refine .copies h (.settle ?_)
  have hnone : ops.filter (fun op => op.kind ≠ kind) = [] :=
    List.filter_eq_nil_iff.mpr fun op hop => by simpa using hkind op hop
  have hall : pending.filter (fun op => op.kind ≠ kind) = pending :=
    List.filter_eq_self.mpr fun op hop => by simpa using hpending op hop
  rwa [List.filter_append, hnone, hall, List.append_nil]

/-- A process that only issues what it may, and settles all of one kind at once. -/
theorem Typed.drained {rest : List (Instr α ν ρ τ)} {kind : Kind} (hkind : ∀ op ∈ pending, op.kind = kind)
    (hrest : Typed d i held [] rest) : Typed d i held pending (.settle kind :: rest) := by
  have hnone : pending.filter (fun op => op.kind ≠ kind) = [] :=
    List.filter_eq_nil_iff.mpr fun op hop => by simpa using hkind op hop
  exact .settle (by rwa [hnone])

/-- What an instruction asks of its rings and gives to them. -/
def Instr.holds (d : Discipline ι α ρ τ) (x : Instr α ν ρ τ) (held : Set α) : Set α :=
  match x with
  | .acquire _ ts => held ∪ d.cellsOf ts
  | .release _ ts => held \ d.cellsOf ts
  | _ => held

end

/-! ## What a process does next -/

section

variable [DecidableEq α] {d : Discipline ι α ρ τ} {held : Set α} {pending : List (Op α)} {i : ι}
  {p p' : Proc α ν ρ τ} {x : Instr α ν ρ τ}

theorem Op.footprint (op : Op α) : Footprint (op.apply (ν := ν)) {op.src} {op.dst} := by
  refine ⟨fun m c hc => Function.update_of_ne hc _ _, fun m m' h c hc => ?_⟩
  obtain rfl : c = op.dst := hc
  simp only [Op.apply, Function.update_self]
  exact h op.src rfl

/-- What transfers do one after the other, as one computation. -/
def moved (ops : List (Op α)) (m : α → ν) : α → ν := ops.foldl (fun m op => op.apply m) m

/-- It reads their sources and writes their targets. -/
theorem moved_footprint (ops : List (Op α)) :
    Footprint (moved (ν := ν) ops) {c | ∃ op ∈ ops, op.src = c} {c | ∃ op ∈ ops, op.dst = c} := by
  constructor
  · intro m c hc
    induction ops generalizing m with
    | nil => rfl
    | cons op ops ih =>
      have hne : c ≠ op.dst := fun heq => hc ⟨op, List.mem_cons_self, heq.symm⟩
      exact (ih _ fun ⟨op', hop', heq⟩ => hc ⟨op', List.mem_cons_of_mem _ hop', heq⟩).trans
        (Function.update_of_ne hne _ _)
  · -- the cells on which two memories agree grow by what is written
    have hgrow : ∀ (ops : List (Op α)) (A : Set α) (m m' : α → ν), (∀ op ∈ ops, op.src ∈ A) → (∀ c ∈ A, m c = m' c) →
        ∀ c, (c ∈ A ∨ ∃ op ∈ ops, op.dst = c) → moved ops m c = moved ops m' c := by
      intro ops
      induction ops with
      | nil => exact fun A m m' _ h c hc => h c (hc.resolve_right (by simp))
      | cons op ops ih =>
        intro A m m' hsrc h c hc
        refine ih (insert op.dst A) (op.apply m) (op.apply m') (fun op' hop' => Set.mem_insert_of_mem _
          (hsrc op' (List.mem_cons_of_mem _ hop'))) (fun c' hc' => ?_) c ?_
        · by_cases hdst : c' = op.dst
          · subst hdst
            simp only [Op.apply, Function.update_self]
            exact h _ (hsrc op List.mem_cons_self)
          · simp only [Op.apply, Function.update_of_ne hdst]
            exact h c' (hc'.resolve_left hdst)
        · rcases hc with hc | ⟨op', hop', heq⟩
          · exact Or.inl (Set.mem_insert_of_mem _ hc)
          · rcases List.mem_cons.mp hop' with rfl | hop'
            · exact Or.inl (heq ▸ Set.mem_insert _ _)
            · exact Or.inr ⟨op', hop', heq⟩
    exact fun m m' h c hc => hgrow ops {c | ∃ op ∈ ops, op.src = c} m m' (fun op hop => ⟨op, hop, rfl⟩) h c (Or.inr hc)

/-- Transfers made as one computation are typed when their sources may be read and their targets written. -/
theorem Typed.moves {ops : List (Op α)} {rest : List (Instr α ν ρ τ)}
    (hsrc : ∀ op ∈ ops, Readable d held pending op.src)
    (hdst : ∀ op ∈ ops, Writable held pending op.dst) (hrest : Typed d i held pending rest) :
    Typed d i held pending (.compute (moved ops) :: rest) :=
  .compute _ _ (moved_footprint ops) (by rintro c ⟨op, hop, rfl⟩; exact hsrc op hop)
    (by rintro c ⟨op, hop, rfl⟩; exact hdst op hop) hrest

/-- One value in several cells. -/
def filled (cells : List α) (v : ν) (m : α → ν) : α → ν := cells.foldl (fun m c => Function.update m c v) m

/-- The cells have it, and the others are as they were. -/
theorem filled_apply (cells : List α) (v : ν) (m : α → ν) (c : α) :
    filled cells v m c = if c ∈ cells then v else m c := by
  induction cells generalizing m with
  | nil => rfl
  | cons c' cells ih =>
    show filled cells v (Function.update m c' v) c = _
    rw [ih, Function.update_apply]
    by_cases hc : c ∈ cells <;> by_cases hc' : c = c' <;> simp [hc, hc']

theorem filled_footprint (cells : List α) (v : ν) : Footprint (filled cells v) ∅ {c | c ∈ cells} := by
  refine ⟨fun m c hc => ?_, fun m m' _ c hc => ?_⟩
  · have hout : c ∉ cells := hc
    rw [filled_apply, if_neg hout]
  · have hin : c ∈ cells := hc
    rw [filled_apply, filled_apply, if_pos hin, if_pos hin]

/-- Filling cells that may be written is typed. -/
theorem Typed.fills {cells : List α} {v : ν} {rest : List (Instr α ν ρ τ)} (hdst : ∀ c ∈ cells, Writable held pending c)
    (hrest : Typed d i held pending rest) : Typed d i held pending (.compute (filled cells v) :: rest) :=
  .compute _ _ (filled_footprint cells v) (by simp) hdst hrest

/-- The next instruction heads the rest of the program. -/
theorem Proc.next_rest {p p' : Proc α ν ρ τ} {x : Instr α ν ρ τ} (hnext : p.next = some (x, p')) :
    p.rest = x :: p'.rest := by
  obtain ⟨rest, pending⟩ := p
  cases rest with
  | nil => cases hnext
  | cons y rest =>
    cases y with
    | settle =>
      simp only [Proc.next] at hnext
      split at hnext
      · cases hnext; rfl
      · cases hnext
    | compute | copy | acquire | release => cases hnext; rfl

/-- What a typed process does next reads only what it may read, and writes only what it may write. -/
theorem Typed.footprint (h : Typed d i held p.pending p.rest) {p' : Proc α ν ρ τ} (hnext : p.next = some (x, p')) :
    ∃ R W, Footprint x.effect R W ∧ (∀ c ∈ R, Readable d held p.pending c) ∧ ∀ c ∈ W, Writable held p.pending c := by
  obtain ⟨rest, pending⟩ := p
  have hquiet : x.effect = (fun m : α → ν => m) → ∃ R W, Footprint x.effect R W ∧
      (∀ c ∈ R, Readable d held pending c) ∧ ∀ c ∈ W, Writable held pending c :=
    fun he => ⟨∅, ∅, he ▸ .id, by simp, by simp⟩
  cases h with
  | nil => cases hnext
  | compute R W hfoot hR hW _ =>
    cases hnext
    exact ⟨R, W, hfoot, hR, hW⟩
  | copy => cases hnext; exact hquiet rfl
  | settle =>
    simp only [Proc.next] at hnext
    split at hnext
    · cases hnext; exact hquiet rfl
    · cases hnext
  | acquire => cases hnext; exact hquiet rfl
  | release => cases hnext; exact hquiet rfl

/-- A typed process is typed after its next instruction, from what it then holds. -/
theorem Typed.next {i : ι} {held : Set α} {p p' : Proc α ν ρ τ} {x : Instr α ν ρ τ}
    (h : Typed d i held p.pending p.rest) (hnext : p.next = some (x, p')) :
    Typed d i (x.holds d held) p'.pending p'.rest := by
  obtain ⟨rest, pending⟩ := p
  cases h with
  | nil => cases hnext
  | compute _ _ _ _ _ hrest => cases hnext; exact hrest
  | copy _ _ hrest => cases hnext; exact hrest
  | acquire _ hrest => cases hnext; exact hrest
  | release _ _ _ hrest => cases hnext; exact hrest
  | settle hrest =>
    simp only [Proc.next] at hnext
    split at hnext
    · rename_i hsettled
      cases hnext
      rwa [List.filter_eq_self.mpr (fun op hop => by simpa using hsettled op hop)] at hrest
    · cases hnext

/-- The transfers under way are within what the process then holds. -/
theorem UnderWay.next {i : ι} {held : Set α} {p p' : Proc α ν ρ τ} {x : Instr α ν ρ τ}
    (h : UnderWay d held p.pending) (ht : Typed d i held p.pending p.rest) (hnext : p.next = some (x, p')) :
    UnderWay d (x.holds d held) p'.pending := by
  obtain ⟨rest, pending⟩ := p
  cases ht with
  | nil => cases hnext
  | compute => cases hnext; exact h
  | settle =>
    simp only [Proc.next] at hnext
    split at hnext
    · cases hnext; exact h
    · cases hnext
  | acquire =>
    cases hnext
    exact ⟨fun op hop => ⟨(h.within op hop).1.imp_left (Or.inl ·), Or.inl (h.within op hop).2⟩, h.apart⟩
  | release _ hcells =>
    cases hnext
    refine ⟨fun op hop => ⟨(h.within op hop).1.imp_left fun hsrc => ⟨hsrc, fun hc => ?_⟩,
      (h.within op hop).2, fun hc => ?_⟩, h.apart⟩
    · exact ((hcells _ hc).2 op hop).1 rfl
    · exact ((hcells _ hc).2 op hop).2 rfl
  | @copy _ _ _ op hsrc hdst =>
    cases hnext
    refine ⟨fun op' hop' => ?_,
      List.pairwise_append.mpr ⟨h.apart, List.pairwise_singleton _ _, fun op' hop' op'' hop'' => ?_⟩⟩
    · rcases List.mem_append.mp hop' with hop' | hop'
      · exact h.within op' hop'
      · obtain rfl := List.mem_singleton.mp hop'
        exact ⟨hsrc.1, hdst.1⟩
    · obtain rfl := List.mem_singleton.mp hop''
      exact ⟨(hdst.2 op' hop').2, hsrc.2 op' hop', (hdst.2 op' hop').1⟩

/-- A typed program that asks of a ring is the ring's consumer. -/
theorem Typed.consumes {i : ι} {held : Set α} {p p' : Proc α ν ρ τ} {r : ρ} {ts : List τ}
    (h : Typed d i held p.pending p.rest) (hnext : p.next = some (.acquire r ts, p')) : d.consumer r = i := by
  rw [Proc.next_rest hnext] at h
  cases h with
  | acquire hconsumer _ => exact hconsumer

/-- A typed program that gives to a ring is the ring's producer. -/
theorem Typed.produces {i : ι} {held : Set α} {p p' : Proc α ν ρ τ} {r : ρ} {ts : List τ}
    (h : Typed d i held p.pending p.rest) (hnext : p.next = some (.release r ts, p')) : d.producer r = i := by
  rw [Proc.next_rest hnext] at h
  cases h with
  | release hproducer _ _ _ => exact hproducer

/-- A process goes on alike after one of its transfers happened. -/
theorem Proc.next_performed {p p' p'' : Proc α ν ρ τ} {op : Op α} (hnext : p.next = some (x, p'))
    (hperformed : p.performed op = some p'') : ∃ q, p''.next = some (x, q) ∧ p'.performed op = some q := by
  obtain ⟨rest, pending⟩ := p
  unfold performed at hperformed
  split at hperformed
  swap
  · cases hperformed
  rename_i hop
  cases hperformed
  have hgo : ∀ rest', ∃ q, (some (x, ⟨rest', pending.erase op⟩) : Option (Instr α ν ρ τ × Proc α ν ρ τ)) = some (x, q) ∧
      (⟨rest', pending⟩ : Proc α ν ρ τ).performed op = some q :=
    fun rest' => ⟨_, rfl, if_pos hop⟩
  cases rest with
  | nil => cases hnext
  | cons y rest =>
    cases y with
    | copy op' =>
      cases hnext
      refine ⟨_, rfl, ?_⟩
      simp only [performed]
      rw [if_pos (List.mem_append_left _ hop), List.erase_append_left _ hop]
    | settle kind =>
      simp only [next] at hnext ⊢
      split at hnext
      · rename_i hsettled
        cases hnext
        rw [if_pos fun op' hop' => hsettled op' (List.mem_of_mem_erase hop')]
        exact hgo rest
      · cases hnext
    | compute | acquire | release => cases hnext; exact hgo rest

/-- Two transfers of a process happen in either order. -/
theorem Proc.performed_comm {p p' p'' : Proc α ν ρ τ} {op op' : Op α} (hne : op ≠ op')
    (h : p.performed op = some p') (h' : p.performed op' = some p'') :
    ∃ q, p'.performed op' = some q ∧ p''.performed op = some q := by
  unfold performed at h h' ⊢
  split at h
  swap
  · cases h
  split at h'
  swap
  · cases h'
  rename_i hop hop'
  cases h
  cases h'
  refine ⟨_, if_pos ((List.mem_erase_of_ne (Ne.symm hne)).mpr hop'), ?_⟩
  rw [if_pos ((List.mem_erase_of_ne hne).mpr hop), List.erase_comm]

end

/-! ## What it does to the rings -/

section

variable [DecidableEq ρ]

/-- An acquisition and a release commute, on one ring or on two. -/
theorem rings_acquire_release {r r' : ρ} {ts ts' : List τ} {queue : ρ → List τ} (hle : ts.length ≤ (queue r).length) :
    ∃ q'', (Instr.release r' ts' : Instr α ν ρ τ).rings (Function.update queue r ((queue r).drop ts.length)) =
      some q'' ∧
      (Instr.acquire r ts : Instr α ν ρ τ).rings (Function.update queue r' (queue r' ++ ts')) = some q'' := by
  refine ⟨_, rfl, ?_⟩
  simp only [Instr.rings]
  by_cases hr : r = r'
  · subst hr
    rw [Function.update_self, if_pos (by rw [List.length_append]; omega), List.drop_append_of_le_length hle,
      Function.update_self, Function.update_idem, Function.update_idem]
  · rw [Function.update_of_ne hr, Function.update_of_ne (Ne.symm hr), if_pos hle, Function.update_comm hr]

/-- What two instructions do to the rings commutes, unless both ask of one ring or both give to one. -/
theorem Instr.rings_comm {x y : Instr α ν ρ τ} {queue q q' : ρ → List τ} (hx : x.rings queue = some q)
    (hy : y.rings queue = some q') (hasked : ∀ r ts ts', x = .acquire r ts → y = .acquire r ts' → False)
    (hgiven : ∀ r ts ts', x = .release r ts → y = .release r ts' → False) :
    ∃ q'', y.rings q = some q'' ∧ x.rings q' = some q'' := by
  cases x with
  | compute | copy | settle => cases hx; exact ⟨q', hy, rfl⟩
  | acquire r ts =>
    simp only [rings] at hx
    split at hx
    swap
    · cases hx
    rename_i hle
    cases hx
    cases y with
    | compute | copy | settle => cases hy; exact ⟨_, rfl, if_pos hle⟩
    | acquire r' ts' =>
      have hne : r ≠ r' := fun h => hasked r ts ts' rfl (h ▸ rfl)
      simp only [rings] at hy ⊢
      split at hy
      swap
      · cases hy
      rename_i hle'
      cases hy
      refine ⟨_, if_pos (by rw [Function.update_of_ne (Ne.symm hne)]; exact hle'), ?_⟩
      rw [Function.update_of_ne (Ne.symm hne), Function.update_of_ne hne, if_pos hle, Function.update_comm hne]
    | release r' ts' => cases hy; exact rings_acquire_release hle
  | release r ts =>
    cases hx
    cases y with
    | compute | copy | settle => cases hy; exact ⟨_, rfl, rfl⟩
    | acquire r' ts' =>
      simp only [rings] at hy
      split at hy
      swap
      · cases hy
      rename_i hle
      cases hy
      have hboth : ∃ q'', (Instr.release r ts : Instr α ν ρ τ).rings _ = some q'' ∧ _ := rings_acquire_release hle
      obtain ⟨q'', hrelease, hacquire⟩ := hboth
      exact ⟨q'', hacquire, hrelease⟩
    | release r' ts' =>
      have hne : r ≠ r' := fun h => hgiven r ts ts' rfl (h ▸ rfl)
      cases hy
      refine ⟨_, rfl, ?_⟩
      simp only [rings]
      rw [Function.update_of_ne (Ne.symm hne), Function.update_of_ne hne, Function.update_comm hne]

theorem given_cons (r : ρ) (x : Instr α ν ρ τ) (rest : List (Instr α ν ρ τ)) :
    given r (x :: rest) = given r [x] ++ given r rest := by
  cases x <;> simp only [given, List.nil_append]
  split_ifs <;> simp

theorem asked_cons (r : ρ) (x : Instr α ν ρ τ) (rest : List (Instr α ν ρ τ)) :
    asked r (x :: rest) = asked r [x] ++ asked r rest := by
  cases x <;> simp only [asked, List.nil_append]
  split_ifs <;> simp

theorem given_append (r : ρ) (p p' : List (Instr α ν ρ τ)) : given r (p ++ p') = given r p ++ given r p' := by
  induction p with
  | nil => rfl
  | cons x p ih => rw [List.cons_append, given_cons, given_cons r x p, ih, List.append_assoc]

theorem asked_append (r : ρ) (p p' : List (Instr α ν ρ τ)) : asked r (p ++ p') = asked r p ++ asked r p' := by
  induction p with
  | nil => rfl
  | cons x p ih => rw [List.cons_append, asked_cons, asked_cons r x p, ih, List.append_assoc]

/-- The rings go from `queue` to `q` over a program whose acquisitions take the tokens that they name. -/
inductive Flows : List (Instr α ν ρ τ) → (ρ → List τ) → (ρ → List τ) → Prop
  | nil {queue : ρ → List τ} : Flows [] queue queue
  | compute {f : (α → ν) → α → ν} {p : List (Instr α ν ρ τ)} {queue q : ρ → List τ} :
      Flows p queue q → Flows (.compute f :: p) queue q
  | copy {op : Op α} {p : List (Instr α ν ρ τ)} {queue q : ρ → List τ} : Flows p queue q → Flows (.copy op :: p) queue q
  | settle {kind : Kind} {p : List (Instr α ν ρ τ)} {queue q : ρ → List τ} :
      Flows p queue q → Flows (.settle kind :: p) queue q
  | acquire {r : ρ} {ts rest : List τ} {p : List (Instr α ν ρ τ)} {queue q : ρ → List τ} : queue r = ts ++ rest →
      Flows p (Function.update queue r rest) q → Flows (.acquire r ts :: p) queue q
  | release {r : ρ} {ts : List τ} {p : List (Instr α ν ρ τ)} {queue q : ρ → List τ} :
      Flows p (Function.update queue r (queue r ++ ts)) q → Flows (.release r ts :: p) queue q

section

variable {p p' : List (Instr α ν ρ τ)} {queue queue' q : ρ → List τ}

theorem Flows.append (h : Flows p queue queue') (h' : Flows p' queue' q) : Flows (p ++ p') queue q := by
  induction h with
  | nil => exact h'
  | compute _ ih => exact .compute (ih h')
  | copy _ ih => exact .copy (ih h')
  | settle _ ih => exact .settle (ih h')
  | acquire heq _ ih => exact .acquire heq (ih h')
  | release _ ih => exact .release (ih h')

/-- What is in a ring and is given to it is what is asked of it and left in it. -/
theorem Flows.balance (h : Flows p queue q) (r : ρ) : queue r ++ given r p = asked r p ++ q r := by
  induction h with
  | nil => simp [given, asked]
  | compute _ ih => exact ih
  | copy _ ih => exact ih
  | settle _ ih => exact ih
  | @acquire r' ts rest p queue q heq _ ih =>
    show queue r ++ given r p = (if r' = r then ts ++ asked r p else asked r p) ++ q r
    split_ifs with hr
    · subst hr
      rw [Function.update_self] at ih
      rw [heq, List.append_assoc, ih, List.append_assoc]
    · rwa [Function.update_of_ne (Ne.symm hr)] at ih
  | @release r' ts p queue q _ ih =>
    show queue r ++ (if r' = r then ts ++ given r p else given r p) = asked r p ++ q r
    split_ifs with hr
    · subst hr
      rwa [Function.update_self, List.append_assoc] at ih
    · rwa [Function.update_of_ne (Ne.symm hr)] at ih

/-- Transfers leave the rings alone. -/
theorem Flows.copies (ops : List (Op α)) (h : Flows p queue q) : Flows (ops.map .copy ++ p) queue q := by
  induction ops with
  | nil => exact h
  | cons op ops ih => exact .copy ih

end

end

/-! ## The discipline is kept -/

section

variable [DecidableEq ι]

/-- Two families that change at one process, in a property of all. -/
theorem update_all {β γ : Type} {P : ι → β → γ → Prop} {f : ι → β} {g : ι → γ} {i : ι} {b : β} {c : γ}
    (h : ∀ j, j ≠ i → P j (f j) (g j)) (hi : P i b c) (j : ι) :
    P j (Function.update f i b j) (Function.update g i c j) := by
  by_cases hj : j = i
  · subst hj
    rw [Function.update_self, Function.update_self]
    exact hi
  · rw [Function.update_of_ne hj, Function.update_of_ne hj]
    exact h j hj

/-- Sets that are apart, one of them changed. -/
theorem apart_update {held : ι → Set α} (h : ∀ i j, i ≠ j → Disjoint (held i) (held j)) {i : ι} {s : Set α}
    (hs : ∀ j, j ≠ i → Disjoint s (held j)) (j k : ι) (hjk : j ≠ k) :
    Disjoint (Function.update held i s j) (Function.update held i s k) := by
  by_cases hj : j = i
  · subst hj
    rw [Function.update_self, Function.update_of_ne (Ne.symm hjk)]
    exact hs k (Ne.symm hjk)
  · rw [Function.update_of_ne hj]
    by_cases hk : k = i
    · subst hk
      rw [Function.update_self]
      exact (hs j hj).symm
    · rw [Function.update_of_ne hk]
      exact h j k hjk

end

section

variable [DecidableEq ι] [DecidableEq α] {c : Control ι α ν ρ τ}

/-- What the others are asked and give is as it was; the process itself is asked and gives what is left. -/
theorem rest_next {i : ι} {x : Instr α ν ρ τ} {p : Proc α ν ρ τ} (hnext : (c.proc i).next = some (x, p)) (j : ι) :
    (c.proc j).rest = (if j = i then [x] else []) ++ (Function.update c.proc i p j).rest := by
  by_cases hj : j = i
  · subst hj
    rw [if_pos rfl, Function.update_self]
    exact Proc.next_rest hnext
  · rw [if_neg hj, Function.update_of_ne hj]
    rfl

end

section

variable [DecidableEq ρ] {d : Discipline ι α ρ τ} {left : ρ → List τ} {held : ι → Set α} {c : Control ι α ν ρ τ}

/-- A token in a ring, and what a process holds, are apart. -/
theorem Owned.cellsOf_apart (h : Owned d left held c) {r : ρ} {ts : List τ} (hts : ∀ t ∈ ts, t ∈ c.queue r) :
    Disjoint (d.cellsOf ts) d.constant ∧ ∀ i, Disjoint (d.cellsOf ts) (held i) := by
  refine ⟨Set.disjoint_left.mpr ?_, fun i => Set.disjoint_left.mpr ?_⟩
  · rintro a ⟨t, ht, ha⟩
    exact Set.disjoint_left.mp (h.queued r t (hts t ht)).1 ha
  · rintro a ⟨t, ht, ha⟩
    exact Set.disjoint_left.mp ((h.queued r t (hts t ht)).2 i) ha

/-- No transfer under way has the source of another as its target. -/
theorem Owned.target_apart (h : Owned d left held c) {i j : ι} {op op' : Op α} (hop : op ∈ (c.proc i).pending)
    (hop' : op' ∈ (c.proc j).pending) (hne : i = j → op ≠ op') : op'.dst ≠ op.src := by
  by_cases hij : i = j
  · subst hij
    exact ((h.underWay i).apart_of hop hop' (hne rfl)).2.2.symm
  · intro heq
    have hdst := ((h.underWay j).within op' hop').2
    rw [heq] at hdst
    rcases ((h.underWay i).within op hop).1 with hheld | hconst
    · exact Set.disjoint_left.mp (h.apart i j hij) hheld hdst
    · exact Set.disjoint_left.mp (h.constant j) hdst hconst

end

section

variable [DecidableEq ι] [DecidableEq α] [DecidableEq ρ] {d : Discipline ι α ρ τ} {left : ρ → List τ}
  {held : ι → Set α} {c c' : Control ι α ν ρ τ}

/-- The discipline is kept by a transfer. -/
theorem Owned.performed (h : Owned d left held c) {i : ι} {op : Op α} {p : Proc α ν ρ τ}
    (hp : (c.proc i).performed op = some p) : Owned d left held ⟨Function.update c.proc i p, c.queue⟩ := by
  unfold Proc.performed at hp
  split at hp
  swap
  · cases hp
  cases hp
  have hrest : ∀ j, (Function.update c.proc i { c.proc i with pending := (c.proc i).pending.erase op } j).rest =
      (c.proc j).rest := fun j => by
    by_cases hj : j = i
    · subst hj
      rw [Function.update_self]
    · rw [Function.update_of_ne hj]
  have hsame : Function.update held i (held i) = held := Function.update_eq_self i held
  refine ⟨fun j => ?_, fun j => ?_, fun r => ?_, h.apart, h.constant, h.queued, h.within, h.across⟩
  · have := update_all (P := fun j (p : Proc α ν ρ τ) (s : Set α) => Typed d j s p.pending p.rest)
      (b := { c.proc i with pending := (c.proc i).pending.erase op }) (fun j _ => h.typed j)
      ((h.typed i).mono fun op' hop' => List.mem_of_mem_erase hop') j
    rwa [hsame] at this
  · have := update_all (P := fun _ (p : Proc α ν ρ τ) (s : Set α) => UnderWay d s p.pending) (i := i)
      (b := { c.proc i with pending := (c.proc i).pending.erase op }) (fun j _ => h.underWay j)
      ⟨fun op' hop' => (h.underWay i).within op' (List.mem_of_mem_erase hop'),
        (h.underWay i).apart.sublist (List.erase_sublist)⟩ j
    rwa [hsame] at this
  · show c.queue r ++ given r _ = asked r _ ++ left r
    rw [hrest, hrest]
    exact h.balance r

/-- The programs after one process went on are typed, from what each then holds. -/
theorem Owned.typed_next (h : Owned d left held c) {i : ι} {x : Instr α ν ρ τ} {p : Proc α ν ρ τ}
    (hnext : (c.proc i).next = some (x, p)) :
    (∀ j, Typed d j (Function.update held i (x.holds d (held i)) j) (Function.update c.proc i p j).pending
      (Function.update c.proc i p j).rest) ∧
    ∀ j, UnderWay d (Function.update held i (x.holds d (held i)) j) (Function.update c.proc i p j).pending :=
  ⟨update_all (P := fun j (p : Proc α ν ρ τ) (s : Set α) => Typed d j s p.pending p.rest) (fun j _ => h.typed j)
      ((h.typed i).next hnext),
    update_all (P := fun _ (p : Proc α ν ρ τ) (s : Set α) => UnderWay d s p.pending) (fun j _ => h.underWay j)
      ((h.underWay i).next (h.typed i) hnext)⟩

/-- The discipline is kept by an instruction that leaves the rings alone. -/
theorem Owned.quiet (h : Owned d left held c) {i : ι} {x : Instr α ν ρ τ} {p : Proc α ν ρ τ}
    (hnext : (c.proc i).next = some (x, p)) (hholds : x.holds d (held i) = held i) (hgiven : ∀ r, given r [x] = [])
    (hasked : ∀ r, asked r [x] = []) : Owned d left held ⟨Function.update c.proc i p, c.queue⟩ := by
  obtain ⟨htyped, hway⟩ := h.typed_next hnext
  rw [hholds, Function.update_eq_self] at htyped hway
  refine ⟨htyped, hway, fun r => ?_, h.apart, h.constant, h.queued, h.within, h.across⟩
  have hbalance := h.balance r
  rw [rest_next hnext (d.producer r), rest_next hnext (d.consumer r)] at hbalance
  have hg : ∀ rest : List (Instr α ν ρ τ), given r (x :: rest) =
    given r rest := fun rest => by rw [given_cons, hgiven]; rfl
  have ha : ∀ rest : List (Instr α ν ρ τ), asked r (x :: rest) =
    asked r rest := fun rest => by rw [asked_cons, hasked]; rfl
  show c.queue r ++ given r _ = asked r _ ++ left r
  split_ifs at hbalance <;> simpa only [List.singleton_append, List.nil_append, hg, ha] using hbalance

/-- The discipline is kept by an acquisition, which takes the tokens it asks for. -/
theorem Owned.acquired (h : Owned d left held c) {i : ι} {r : ρ} {ts : List τ} {p : Proc α ν ρ τ}
    (hnext : (c.proc i).next = some (.acquire r ts, p)) (hconsumer : d.consumer r = i)
    (hle : ts.length ≤ (c.queue r).length) :
    Owned d left (Function.update held i (held i ∪ d.cellsOf ts))
      ⟨Function.update c.proc i p, Function.update c.queue r ((c.queue r).drop ts.length)⟩ := by
  obtain ⟨htyped, hway⟩ := h.typed_next hnext
  have hg : ∀ r' (rest : List (Instr α ν ρ τ)), given r' (.acquire r ts :: rest) = given r' rest := fun _ _ => rfl
  have hbalance : ∀ r', c.queue r' ++ given r' (Function.update c.proc i p (d.producer r')).rest =
      asked r' (c.proc (d.consumer r')).rest ++ left r' := fun r' => by
    rw [← h.balance r', rest_next hnext (d.producer r')]
    split_ifs <;> rfl
  have hown := hbalance r
  rw [hconsumer, Proc.next_rest hnext] at hown
  simp only [asked, if_true, List.append_assoc] at hown
  -- the ring's first tokens are those that are asked for
  have htake : (c.queue r).take ts.length = ts := by
    have := congrArg (List.take ts.length) hown
    rwa [List.take_append_of_le_length hle, List.take_left] at this
  have hmem : ∀ t ∈ ts, t ∈ c.queue r := fun t ht => List.mem_of_mem_take (htake ▸ ht)
  obtain ⟨hconst, hheld⟩ := h.cellsOf_apart hmem
  have hdrop : ∀ t ∈ (c.queue r).drop ts.length, Disjoint (d.cells t) (d.cellsOf ts) := fun t ht => by
    have hw := h.within r
    rw [← List.take_append_drop ts.length (c.queue r), htake] at hw
    refine Set.disjoint_left.mpr ?_
    rintro a ha ⟨t', ht', ha'⟩
    exact Set.disjoint_left.mp ((List.pairwise_append.mp hw).2.2 t' ht' t ht) ha' ha
  have hsub : ∀ r', ∀ t ∈ Function.update c.queue r ((c.queue r).drop ts.length) r', t ∈ c.queue r' := fun r' t ht => by
    by_cases hr : r' = r
    · subst hr
      rw [Function.update_self] at ht
      exact List.mem_of_mem_drop ht
    · rwa [Function.update_of_ne hr] at ht
  refine ⟨htyped, hway, fun r' => ?_, apart_update h.apart fun j hj => ?_, fun j => ?_, fun r' t ht => ?_, fun r' => ?_,
    fun r₁ r₂ hr t ht t' ht' => h.across r₁ r₂ hr t (hsub r₁ t ht) t' (hsub r₂ t' ht')⟩
  · -- what is asked of this ring, and of no other, is what went
    by_cases hr : r' = r
    · subst hr
      have := congrArg (List.drop ts.length) hown
      rw [List.drop_append_of_le_length hle, List.drop_left] at this
      simpa only [Function.update_self, hconsumer] using this
    · have := hbalance r'
      rw [rest_next hnext (d.consumer r')] at this
      have ha : ∀ rest : List (Instr α ν ρ τ), asked r' (.acquire r ts :: rest) = asked r' rest :=
        fun rest => if_neg (Ne.symm hr)
      simp only [Function.update_of_ne hr]
      split_ifs at this <;> simpa only [List.singleton_append, List.nil_append, ha] using this
  · exact Set.disjoint_union_left.mpr ⟨h.apart i j (Ne.symm hj), hheld j⟩
  · by_cases hj : j = i
    · subst hj
      rw [Function.update_self]
      exact Set.disjoint_union_left.mpr ⟨h.constant j, hconst⟩
    · rw [Function.update_of_ne hj]
      exact h.constant j
  · refine ⟨(h.queued r' t (hsub r' t ht)).1, fun j => ?_⟩
    by_cases hj : j = i
    · subst hj
      rw [Function.update_self]
      refine Set.disjoint_union_right.mpr ⟨(h.queued r' t (hsub r' t ht)).2 j, ?_⟩
      by_cases hr : r' = r
      · subst hr
        simp only [Function.update_self] at ht
        exact hdrop t ht
      · refine Set.disjoint_left.mpr ?_
        rintro a ha ⟨t', ht', ha'⟩
        exact Set.disjoint_left.mp (h.across r' r hr t (hsub r' t ht) t' (hmem t' ht')) ha ha'
    · rw [Function.update_of_ne hj]
      exact (h.queued r' t (hsub r' t ht)).2 j
  · by_cases hr : r' = r
    · subst hr
      simp only [Function.update_self]
      exact (h.within r').sublist (List.drop_sublist _ _)
    · simp only [Function.update_of_ne hr]
      exact h.within r'

/-- The discipline is kept by a release, which gives the cells of its tokens away. -/
theorem Owned.released (h : Owned d left held c) {i : ι} {r : ρ} {ts : List τ} {p : Proc α ν ρ τ}
    (hnext : (c.proc i).next = some (.release r ts, p)) (hproducer : d.producer r = i)
    (hcells : d.cellsOf ts ⊆ held i) (hpair : ts.Pairwise fun t t' => Disjoint (d.cells t) (d.cells t')) :
    Owned d left (Function.update held i (held i \ d.cellsOf ts))
      ⟨Function.update c.proc i p, Function.update c.queue r (c.queue r ++ ts)⟩ := by
  obtain ⟨htyped, hway⟩ := h.typed_next hnext
  have hsub : ∀ t ∈ ts, d.cells t ⊆ held i := fun t ht a ha => hcells ⟨t, ht, ha⟩
  have hless : ∀ j, Function.update held i (held i \ d.cellsOf ts) j ⊆ held j := fun j => by
    by_cases hj : j = i
    · subst hj
      rw [Function.update_self]
      exact Set.sdiff_subset
    · rw [Function.update_of_ne hj]
  have hmem : ∀ r', ∀ t ∈ Function.update c.queue r (c.queue r ++ ts) r', t ∈ c.queue r' ∨ r' = r ∧ t ∈ ts :=
    fun r' t ht => by
      by_cases hr : r' = r
      · subst hr
        rw [Function.update_self] at ht
        exact (List.mem_append.mp ht).imp_right fun ht => ⟨rfl, ht⟩
      · rw [Function.update_of_ne hr] at ht
        exact Or.inl ht
  refine ⟨htyped, hway, fun r' => ?_, fun j k hjk => (h.apart j k hjk).mono (hless j) (hless k),
    fun j => (h.constant j).mono_left (hless j), fun r' t ht => ?_, fun r' => ?_, fun r₁ r₂ hr t ht t' ht' => ?_⟩
  · have := h.balance r'
    rw [rest_next hnext (d.producer r'), rest_next hnext (d.consumer r')] at this
    have ha : ∀ rest : List (Instr α ν ρ τ), asked r' (.release r ts :: rest) = asked r' rest := fun _ => rfl
    by_cases hr : r' = r
    · subst hr
      have hg : ∀ rest : List (Instr α ν ρ τ), given r' (.release r' ts :: rest) = ts ++ given r' rest :=
        fun _ => if_pos rfl
      rw [if_pos hproducer, List.singleton_append, hg] at this
      simp only [Function.update_self, List.append_assoc]
      split_ifs at this <;> simpa only [List.singleton_append, List.nil_append, ha] using this
    · have hg : ∀ rest : List (Instr α ν ρ τ), given r' (.release r ts :: rest) = given r' rest :=
        fun _ => if_neg (Ne.symm hr)
      simp only [Function.update_of_ne hr]
      split_ifs at this <;> simpa only [List.singleton_append, List.nil_append, ha, hg] using this
  · rcases hmem r' t ht with hq | ⟨-, hts⟩
    · exact ⟨(h.queued r' t hq).1, fun j => ((h.queued r' t hq).2 j).mono_right (hless j)⟩
    · refine ⟨(h.constant i).mono_left (hsub t hts), fun j => ?_⟩
      by_cases hj : j = i
      · subst hj
        rw [Function.update_self]
        exact Set.disjoint_left.mpr fun a ha hd => hd.2 ⟨t, hts, ha⟩
      · rw [Function.update_of_ne hj]
        exact (h.apart i j (Ne.symm hj)).mono_left (hsub t hts)
  · by_cases hr : r' = r
    · subst hr
      simp only [Function.update_self]
      exact List.pairwise_append.mpr ⟨h.within r', hpair,
        fun t ht t' ht' => ((h.queued r' t ht).2 i).mono_right (hsub t' ht')⟩
    · simp only [Function.update_of_ne hr]
      exact h.within r'
  · rcases hmem r₁ t ht with ht | ⟨hr₁, ht⟩
    · rcases hmem r₂ t' ht' with ht' | ⟨-, ht'⟩
      · exact h.across r₁ r₂ hr t ht t' ht'
      · exact ((h.queued r₁ t ht).2 i).mono_right (hsub t' ht')
    · rcases hmem r₂ t' ht' with ht' | ⟨hr₂, -⟩
      · exact (((h.queued r₂ t' ht').2 i).mono_right (hsub t ht)).symm
      · exact absurd (hr₁.trans hr₂.symm) hr

/-- **The discipline is kept by every step**, from some holdings to some others. -/
theorem Owned.step (h : Owned d left held c) {a : Act ι α} (hstep : c.step a = some c') :
    ∃ held', Owned d left held' c' := by
  cases a with
  | perform i op =>
    obtain ⟨p, hp, rfl⟩ := Option.map_eq_some_iff.mp hstep
    exact ⟨held, h.performed hp⟩
  | exec i =>
    obtain ⟨⟨x, p⟩, hnext, hrings⟩ := Option.bind_eq_some_iff.mp hstep
    obtain ⟨queue, hqueue, rfl⟩ := Option.map_eq_some_iff.mp hrings
    have hrest := Proc.next_rest hnext
    have htyped := h.typed i
    cases x with
    | compute f => cases hqueue; exact ⟨held, h.quiet hnext rfl (fun _ => rfl) fun _ => rfl⟩
    | copy op => cases hqueue; exact ⟨held, h.quiet hnext rfl (fun _ => rfl) fun _ => rfl⟩
    | settle kind => cases hqueue; exact ⟨held, h.quiet hnext rfl (fun _ => rfl) fun _ => rfl⟩
    | acquire r ts =>
      rw [hrest] at htyped
      simp only [Instr.rings] at hqueue
      split at hqueue
      swap
      · cases hqueue
      rename_i hle
      cases hqueue
      cases htyped with
      | acquire hconsumer _ => exact ⟨_, h.acquired hnext hconsumer hle⟩
    | release r ts =>
      rw [hrest] at htyped
      cases hqueue
      cases htyped with
      | release hproducer hcells hpair _ => exact ⟨_, h.released hnext hproducer (fun a ha => (hcells a ha).1) hpair⟩

/-! ## Steps that commute -/

/-- The process that acts. -/
def Act.actor : Act ι α → ι
  | .exec i => i
  | .perform i _ => i

/-- What going on does. -/
theorem Control.step_exec {i : ι} (h : c.step (.exec i) = some c') : ∃ x p queue, (c.proc i).next = some (x, p) ∧
    x.rings c.queue = some queue ∧ c' = ⟨Function.update c.proc i p, queue⟩ := by
  obtain ⟨⟨x, p⟩, hnext, hrings⟩ := Option.bind_eq_some_iff.mp h
  obtain ⟨queue, hqueue, rfl⟩ := Option.map_eq_some_iff.mp hrings
  exact ⟨x, p, queue, hnext, hqueue, rfl⟩

/-- What a transfer does to its process. -/
theorem Control.step_perform {i : ι} {op : Op α} (h : c.step (.perform i op) = some c') :
    ∃ p, (c.proc i).performed op = some p ∧ c' = ⟨Function.update c.proc i p, c.queue⟩ := by
  obtain ⟨p, hp, rfl⟩ := Option.map_eq_some_iff.mp h
  exact ⟨p, hp, rfl⟩

/-- A process that can go on goes on. -/
theorem Control.exec_of {i : ι} {q p : Proc α ν ρ τ} {x : Instr α ν ρ τ} {queue : ρ → List τ} (hq : c.proc i = q)
    (hnext : q.next = some (x, p)) (hrings : x.rings c.queue = some queue) :
    c.step (.exec i) = some ⟨Function.update c.proc i p, queue⟩ := by
  simp only [step, hq, hnext, Option.bind_some, hrings, Option.map_some]

/-- A transfer under way can happen. -/
theorem Control.perform_of {i : ι} {q p : Proc α ν ρ τ} {op : Op α} (hq : c.proc i = q) (hp : q.performed op = some p) :
    c.step (.perform i op) = some ⟨Function.update c.proc i p, c.queue⟩ := by
  simp only [step, hq, hp, Option.map_some]

/-- Two processes go on in either order. -/
theorem Control.exec_exec (h : Owned d left held c) {i j : ι} {ca cb : Control ι α ν ρ τ} (hne : i ≠ j)
    (ha : c.step (.exec i) = some ca) (hb : c.step (.exec j) = some cb) :
    (∃ c', ca.step (.exec j) = some c' ∧ cb.step (.exec i) = some c') ∧ ca.effect (.exec j) = c.effect (.exec j) := by
  obtain ⟨x, p, qx, hx, hqx, rfl⟩ := step_exec ha
  obtain ⟨y, p', qy, hy, hqy, rfl⟩ := step_exec hb
  obtain ⟨q, hqy', hqx'⟩ := Instr.rings_comm hqx hqy
    (fun r ts ts' hrx hry => hne (((h.typed i).consumes (hrx ▸ hx)).symm.trans ((h.typed j).consumes (hry ▸ hy))))
    (fun r ts ts' hrx hry => hne (((h.typed i).produces (hrx ▸ hx)).symm.trans ((h.typed j).produces (hry ▸ hy))))
  have hj : Function.update c.proc i p j = c.proc j := Function.update_of_ne (Ne.symm hne) _ _
  have hi : Function.update c.proc j p' i = c.proc i := Function.update_of_ne hne _ _
  refine ⟨⟨_, exec_of hj hy hqy', (exec_of hi hx hqx').trans ?_⟩, by simp only [effect, hj]⟩
  rw [Function.update_comm hne]

/-- A process goes on before or after a transfer. -/
theorem Control.exec_perform {i j : ι} {op : Op α} {ca cb : Control ι α ν ρ τ} (ha : c.step (.exec i) = some ca)
    (hb : c.step (.perform j op) = some cb) : (∃ c', ca.step (.perform j op) = some c' ∧ cb.step (.exec i) = some c') ∧
      cb.effect (.exec i) = c.effect (.exec i) := by
  obtain ⟨x, p, q, hx, hq, rfl⟩ := step_exec ha
  obtain ⟨p', hp', rfl⟩ := step_perform hb
  by_cases hij : i = j
  · subst hij
    obtain ⟨p'', hx', hp''⟩ := Proc.next_performed hx hp'
    have hp : Function.update c.proc i p i = p := Function.update_self _ _ _
    have hself : Function.update c.proc i p' i = p' := Function.update_self _ _ _
    have hexec := exec_of (c := ⟨Function.update c.proc i p', c.queue⟩) hself hx' hq
    refine ⟨⟨_, perform_of hp hp'', hexec.trans ?_⟩, ?_⟩
    · simp only [Function.update_idem]
    · show ((Function.update c.proc i p' i).next.elim id fun x => x.1.effect) =
      (c.proc i).next.elim id fun x => x.1.effect
      rw [hself, hx', hx]
      rfl
  · have hj : Function.update c.proc i p j = c.proc j := Function.update_of_ne (Ne.symm hij) _ _
    have hi : Function.update c.proc j p' i = c.proc i := Function.update_of_ne hij _ _
    have hexec := exec_of (c := ⟨Function.update c.proc j p', c.queue⟩) hi hx hq
    refine ⟨⟨_, perform_of hj hp', hexec.trans ?_⟩, by simp only [effect, hi]⟩
    simp only [Function.update_comm hij]

/-- Two transfers happen in either order. -/
theorem Control.perform_perform {i j : ι} {op op' : Op α} {ca cb : Control ι α ν ρ τ} (hne : i = j → op ≠ op')
    (ha : c.step (.perform i op) = some ca) (hb : c.step (.perform j op') = some cb) :
    ∃ c', ca.step (.perform j op') = some c' ∧ cb.step (.perform i op) = some c' := by
  obtain ⟨p, hp, rfl⟩ := step_perform ha
  obtain ⟨p', hp', rfl⟩ := step_perform hb
  by_cases hij : i = j
  · subst hij
    obtain ⟨p'', h', h⟩ := Proc.performed_comm (hne rfl) hp hp'
    have hself : ∀ q, Function.update c.proc i q i = q := fun q => Function.update_self _ _ _
    refine ⟨_, perform_of (hself p) h', (perform_of (hself p') h).trans ?_⟩
    rw [Function.update_idem, Function.update_idem]
  · have hj : Function.update c.proc i p j = c.proc j := Function.update_of_ne (Ne.symm hij) _ _
    have hi : Function.update c.proc j p' i = c.proc i := Function.update_of_ne hij _ _
    refine ⟨_, perform_of hj hp', (perform_of hi hp).trans ?_⟩
    rw [Function.update_comm hij]

/-- Two different acts that are possible can follow each other either way, each with the effect it had. -/
theorem Control.step_comm (h : Owned d left held c) {a b : Act ι α} {ca cb : Control ι α ν ρ τ} (hne : a ≠ b)
    (ha : c.step a = some ca) (hb : c.step b = some cb) :
    (∃ c', ca.step b = some c' ∧ cb.step a = some c') ∧ ca.effect b = c.effect b ∧ cb.effect a = c.effect a := by
  cases a with
  | exec i =>
    cases b with
    | exec j =>
      have hij : i ≠ j := fun heq => hne (heq ▸ rfl)
      exact ⟨(exec_exec h hij ha hb).1, (exec_exec h hij ha hb).2, (exec_exec h (Ne.symm hij) hb ha).2⟩
    | perform j op => exact ⟨(exec_perform ha hb).1, rfl, (exec_perform ha hb).2⟩
  | perform i op =>
    cases b with
    | exec j =>
      obtain ⟨⟨c', hb', ha'⟩, heffect⟩ := exec_perform hb ha
      exact ⟨⟨c', ha', hb'⟩, heffect, rfl⟩
    | perform j op' => exact ⟨perform_perform (fun hij hop => hne (hij ▸ hop ▸ rfl)) ha hb, rfl, rfl⟩

/-- A transfer that can happen is under way. -/
theorem Control.pending_of {i : ι} {op : Op α} (h : c.step (.perform i op) = some c') : op ∈ (c.proc i).pending := by
  obtain ⟨p, hp, -⟩ := step_perform h
  unfold Proc.performed at hp
  split at hp
  · assumption
  · cases hp

/-- What an act does reads only what is constant or held by its process, and writes only what its process holds. -/
theorem Owned.footprint (h : Owned d left held c) {a : Act ι α} (ha : c.step a = some c') :
    ∃ R W, Footprint (c.effect a) R W ∧ (∀ x ∈ R, x ∈ held a.actor ∨ x ∈ d.constant) ∧ (∀ x ∈ W, x ∈ held a.actor) ∧
      ∀ op ∈ (c.proc a.actor).pending, a ≠ .perform a.actor op → (∀ x ∈ R, op.dst ≠ x) ∧
        ∀ x ∈ W, op.src ≠ x ∧ op.dst ≠ x := by
  cases a with
  | exec i =>
    obtain ⟨x, p, q, hx, -, -⟩ := Control.step_exec ha
    obtain ⟨R, W, hfoot, hR, hW⟩ := (h.typed i).footprint hx
    refine ⟨R, W, ?_, fun y hy => (hR y hy).1, fun y hy => (hW y hy).1,
      fun op hop _ => ⟨fun y hy => (hR y hy).2 op hop, fun y hy => (hW y hy).2 op hop⟩⟩
    show Footprint ((c.proc i).next.elim _ _) R W
    rw [hx]
    exact hfoot
  | perform i op =>
    have hop : op ∈ (c.proc i).pending := Control.pending_of ha
    refine ⟨{op.src}, {op.dst}, op.footprint, ?_, ?_, fun op' hop' hne => ?_⟩
    · rintro x rfl
      exact ((h.underWay i).within op hop).1
    · rintro x rfl
      exact ((h.underWay i).within op hop).2
    · have hap := (h.underWay i).apart_of hop' hop fun heq => hne (heq ▸ rfl)
      exact ⟨fun x hx => hx ▸ hap.2.1, fun x hx => hx ▸ ⟨hap.2.2, hap.1⟩⟩

/-- What an act does commutes with a transfer of its process that is under way. -/
theorem Owned.effect_op (h : Owned d left held c) {a : Act ι α} (ha : c.step a = some c') {op : Op α}
    (hop : op ∈ (c.proc a.actor).pending) (hne : a ≠ .perform a.actor op) (m : α → ν) :
    c.effect a (op.apply m) = op.apply (c.effect a m) := by
  obtain ⟨R, W, hf, -, -, hpending⟩ := h.footprint ha
  obtain ⟨hR, hW⟩ := hpending op hop hne
  refine hf.comm op.footprint (fun x hx => ⟨fun hx' => (hW x hx).1 ?_, fun hx' => (hW x hx).2 ?_⟩)
    (fun x hx hx' => ?_) m
  · exact (Set.mem_singleton_iff.mp hx').symm
  · exact (Set.mem_singleton_iff.mp hx').symm
  · exact hR x hx' (Set.mem_singleton_iff.mp hx).symm

/-- What two different acts do commutes. -/
theorem Owned.effect_comm (h : Owned d left held c) {a b : Act ι α} {ca cb : Control ι α ν ρ τ} (hne : a ≠ b)
    (ha : c.step a = some ca) (hb : c.step b = some cb) (m : α → ν) :
    c.effect a (c.effect b m) = c.effect b (c.effect a m) := by
  by_cases hact : a.actor = b.actor
  · -- one process: one of the two acts is a transfer, which the other keeps off
    cases b with
    | perform j op =>
      obtain rfl : a.actor = j := hact
      exact h.effect_op ha (Control.pending_of hb) hne m
    | exec j =>
      cases a with
      | exec i => exact absurd (congrArg Act.exec hact) hne
      | perform i op =>
        obtain rfl : i = j := hact
        exact (h.effect_op hb (Control.pending_of ha) (Ne.symm hne) m).symm
  · obtain ⟨R, W, hf, hR, hW, -⟩ := h.footprint ha
    obtain ⟨R', W', hf', hR', hW', -⟩ := h.footprint hb
    have hapart : ∀ x, x ∈ held a.actor → x ∉ held b.actor := fun x hx =>
      Set.disjoint_left.mp (h.apart a.actor b.actor hact) hx
    have hconst : ∀ i x, x ∈ held i → x ∉ d.constant := fun i x hx => Set.disjoint_left.mp (h.constant i) hx
    refine hf.comm hf' (fun x hx => ⟨fun hx' => ?_, fun hx' => hapart x (hW x hx) (hW' x hx')⟩) (fun x hx hx' => ?_) m
    · exact (hR' x hx').elim (hapart x (hW x hx)) (hconst _ x (hW x hx))
    · exact (hR x hx').elim (fun hr => hapart x hr (hW' x hx)) (hconst _ x (hW' x hx))

/-- The programs keep to the discipline, from some holdings on. -/
def Sound (d : Discipline ι α ρ τ) (left : ρ → List τ) (s : State ι α ν ρ τ) :
    Prop := ∃ held, Owned d left held s.control

/-- **Steps of different labels commute.** -/
theorem diamond (d : Discipline ι α ρ τ) (left : ρ → List τ) :
    Diamond (step (ν := ν)) (Sound d left) where
  kept := by
    rintro s a t ⟨held, h⟩ hstep
    obtain ⟨c', hc', rfl⟩ := Option.map_eq_some_iff.mp hstep
    exact h.step hc'
  commute := by
    rintro s a b t t' ⟨held, h⟩ hne ha hb
    obtain ⟨ca, hca, rfl⟩ := Option.map_eq_some_iff.mp ha
    obtain ⟨cb, hcb, rfl⟩ := Option.map_eq_some_iff.mp hb
    obtain ⟨⟨c', hb', ha'⟩, heffectb, heffecta⟩ := Control.step_comm h hne hca hcb
    refine ⟨⟨ca.effect b (s.control.effect a s.mem), c'⟩, by simp only [step, hb', Option.map_some], ?_⟩
    simp only [step, ha', Option.map_some, heffectb, heffecta, h.effect_comm hne hca hcb]

/-- **No step writes what a transfer under way is yet to read**, but the transfer itself its own target. -/
theorem Sound.source_kept {s t : State ι α ν ρ τ} (h : Sound d left s) {a : Act ι α} (hstep : step s a = some t) {i : ι}
    {op : Op α} (hop : op ∈ (s.control.proc i).pending) (hne : a ≠ .perform i op) : t.mem op.src = s.mem op.src := by
  obtain ⟨held, h⟩ := h
  obtain ⟨c', hc', rfl⟩ := Option.map_eq_some_iff.mp hstep
  obtain ⟨R, W, hf, -, hW, hpending⟩ := h.footprint hc'
  refine hf.outside _ _ fun hsrc => ?_
  by_cases hact : a.actor = i
  · subst hact
    exact ((hpending op hop hne).2 op.src hsrc).1 rfl
  · rcases ((h.underWay i).within op hop).1 with hheld | hconst
    · exact Set.disjoint_left.mp (h.apart _ _ hact) (hW _ hsrc) hheld
    · exact Set.disjoint_left.mp (h.constant _) (hW _ hsrc) hconst

end

end Lib.Movers
