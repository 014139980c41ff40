import Mathlib.Data.List.Forall2

/-!
# Method calls that may raise

A call on a mutable object leaves the object in some state whether it returns or raises. `Call σ α` keeps both: the
object afterwards, and the value or the exception. `raiseIf` is a check, `Call.attempt` evaluates an expression that may
raise inside a call; `Call.of_attempt` takes a returned call apart, `Call.attempt_obj` carries an invariant through a
call whether or not it returns.
-/

namespace Lib

/-- An exception: its class, and its text where the program gives one. -/
inductive PyError
  | valueError (text : String)
  | runtimeError (text : String)
  | assertionError (text : String)
  | attributeError
  | indexError
  | keyError
  | typeError
  | raised (text : String)
  deriving DecidableEq, Repr

/-- `if bad: raise e`. -/
def raiseIf (bad : Prop) [Decidable bad] (e : PyError) : Except PyError Unit := if bad then .error e else .ok ()

@[simp] theorem raiseIf_ok {bad : Prop} [Decidable bad] {e : PyError} {u : Unit} :
    raiseIf bad e = .ok u ↔ ¬bad := by
  unfold raiseIf; split <;> simp_all

/-- A check that passes is skipped. -/
theorem raiseIf_bind {α : Type} {bad : Prop} [Decidable bad] {e : PyError} {f : Unit → Except PyError α} (h : ¬bad) :
    (raiseIf bad e >>= f) = f () := by
  rw [show raiseIf bad e = .ok () from raiseIf_ok.mpr h]
  rfl

/-- A bind that returned had both parts return. -/
theorem bind_ok {ε α β : Type} {x : Except ε α} {f : α → Except ε β} {b : β} (h : (x >>= f) = .ok b) :
    ∃ a, x = .ok a ∧ f a = .ok b := by
  cases x with
  | error e => cases h
  | ok a => exact ⟨a, rfl, h⟩

/-- A list whose elements all evaluate. -/
theorem mapM_total {ε α β : Type} {f : α → Except ε β} {xs : List α} :
    (∃ ys, xs.mapM f = .ok ys) ↔ ∀ x ∈ xs, ∃ y, f x = .ok y := by
  induction xs with
  | nil => exact ⟨fun _ x hx => (by cases hx), fun _ => ⟨[], rfl⟩⟩
  | cons x xs ih =>
    rw [List.mapM_cons]
    constructor
    · rintro ⟨ys, h⟩
      obtain ⟨y, hy, h⟩ := bind_ok h
      obtain ⟨zs, hzs, -⟩ := bind_ok h
      intro z hz
      rcases List.mem_cons.mp hz with rfl | hz
      · exact ⟨y, hy⟩
      · exact ih.mp ⟨zs, hzs⟩ z hz
    · intro h
      obtain ⟨y, hy⟩ := h x List.mem_cons_self
      obtain ⟨ys, hys⟩ := ih.mpr fun z hz => h z (List.mem_cons_of_mem _ hz)
      exact ⟨y :: ys, by rw [hy, hys]; rfl⟩

/-- A list whose elements evaluate to known values. -/
theorem mapM_eq_ok {ε α β : Type} {f : α → Except ε β} {g : α → β} {xs : List α} (h : ∀ x ∈ xs, f x = .ok (g x)) :
    xs.mapM f = .ok (xs.map g) := by
  induction xs with
  | nil => rfl
  | cons x xs ih =>
    rw [List.mapM_cons, h x List.mem_cons_self, ih fun y hy => h y (List.mem_cons_of_mem _ hy)]
    rfl

/-- A list whose elements evaluate alike. -/
theorem mapM_congr {ε α β : Type} {f g : α → Except ε β} {xs : List α} (h : ∀ x ∈ xs, f x = g x) :
    xs.mapM f = xs.mapM g := by
  induction xs with
  | nil => rfl
  | cons x xs ih =>
    rw [List.mapM_cons, List.mapM_cons, h x List.mem_cons_self, ih fun y hy => h y (List.mem_cons_of_mem _ hy)]

/-- The values of a list whose elements all evaluate. -/
theorem mem_mapM {ε α β : Type} {f : α → Except ε β} {xs : List α} {ys : List β} (h : xs.mapM f = .ok ys) {y : β} :
    y ∈ ys ↔ ∃ x ∈ xs, f x = .ok y := by
  induction xs generalizing ys with
  | nil => cases h; simp
  | cons x xs ih =>
    rw [List.mapM_cons] at h
    obtain ⟨z, hz, h⟩ := bind_ok h
    obtain ⟨zs, hzs, h⟩ := bind_ok h
    cases h
    rw [List.mem_cons, ih hzs]
    constructor
    · rintro (rfl | ⟨w, hw, hy⟩)
      · exact ⟨x, List.mem_cons_self, hz⟩
      · exact ⟨w, List.mem_cons_of_mem _ hw, hy⟩
    · rintro ⟨w, hw, hy⟩
      rcases List.mem_cons.mp hw with rfl | hw
      · exact Or.inl (Except.ok.inj (hy.symm.trans hz))
      · exact Or.inr ⟨w, hw, hy⟩

/-- The values of a list whose elements all evaluate, by index. -/
theorem mapM_get {ε α β : Type} {f : α → Except ε β} {xs : List α} {ys : List β} (h : xs.mapM f = .ok ys) :
    ys.length = xs.length ∧ ∀ (i : Nat) (x : α), xs[i]? = some x → ∃ y, ys[i]? = some y ∧ f x = .ok y := by
  induction xs generalizing ys with
  | nil => cases h; exact ⟨rfl, fun i x hx => by simp at hx⟩
  | cons x xs ih =>
    rw [List.mapM_cons] at h
    obtain ⟨z, hz, h⟩ := bind_ok h
    obtain ⟨zs, hzs, h⟩ := bind_ok h
    cases h
    obtain ⟨hlen, hget⟩ := ih hzs
    refine ⟨by simp [hlen], fun i w hw => ?_⟩
    cases i with
    | zero =>
      simp only [List.getElem?_cons_zero, Option.some.injEq] at hw
      exact ⟨z, rfl, hw ▸ hz⟩
    | succ i =>
      rw [List.getElem?_cons_succ] at hw ⊢
      exact hget i w hw

/-- What the elements determine of their values. -/
theorem mapM_map_eq {ε α β γ : Type} {f : α → Except ε β} {g : β → γ} {h : α → γ} {xs : List α} {ys : List β}
    (hok : xs.mapM f = .ok ys) (hf : ∀ x ∈ xs, ∀ y, f x = .ok y → g y = h x) : ys.map g = xs.map h := by
  induction xs generalizing ys with
  | nil => cases hok; rfl
  | cons x xs ih =>
    rw [List.mapM_cons] at hok
    obtain ⟨y, hy, hok⟩ := bind_ok hok
    obtain ⟨ys', hys, hok⟩ := bind_ok hok
    cases hok
    rw [List.map_cons, List.map_cons, hf x List.mem_cons_self y hy,
      ih hys fun z hz => hf z (List.mem_cons_of_mem _ hz)]

/-- Binds whose parts agree up to a function. -/
theorem bind_map_congr {ε α β γ δ : Type} {x x' : Except ε α} {k k' : α → Except ε β} {g : α → γ} {m : β → δ}
    (hx : x.map g = x'.map g) (hk : ∀ a a', g a = g a' → (k a).map m = (k' a').map m) :
    (x >>= k).map m = (x' >>= k').map m := by
  cases x with
  | error e =>
    cases x' with
    | error e' => cases hx; rfl
    | ok a' => cases hx
  | ok a =>
    cases x' with
    | error e' => cases hx
    | ok a' => exact hk a a' (Except.ok.inj hx)

/-- Binds with the same first part, whose second parts agree up to a function. -/
theorem bind_map_self {ε α β δ : Type} {x : Except ε α} {k k' : α → Except ε β} {m : β → δ}
    (hk : ∀ a, (k a).map m = (k' a).map m) : (x >>= k).map m = (x >>= k').map m := by
  cases x with
  | error e => rfl
  | ok a => exact hk a

/-- Evaluations that agree up to a function, element by element. -/
theorem mapM_map_congr {ε α β γ : Type} {f f' : α → Except ε β} {g : β → γ} (xs : List α)
    (h : ∀ x, (f x).map g = (f' x).map g) : (xs.mapM f).map (List.map g) = (xs.mapM f').map (List.map g) := by
  induction xs with
  | nil => rfl
  | cons x xs ih =>
    rw [List.mapM_cons, List.mapM_cons]
    refine bind_map_congr (h x) fun y y' hy => bind_map_congr ih fun ys ys' hys => ?_
    show Except.ok ((y :: ys).map g) = Except.ok ((y' :: ys').map g)
    rw [List.map_cons, List.map_cons, hy, hys]

/-- A list whose elements all evaluate, cut in two. -/
theorem mapM_append_ok {ε α β : Type} {f : α → Except ε β} {xs ys : List α} {zs : List β}
    (h : (xs ++ ys).mapM f = .ok zs) :
    xs.mapM f = .ok (zs.take xs.length) ∧ ys.mapM f = .ok (zs.drop xs.length) := by
  rw [List.mapM_append] at h
  obtain ⟨us, hus, h⟩ := bind_ok h
  obtain ⟨vs, hvs, h⟩ := bind_ok h
  cases h
  rw [← (mapM_get hus).1, List.take_left, List.drop_left]
  exact ⟨hus, hvs⟩

/-- Each member of the second of two related lists is related to a member of the first. -/
theorem mem_forall₂ {α β : Type} {R : α → β → Prop} {as : List α} {bs : List β} (h : List.Forall₂ R as bs) {b : β}
    (hb : b ∈ bs) : ∃ a ∈ as, R a b := by
  induction h with
  | nil => cases hb
  | cons hr _ ih =>
    rcases List.mem_cons.mp hb with rfl | hb
    · exact ⟨_, List.mem_cons_self, hr⟩
    · obtain ⟨a, ha, hab⟩ := ih hb
      exact ⟨a, List.mem_cons_of_mem _ ha, hab⟩

/-- What a call leaves behind. -/
structure Call (σ α : Type) where
  obj : σ
  result : Except PyError α

namespace Call

variable {σ α β : Type}

/-- The call returned `a` with the object in state `s`. -/
def ret (s : σ) (a : α) : Call σ α := ⟨s, .ok a⟩

/-- The call raised `e` with the object in state `s`. -/
def throw (s : σ) (e : PyError) : Call σ α := ⟨s, .error e⟩

/-- The call with its value mapped. -/
def map (f : α → β) (c : Call σ α) : Call σ β := ⟨c.obj, c.result.map f⟩

/-- The value of a call that returned, `default` of one that raised. -/
def getD (c : Call σ α) (d : α) : α := c.result.toOption.getD d

/-- Go on from a call that returned. -/
def bind (c : Call σ α) (k : σ → α → Call σ β) : Call σ β :=
  match c.result with
  | .error e => throw c.obj e
  | .ok a => k c.obj a

@[simp] theorem bind_ret (s : σ) (a : α) (k : σ → α → Call σ β) : (ret s a).bind k = k s a := rfl
@[simp] theorem bind_throw (s : σ) (e : PyError) (k : σ → α → Call σ β) :
    (throw s e : Call σ α).bind k = throw s e := rfl
@[simp] theorem map_ret (f : α → β) (s : σ) (a : α) : (ret s a).map f = ret s (f a) := rfl
@[simp] theorem map_throw (f : α → β) (s : σ) (e : PyError) : (throw s e : Call σ α).map f = throw s e := rfl
@[simp] theorem getD_ret (s : σ) (a d : α) : (ret s a).getD d = a := rfl
@[simp] theorem getD_throw (s : σ) (e : PyError) (d : α) : (throw s e : Call σ α).getD d = d := rfl
@[simp] theorem ret_obj (s : σ) (a : α) : (ret s a).obj = s := rfl
@[simp] theorem ret_result (s : σ) (a : α) : (ret s a).result = .ok a := rfl
@[simp] theorem throw_obj (s : σ) (e : PyError) : (throw s e : Call σ α).obj = s := rfl
@[simp] theorem throw_result (s : σ) (e : PyError) : (throw s e : Call σ α).result = .error e := rfl

/-- Evaluate an expression that may raise; if it does, the call ends with the object in state `s`. -/
def attempt (e : Except PyError β) (s : σ) (k : β → Call σ α) : Call σ α :=
  match e with
  | .error x => throw s x
  | .ok b => k b

@[simp] theorem attempt_ok (b : β) (s : σ) (k : β → Call σ α) : attempt (.ok b) s k = k b := rfl
@[simp] theorem attempt_error (x : PyError) (s : σ) (k : β → Call σ α) : attempt (.error x) s k = throw s x := rfl

/-- The expression raised, or the call went on. -/
theorem attempt_cases (e : Except PyError β) (s : σ) (k : β → Call σ α) :
    (∃ x, e = .error x ∧ attempt e s k = throw s x) ∨ ∃ b, e = .ok b ∧ attempt e s k = k b := by
  cases e with
  | error x => exact Or.inl ⟨x, rfl, rfl⟩
  | ok b => exact Or.inr ⟨b, rfl, rfl⟩

/-- A call that returned got past the expression. -/
theorem of_attempt {e : Except PyError β} {s : σ} {k : β → Call σ α} {a : α} (h : (attempt e s k).result = .ok a) :
    ∃ b, e = .ok b ∧ attempt e s k = k b := by
  cases e with
  | error x => cases h
  | ok b => exact ⟨b, rfl, rfl⟩

/-- What holds of the object when the expression raises, and after the rest of the call otherwise, holds afterwards. -/
theorem attempt_obj {P : σ → Prop} {e : Except PyError β} {s : σ} {k : β → Call σ α} (hs : P s)
    (hk : ∀ b, e = .ok b → P (k b).obj) : P (attempt e s k).obj := by
  cases e with
  | error x => exact hs
  | ok b => exact hk b rfl

theorem attempt_returned {e : Except PyError β} {s s' : σ} {k : β → Call σ α} {a : α} (h : attempt e s k = ret s' a) :
    ∃ b, e = .ok b ∧ k b = ret s' a := by
  cases e with
  | error x => cases h
  | ok b => exact ⟨b, rfl, h⟩

/-- The first call raised, or the second went on from it. -/
theorem bind_cases (c : Call σ α) (k : σ → α → Call σ β) :
    (∃ e, c.result = .error e ∧ c.bind k = throw c.obj e) ∨ ∃ a, c.result = .ok a ∧ c.bind k = k c.obj a := by
  obtain ⟨s, r⟩ := c
  cases r with
  | error e => exact Or.inl ⟨e, rfl, rfl⟩
  | ok a => exact Or.inr ⟨a, rfl, rfl⟩

/-- A call that returned got past its first part. -/
theorem of_bind {c : Call σ α} {k : σ → α → Call σ β} {b : β} (h : (c.bind k).result = .ok b) :
    ∃ a, c.result = .ok a ∧ c.bind k = k c.obj a := by
  rcases bind_cases c k with ⟨e, -, h'⟩ | ⟨a, ha, h'⟩
  · rw [h'] at h; cases h
  · exact ⟨a, ha, h'⟩

/-- What holds after the first call, and after the second wherever it goes on from there, holds afterwards. -/
theorem bind_obj {P : σ → Prop} {c : Call σ α} {k : σ → α → Call σ β} (hc : P c.obj)
    (hk : ∀ a, c.result = .ok a → P (k c.obj a).obj) : P (c.bind k).obj := by
  rcases bind_cases c k with ⟨e, -, h⟩ | ⟨a, ha, h⟩ <;> rw [h]
  · exact hc
  · exact hk a ha

theorem bind_returned {c : Call σ α} {k : σ → α → Call σ β} {s' : σ} {b : β} (h : c.bind k = ret s' b) :
    ∃ s a, c = ret s a ∧ k s a = ret s' b := by
  obtain ⟨s, r⟩ := c
  cases r with
  | error e => cases h
  | ok a => exact ⟨s, a, rfl, h⟩

theorem bind_assoc {γ : Type} (c : Call σ α) (k : σ → α → Call σ β) (k' : σ → β → Call σ γ) :
    (c.bind k).bind k' = c.bind fun s a => (k s a).bind k' := by
  rcases bind_cases c k with ⟨e, hc, h⟩ | ⟨a, hc, h⟩
  · rw [h]
    simp only [bind, hc]
    rfl
  · rw [h]
    simp only [bind, hc]

/-- Calls that go on alike from what the first returns. -/
theorem bind_congr {c : Call σ α} {k k' : σ → α → Call σ β} (h : ∀ a, c.result = .ok a → k c.obj a = k' c.obj a) :
    c.bind k = c.bind k' := by
  rcases bind_cases c k with ⟨e, hc, hk⟩ | ⟨a, hc, hk⟩ <;> rw [hk] <;> simp only [bind, hc]
  exact h a hc

@[simp] theorem map_obj (f : α → β) (c : Call σ α) : (c.map f).obj = c.obj := rfl

/-- A mapped call that returned, returned. -/
theorem of_map {c : Call σ α} {f : α → β} {b : β} (h : (c.map f).result = .ok b) :
    ∃ a, c.result = .ok a ∧ f a = b := by
  obtain ⟨s, r⟩ := c
  cases r with
  | error e => cases h
  | ok a => exact ⟨a, rfl, Except.ok.inj h⟩

/-- A call on a part of an object, as a call on the whole. -/
def onto {τ : Type} (put : σ → τ) (c : Call σ α) : Call τ α := ⟨put c.obj, c.result⟩

@[simp] theorem onto_obj {τ : Type} (put : σ → τ) (c : Call σ α) : (c.onto put).obj = put c.obj := rfl
@[simp] theorem onto_result {τ : Type} (put : σ → τ) (c : Call σ α) : (c.onto put).result = c.result := rfl

theorem onto_returned {τ : Type} {put : σ → τ} {c : Call σ α} {t : τ} {a : α} (h : c.onto put = ret t a) :
    ∃ s, c = ret s a ∧ put s = t := by
  obtain ⟨s, r⟩ := c
  cases h
  exact ⟨s, rfl, rfl⟩

/-- `try: c finally: f`: what the clean-up raises replaces what the call returned or raised. -/
def lastly (c : Call σ α) (f : σ → Call σ β) : Call σ α :=
  match (f c.obj).result with
  | .error e => throw (f c.obj).obj e
  | .ok _ => ⟨(f c.obj).obj, c.result⟩

@[simp] theorem lastly_obj (c : Call σ α) (f : σ → Call σ β) : (c.lastly f).obj = (f c.obj).obj := by
  unfold lastly; split <;> rfl

/-- The clean-up raised, or the call ended as it would have. -/
theorem lastly_cases (c : Call σ α) (f : σ → Call σ β) :
    (∃ e, (f c.obj).result = .error e ∧ (c.lastly f).result = .error e) ∨
    (∃ b, (f c.obj).result = .ok b) ∧ (c.lastly f).result = c.result := by
  unfold lastly
  cases h : (f c.obj).result with
  | error e => exact Or.inl ⟨e, rfl, rfl⟩
  | ok b => exact Or.inr ⟨⟨b, rfl⟩, rfl⟩

/-- A loop that calls each object of a list in turn: the first call that raises ends it. -/
def each (f : Nat → σ → Call σ α) : Nat → List σ → Call (List σ) (List α)
  | _, [] => ret [] []
  | i, s :: ss =>
    match (f i s).result with
    | .error e => throw ((f i s).obj :: ss) e
    | .ok a => ((each f (i + 1) ss).onto ((f i s).obj :: ·)).map (a :: ·)

/-- In a loop that returned, each object was called. -/
theorem each_ok {f : Nat → σ → Call σ α} {i : Nat} {ss : List σ} {as : List α} (h : (each f i ss).result = .ok as) :
    List.Forall₂ (fun s s' => ∃ j, s' = (f j s).obj) ss (each f i ss).obj := by
  induction ss generalizing i as with
  | nil => exact .nil
  | cons s ss ih =>
    unfold each at h ⊢
    cases hf : (f i s).result with
    | error e => rw [hf] at h; cases h
    | ok a =>
      simp only [hf] at h ⊢
      obtain ⟨as', hrest, -⟩ := of_map h
      exact .cons ⟨i, rfl⟩ (ih hrest)

/-- What every call leaves of its object holds of each object after a loop that returned. -/
theorem each_all {P : σ → Prop} {f : Nat → σ → Call σ α} (hf : ∀ j s, P (f j s).obj) {i : Nat} {ss : List σ}
    {as : List α} (h : (each f i ss).result = .ok as) : ∀ s ∈ (each f i ss).obj, P s := by
  intro s hs
  obtain ⟨s₀, -, j, rfl⟩ := mem_forall₂ (each_ok h) hs
  exact hf j s₀

/-- A loop whose calls all return, returns. -/
theorem each_total {f : Nat → σ → Call σ α} {ss : List σ} (h : ∀ s ∈ ss, ∀ j, ∃ a, (f j s).result = .ok a) (i : Nat) :
    ∃ as, (each f i ss).result = .ok as := by
  induction ss generalizing i with
  | nil => exact ⟨[], rfl⟩
  | cons s ss ih =>
    obtain ⟨a, ha⟩ := h s List.mem_cons_self i
    obtain ⟨as, has⟩ := ih (fun s' hs => h s' (List.mem_cons_of_mem _ hs)) (i + 1)
    refine ⟨a :: as, ?_⟩
    unfold each
    simp only [ha, map, onto, has]
    rfl

/-- **In a loop that returned, each object's call returned in its turn.** -/
theorem each_returned {f : Nat → σ → Call σ α} {i : Nat} {ss : List σ} {as : List α}
    (h : (each f i ss).result = .ok as) :
    (each f i ss).obj.length = ss.length ∧ as.length = ss.length ∧
      ∀ k s, ss[k]? = some s → ∃ s' a, f (i + k) s = .ret s' a ∧ (each f i ss).obj[k]? = some s' ∧ as[k]? = some a := by
  induction ss generalizing i as with
  | nil =>
    cases h
    exact ⟨rfl, rfl, fun k s hs => by simp at hs⟩
  | cons s ss ih =>
    unfold each at h ⊢
    cases hf : (f i s).result with
    | error e => rw [hf] at h; cases h
    | ok a =>
      simp only [hf] at h ⊢
      obtain ⟨as', has, rfl⟩ := of_map h
      obtain ⟨hobj, hlength, hturn⟩ := ih has
      refine ⟨by simp [map, hobj], by simp [hlength], fun k s' hs => ?_⟩
      cases k with
      | zero =>
        cases hs
        refine ⟨(f i s).obj, a, ?_, rfl, rfl⟩
        show f i s = ⟨(f i s).obj, .ok a⟩
        rw [← hf]
      | succ k =>
        obtain ⟨s'', a', hcall, hobj', ha⟩ := hturn k s' hs
        exact ⟨s'', a', by rw [← hcall, Nat.add_right_comm, Nat.add_assoc], hobj', ha⟩

/-- A refusal: the call raised and the object is as it was. -/
def Refused (c : Call σ α) (s : σ) : Prop := c.obj = s ∧ ∃ e, c.result = .error e

theorem refused_throw (s : σ) (e : PyError) : Refused (throw s e : Call σ α) s := ⟨rfl, e, rfl⟩

/-- A refused call returned nothing. -/
theorem Refused.not_ok {c : Call σ α} {s : σ} (h : Refused c s) (a : α) : c.result ≠ .ok a := by
  obtain ⟨-, e, he⟩ := h
  rw [he]; intro h'; cases h'

end Call

end Lib
