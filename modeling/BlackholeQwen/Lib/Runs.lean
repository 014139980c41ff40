/-!
# Runs of a labelled transition relation

`Run step s ls t` says that performing the labels `ls` in order leads from `s` to `t`; the newest label is the last.
An invariant may speak of the labels performed so far (`Run.invariant`), so that facts such as "every ticket issued
earlier has a smaller epoch" need no extra state.
-/

namespace Lib

variable {σ ι : Type}

/-- The runs of `step` from `s`. -/
inductive Run (step : σ → ι → σ → Prop) (s : σ) : List ι → σ → Prop
  | nil : Run step s [] s
  | snoc {ls : List ι} {t : σ} {l : ι} {u : σ} : Run step s ls t → step t l u → Run step s (ls ++ [l]) u

namespace Run

variable {step : σ → ι → σ → Prop} {s t u : σ} {ls ls' : List ι}

/-- **The invariant rule.** What holds at the start, and is kept by every step out of a reached state, holds after
every run. -/
theorem invariant {P : List ι → σ → Prop} (h0 : P [] s)
    (hstep : ∀ {ls t l u}, Run step s ls t → P ls t → step t l u → P (ls ++ [l]) u)
    (h : Run step s ls t) : P ls t := by
  induction h with
  | nil => exact h0
  | snoc hr hs ih => exact hstep hr ih hs

/-- The invariant rule for a predicate of the state alone. -/
theorem invariant_state {P : σ → Prop} (h0 : P s) (hstep : ∀ {t l u}, P t → step t l u → P u)
    (h : Run step s ls t) : P t :=
  invariant (P := fun _ t => P t) h0 (fun _ hi hs => hstep hi hs) h

/-- One step is a run. -/
theorem single {l : ι} (h : step s l t) : Run step s [l] t := by
  have h' := snoc (nil : Run step s [] s) h
  exact h'

/-- Runs compose. -/
theorem append (h : Run step s ls t) (h' : Run step t ls' u) : Run step s (ls ++ ls') u := by
  induction h' with
  | nil => rwa [List.append_nil]
  | snoc _ hs ih => rw [← List.append_assoc]; exact snoc ih hs

end Run

/-! ## Two machines in lockstep -/

section Lockstep

variable {τ ω : Type}

/-- What a deterministic machine answers to the labels, oldest first, and where it ends. -/
def answers (f : σ → ι → σ × ω) : σ → List ι → List ω × σ
  | s, [] => ([], s)
  | s, l :: ls => ((f s l).2 :: (answers f (f s l).1 ls).1, (answers f (f s l).1 ls).2)

/-- **The lockstep rule.** Machines whose steps answer alike and keep a relation answer alike on every list of labels,
and end in related states. -/
theorem answers_lockstep {R : σ → τ → Prop} {f : σ → ι → σ × ω} {g : τ → ι → τ × ω}
    (hstep : ∀ s t l, R s t → (f s l).2 = (g t l).2 ∧ R (f s l).1 (g t l).1) {s : σ} {t : τ} (h : R s t)
    (ls : List ι) : (answers f s ls).1 = (answers g t ls).1 ∧ R (answers f s ls).2 (answers g t ls).2 := by
  induction ls generalizing s t with
  | nil => exact ⟨rfl, h⟩
  | cons l ls ih =>
    obtain ⟨hanswer, hnext⟩ := hstep s t l h
    obtain ⟨hanswers, hend⟩ := ih hnext
    exact ⟨by rw [answers, answers, hanswer, hanswers], hend⟩

end Lockstep

end Lib
