import BlackholeQwen.Lib.Runs
import Mathlib.Data.List.Perm.Basic

/-!
# Runs of a system with the diamond property

In a deterministic labelled system where two different labels that are both possible can follow each other either way to
the same state, one run to a state where nothing is possible decides all runs: every run extends to one that ends there
with the same labels in another order (`Diamond.join`). So no run is stuck before that state, and every run that ends,
ends in it.
-/

namespace Lib

variable {σ ℓ : Type}

/-- A run from a first step on. -/
theorem Run.cons {step : σ → ℓ → σ → Prop} {s t u : σ} {l : ℓ} {ls : List ℓ} (h : step s l t) (h' : Run step t ls u) :
    Run step s (l :: ls) u := (Run.single h).append h'

/-- A run is over, or has a first step. -/
theorem Run.cases_head {step : σ → ℓ → σ → Prop} {s u : σ} {ls : List ℓ} (h : Run step s ls u) :
    (ls = [] ∧ s = u) ∨ ∃ l ls' t, ls = l :: ls' ∧ step s l t ∧ Run step t ls' u := by
  induction h with
  | nil => exact Or.inl ⟨rfl, rfl⟩
  | snoc _ hstep ih =>
    rcases ih with ⟨rfl, rfl⟩ | ⟨l, ls', t, rfl, hfirst, hrest⟩
    · exact Or.inr ⟨_, [], _, rfl, hstep, .nil⟩
    · exact Or.inr ⟨l, _, t, rfl, hfirst, hrest.snoc hstep⟩

/-- What `step` may do, as a relation. -/
def Steps (step : σ → ℓ → Option σ) (s : σ) (l : ℓ) (t : σ) : Prop := step s l = some t

/-- A system with an invariant under which different labels commute. -/
structure Diamond (step : σ → ℓ → Option σ) (P : σ → Prop) : Prop where
  kept : ∀ {s l t}, P s → step s l = some t → P t
  commute : ∀ {s l l' t t'}, P s → l ≠ l' → step s l = some t → step s l' = some t' →
    ∃ u, step t l' = some u ∧ step t' l = some u

namespace Diamond

variable {step : σ → ℓ → Option σ} {P : σ → Prop} {s t u : σ} {ls ls' : List ℓ}

/-- One step off a run that ends can still get to its end, over the other labels. -/
theorem strip (h : Diamond step P) (hs : P s) (hend : ∀ l, step t l = none) (hrun : Run (Steps step) s ls t) {l : ℓ}
    (hl : step s l = some u) : ∃ ls', Run (Steps step) u ls' t ∧ (l :: ls').Perm ls := by
  induction ls generalizing s u with
  | nil =>
    rcases hrun.cases_head with ⟨-, rfl⟩ | ⟨_, _, _, hnil, -⟩
    · rw [hend] at hl
      cases hl
    · cases hnil
  | cons l' ls ih =>
    rcases hrun.cases_head with ⟨hnil, -⟩ | ⟨_, _, s', heq, hfirst, hrest⟩
    · cases hnil
    · cases heq
      by_cases hsame : l = l'
      · subst hsame
        cases Option.some.inj (hl.symm.trans hfirst)
        exact ⟨ls, hrest, .refl _⟩
      · obtain ⟨v, hv, hv'⟩ := h.commute hs hsame hl hfirst
        obtain ⟨ls', hrun', hperm⟩ := ih (h.kept hs hfirst) hrest hv'
        exact ⟨l' :: ls', hrun'.cons hv, (List.Perm.swap l' l ls').trans (hperm.cons l')⟩

/-- **Every run joins a run that ends**: it goes on to the same end, over the labels that are left. -/
theorem join (h : Diamond step P) (hs : P s) (hend : ∀ l, step t l = none) (hrun : Run (Steps step) s ls t)
    (hrun' : Run (Steps step) s ls' u) : ∃ ls'', Run (Steps step) u ls'' t ∧ (ls' ++ ls'').Perm ls := by
  have hboth : P u ∧ ∃ ls'', Run (Steps step) u ls'' t ∧ (ls' ++ ls'').Perm ls := by
    induction hrun' with
    | nil => exact ⟨hs, ls, hrun, .refl _⟩
    | @snoc ls₁ s₁ l s₂ _ hstep ih =>
      obtain ⟨hp, ls₂, hrun₂, hperm⟩ := ih
      obtain ⟨ls₃, hrun₃, hperm₃⟩ := h.strip hp hend hrun₂ hstep
      refine ⟨h.kept hp hstep, ls₃, hrun₃, ?_⟩
      rw [List.append_assoc]
      exact (hperm₃.append_left ls₁).trans hperm
  exact hboth.2

/-- A run that ends, ends where the other does, over the same labels. -/
theorem unique (h : Diamond step P) (hs : P s) (hend : ∀ l, step t l = none) (hrun : Run (Steps step) s ls t)
    (hend' : ∀ l, step u l = none) (hrun' : Run (Steps step) s ls' u) : u = t ∧ ls'.Perm ls := by
  obtain ⟨ls'', hrun'', hperm⟩ := h.join hs hend hrun hrun'
  rcases hrun''.cases_head with ⟨rfl, rfl⟩ | ⟨l, _, _, -, hstep, -⟩
  · exact ⟨rfl, by rwa [List.append_nil] at hperm⟩
  · rw [Steps, hend'] at hstep
    cases hstep

/-- Before that end, something is possible. -/
theorem live (h : Diamond step P) (hs : P s) (hend : ∀ l, step t l = none) (hrun : Run (Steps step) s ls t)
    (hrun' : Run (Steps step) s ls' u) (hne : u ≠ t) : ∃ l u', step u l = some u' := by
  obtain ⟨ls'', hrun'', -⟩ := h.join hs hend hrun hrun'
  rcases hrun''.cases_head with ⟨-, rfl⟩ | ⟨l, _, u', -, hstep, -⟩
  · exact absurd rfl hne
  · exact ⟨l, u', hstep⟩

end Diamond

end Lib
