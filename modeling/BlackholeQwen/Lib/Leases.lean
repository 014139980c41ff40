import Mathlib.Data.List.Nodup

/-!
# Leases

A ledger of what has been taken from an allocator and what has been given back. `Balanced l H` says that the holders,
together the set `H`, hold what has been taken and not given back, and that nothing was given back twice. Taking fresh
resources, giving back held ones and moving them between holders keep a ledger balanced (`Balanced.take`,
`Balanced.give`, `Balanced.held`); when nobody holds anything, everything was given back exactly once
(`Balanced.settled`).
-/

namespace Lib

/-- What was taken and what was given back, in order. -/
structure Ledger (ρ : Type) where
  taken : List ρ
  given : List ρ
  deriving DecidableEq, Repr

namespace Ledger

variable {ρ : Type}

/-- Nothing has been taken. -/
def blank : Ledger ρ := ⟨[], []⟩

/-- Resources are taken. -/
def take (l : Ledger ρ) (rs : List ρ) : Ledger ρ := { l with taken := l.taken ++ rs }

/-- Resources are given back. -/
def give (l : Ledger ρ) (rs : List ρ) : Ledger ρ := { l with given := l.given ++ rs }

end Ledger

/-- The holders hold exactly what was taken and not given back, and nothing was given back twice. -/
structure Balanced {ρ : Type} (l : Ledger ρ) (H : ρ → Prop) : Prop where
  once : l.given.Nodup
  apart : ∀ r, H r → r ∉ l.given
  given : ∀ r ∈ l.given, r ∈ l.taken
  known : ∀ r, H r → r ∈ l.taken
  kept : ∀ r ∈ l.taken, r ∈ l.given ∨ H r

namespace Balanced

variable {ρ : Type} {l : Ledger ρ} {H K : ρ → Prop}

theorem blank (h : ∀ r, ¬H r) : Balanced Ledger.blank H :=
  ⟨List.nodup_nil, fun r hr => absurd hr (h r), fun _ hr => (List.not_mem_nil hr).elim,
    fun r hr => absurd hr (h r), fun _ hr => (List.not_mem_nil hr).elim⟩

/-- Holders may pass on what they hold. -/
theorem held (h : Balanced l H) (hK : ∀ r, K r ↔ H r) : Balanced l K :=
  ⟨h.once, fun r hr => h.apart r ((hK r).mp hr), h.given, fun r hr => h.known r ((hK r).mp hr),
    fun r hr => (h.kept r hr).imp_right (hK r).mpr⟩

/-- **Taking what has never been taken.** -/
theorem take (h : Balanced l H) {rs : List ρ} (hfresh : ∀ r ∈ rs, r ∉ l.taken) (hK : ∀ r, K r ↔ H r ∨ r ∈ rs) :
    Balanced (l.take rs) K := by
  refine ⟨h.once, fun r hr hg => ?_, fun r hr => ?_, fun r hr => ?_, fun r hr => ?_⟩
  · rcases (hK r).mp hr with hr | hr
    · exact h.apart r hr hg
    · exact hfresh r hr (h.given r hg)
  · exact List.mem_append_left _ (h.given r hr)
  · rcases (hK r).mp hr with hr | hr
    · exact List.mem_append_left _ (h.known r hr)
    · exact List.mem_append_right _ hr
  · rcases List.mem_append.mp hr with hr | hr
    · exact (h.kept r hr).imp_right fun hr => (hK r).mpr (Or.inl hr)
    · exact Or.inr ((hK r).mpr (Or.inr hr))

/-- **Giving back what is held.** -/
theorem give (h : Balanced l H) {rs : List ρ} (hnd : rs.Nodup) (hrs : ∀ r ∈ rs, H r)
    (hK : ∀ r, K r ↔ H r ∧ r ∉ rs) : Balanced (l.give rs) K := by
  refine ⟨?_, fun r hr hg => ?_, fun r hr => ?_, fun r hr => h.known r ((hK r).mp hr).1, fun r hr => ?_⟩
  · refine List.nodup_append.mpr ⟨h.once, hnd, ?_⟩
    rintro r hr _ hs rfl
    exact h.apart r (hrs r hs) hr
  · rcases List.mem_append.mp hg with hg | hg
    · exact h.apart r ((hK r).mp hr).1 hg
    · exact ((hK r).mp hr).2 hg
  · rcases List.mem_append.mp hr with hr | hr
    · exact h.given r hr
    · exact h.known r (hrs r hr)
  · by_cases hs : r ∈ rs
    · exact Or.inl (List.mem_append_right _ hs)
    · exact (h.kept r hr).imp (List.mem_append_left _) fun hr => (hK r).mpr ⟨hr, hs⟩

/-- **When nothing is held, everything taken was given back, once.** -/
theorem settled [DecidableEq ρ] (h : Balanced l H) (hnone : ∀ r, ¬H r) {r : ρ} (hr : r ∈ l.taken) :
    l.given.count r = 1 := by
  rcases h.kept r hr with hg | hH
  · exact List.count_eq_one_of_mem h.once hg
  · exact absurd hH (hnone r)

end Balanced

end Lib
