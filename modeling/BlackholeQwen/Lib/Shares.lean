import Mathlib.Data.List.Infix

/-!
# Sharing turns

In a stretch of turns two parties share, one of every `r + 1` turns is the first party's, after `r` of the other's
(`Shares`); outside a stretch a rule of its own decides. What follows for two consecutive turns (`Shares.not_twice`),
for every window of `r + 1` turns (`Shares.window`) and for two sequences with the same stretches (`Shares.agree`).
-/

namespace Lib

/-- A turn: whether it is in a stretch, what the rule outside decides, and whether it was the first party's. -/
structure Turn where
  stretch : Bool
  stock : Bool
  first : Bool
  deriving DecidableEq, Repr

/-- How many turns of the running stretch have passed. -/
def trailing (turns : List Turn) : Nat := (turns.reverse.takeWhile Turn.stretch).length

theorem trailing_in (past : List Turn) {t : Turn} (h : t.stretch = true) :
    trailing (past ++ [t]) = trailing past + 1 := by
  unfold trailing
  rw [List.reverse_append, List.reverse_singleton, List.singleton_append, List.takeWhile_cons_of_pos h]
  rfl

theorem trailing_out (past : List Turn) {t : Turn} (h : t.stretch = false) : trailing (past ++ [t]) = 0 := by
  unfold trailing
  rw [List.reverse_append, List.reverse_singleton, List.singleton_append, List.takeWhile_cons_of_neg (by simp [h])]
  rfl

/-- Every turn of a stretch is the first party's exactly after `r` others; outside, the other rule decides. -/
def Shares (r : Nat) (turns : List Turn) : Prop :=
  ∀ past t, (past ++ [t]) <+: turns →
    (t.stretch = true → (t.first = true ↔ trailing past % (r + 1) = r)) ∧ (t.stretch = false → t.first = t.stock)

theorem Shares.nil (r : Nat) : Shares r [] := fun past t h => by
  have hlength := h.length_le
  simp at hlength

/-- One turn more. -/
theorem Shares.snoc {r : Nat} {turns : List Turn} {t : Turn} (h : Shares r turns)
    (hin : t.stretch = true → (t.first = true ↔ trailing turns % (r + 1) = r))
    (hout : t.stretch = false → t.first = t.stock) : Shares r (turns ++ [t]) := by
  intro past u hstart
  rcases List.prefix_concat_iff.mp hstart with heq | hearlier
  · obtain ⟨rfl, hlast⟩ := List.append_inj' heq rfl
    cases hlast
    exact ⟨hin, hout⟩
  · exact h past u hearlier

variable {r : Nat} {turns : List Turn}

/-- **No two in a row.** -/
theorem Shares.not_twice (h : Shares r turns) (hr : 1 ≤ r) {past : List Turn} {t u : Turn}
    (hstart : (past ++ [t, u]) <+: turns) (hu : u.stretch = true) : ¬(t.first = true ∧ u.first = true) := by
  rintro ⟨ht, hfirst⟩
  have hsplit : past ++ [t, u] = (past ++ [t]) ++ [u] := by simp
  rw [hsplit] at hstart
  have hlast := ((h _ u hstart).1 hu).mp hfirst
  cases hstretch : t.stretch with
  | false =>
    rw [trailing_out past hstretch, Nat.zero_mod] at hlast
    omega
  | true =>
    have hbefore := ((h past t ((List.prefix_append _ _).trans hstart)).1 hstretch).mp ht
    rw [trailing_in past hstretch, Nat.add_mod, hbefore] at hlast
    rcases Nat.lt_or_ge 1 (r + 1) with h1 | h1
    · rw [Nat.mod_eq_of_lt h1, Nat.mod_self] at hlast
      omega
    · omega

/-- Turns of one stretch pass one by one. -/
theorem trailing_append (past : List Turn) {more : List Turn} (h : ∀ t ∈ more, t.stretch = true) :
    trailing (past ++ more) = trailing past + more.length := by
  induction more generalizing past with
  | nil => simp
  | cons t more ih =>
    have hsplit : past ++ t :: more = (past ++ [t]) ++ more := by simp
    rw [hsplit, ih (past ++ [t]) fun u hu => h u (List.mem_cons_of_mem _ hu), trailing_in past (h t List.mem_cons_self),
      List.length_cons]
    omega

/-- **No long wait**: among `r + 1` turns of a stretch one is the first party's. -/
theorem Shares.window (h : Shares r turns) {past more : List Turn} (hstart : (past ++ more) <+: turns)
    (hstretch : ∀ t ∈ more, t.stretch = true) (hlength : more.length = r + 1) : ∃ t ∈ more, t.first = true := by
  have hlt : r - trailing past % (r + 1) < more.length := by omega
  refine ⟨more[r - trailing past % (r + 1)], List.getElem_mem hlt, ?_⟩
  have hstart' :
      (past ++ more.take (r - trailing past % (r + 1)) ++ [more[r - trailing past % (r + 1)]]) <+: turns := by
    rw [List.append_assoc, List.take_concat_get' more _ hlt]
    have htake : more.take (r - trailing past % (r + 1) + 1) <+: more := List.take_prefix _ _
    exact ((List.prefix_append_right_inj past).mpr htake).trans hstart
  refine ((h _ _ hstart').1 (hstretch _ (List.getElem_mem hlt))).mpr ?_
  rw [trailing_append past fun t ht => hstretch t (List.mem_of_mem_take ht), List.length_take]
  have hmod : trailing past % (r + 1) < r + 1 := Nat.mod_lt (trailing past) (Nat.succ_pos r)
  have hdiv := Nat.div_add_mod (trailing past) (r + 1)
  have hmin : min (r - trailing past % (r + 1)) more.length = r - trailing past % (r + 1) := by omega
  have hsum : trailing past + min (r - trailing past % (r + 1)) more.length =
      r + (r + 1) * (trailing past / (r + 1)) := by
    rw [hmin]
    generalize (r + 1) * (trailing past / (r + 1)) = whole at hdiv
    omega
  rw [hsum, Nat.add_mul_mod_self_left, Nat.mod_eq_of_lt (Nat.lt_succ_self r)]

/-- **Sequences with the same stretches** share alike. -/
theorem Shares.agree {turns' : List Turn} (h : Shares r turns) (h' : Shares r turns')
    (hsame : turns.map Turn.stretch = turns'.map Turn.stretch) {past past' : List Turn} {t t' : Turn}
    (hp : (past ++ [t]) <+: turns) (hp' : (past' ++ [t']) <+: turns') (hlength : past.length = past'.length)
    (ht : t.stretch = true) : t.first = t'.first := by
  have hmaps : (past ++ [t]).map Turn.stretch = (past' ++ [t']).map Turn.stretch := by
    have hleft := hp.map Turn.stretch
    have hright := hp'.map Turn.stretch
    rw [← hsame] at hright
    rw [List.prefix_iff_eq_take.mp hleft, List.prefix_iff_eq_take.mp hright]
    simp [hlength]
  rw [List.map_append, List.map_append] at hmaps
  obtain ⟨hpast, hlast⟩ := List.append_inj' hmaps rfl
  have ht' : t'.stretch = true := by
    have : t.stretch = t'.stretch := by simpa using hlast
    exact this ▸ ht
  have htrailing : trailing past = trailing past' := by
    have hcount : ∀ turns : List Turn, trailing turns = ((turns.map Turn.stretch).reverse.takeWhile id).length := by
      intro turns
      unfold trailing
      rw [← List.map_reverse, List.takeWhile_map, List.length_map]
      rfl
    rw [hcount, hcount, hpast]
  have hiff := (h past t hp).1 ht
  have hiff' := (h' past' t' hp').1 ht'
  rw [← htrailing] at hiff'
  exact Bool.eq_iff_iff.mpr (hiff.trans hiff'.symm)

end Lib
