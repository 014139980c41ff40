import BlackholeQwen.Attention.MaskReplay
import Mathlib.Algebra.GroupWithZero.Nat
import Mathlib.Algebra.Order.BigOperators.Group.List
import Mathlib.Algebra.Order.Ring.Nat
import Mathlib.Data.List.Count

/-!
# The capture plan of a request (`attention_request_plan.py`)

`capturePlan` lists the widths that a request's budget is captured at: each width below 8 once, and each wider one once
for every family of 256 keys whose share of the budget holds a whole block (`familyCaptures`). `captureBucketRows`
(`verifier_engine.py`) is the pool's count of them, made before the position is known.

- `select_iff`: a ticket has a capture exactly where its width fits its budget and its family.
- `captures_pooled`: the pool of a budget holds the captures of every budget up to it.
-/

namespace BlackholeQwen.Attention

open Lib

/-! ## Widths -/

/-- `VERIFY_WIDTHS`. -/
def VERIFY_WIDTHS : List Nat := [1, 2, 4, 8, 16, 32, 64]

/-- `BLOCK_WIDTHS`. -/
def BLOCK_WIDTHS : List Nat := [16, 32, 64]

/-- The supported widths of a budget. -/
def widthsUpTo (verifierRows remaining maxVerifyRows : Nat) : List Nat :=
  VERIFY_WIDTHS.filter fun rows => rows ≤ min (min verifierRows remaining) maxVerifyRows

/-- `capture_widths`. -/
def captureWidths (position capacity verifierRows remaining maxVerifyRows : Nat) : Except PyError (List Nat) := do
  raiseIf (maxVerifyRows ∉ VERIFY_WIDTHS) (.valueError "Explicit supported verification width cap required")
  raiseIf (remaining < 1 ∨ capacity < position + remaining ∨ verifierRows ∉ BLOCK_WIDTHS)
    (.valueError "The complete decode budget must fit the request page capacity")
  return widthsUpTo verifierRows remaining maxVerifyRows

/-- The families that a budget touches, at most. -/
def touchedFamilies (remaining : Nat) : Nat := (remaining + 254) / 256 + 1

/-- `capture_bucket_rows`. -/
def captureBucketRows (verifierRows remaining maxVerifyRows : Nat) : Except PyError (List Nat) := do
  raiseIf (remaining < 1) (.valueError "Positive decode budget required")
  let widths ← captureWidths 0 remaining verifierRows remaining maxVerifyRows
  return widths.filter (· < 8) ++ (widths.filter (8 ≤ ·)).flatMap fun rows =>
    List.replicate (min (touchedFamilies remaining) (remaining / rows)) rows

/-! ## The plan -/

/-- `Capture`: a native one has no capacity. -/
structure Capture where
  rows : Nat
  position : Nat
  capacity : Option Nat
  deriving DecidableEq, Repr

/-- `Capture.key`. -/
def Capture.key (c : Capture) : Nat × Option Nat := (c.rows, c.capacity)

/-- `ReplayPlan`. -/
structure ReplayPlan where
  start : Nat
  stop : Nat
  captures : List Capture
  deriving DecidableEq, Repr

/-- The family of a position: the keys up to it end at its capacity. -/
def familyOf (position : Nat) : Nat := (position / 256 + 1) * 256

namespace ReplayPlan

/-- `ReplayPlan.available`. -/
def available (plan : ReplayPlan) (position remaining : Nat) : Except PyError (List Capture) := do
  raiseIf (¬(plan.start ≤ position ∧ position < plan.stop) ∨ ¬(1 ≤ remaining ∧ remaining ≤ plan.stop - position))
    (.valueError "Ticket is outside the prepared request budget")
  return plan.captures.filter fun c => c.rows ≤ remaining ∧
    (c.capacity = none ∨ c.capacity = some (familyOf position) ∧ position + c.rows ≤ familyOf position)

/-- `ReplayPlan.max_rows`. -/
def maxRows (plan : ReplayPlan) (position remaining : Nat) : Except PyError Nat := do
  let captures ← plan.available position remaining
  match (captures.map Capture.rows).max? with
  | none => .error (.valueError "max() iterable argument is empty")
  | some rows => .ok rows

/-- `ReplayPlan.select`. -/
def select (plan : ReplayPlan) (position rows remaining : Nat) : Except PyError Capture := do
  let captures ← plan.available position remaining
  match captures.filter fun c => c.rows = rows with
  | [c] => .ok c
  | _ => .error (.valueError "Ticket has no unique prepared native or mask-family bucket")

end ReplayPlan

/-- The capacities of the families that a budget touches. -/
def capacities (position stop : Nat) : List Nat :=
  (List.range' (position / 256) ((stop - 1) / 256 + 1 - position / 256)).map fun family => (family + 1) * 256

/-- Whether a block fits into a family's share of a budget. -/
def Shares (position stop capacity rows : Nat) : Prop :=
  max position (capacity - 256) + rows ≤ min stop capacity

instance (position stop capacity rows : Nat) : Decidable (Shares position stop capacity rows) := by
  unfold Shares; infer_instance

/-- The captures of one family. -/
def familyCaptures (widths : List Nat) (position stop capacity : Nat) : List Capture :=
  (widths.filter fun rows => 8 ≤ rows ∧ Shares position stop capacity rows).map fun rows =>
    ⟨rows, max position (capacity - 256), some capacity⟩

/-- The captures of a plan. -/
def planCaptures (widths : List Nat) (position stop : Nat) : List Capture :=
  ((widths.filter (· < 8)).map fun rows => ⟨rows, position, none⟩) ++
    (capacities position stop).flatMap (familyCaptures widths position stop)

/-- `validate_ticket` of a capture of a family. -/
def validateCapture (ladder : Option Bool) (shortContext : Bool) (c : Capture) : Except PyError Unit :=
  match c.capacity with
  | none => .ok ()
  | some capacity => validateTicket ladder c.position c.rows capacity shortContext

/-- `capture_plan`. -/
def capturePlan (ladder : Option Bool) (position pageCapacity verifierRows remaining maxVerifyRows : Nat)
    (shortContext : Bool) : Except PyError ReplayPlan := do
  let widths ← captureWidths position pageCapacity verifierRows remaining maxVerifyRows
  raiseIf (shortContext = true ∧ (maxVerifyRows ≠ 8 ∨ position < 128 ∨ 768 < position + remaining))
    (.valueError "Short-context routing requires a T8 cap and complete budget in positions 128..767")
  let _ ← (planCaptures widths position (position + remaining)).mapM (validateCapture ladder shortContext)
  raiseIf (¬((planCaptures widths position (position + remaining)).map Capture.key).Nodup)
    (.assertionError "Capture keys must be unique")
  return ⟨position, position + remaining, planCaptures widths position (position + remaining)⟩

/-! ## Membership -/

theorem widthsUpTo_nodup (verifierRows remaining maxVerifyRows : Nat) :
    (widthsUpTo verifierRows remaining maxVerifyRows).Nodup :=
  List.Nodup.filter _ (by decide)

theorem mem_widthsUpTo {verifierRows remaining maxVerifyRows rows : Nat} :
    rows ∈ widthsUpTo verifierRows remaining maxVerifyRows ↔
      rows ∈ VERIFY_WIDTHS ∧ rows ≤ min (min verifierRows remaining) maxVerifyRows := by
  simp [widthsUpTo]

theorem mem_capacities {position stop capacity : Nat} (h : position < stop) :
    capacity ∈ capacities position stop ↔
      ∃ family, position / 256 ≤ family ∧ family ≤ (stop - 1) / 256 ∧ capacity = (family + 1) * 256 := by
  have hle : position / 256 ≤ (stop - 1) / 256 := Nat.div_le_div_right (by omega)
  unfold capacities
  simp only [List.mem_map, List.mem_range'_1]
  constructor
  · rintro ⟨family, ⟨hlo, hhi⟩, rfl⟩
    exact ⟨family, hlo, by omega, rfl⟩
  · rintro ⟨family, hlo, hhi, rfl⟩
    exact ⟨family, ⟨hlo, by omega⟩, rfl⟩

/-- The captures of a plan: each narrow width once, and each wide one in every family whose share holds it. -/
theorem mem_planCaptures {widths : List Nat} {position stop : Nat} {c : Capture} :
    c ∈ planCaptures widths position stop ↔ c.rows ∈ widths ∧
      (c.rows < 8 ∧ c.position = position ∧ c.capacity = none ∨
        8 ≤ c.rows ∧ ∃ capacity ∈ capacities position stop, Shares position stop capacity c.rows ∧
          c.position = max position (capacity - 256) ∧ c.capacity = some capacity) := by
  unfold planCaptures familyCaptures
  simp only [List.mem_append, List.mem_map, List.mem_filter, List.mem_flatMap, decide_eq_true_eq]
  constructor
  · rintro (⟨rows, ⟨hmem, hlt⟩, rfl⟩ | ⟨capacity, hcapacity, rows, ⟨hmem, hle, hshare⟩, rfl⟩)
    · exact ⟨hmem, Or.inl ⟨hlt, rfl, rfl⟩⟩
    · exact ⟨hmem, Or.inr ⟨hle, capacity, hcapacity, hshare, rfl, rfl⟩⟩
  · obtain ⟨rows, first, family⟩ := c
    rintro ⟨hmem, ⟨hlt, rfl, rfl⟩ | ⟨hle, capacity, hcapacity, hshare, rfl, rfl⟩⟩
    · exact Or.inl ⟨rows, ⟨hmem, hlt⟩, rfl⟩
    · exact Or.inr ⟨capacity, hcapacity, rows, ⟨hmem, hle, hshare⟩, rfl⟩

theorem capacities_nodup (position stop : Nat) : (capacities position stop).Nodup := by
  refine List.Nodup.map_on ?_ List.nodup_range'
  intro family _ other _ h
  omega

/-- The keys of a plan are unique. -/
theorem planCaptures_keys {widths : List Nat} (hnd : widths.Nodup) (position stop : Nat) :
    ((planCaptures widths position stop).map Capture.key).Nodup := by
  refine List.Nodup.map_on ?_ ?_
  · intro c hc c' hc' hkey
    obtain ⟨rows, first, capacity⟩ := c
    obtain ⟨rows', first', capacity'⟩ := c'
    rw [Capture.key, Capture.key, Prod.mk.injEq] at hkey
    obtain ⟨hrows, hcapacity⟩ := hkey
    rw [Capture.mk.injEq]
    refine ⟨hrows, ?_, hcapacity⟩
    rcases (mem_planCaptures.mp hc).2 with ⟨-, hfirst, hnone⟩ | ⟨-, family, -, -, hfirst, hfamily⟩ <;>
      rcases (mem_planCaptures.mp hc').2 with ⟨-, hfirst', hnone'⟩ | ⟨-, family', -, -, hfirst', hfamily'⟩
    · exact hfirst.trans hfirst'.symm
    · exact absurd (hnone.symm.trans (hcapacity.trans hfamily')) nofun
    · exact absurd (hnone'.symm.trans (hcapacity.symm.trans hfamily)) nofun
    · rw [show family = family' from Option.some.inj (hfamily.symm.trans (hcapacity.trans hfamily'))] at hfirst
      exact hfirst.trans hfirst'.symm
  · unfold planCaptures familyCaptures
    rw [List.nodup_append]
    refine ⟨(hnd.filter _).map fun _ _ h => (Capture.mk.injEq .. ▸ h).1, ?_, ?_⟩
    · rw [List.nodup_flatMap]
      refine ⟨fun capacity _ => (hnd.filter _).map fun _ _ h => (Capture.mk.injEq .. ▸ h).1, ?_⟩
      refine (capacities_nodup position stop).imp fun {a b} hne => ?_
      intro c hc hc'
      obtain ⟨_, -, rfl⟩ := List.mem_map.mp hc
      obtain ⟨_, -, heq⟩ := List.mem_map.mp hc'
      rw [Capture.mk.injEq] at heq
      exact hne (Option.some.inj heq.2.2).symm
    · intro c hc c' hc' heq
      obtain ⟨_, -, rfl⟩ := List.mem_map.mp hc
      obtain ⟨_, -, hc'⟩ := List.mem_flatMap.mp hc'
      obtain ⟨_, -, rfl⟩ := List.mem_map.mp hc'
      exact absurd (congrArg Capture.capacity heq) nofun

/-! ## Tickets -/

/-- A width that a ticket can have: supported, within its budget and the request's, and below 8 or inside the family of
its position. -/
structure Fits (verifierRows maxVerifyRows position remaining rows : Nat) : Prop where
  supported : rows ∈ VERIFY_WIDTHS
  bounded : rows ≤ min (min remaining verifierRows) maxVerifyRows
  inside : rows < 8 ∨ position + rows ≤ familyOf position

/-- A capture holds a ticket: of its width, and native or of a family with the whole ticket. -/
def Holds (c : Capture) (position rows : Nat) : Prop :=
  c.rows = rows ∧ (c.capacity = none ∧ rows < 8 ∨
    ∃ capacity, c.capacity = some capacity ∧ capacity - 256 ≤ position ∧ position + rows ≤ capacity)

section Plan

variable {verifierRows remaining maxVerifyRows start : Nat}

/-- The plan of a budget. -/
def planOf (verifierRows remaining maxVerifyRows start : Nat) : ReplayPlan :=
  ⟨start, start + remaining, planCaptures (widthsUpTo verifierRows remaining maxVerifyRows) start (start + remaining)⟩

/-- The captures that a ticket can use. -/
def usable (plan : ReplayPlan) (position budget : Nat) : List Capture :=
  plan.captures.filter fun c => c.rows ≤ budget ∧
    (c.capacity = none ∨ c.capacity = some (familyOf position) ∧ position + c.rows ≤ familyOf position)

theorem available_eq {plan : ReplayPlan} {position budget : Nat}
    (hposition : plan.start ≤ position ∧ position < plan.stop) (hbudget : 1 ≤ budget ∧ budget ≤ plan.stop - position) :
    plan.available position budget = .ok (usable plan position budget) := by
  unfold ReplayPlan.available
  exact raiseIf_bind (by tauto)

theorem mem_usable {position budget : Nat} (hposition : start ≤ position ∧ position < start + remaining)
    (hbudget : 1 ≤ budget ∧ budget ≤ start + remaining - position) {c : Capture} :
    c ∈ usable (planOf verifierRows remaining maxVerifyRows start) position budget ↔
      Fits verifierRows maxVerifyRows position budget c.rows ∧
        (c.rows < 8 ∧ c.position = start ∧ c.capacity = none ∨
          8 ≤ c.rows ∧ c.position = max start (familyOf position - 256) ∧ c.capacity = some (familyOf position)) := by
  unfold usable planOf
  rw [List.mem_filter, mem_planCaptures, mem_widthsUpTo, decide_eq_true_eq]
  have hfamily : familyOf position ∈ capacities start (start + remaining) := by
    rw [mem_capacities (by omega)]
    exact ⟨position / 256, Nat.div_le_div_right hposition.1, Nat.div_le_div_right (by omega), rfl⟩
  constructor
  · rintro ⟨⟨⟨hsupported, hle⟩, hkind⟩, hbudget', hcapacity⟩
    rcases hkind with ⟨hlt, hfirst, hnone⟩ | ⟨hwide, capacity, -, hshare, hfirst, hsome⟩
    · exact ⟨⟨hsupported, by omega, Or.inl hlt⟩, Or.inl ⟨hlt, hfirst, hnone⟩⟩
    · rw [hsome] at hcapacity
      obtain ⟨heq, hinside⟩ := hcapacity.resolve_left fun h => by cases h
      cases heq
      exact ⟨⟨hsupported, by omega, Or.inr hinside⟩, Or.inr ⟨hwide, hfirst, hsome⟩⟩
  · rintro ⟨⟨hsupported, hbounded, hinside⟩, hkind⟩
    refine ⟨⟨⟨hsupported, by omega⟩, ?_⟩, by omega, ?_⟩
    · rcases hkind with hnative | ⟨hwide, hfirst, hsome⟩
      · exact Or.inl hnative
      · refine Or.inr ⟨hwide, familyOf position, hfamily, ?_, hfirst, hsome⟩
        -- the ticket lies in the family and in the budget
        have hend := hinside.resolve_left (by omega)
        have hstart : familyOf position - 256 ≤ position := by
          unfold familyOf
          omega
        unfold Shares
        omega
    · rcases hkind with ⟨-, -, hnone⟩ | ⟨hwide, -, hsome⟩
      · exact Or.inl hnone
      · exact Or.inr ⟨hsome, hinside.resolve_left (by omega)⟩

/-- The capture of a ticket. -/
def captureOf (start position rows : Nat) : Capture :=
  if rows < 8 then ⟨rows, start, none⟩ else ⟨rows, max start (familyOf position - 256), some (familyOf position)⟩

/-- **A ticket's captures of its width**: the one, where the width fits. -/
theorem filter_usable {position budget rows : Nat} (hposition : start ≤ position ∧ position < start + remaining)
    (hbudget : 1 ≤ budget ∧ budget ≤ start + remaining - position) :
    (Fits verifierRows maxVerifyRows position budget rows →
      (usable (planOf verifierRows remaining maxVerifyRows start) position budget).filter (fun c => c.rows = rows) =
        [captureOf start position rows]) ∧
      (¬Fits verifierRows maxVerifyRows position budget rows →
        (usable (planOf verifierRows remaining maxVerifyRows start) position budget).filter (fun c => c.rows = rows) =
          []) := by
  have hmem : ∀ c, c ∈ (usable (planOf verifierRows remaining maxVerifyRows start) position budget).filter
      (fun c => c.rows = rows) ↔ Fits verifierRows maxVerifyRows position budget rows ∧
        c = captureOf start position rows := by
    intro c
    rw [List.mem_filter, mem_usable hposition hbudget, decide_eq_true_eq]
    obtain ⟨width, first, capacity⟩ := c
    unfold captureOf
    constructor
    · rintro ⟨⟨hfits, hkind⟩, rfl⟩
      refine ⟨hfits, ?_⟩
      rcases hkind with ⟨hlt, rfl, rfl⟩ | ⟨hwide, rfl, rfl⟩
      · rw [if_pos hlt]
      · rw [if_neg (Nat.not_lt.mpr hwide)]
    · rintro ⟨hfits, hc⟩
      split at hc <;> rename_i hlt <;> cases hc
      · exact ⟨⟨hfits, Or.inl ⟨hlt, rfl, rfl⟩⟩, rfl⟩
      · exact ⟨⟨hfits, Or.inr ⟨Nat.not_lt.mp hlt, rfl, rfl⟩⟩, rfl⟩
  constructor
  · intro hfits
    have hnd := ((planCaptures_keys (widthsUpTo_nodup verifierRows remaining maxVerifyRows) start
      (start + remaining)).of_map).filter (fun c => c.rows ≤ budget ∧
        (c.capacity = none ∨ c.capacity = some (familyOf position) ∧ position + c.rows ≤ familyOf position))
    refine List.perm_singleton.mp ((List.perm_ext_iff_of_nodup (hnd.filter _) (List.nodup_singleton _)).mpr fun c => ?_)
    rw [List.mem_singleton]
    exact (hmem c).trans ⟨fun h => h.2, fun h => ⟨hfits, h⟩⟩
  · intro hnot
    exact List.eq_nil_iff_forall_not_mem.mpr fun c hc => hnot ((hmem c).mp hc).1

theorem captureOf_holds {position budget rows : Nat} (h : Fits verifierRows maxVerifyRows position budget rows) :
    Holds (captureOf start position rows) position rows := by
  unfold captureOf
  split
  · rename_i hlt
    exact ⟨rfl, Or.inl ⟨rfl, hlt⟩⟩
  · rename_i hwide
    refine ⟨rfl, Or.inr ⟨_, rfl, ?_, h.inside.resolve_left hwide⟩⟩
    unfold familyOf
    omega

/-- **Selection.** A ticket has a capture exactly where its width fits, and it is one of the plan that holds it. -/
theorem select_iff {position budget rows : Nat} (hposition : start ≤ position ∧ position < start + remaining)
    (hbudget : 1 ≤ budget ∧ budget ≤ start + remaining - position) (c : Capture) :
    (planOf verifierRows remaining maxVerifyRows start).select position rows budget = .ok c ↔
      Fits verifierRows maxVerifyRows position budget rows ∧ c = captureOf start position rows := by
  have hselect : (planOf verifierRows remaining maxVerifyRows start).select position rows budget =
      match (usable (planOf verifierRows remaining maxVerifyRows start) position budget).filter
        (fun c => c.rows = rows) with
      | [c] => .ok c
      | _ => .error (.valueError "Ticket has no unique prepared native or mask-family bucket") := by
    unfold ReplayPlan.select
    rw [available_eq hposition hbudget]
    rfl
  rw [hselect]
  by_cases hfits : Fits verifierRows maxVerifyRows position budget rows
  · rw [(filter_usable hposition hbudget).1 hfits]
    exact ⟨fun h => ⟨hfits, (Except.ok.inj h).symm⟩, fun h => by rw [h.2]⟩
  · rw [(filter_usable hposition hbudget).2 hfits]
    exact ⟨fun h => (by cases h), fun h => absurd h.1 hfits⟩

/-- The ticket can use its capture. -/
theorem captureOf_usable {position budget rows : Nat} (hposition : start ≤ position ∧ position < start + remaining)
    (hbudget : 1 ≤ budget ∧ budget ≤ start + remaining - position)
    (hfits : Fits verifierRows maxVerifyRows position budget rows) :
    captureOf start position rows ∈ usable (planOf verifierRows remaining maxVerifyRows start) position budget := by
  refine List.mem_of_mem_filter (p := fun c => c.rows = rows) ?_
  rw [(filter_usable hposition hbudget).1 hfits]
  exact List.mem_singleton_self _

/-- A fitting width is the width of a capture that the ticket can use. -/
theorem mem_usable_rows {position budget rows : Nat} (hposition : start ≤ position ∧ position < start + remaining)
    (hbudget : 1 ≤ budget ∧ budget ≤ start + remaining - position) :
    rows ∈ (usable (planOf verifierRows remaining maxVerifyRows start) position budget).map Capture.rows ↔
      Fits verifierRows maxVerifyRows position budget rows := by
  rw [List.mem_map]
  constructor
  · rintro ⟨c, hc, rfl⟩
    exact ((mem_usable hposition hbudget).mp hc).1
  · intro hfits
    exact ⟨_, captureOf_usable hposition hbudget hfits, (captureOf_holds hfits).1⟩

/-- One row always fits. -/
theorem fits_one {position budget : Nat} (hsupported : maxVerifyRows ∈ VERIFY_WIDTHS)
    (hblock : verifierRows ∈ BLOCK_WIDTHS) (hbudget : 1 ≤ budget) :
    Fits verifierRows maxVerifyRows position budget 1 := by
  have hcap : ∀ rows ∈ VERIFY_WIDTHS, 1 ≤ rows := by decide
  have hrows : ∀ rows ∈ BLOCK_WIDTHS, 1 ≤ rows := by decide
  have hcap := hcap _ hsupported
  have hrows := hrows _ hblock
  exact ⟨by decide, by omega, Or.inl (by decide)⟩

/-- **The widest ticket**: it is always defined. -/
theorem maxRows_widest {position budget : Nat} (hposition : start ≤ position ∧ position < start + remaining)
    (hbudget : 1 ≤ budget ∧ budget ≤ start + remaining - position) (hsupported : maxVerifyRows ∈ VERIFY_WIDTHS)
    (hblock : verifierRows ∈ BLOCK_WIDTHS) :
    ∃ widest, (planOf verifierRows remaining maxVerifyRows start).maxRows position budget = .ok widest ∧
      Fits verifierRows maxVerifyRows position budget widest ∧
      ∀ rows, Fits verifierRows maxVerifyRows position budget rows → rows ≤ widest := by
  have hfits : Fits verifierRows maxVerifyRows position budget 1 := fits_one hsupported hblock hbudget.1
  have hone := (mem_usable_rows hposition hbudget).mpr hfits
  cases hmax : ((usable (planOf verifierRows remaining maxVerifyRows start) position budget).map Capture.rows).max? with
  | none =>
    rw [List.max?_eq_none_iff] at hmax
    rw [hmax] at hone
    exact absurd hone (by simp)
  | some widest =>
    obtain ⟨hmem, hle⟩ := List.max?_eq_some_iff.mp hmax
    refine ⟨widest, ?_, (mem_usable_rows hposition hbudget).mp hmem, fun rows hrows => ?_⟩
    · unfold ReplayPlan.maxRows
      rw [available_eq hposition hbudget]
      refine Eq.trans ?_ (congrArg (fun found : Option Nat => match found with
        | none => Except.error (PyError.valueError "max() iterable argument is empty")
        | some rows => Except.ok rows) hmax)
      rfl
    · exact hle rows ((mem_usable_rows hposition hbudget).mpr hrows)

end Plan

/-! ## The pool -/

/-- The widths of a plan's captures. -/
theorem rows_planCaptures (widths : List Nat) (position stop : Nat) :
    (planCaptures widths position stop).map Capture.rows = widths.filter (· < 8) ++
      (capacities position stop).flatMap fun capacity =>
        widths.filter fun rows => 8 ≤ rows ∧ Shares position stop capacity rows := by
  unfold planCaptures familyCaptures
  rw [List.map_append, List.map_map, List.map_flatMap]
  congr 1
  · exact List.map_id _
  · refine List.flatMap_congr fun capacity _ => ?_
    rw [List.map_map]
    exact List.map_id _

/-- A width that a filter keeps, counted in a list without repetition. -/
theorem count_filter_of_mem {α : Type} [DecidableEq α] {p : α → Bool} {xs : List α} (hnd : xs.Nodup) {x : α}
    (h : x ∈ xs) : (xs.filter p).count x = if p x then 1 else 0 := by
  split
  · rename_i hp
    rw [List.count_filter hp]
    exact List.count_eq_one_of_mem hnd h
  · rename_i hp
    exact List.count_eq_zero.mpr fun hx => hp (List.mem_filter.mp hx).2

/-- **Disjoint shares.** The blocks of a budget's shares, family by family, fit into it. -/
theorem shares_fit (position stop rows n : Nat) :
    rows * ((List.range' (position / 256) n).map fun family =>
      if Shares position stop ((family + 1) * 256) rows then 1 else 0).sum ≤
        min stop ((position / 256 + n) * 256) - position := by
  induction n with
  | zero => simp
  | succ n ih =>
    rw [List.range'_1_concat, List.map_append, List.sum_append, Nat.mul_add, List.map_singleton, List.sum_singleton]
    by_cases hshare : Shares position stop ((position / 256 + n + 1) * 256) rows
    · rw [if_pos hshare, Nat.mul_one]
      have hroom : ∀ before, before ≤ min stop ((position / 256 + n) * 256) - position →
          before + rows ≤ min stop ((position / 256 + (n + 1)) * 256) - position := by
        intro before hbefore
        unfold Shares at hshare
        omega
      exact hroom _ ih
    · rw [if_neg hshare, Nat.mul_zero]
      exact ih.trans (by omega)

/-- The pool's count of a width. -/
def bucketRows (verifierRows remaining maxVerifyRows : Nat) : List Nat :=
  (widthsUpTo verifierRows remaining maxVerifyRows).filter (· < 8) ++
    ((widthsUpTo verifierRows remaining maxVerifyRows).filter (8 ≤ ·)).flatMap fun rows =>
      List.replicate (min (touchedFamilies remaining) (remaining / rows)) rows

theorem captureBucketRows_eq {verifierRows remaining maxVerifyRows : Nat} (hsupported : maxVerifyRows ∈ VERIFY_WIDTHS)
    (hblock : verifierRows ∈ BLOCK_WIDTHS) (hpos : 1 ≤ remaining) :
    captureBucketRows verifierRows remaining maxVerifyRows = .ok (bucketRows verifierRows remaining maxVerifyRows) := by
  unfold captureBucketRows captureWidths
  have hgeometry : ¬(remaining < 1 ∨ remaining < 0 + remaining ∨ verifierRows ∉ BLOCK_WIDTHS) := by
    rintro (h | h | h)
    · omega
    · omega
    · exact h hblock
  rw [raiseIf_bind (by omega), raiseIf_bind (by tauto), raiseIf_bind hgeometry]
  rfl

/-- **The captures of a width**: one below 8, and from 8 on one for each share that holds a block. -/
theorem count_planCaptures {widths : List Nat} (hnd : widths.Nodup) {position stop rows : Nat} :
    ((planCaptures widths position stop).map Capture.rows).count rows =
      if rows ∈ widths then
        if rows < 8 then 1
        else ((capacities position stop).map fun capacity => if Shares position stop capacity rows then 1 else 0).sum
      else 0 := by
  rw [rows_planCaptures, List.count_append, List.count_flatMap]
  by_cases hmem : rows ∈ widths
  · have hcount : ∀ capacity, (widths.filter fun rows => 8 ≤ rows ∧ Shares position stop capacity rows).count rows =
        if 8 ≤ rows ∧ Shares position stop capacity rows then 1 else 0 := by
      intro capacity
      rw [count_filter_of_mem hnd hmem]
      simp only [decide_eq_true_eq]
    rw [if_pos hmem, count_filter_of_mem hnd hmem]
    by_cases hlt : rows < 8
    · rw [if_pos hlt, if_pos (decide_eq_true hlt), List.sum_eq_zero, Nat.add_zero]
      intro x hx
      obtain ⟨capacity, -, rfl⟩ := List.mem_map.mp hx
      rw [Function.comp_apply, hcount, if_neg fun h => absurd h.1 (by omega)]
    · rw [if_neg hlt, if_neg (by simpa using hlt), Nat.zero_add]
      refine congrArg List.sum (List.map_congr_left fun capacity _ => ?_)
      rw [Function.comp_apply, hcount]
      refine if_congr ?_ rfl rfl
      exact ⟨fun h => h.2, fun h => ⟨Nat.not_lt.mp hlt, h⟩⟩
  · have hzero : ∀ p : Nat → Bool, (widths.filter p).count rows = 0 := fun p =>
      List.count_eq_zero.mpr fun h => hmem (List.mem_filter.mp h).1
    rw [if_neg hmem, hzero, Nat.zero_add]
    refine List.sum_eq_zero fun x hx => ?_
    obtain ⟨capacity, -, rfl⟩ := List.mem_map.mp hx
    exact hzero _

/-- The pool's count of a width of the plan. -/
theorem count_bucketRows {verifierRows remaining maxVerifyRows rows : Nat}
    (hmem : rows ∈ widthsUpTo verifierRows remaining maxVerifyRows) :
    (bucketRows verifierRows remaining maxVerifyRows).count rows =
      if rows < 8 then 1 else min (touchedFamilies remaining) (remaining / rows) := by
  have hnd := widthsUpTo_nodup verifierRows remaining maxVerifyRows
  unfold bucketRows
  rw [List.count_append, count_filter_of_mem hnd hmem]
  by_cases hlt : rows < 8
  · rw [if_pos hlt, if_pos (decide_eq_true hlt), List.count_eq_zero.mpr, Nat.add_zero]
    intro h
    obtain ⟨width, hwidth, hrows⟩ := List.mem_flatMap.mp h
    rw [List.eq_of_mem_replicate hrows] at hlt
    exact absurd (of_decide_eq_true (List.mem_filter.mp hwidth).2) (by omega)
  · rw [if_neg hlt, if_neg (by simpa using hlt), Nat.zero_add, List.count_flatMap]
    -- of the replicated widths only its own counts
    have hsum : ∀ xs : List Nat, xs.Nodup → rows ∈ xs → (xs.map (List.count rows ∘ fun width =>
        List.replicate (min (touchedFamilies remaining) (remaining / width)) width)).sum =
          min (touchedFamilies remaining) (remaining / rows) := by
      intro xs hxs hrows
      obtain ⟨before, after, rfl⟩ := List.append_of_mem hrows
      have hother : ∀ ys : List Nat, rows ∉ ys → (ys.map (List.count rows ∘ fun width =>
          List.replicate (min (touchedFamilies remaining) (remaining / width)) width)).sum = 0 := by
        intro ys hys
        refine List.sum_eq_zero fun x hx => ?_
        obtain ⟨width, hwidth, rfl⟩ := List.mem_map.mp hx
        exact List.count_eq_zero.mpr fun h => hys (List.eq_of_mem_replicate h ▸ hwidth)
      rw [List.nodup_append] at hxs
      rw [List.map_append, List.sum_append, hother before fun h => hxs.2.2 _ h _ List.mem_cons_self rfl, List.map_cons,
        List.sum_cons, hother after (List.nodup_cons.mp hxs.2.1).1, Nat.zero_add, Nat.add_zero, Function.comp_apply,
        List.count_replicate_self]
    exact hsum _ (hnd.filter _) (List.mem_filter.mpr ⟨hmem, decide_eq_true (Nat.not_lt.mp hlt)⟩)

/-- **The pool of a budget holds the captures of every budget up to it**, width by width. -/
theorem captures_pooled {verifierRows remaining maxVerifyRows start ceiling : Nat} (hpos : 1 ≤ remaining)
    (hceiling : remaining ≤ ceiling) (rows : Nat) :
    ((planOf verifierRows remaining maxVerifyRows start).captures.map Capture.rows).count rows ≤
      (bucketRows verifierRows ceiling maxVerifyRows).count rows := by
  unfold planOf
  rw [count_planCaptures (widthsUpTo_nodup ..)]
  split
  · rename_i hmem
    have hmem' : rows ∈ widthsUpTo verifierRows ceiling maxVerifyRows := by
      rw [mem_widthsUpTo] at hmem ⊢
      exact ⟨hmem.1, by omega⟩
    have hrows : 1 ≤ rows := (by decide : ∀ rows ∈ VERIFY_WIDTHS, 1 ≤ rows) _ (mem_widthsUpTo.mp hmem).1
    rw [count_bucketRows hmem']
    split
    · exact le_refl 1
    · unfold capacities
      rw [List.map_map]
      have hshares := shares_fit start (start + remaining) rows ((start + remaining - 1) / 256 + 1 - start / 256)
      refine le_min ?_ ?_
      · -- at most one block a family, and the budget touches this many
        refine (List.sum_le_card_nsmul _ 1 ?_).trans ?_
        · intro x hx
          obtain ⟨family, -, rfl⟩ := List.mem_map.mp hx
          show (if _ then 1 else 0) ≤ 1
          split <;> omega
        · rw [List.length_map, List.length_range']
          show _ * 1 ≤ _
          unfold touchedFamilies
          omega
      · -- the blocks are disjoint
        refine (Nat.le_div_iff_mul_le hrows).mpr ?_
        rw [Nat.mul_comm]
        exact hshares.trans (by omega)
  · exact Nat.zero_le _

/-! ## The capture plan -/

/-- A plan that `capturePlan` returns. -/
theorem capturePlan_ok {ladder : Option Bool} {position pageCapacity verifierRows remaining maxVerifyRows : Nat}
    {shortContext : Bool} {plan : ReplayPlan}
    (h : capturePlan ladder position pageCapacity verifierRows remaining maxVerifyRows shortContext = .ok plan) :
    maxVerifyRows ∈ VERIFY_WIDTHS ∧ verifierRows ∈ BLOCK_WIDTHS ∧ 1 ≤ remaining ∧
      plan = planOf verifierRows remaining maxVerifyRows position := by
  unfold capturePlan captureWidths at h
  obtain ⟨widths, hwidths, h⟩ := bind_ok h
  obtain ⟨_, hsupported, hwidths⟩ := bind_ok hwidths
  obtain ⟨_, hgeometry, hwidths⟩ := bind_ok hwidths
  obtain ⟨-, -, h⟩ := bind_ok h
  obtain ⟨-, -, h⟩ := bind_ok h
  obtain ⟨-, -, h⟩ := bind_ok h
  cases hwidths
  cases h
  rw [raiseIf_ok, not_not] at hsupported
  rw [raiseIf_ok, not_or, not_or, not_not] at hgeometry
  exact ⟨hsupported, hgeometry.2.2, Nat.not_lt.mp hgeometry.1, rfl⟩

/-- **Main result.** The plan of a request is sound, complete and within the pool. -/
theorem capture_plan_pooled (ladder : Option Bool)
    (position pageCapacity verifierRows remaining maxVerifyRows : Nat) (shortContext : Bool) (plan : ReplayPlan)
    (h : capturePlan ladder position pageCapacity verifierRows remaining maxVerifyRows shortContext = .ok plan) :
    plan.start = position ∧ plan.stop = position + remaining ∧ (plan.captures.map Capture.key).Nodup ∧
      (∀ ticket budget, plan.start ≤ ticket → ticket < plan.stop → 1 ≤ budget → budget ≤ plan.stop - ticket →
        (∀ rows, (∃ c, plan.select ticket rows budget = .ok c) ↔
          Fits verifierRows maxVerifyRows ticket budget rows) ∧
        (∀ rows c, plan.select ticket rows budget = .ok c → c ∈ plan.captures ∧ Holds c ticket rows) ∧
        ∃ widest, plan.maxRows ticket budget = .ok widest ∧ Fits verifierRows maxVerifyRows ticket budget widest ∧
          ∀ rows, Fits verifierRows maxVerifyRows ticket budget rows → rows ≤ widest) ∧
      ∀ ceiling, remaining ≤ ceiling →
        ∃ pool, captureBucketRows verifierRows ceiling maxVerifyRows = .ok pool ∧
          ∀ rows, (plan.captures.map Capture.rows).count rows ≤ pool.count rows := by
  obtain ⟨hsupported, hblock, hpos, rfl⟩ := capturePlan_ok h
  refine ⟨rfl, rfl, planCaptures_keys (widthsUpTo_nodup ..) .., ?_, ?_⟩
  · intro ticket budget hstart hstop hbudget hle
    refine ⟨fun rows => ⟨?_, ?_⟩, fun rows c hc => ?_, maxRows_widest ⟨hstart, hstop⟩ ⟨hbudget, hle⟩ hsupported hblock⟩
    · rintro ⟨c, hc⟩
      exact ((select_iff ⟨hstart, hstop⟩ ⟨hbudget, hle⟩ c).mp hc).1
    · intro hfits
      exact ⟨_, (select_iff ⟨hstart, hstop⟩ ⟨hbudget, hle⟩ _).mpr ⟨hfits, rfl⟩⟩
    · obtain ⟨hfits, rfl⟩ := (select_iff ⟨hstart, hstop⟩ ⟨hbudget, hle⟩ c).mp hc
      exact ⟨List.mem_of_mem_filter (captureOf_usable ⟨hstart, hstop⟩ ⟨hbudget, hle⟩ hfits), captureOf_holds hfits⟩
  · intro ceiling hceiling
    exact ⟨_, captureBucketRows_eq hsupported hblock (hpos.trans hceiling), captures_pooled hpos hceiling⟩

/-- A budget over the end of a family: seven rows before it, the widest ticket has four. -/
theorem capture_plan_pooled_sample :
    ∃ plan, capturePlan none 4100 8192 16 300 16 false = .ok plan ∧
      (∃ widest, plan.maxRows 4345 20 = .ok widest ∧ ∀ rows, Fits 16 16 4345 20 rows → rows ≤ widest) ∧
      ∃ pool, captureBucketRows 16 512 16 = .ok pool ∧
        ∀ rows, (plan.captures.map Capture.rows).count rows ≤ pool.count rows := by
  refine ⟨planOf 16 300 16 4100, rfl, ?_⟩
  obtain ⟨-, -, -, htickets, hpool⟩ := capture_plan_pooled none 4100 8192 16 300 16 false _ rfl
  obtain ⟨-, -, widest, hmax, -, hwidest⟩ := htickets 4345 20 (by decide) (by decide) (by decide) (by decide)
  exact ⟨⟨widest, hmax, hwidest⟩, hpool 512 (by decide)⟩

end BlackholeQwen.Attention
