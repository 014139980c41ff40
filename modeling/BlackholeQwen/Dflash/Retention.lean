import BlackholeQwen.Lib.Call
import BlackholeQwen.Lib.Dict
import BlackholeQwen.Lib.Runs
import Mathlib.Data.Finset.Basic

/-!
# Indexed retention (`draft_kv_history.py`, `dflash_device.py`)

A scope retains temporaries: a value at a protected identity is kept, one that shares an address on a chip with a
protected identity is refused, and any other is queued, to be released on exit unless the cache owns it by then. The
list scan compares identities (`scanRetain`, `scanRelease`); the indexed scope looks addresses up in a set for each chip
(`indexedRetain`, `indexedRelease`) and keeps the identities of the lent tensors with the tensors
(`borrowedIdentities`); its audit makes every decision again by the scan.

- `indexedRetain_eq`, `indexedRelease_eq`: on two-chip identities the lookups decide as the scans do.
- `borrowedIdentities_changed`, `borrowedIdentities_fixed`: a changed borrowed set is read again, and while lent tensors
  keep their addresses a reused one is what a read would give.
- `retention_exact`: so whatever the flags, the scopes of a run end as those of the scan.
-/

namespace BlackholeQwen.Dflash.Retention

open Lib

variable {V α : Type}

/-- `addresses`: the address of a tensor on each of the two chips. -/
def addresses (shards : V → List Nat) (value : V) : Except PyError (List Nat) := do
  raiseIf ((shards value).length ≠ 2) (.valueError "Both chips required")
  return shards value

/-- `release_owned`: the deallocated tensors, one of each identity. -/
def releaseOwned (shards : V → List Nat) (tensors : List V) : Except PyError (List V) := do
  let identities ← tensors.mapM (addresses shards)
  return (Dict.ofList (identities.zip tensors)).values

/-! ## The list scan -/

/-- `any(left == right for left, right in zip(identity, other, strict=True))`. -/
def anyChip : List Nat → List Nat → Except PyError Bool
  | [], [] => .ok false
  | left :: identity, right :: other => if left = right then .ok true else anyChip identity other
  | [], _ :: _ => .error (.valueError "zip() argument 2 is longer than argument 1")
  | _ :: _, [] => .error (.valueError "zip() argument 2 is shorter than argument 1")

/-- `any(any(…) for other in identities)`. -/
def anyAlias (identity : List Nat) : List (List Nat) → Except PyError Bool
  | [] => .ok false
  | other :: others => anyChip identity other >>= fun same => if same then .ok true else anyAlias identity others

/-- `retain` of the list scan, on the queued values. -/
def scanRetain (message : String) (identities : List (List Nat)) (shards : V → List Nat) (value : V) (owned : List V) :
    Call (List V) V :=
  .attempt (addresses shards value) owned fun identity =>
    if identity ∈ identities then .ret owned value
    else .attempt (anyAlias identity identities) owned fun aliased =>
      if aliased then .throw owned (.valueError message) else .ret (owned ++ [value]) value

/-- `[value for value in owned if addresses(…, value) not in persistent]`. -/
def unlisted (persistent : List Nat → Bool) (shards : V → List Nat) (owned : List V) : Except PyError (List V) := do
  let identities ← owned.mapM (addresses shards)
  return ((owned.zip identities).filter fun p => !persistent p.2).map Prod.fst

/-- The exit of the list scan: what it deallocates. -/
def scanRelease (identities : List (List Nat)) (shards : V → List Nat) (owned cacheOwned : List V) :
    Call (List V) Unit :=
  .attempt (cacheOwned.mapM (addresses shards)) [] fun own =>
    .attempt (unlisted (fun identity => identity ∈ identities ++ own) shards owned) [] fun values =>
      .attempt (releaseOwned shards values) [] fun released => .ret released ()

/-! ## The indexed scope -/

/-- `for chip, address in enumerate(identity): chips[chip].add(address)`. -/
def addIdentity : List (Finset Nat) → List Nat → List (Finset Nat)
  | known :: chips, address :: identity => insert address known :: addIdentity chips identity
  | chips, _ => chips

/-- The addresses of the protected identities on each chip. -/
def chipSets (identities : List (List Nat)) : List (Finset Nat) :=
  identities.foldl addIdentity (List.replicate ((identities.map List.length).foldr max 0) ∅)

/-- `retain` by set lookups. -/
def indexedRetain (message : String) (identities : List (List Nat)) (shards : V → List Nat) (value : V)
    (owned : List V) : Call (List V) V :=
  .attempt (addresses shards value) owned fun identity =>
    if identity ∈ identities.toFinset then .ret owned value
    else if (identity.zip (chipSets identities)).any (fun p => p.1 ∈ p.2) then .throw owned (.valueError message)
    else .ret (owned ++ [value]) value

/-- What a `retain` does with a value. -/
inductive Decision
  | kept
  | refused
  | queued
  | unequal
  deriving DecidableEq, Repr

/-- A decision, as the audit logs it. -/
def Decision.text : Decision → String
  | kept => "kept"
  | refused => "refused"
  | queued => "queued"
  | unequal => "unequal"

/-- `scanned_decision`. -/
def scannedDecision (identities : List (List Nat)) (identity : List Nat) : Decision :=
  if identity ∈ identities then .kept
  else match anyAlias identity identities with
    | .ok true => .refused
    | .ok false => .queued
    | .error _ => .unequal

/-- `round_b1_audit_mismatch` for the cut of the scopes. -/
def mismatch (detail : String) : PyError := .assertionError ("[PINDIAG] round b1 audit mismatch cut=C2 " ++ detail)

/-- `audit_retain`. -/
def auditRetain (identities : List (List Nat)) (identity : List Nat) (decided : Decision) : Except PyError Unit :=
  raiseIf (decided ≠ scannedDecision identities identity)
    (mismatch ("retain " ++ decided.text ++ " where the scan decides " ++ (scannedDecision identities identity).text))

/-- `audited_retain`. -/
def auditedRetain (retain : (V → List Nat) → V → List V → Call (List V) V) (identities : List (List Nat))
    (shards : V → List Nat) (value : V) (owned : List V) : Call (List V) V :=
  .attempt (addresses shards value) owned fun identity =>
    let c := retain shards value owned
    match c.result with
    | .error (.valueError text) =>
      .attempt (auditRetain identities identity .refused) c.obj fun _ => .throw c.obj (.valueError text)
    | .error e => .throw c.obj e
    | .ok _ =>
      .attempt (auditRetain identities identity (if owned.length < c.obj.length then .queued else .kept)) c.obj
        fun _ => .ret c.obj value

/-- The `retain` of an indexed scope, under its audit flag. -/
def scopedRetain (audit : Bool) (message : String) (identities : List (List Nat)) :
    (V → List Nat) → V → List V → Call (List V) V :=
  if audit then auditedRetain (indexedRetain message identities) identities else indexedRetain message identities

section

variable [DecidableEq V]

/-- The exit of an indexed scope: what it deallocates. -/
def indexedRelease (audit : Bool) (identities : List (List Nat)) (shards : V → List Nat) (owned cacheOwned : List V) :
    Call (List V) Unit :=
  .attempt (cacheOwned.mapM (addresses shards)) [] fun own =>
    .attempt (unlisted (fun identity => identity ∈ identities.toFinset ∪ own.toFinset) shards owned) [] fun released =>
      let expected := if audit then cacheOwned.mapM (addresses shards) >>= fun own =>
        unlisted (fun identity => identity ∈ identities ++ own) shards owned else .ok released
      .attempt expected [] fun expected =>
        .attempt (releaseOwned shards released) [] fun deallocated =>
          .attempt (raiseIf (audit = true ∧ expected ≠ released) (mismatch ("scope releases " ++
            toString released.length ++ " values where the scan releases " ++ toString expected.length))) deallocated
            fun _ => .ret deallocated ()

/-- `_round_b1_borrowed`: lent tensors with their identities. -/
abbrev Cached (V : Type) := Option (List V × List (List Nat))

/-- `borrowed_identities`: the identities of the lent tensors, read when the tensors are not those of the cache. -/
def borrowedIdentities (audit : Bool) (shards : V → List Nat) (borrowed : List V) (cached : Cached V) :
    Call (Cached V) (List (List Nat)) :=
  let read := Call.attempt (borrowed.mapM (addresses shards)) cached fun fresh => .ret (some (borrowed, fresh)) fresh
  match cached with
  | none => read
  | some (tensors, identities) =>
    if tensors ≠ borrowed then read
    else if audit ∧ borrowed ≠ [] then
      .attempt (borrowed.mapM (addresses shards)) cached fun fresh =>
        .attempt (raiseIf (fresh ≠ identities) (mismatch ("cached borrowed addresses are stale (" ++
          toString fresh.length ++ " tensors)"))) cached fun _ => .ret cached identities
    else .ret cached identities

end

/-! ## Scopes -/

/-- The body of a scope. It may go on by what a `retain` answers, at the addresses of that moment, the cache may come to
own values, and it returns or raises. -/
inductive Body (V α : Type)
  | done (shards : V → List Nat) (result : Except PyError α)
  | retain (shards : V → List Nat) (value : V) (next : Except PyError V → Body V α)
  | grow (values : List V) (next : Body V α)

/-- Where a body ends. -/
structure Ended (V α : Type) where
  decisions : List (V × Decision)
  owned : List V
  cacheOwned : List V
  shards : V → List Nat
  result : Except PyError α

/-- What a `retain` did, read off its call. -/
def decided (owned : List V) (c : Call (List V) V) : Decision :=
  match c.result with
  | .error _ => .refused
  | .ok _ => if owned.length < c.obj.length then .queued else .kept

/-- A body, run with a `retain`. -/
def Body.run (retain : (V → List Nat) → V → List V → Call (List V) V) : Body V α → List V → List V → Ended V α
  | .done shards result, owned, cacheOwned => ⟨[], owned, cacheOwned, shards, result⟩
  | .retain shards value next, owned, cacheOwned =>
    let c := retain shards value owned
    let rest := (next c.result).run retain c.obj cacheOwned
    { rest with decisions := (value, decided owned c) :: rest.decisions }
  | .grow values next, owned, cacheOwned => next.run retain owned (cacheOwned ++ values)

/-- A scope with its flags, the addresses and the tensors it finds on entry, and its body. -/
structure Scope (V α : Type) where
  roundB1 : Bool
  audit : Bool
  shards : V → List Nat
  owned : List V
  projectionOwned : List V
  borrowed : List V
  guarded : List V
  body : Body V α

/-- What a scope did with its values, what it released, and how it ended. -/
structure Outcome (V α : Type) where
  decisions : List (V × Decision)
  owned : List V
  released : List V
  result : Except PyError α

/-- A scope of the draft cache: its body, then the release, whose exception replaces the body's. -/
def Scope.within (scope : Scope V α) (retain : List (List Nat) → (V → List Nat) → V → List V → Call (List V) V)
    (release : List (List Nat) → (V → List Nat) → List V → List V → Call (List V) Unit) :
    Except PyError (List (List Nat)) → Outcome V α
  | .error e => ⟨[], [], [], .error e⟩
  | .ok identities =>
    let ended := scope.body.run (retain identities) [] scope.owned
    let exit := release identities ended.shards ended.owned ended.cacheOwned
    ⟨ended.decisions, ended.owned, exit.obj, exit.result >>= fun _ => ended.result⟩

def CACHE_MESSAGE : String := "Draft cache temporary partially aliases borrowed storage"

/-- `DraftKVHistory.temporaries` with the flag off. -/
def Scope.scan (scope : Scope V α) : Outcome V α :=
  scope.within (scanRetain CACHE_MESSAGE) scanRelease
    ((scope.owned ++ scope.projectionOwned ++ scope.borrowed ++ scope.guarded).mapM (addresses scope.shards))

/-- The protected identities of `indexed_temporaries`. -/
def Scope.indexedIdentities [DecidableEq V] (scope : Scope V α) (cached : Cached V) :
    Call (Cached V) (List (List Nat)) :=
  .attempt ((scope.owned ++ scope.projectionOwned).mapM (addresses scope.shards)) cached fun own =>
    (borrowedIdentities scope.audit scope.shards scope.borrowed cached).bind fun cached lent =>
      .attempt (scope.guarded.mapM (addresses scope.shards)) cached fun guarded => .ret cached (own ++ lent ++ guarded)

/-- `DraftKVHistory.temporaries`, with the cache it leaves. -/
def Scope.temporaries [DecidableEq V] (cached : Cached V) (scope : Scope V α) : Cached V × Outcome V α :=
  if scope.roundB1 then
    let entry := scope.indexedIdentities cached
    (entry.obj, scope.within (scopedRetain scope.audit CACHE_MESSAGE) (indexedRelease scope.audit) entry.result)
  else (cached, scope.scan)

def DEVICE_MESSAGE : String := "Draft temporary must not partially alias protected storage"

/-- A scope of the draft device: its `owned` list is the caller's to release. -/
def Scope.lending (scope : Scope V α) (retain : List (List Nat) → (V → List Nat) → V → List V → Call (List V) V) :
    Except PyError (List (List Nat)) → Outcome V α
  | .error e => ⟨[], [], [], .error e⟩
  | .ok identities =>
    let ended := scope.body.run (retain identities) [] scope.owned
    ⟨ended.decisions, ended.owned, [], ended.result⟩

/-- `DFlashDevice.temporaries` with the flag off. -/
def Scope.deviceScan (scope : Scope V α) : Outcome V α :=
  scope.lending (scanRetain DEVICE_MESSAGE) ((scope.guarded ++ scope.borrowed).mapM (addresses scope.shards))

/-- `DFlashDevice.temporaries`, with the cache it leaves. -/
def Scope.deviceTemporaries [DecidableEq V] (cached : Cached V) (scope : Scope V α) : Cached V × Outcome V α :=
  if scope.roundB1 then
    let entry := Call.attempt (scope.guarded.mapM (addresses scope.shards)) cached fun guarded =>
      (borrowedIdentities scope.audit scope.shards scope.borrowed cached).bind fun cached lent =>
        .ret cached (guarded ++ lent)
    (entry.obj, scope.lending (scopedRetain scope.audit DEVICE_MESSAGE) entry.result)
  else (cached, scope.deviceScan)

/-! ## Lookups -/

/-- A read identity is that of two chips. -/
theorem addresses_ok {shards : V → List Nat} {value : V} {identity : List Nat} :
    addresses shards value = .ok identity ↔ shards value = identity ∧ identity.length = 2 := by
  unfold addresses
  constructor
  · intro h
    obtain ⟨_, hcheck, h⟩ := bind_ok h
    cases h
    exact ⟨rfl, not_not.mp (raiseIf_ok.mp hcheck)⟩
  · rintro ⟨rfl, hlength⟩
    rw [raiseIf_bind (not_not.mpr hlength)]
    rfl

theorem mapM_pairs {shards : V → List Nat} {values : List V} {identities : List (List Nat)}
    (h : values.mapM (addresses shards) = .ok identities) : ∀ identity ∈ identities, identity.length = 2 := by
  intro identity hmem
  obtain ⟨value, -, hvalue⟩ := (mem_mapM h).mp hmem
  exact (addresses_ok.mp hvalue).2

/-- The scan of pairs finds an address shared on a chip. -/
theorem anyAlias_pairs {identities : List (List Nat)} (h : ∀ identity ∈ identities, identity.length = 2) (a b : Nat) :
    anyAlias [a, b] identities = .ok (decide (∃ other ∈ identities, other[0]? = some a ∨ other[1]? = some b)) := by
  induction identities with
  | nil => rfl
  | cons other others ih =>
    obtain ⟨c, d, rfl⟩ := List.length_eq_two.mp (h other List.mem_cons_self)
    have hrest := ih fun identity hmem => h identity (List.mem_cons_of_mem _ hmem)
    have hchip : anyChip [a, b] [c, d] = .ok (decide (a = c ∨ b = d)) := by
      unfold anyChip
      by_cases hac : a = c
      · simp [hac]
      · by_cases hbd : b = d
        · simp [anyChip, hac, hbd]
        · simp [anyChip, hac, hbd]
    unfold anyAlias
    rw [hchip, hrest]
    show (if _ then _ else _) = _
    by_cases hcd : a = c ∨ b = d
    · rw [if_pos (decide_eq_true hcd)]
      refine congrArg _ (decide_eq_true ⟨[c, d], List.mem_cons_self, ?_⟩).symm
      exact hcd.imp (fun e => by simp [e]) fun e => by simp [e]
    · rw [if_neg (by simpa using hcd)]
      refine congrArg _ (decide_eq_decide.mpr ?_)
      rw [List.exists_mem_cons_iff, or_iff_right]
      rintro (e | e)
      · exact hcd (Or.inl (by simpa using e.symm))
      · exact hcd (Or.inr (by simpa using e.symm))

/-- The chip sets of pairs. -/
theorem addIdentity_pairs {identities : List (List Nat)} (h : ∀ identity ∈ identities, identity.length = 2)
    (A B : Finset Nat) : ∃ A' B', identities.foldl addIdentity [A, B] = [A', B'] ∧
      (∀ x, x ∈ A' ↔ x ∈ A ∨ ∃ other ∈ identities, other[0]? = some x) ∧
      ∀ x, x ∈ B' ↔ x ∈ B ∨ ∃ other ∈ identities, other[1]? = some x := by
  induction identities generalizing A B with
  | nil => exact ⟨A, B, rfl, fun x => by simp, fun x => by simp⟩
  | cons other others ih =>
    obtain ⟨c, d, rfl⟩ := List.length_eq_two.mp (h other List.mem_cons_self)
    obtain ⟨A', B', hfold, hA, hB⟩ := ih (fun identity hmem => h identity (List.mem_cons_of_mem _ hmem)) (insert c A)
      (insert d B)
    refine ⟨A', B', hfold, fun x => ?_, fun x => ?_⟩
    · rw [hA, Finset.mem_insert, List.exists_mem_cons_iff, List.getElem?_cons_zero, Option.some.injEq, eq_comm (a := x)]
      tauto
    · rw [hB, Finset.mem_insert, List.exists_mem_cons_iff, List.getElem?_cons_succ, List.getElem?_cons_zero,
        Option.some.injEq, eq_comm (a := x)]
      tauto

/-- The lookups find an address shared on a chip. -/
theorem lookup_pairs {identities : List (List Nat)} (h : ∀ identity ∈ identities, identity.length = 2) (a b : Nat) :
    (([a, b].zip (chipSets identities)).any fun p => p.1 ∈ p.2) =
      decide (∃ other ∈ identities, other[0]? = some a ∨ other[1]? = some b) := by
  have hwidth : identities ≠ [] → (identities.map List.length).foldr max 0 = 2 := by
    intro hne
    clear a b
    induction identities with
    | nil => exact absurd rfl hne
    | cons other others ih =>
      rw [List.map_cons, List.foldr_cons, h other List.mem_cons_self]
      by_cases hothers : others = []
      · rw [hothers]
        rfl
      · rw [ih (fun identity hmem => h identity (List.mem_cons_of_mem _ hmem)) hothers]
        rfl
  by_cases hne : identities = []
  · subst hne
    rfl
  · unfold chipSets
    rw [hwidth hne]
    obtain ⟨A, B, hfold, hA, hB⟩ := addIdentity_pairs h ∅ ∅
    rw [show List.replicate 2 (∅ : Finset Nat) = [∅, ∅] from rfl, hfold]
    have hany : (([a, b].zip [A, B]).any fun p => decide (p.1 ∈ p.2)) = decide (a ∈ A ∨ b ∈ B) := by
      simp [List.zip, List.any]
    rw [hany]
    refine decide_eq_decide.mpr ?_
    rw [hA, hB]
    simp only [Finset.notMem_empty, false_or]
    constructor
    · rintro (⟨other, hmem, ha⟩ | ⟨other, hmem, hb⟩)
      · exact ⟨other, hmem, Or.inl ha⟩
      · exact ⟨other, hmem, Or.inr hb⟩
    · rintro ⟨other, hmem, ha | hb⟩
      · exact Or.inl ⟨other, hmem, ha⟩
      · exact Or.inr ⟨other, hmem, hb⟩

/-! ## Retaining and releasing -/

/-- **The lookups retain** as the scan does. -/
theorem indexedRetain_eq {identities : List (List Nat)} (h : ∀ identity ∈ identities, identity.length = 2)
    (message : String) : (indexedRetain message identities : (V → List Nat) → V → List V → Call (List V) V) =
      scanRetain message identities := by
  funext shards value owned
  unfold indexedRetain scanRetain
  cases hvalue : addresses shards value with
  | error e => rfl
  | ok identity =>
    obtain ⟨a, b, rfl⟩ := List.length_eq_two.mp (addresses_ok.mp hvalue).2
    rw [Call.attempt_ok, Call.attempt_ok, anyAlias_pairs h, lookup_pairs h, Call.attempt_ok]
    exact if_congr List.mem_toFinset rfl rfl

/-- What the scan does with a value is what the audit expects. -/
theorem scanRetain_audited {identities : List (List Nat)} (h : ∀ identity ∈ identities, identity.length = 2)
    (message : String) : (auditedRetain (scanRetain message identities) identities :
      (V → List Nat) → V → List V → Call (List V) V) = scanRetain message identities := by
  funext shards value owned
  unfold auditedRetain
  cases hvalue : addresses shards value with
  | error e =>
    unfold scanRetain
    rw [hvalue]
    rfl
  | ok identity =>
    obtain ⟨a, b, rfl⟩ := List.length_eq_two.mp (addresses_ok.mp hvalue).2
    have hpass : ∀ {d : Decision}, d = scannedDecision identities [a, b] →
        auditRetain identities [a, b] d = .ok () := fun hd => raiseIf_ok.mpr (not_not.mpr hd)
    rw [Call.attempt_ok]
    by_cases hkept : [a, b] ∈ identities
    · have hscan : scanRetain message identities shards value owned = .ret owned value := by
        unfold scanRetain
        rw [hvalue, Call.attempt_ok, if_pos hkept]
      have hdecision : scannedDecision identities [a, b] = .kept := if_pos hkept
      rw [hscan]
      show Call.attempt (auditRetain _ _ (if owned.length < owned.length then _ else _)) _ _ = _
      rw [if_neg (Nat.lt_irrefl _), hpass hdecision.symm]
      rfl
    · by_cases halias : ∃ other ∈ identities, other[0]? = some a ∨ other[1]? = some b
      · have hfound : anyAlias [a, b] identities = .ok true := by rw [anyAlias_pairs h, decide_eq_true halias]
        have hscan : scanRetain message identities shards value owned = .throw owned (.valueError message) := by
          unfold scanRetain
          rw [hvalue, Call.attempt_ok, if_neg hkept, hfound]
          rfl
        have hdecision : scannedDecision identities [a, b] = .refused := by
          unfold scannedDecision
          rw [if_neg hkept, hfound]
        rw [hscan]
        show Call.attempt (auditRetain _ _ _) _ _ = _
        rw [hpass hdecision.symm]
        rfl
      · have hnone : anyAlias [a, b] identities = .ok false := by rw [anyAlias_pairs h, decide_eq_false halias]
        have hscan : scanRetain message identities shards value owned = .ret (owned ++ [value]) value := by
          unfold scanRetain
          rw [hvalue, Call.attempt_ok, if_neg hkept, hnone]
          rfl
        have hdecision : scannedDecision identities [a, b] = .queued := by
          unfold scannedDecision
          rw [if_neg hkept, hnone]
        rw [hscan]
        show Call.attempt (auditRetain _ _ (if owned.length < (owned ++ [value]).length then _ else _)) _ _ = _
        rw [if_pos (by simp), hpass hdecision.symm]
        rfl

/-- **A scope's `retain`**, audited or not, is that of the scan. -/
theorem scopedRetain_eq {identities : List (List Nat)} (h : ∀ identity ∈ identities, identity.length = 2)
    (audit : Bool) (message : String) :
    (scopedRetain audit message identities : (V → List Nat) → V → List V → Call (List V) V) =
      scanRetain message identities := by
  unfold scopedRetain
  rw [indexedRetain_eq h, scanRetain_audited h]
  exact ite_self _

/-- A device scope whose identities are pairs ends alike with the indexed calls. -/
theorem Scope.lending_indexed (scope : Scope V α) {entry : Except PyError (List (List Nat))}
    (h : ∀ identities, entry = .ok identities → ∀ identity ∈ identities, identity.length = 2) (message : String) :
    scope.lending (scopedRetain scope.audit message) entry = scope.lending (scanRetain message) entry := by
  cases entry with
  | error e => rfl
  | ok identities =>
    simp only [Scope.lending, scopedRetain_eq (h identities rfl)]

section

variable [DecidableEq V]

/-- **The sets release** as the lists do, audited or not. -/
theorem indexedRelease_eq (audit : Bool) (identities : List (List Nat)) :
    (indexedRelease audit identities : (V → List Nat) → List V → List V → Call (List V) Unit) =
      scanRelease identities := by
  funext shards owned cacheOwned
  unfold indexedRelease scanRelease
  cases hown : cacheOwned.mapM (addresses shards) with
  | error e => rfl
  | ok own =>
    have hset : (fun identity => decide (identity ∈ identities.toFinset ∪ own.toFinset)) =
        fun identity => decide (identity ∈ identities ++ own) := funext fun identity => by
      rw [decide_eq_decide, Finset.mem_union, List.mem_toFinset, List.mem_toFinset, List.mem_append]
    rw [Call.attempt_ok, Call.attempt_ok, hset]
    cases hvalues : unlisted (fun identity => decide (identity ∈ identities ++ own)) shards owned with
    | error e => rfl
    | ok values =>
      have hexpected : (if audit = true then (Except.ok own >>= fun own =>
          unlisted (fun identity => decide (identity ∈ identities ++ own)) shards owned) else .ok values) =
            .ok values := by
        cases audit
        · rfl
        · exact hvalues
      rw [Call.attempt_ok, Call.attempt_ok, hexpected, Call.attempt_ok]
      cases releaseOwned shards values with
      | error e => rfl
      | ok released =>
        rw [Call.attempt_ok, Call.attempt_ok, (raiseIf_ok (u := ())).mpr fun h => h.2 rfl]
        rfl

/-! ## Borrowed identities -/

/-- **A changed borrowed set is read again.** -/
theorem borrowedIdentities_changed {cached : Cached V} {borrowed : List V} (h : cached.map Prod.fst ≠ some borrowed)
    (audit : Bool) (shards : V → List Nat) : borrowedIdentities audit shards borrowed cached =
      .attempt (borrowed.mapM (addresses shards)) cached fun fresh => .ret (some (borrowed, fresh)) fresh := by
  unfold borrowedIdentities
  cases cached with
  | none => rfl
  | some entry =>
    obtain ⟨tensors, identities⟩ := entry
    exact if_pos fun heq => h (congrArg some heq)

/-- The cached identities are those at which the lent tensors stay. -/
def Fresh (home : V → List Nat) (cached : Cached V) : Prop :=
  ∀ tensors identities, cached = some (tensors, identities) → tensors.mapM (addresses home) = .ok identities

/-- **While lent tensors keep their addresses**, their identities are what a read gives. -/
theorem borrowedIdentities_fixed {home shards : V → List Nat} {borrowed : List V}
    (hlent : ∀ v ∈ borrowed, shards v = home v)
    {cached : Cached V} (hfresh : Fresh home cached) (audit : Bool) :
    (borrowedIdentities audit shards borrowed cached).result = borrowed.mapM (addresses shards) ∧
      Fresh home (borrowedIdentities audit shards borrowed cached).obj := by
  have hread : borrowed.mapM (addresses shards) = borrowed.mapM (addresses home) :=
    mapM_congr fun v hv => by unfold addresses; rw [hlent v hv]
  by_cases hsame : cached.map Prod.fst = some borrowed
  · obtain ⟨⟨tensors, identities⟩, rfl, rfl⟩ := Option.map_eq_some_iff.mp hsame
    have hhome : tensors.mapM (addresses shards) = .ok identities := hread.trans (hfresh _ _ rfl)
    have hreuse : borrowedIdentities audit shards tensors (some (tensors, identities)) =
        .ret (some (tensors, identities)) identities := by
      unfold borrowedIdentities
      show (if tensors ≠ tensors then _ else _) = _
      rw [if_neg (not_not.mpr rfl), hhome, Call.attempt_ok, (raiseIf_ok (u := ())).mpr (not_not.mpr rfl)]
      exact ite_self _
    rw [hreuse]
    exact ⟨hhome.symm, hfresh⟩
  · rw [borrowedIdentities_changed hsame]
    cases hborrowed : borrowed.mapM (addresses shards) with
    | error e => exact ⟨rfl, hfresh⟩
    | ok fresh =>
      refine ⟨rfl, fun tensors identities heq => ?_⟩
      cases heq
      exact hread.symm.trans hborrowed

/-! ## Scopes -/

/-- A scope whose identities are pairs ends alike with the indexed calls. -/
theorem Scope.within_indexed (scope : Scope V α) {entry : Except PyError (List (List Nat))}
    (h : ∀ identities, entry = .ok identities → ∀ identity ∈ identities, identity.length = 2) (message : String) :
    scope.within (scopedRetain scope.audit message) (indexedRelease scope.audit) entry =
      scope.within (scanRetain message) scanRelease entry := by
  cases entry with
  | error e => rfl
  | ok identities =>
    simp only [Scope.within, scopedRetain_eq (h identities rfl), indexedRelease_eq]

/-- The lent tensors of a scope are where they stay. -/
def Scope.Lent (home : V → List Nat) (scope : Scope V α) : Prop := ∀ v ∈ scope.borrowed, scope.shards v = home v

/-- **One scope of the draft cache.** -/
theorem Scope.temporaries_eq {home : V → List Nat} {scope : Scope V α} (hlent : scope.Lent home) {cached : Cached V}
    (hfresh : Fresh home cached) :
    (scope.temporaries cached).2 = scope.scan ∧ Fresh home (scope.temporaries cached).1 := by
  unfold Scope.temporaries
  by_cases hflag : scope.roundB1 = true
  · rw [if_pos hflag]
    obtain ⟨hresult, hobj⟩ := borrowedIdentities_fixed hlent hfresh scope.audit
    have hentry : (scope.indexedIdentities cached).result =
        (scope.owned ++ scope.projectionOwned ++ scope.borrowed ++ scope.guarded).mapM (addresses scope.shards) ∧
          Fresh home (scope.indexedIdentities cached).obj := by
      unfold Scope.indexedIdentities
      generalize scope.owned ++ scope.projectionOwned = owns
      rw [List.mapM_append, List.mapM_append]
      cases owns.mapM (addresses scope.shards) with
      | error e => exact ⟨rfl, hfresh⟩
      | ok own =>
        rw [Call.attempt_ok]
        rcases Call.bind_cases (borrowedIdentities scope.audit scope.shards scope.borrowed cached)
          (fun cached lent => Call.attempt (scope.guarded.mapM (addresses scope.shards)) cached fun guarded =>
            .ret cached (own ++ lent ++ guarded)) with ⟨e, he, hbind⟩ | ⟨lent, hlents, hbind⟩
        · rw [hbind, ← hresult, he]
          exact ⟨rfl, hobj⟩
        · rw [hbind, ← hresult, hlents]
          cases scope.guarded.mapM (addresses scope.shards) with
          | error e => exact ⟨rfl, hobj⟩
          | ok guarded => exact ⟨rfl, hobj⟩
    refine ⟨?_, hentry.2⟩
    show scope.within _ _ (scope.indexedIdentities cached).result = _
    rw [hentry.1]
    exact scope.within_indexed (fun _ h => mapM_pairs h) CACHE_MESSAGE
  · rw [if_neg hflag]
    exact ⟨rfl, hfresh⟩

/-- **One scope of the draft device.** -/
theorem Scope.deviceTemporaries_eq {home : V → List Nat} {scope : Scope V α} (hlent : scope.Lent home)
    {cached : Cached V} (hfresh : Fresh home cached) :
    (scope.deviceTemporaries cached).2 = scope.deviceScan ∧ Fresh home (scope.deviceTemporaries cached).1 := by
  unfold Scope.deviceTemporaries
  by_cases hflag : scope.roundB1 = true
  · rw [if_pos hflag]
    obtain ⟨hresult, hobj⟩ := borrowedIdentities_fixed hlent hfresh scope.audit
    unfold Scope.deviceScan
    rw [List.mapM_append]
    cases hguarded : scope.guarded.mapM (addresses scope.shards) with
    | error e => exact ⟨rfl, hfresh⟩
    | ok guarded =>
      rw [Call.attempt_ok]
      rcases Call.bind_cases (borrowedIdentities scope.audit scope.shards scope.borrowed cached)
        (fun cached lent => Call.ret cached (guarded ++ lent)) with ⟨e, he, hbind⟩ | ⟨lent, hlents, hbind⟩
      · rw [hbind, ← hresult, he]
        exact ⟨rfl, hobj⟩
      · rw [hbind, ← hresult, hlents]
        have hpairs : ∀ identities, (Except.ok (guarded ++ lent) : Except PyError _) = .ok identities →
            ∀ identity ∈ identities, identity.length = 2 := by
          rintro _ h identity hmem
          cases h
          rcases List.mem_append.mp hmem with hleft | hright
          · exact mapM_pairs hguarded _ hleft
          · exact mapM_pairs (hresult.symm.trans hlents) _ hright
        exact ⟨scope.lending_indexed hpairs DEVICE_MESSAGE, hobj⟩
  · rw [if_neg hflag]
    exact ⟨rfl, hfresh⟩

/-! ## Main result -/

/-- **Main result.** While the lent tensors stay at their addresses, every scope of a run of the draft cache or of the
draft device, with any flags, bodies and growth of the owned list, decides, queues, releases and ends as the list scan
does; and lent tensors other than those of the cache are read again. -/
theorem retention_exact (home : V → List Nat) :
    (∀ scopes : List (Scope V α), (∀ scope ∈ scopes, scope.Lent home) →
      (answers Scope.temporaries none scopes).1 = scopes.map Scope.scan ∧
      (answers Scope.deviceTemporaries none scopes).1 = scopes.map Scope.deviceScan) ∧
    ∀ (cached : Cached V) (borrowed : List V) (audit : Bool) (shards : V → List Nat),
      cached.map Prod.fst ≠ some borrowed → borrowedIdentities audit shards borrowed cached =
        .attempt (borrowed.mapM (addresses shards)) cached fun fresh => .ret (some (borrowed, fresh)) fresh := by
  have hrun : ∀ {step : Cached V → Scope V α → Cached V × Outcome V α} {scan : Scope V α → Outcome V α},
      (∀ {scope : Scope V α}, scope.Lent home → ∀ {cached}, Fresh home cached →
        (step cached scope).2 = scan scope ∧ Fresh home (step cached scope).1) →
      ∀ {scopes : List (Scope V α)}, (∀ scope ∈ scopes, scope.Lent home) → ∀ {cached}, Fresh home cached →
        (answers step cached scopes).1 = scopes.map scan := by
    intro step scan hstep scopes
    induction scopes with
    | nil => exact fun _ _ _ => rfl
    | cons scope scopes ih =>
      intro hall cached hfresh
      obtain ⟨hout, hnext⟩ := hstep (hall scope List.mem_cons_self) hfresh
      rw [answers, List.map_cons, hout, ih (fun s hs => hall s (List.mem_cons_of_mem _ hs)) hnext]
  have hnone : Fresh home none := fun _ _ h => (by cases h)
  exact ⟨fun scopes hall => ⟨hrun Scope.temporaries_eq hall hnone, hrun Scope.deviceTemporaries_eq hall hnone⟩,
    fun _ _ audit shards h => borrowedIdentities_changed h audit shards⟩

end

/-- A first scope queues a value and releases it; in a second, the cache comes to own it. -/
theorem retention_exact_sample :
    let home : Nat → List Nat := fun v => [v, v + 10]
    let scope (body : Body Nat Unit) : Scope Nat Unit := ⟨true, true, home, [1], [], [2], [], body⟩
    let retained : Body Nat Unit := .retain home 3 fun _ => .done home (.ok ())
    let owned : Body Nat Unit := .retain home 3 fun _ => .grow [3] (.done home (.error (.raised "stop")))
    (answers Scope.temporaries none [scope retained, scope owned]).1 = [scope retained, scope owned].map Scope.scan ∧
      ((scope retained).scan.released = [3] ∧ (scope owned).scan.released = []) := by
  intro home scope retained owned
  refine ⟨((retention_exact home).1 [scope retained, scope owned] fun s hs v _ => ?_).1, by decide⟩
  rcases List.mem_pair.mp hs with rfl | rfl <;> rfl

end BlackholeQwen.Dflash.Retention
