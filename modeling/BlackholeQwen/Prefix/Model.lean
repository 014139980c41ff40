import Mathlib.Data.List.Sort
import BlackholeQwen.Lib.Chunked
import BlackholeQwen.Prefix.Registry

/-!
# The model graft

`qwen_prefix_model_patch`: a prefill row is checked against its committed grant, a granted row restores its checkpoint
into the scratch, and the chunk loop runs from the hit on and hands the scratch to the registry at planned boundaries.

The device is a parameter: `Device` says what one chunk, or the tail, makes of the recurrent state. `cold` is a prefill
from token 0. The section on what the functions do ends in `prefill_spec`: from the state of its first chunks a prefill
ends as a cold one does, and every state it captures is the cold one at that boundary.
-/

namespace BlackholeQwen.Prefix

open Lib

/-- The host view of a tensor: its shape and dtype. -/
structure View where
  shape : List Nat
  dtype : String
  deriving DecidableEq, Repr

/-- The recurrent state of the bound scratch, by layer. -/
structure Gdn (τ : Type) where
  recState : List τ
  carry : List τ

/-- The model's side: the zero state, what a chunk and what the masked tail make of a state, and the scratch's views
(none before the warmup). The numbers are the index of the chunk. -/
structure Device (τ : Type) where
  zero : Gdn τ
  chunk : Nat → Gdn τ → List Token → Gdn τ
  tail : Nat → Gdn τ → List Token → Gdn τ
  view : τ → View
  stateSpec : Option (List (View × View))

/-- `_QwenPrefixRow`. -/
structure Row (τ : Type) where
  index : Nat
  reqId : Option String
  start : Nat
  actual : Nat
  recState : Option (List τ)
  carry : Option (List τ)
  plan : List Nat
  dropped : List Nat
  granted : Bool

/-- One row of a prefill call: its request id, the runner's `start_pos`, its tokens and how many of them are real. -/
structure RowInput where
  reqId : Option String
  start : Nat
  toks : List Token
  actual : Nat

/-- The real tokens of a row. -/
def RowInput.tokens (x : RowInput) : List Token := x.toks.take x.actual

/-- `_qwen_prefix_plan`. -/
def prefixPlan {κ τ : Type} (grant : Grant κ τ) : List Nat := (grant.plan.map Prod.fst).dedup.mergeSort (· ≤ ·)

namespace Device

variable {κ τ ρ : Type} (d : Device τ)

/-- The checks of a grant's checkpoint in `_qwen_prefix_row`, which give the state to restore. -/
def restorable (place : String) (grant : Grant κ τ) (toks : List Token) : Except PyError (List τ × List τ) :=
  let q := grant.q
  if q % CHUNK ≠ 0 then
    .error (.assertionError
      (place ++ ": Q=" ++ toString q ++ " is not a " ++ toString CHUNK ++ "-token chunk boundary"))
  else match grant.checkpoint.filter (fun c => c.pos = q) with
    | none => .error (.assertionError (place ++ ": the grant carries no checkpoint at Q=" ++ toString q))
    | some checkpoint =>
      if checkpoint.tokenIds ≠ toks.take q then
        .error (.assertionError (place ++ ": the checkpoint's token ids differ from the row's prompt"))
      else match checkpoint.recState, checkpoint.carry with
        | some recState, some carry =>
          match d.stateSpec with
          | none => .error (.assertionError (place ++ ": GDN restore before _qwen_prefix_warm_restore chose a path "
              ++ "(a first compile after the traces are parked hangs the engine)"))
          | some spec =>
            if recState.length ≠ spec.length ∨ carry.length ≠ spec.length then
              .error (.assertionError (place ++ ": the checkpoint holds " ++ toString recState.length ++ "/" ++
                toString carry.length ++ " GDN states, the model " ++ toString spec.length))
            else if (recState.zip carry).map (fun p => (d.view p.1, d.view p.2)) ≠ spec then
              .error (.assertionError (place ++ ": GDN checkpoint is not the scratch's"))
            else .ok (recState, carry)
        | _, _ => .error (.assertionError (place ++ ": the checkpoint holds no GDN state"))

/-- The state a granted row restores: none on a miss. -/
def restoredState (place : String) (grant : Grant κ τ) (toks : List Token) :
    Except PyError (Option (List τ × List τ)) :=
  if grant.q = 0 then .ok none else (d.restorable place grant toks).map some

/-- The refusal of a row that resumes without a grant. -/
def resumedWithout (place : String) (registry : Option (Registry κ τ)) (reqId : Option String) : PyError :=
  .assertionError (place ++ ": resumed with " ++
    (if registry.isNone then "no prefix registry is installed"
      else if reqId.isNone then "the runner passed no request id"
      else "no committed grant") ++ "; refusing to rewrite shared blocks")

/-- `_qwen_prefix_row`. -/
def prefixRow (registry : Option (Registry κ τ)) (index : Nat) (x : RowInput) : Except PyError (Row τ) := do
  let place := "prefix reuse: row " ++ toString index ++ " req=" ++ x.reqId.getD "None" ++ " start_pos=" ++
    toString x.start ++ " L=" ++ toString x.actual
  raiseIf (x.actual ≤ x.start) (.assertionError (place ++ ": start_pos is outside the prompt"))
  match registry.bind (fun r => x.reqId.bind r.grantFor) with
  | none =>
    raiseIf (x.start ≠ 0) (resumedWithout place registry x.reqId)
    return ⟨index, x.reqId, 0, x.actual, none, none, [], [], false⟩
  | some grant =>
    raiseIf (some grant.reqId ≠ x.reqId)
      (.assertionError (place ++ ": the committed grant belongs to " ++ grant.reqId))
    raiseIf (grant.q ≠ x.start)
      (.assertionError (place ++ ": stale grant Q=" ++ toString grant.q ++ "; the runner resumed at start_pos"))
    let state ← d.restoredState place grant x.toks
    let last := x.actual / CHUNK * CHUNK
    let planned : Nat → Bool := fun pos => decide (grant.q < pos) && decide (pos ≤ last) && decide (pos % CHUNK = 0)
    return ⟨index, x.reqId, grant.q, x.actual, state.map Prod.fst, state.map Prod.snd,
      (prefixPlan grant).filter planned, (prefixPlan grant).filter (fun pos => !planned pos), true⟩

/-- The chunk loop of `_prefill_traced_chunked_tp` and of its eager twin from chunk `c` for `n` chunks: what
`on_capture` works on, the scratch, and the states handed to `on_capture`, oldest first. -/
def chunkLoop (tokens : List Token) (captureAt : List Nat) (onCapture : Nat → Gdn τ → ρ → ρ) :
    Nat → Nat → ρ × Gdn τ × List (Nat × Gdn τ) → ρ × Gdn τ × List (Nat × Gdn τ)
  | _, 0, x => x
  | c, n + 1, (r, s, captured) =>
    let s := d.chunk c s (Chunked.chunkAt CHUNK tokens c)
    let pos := (c + 1) * CHUNK
    if pos ∈ captureAt then
      chunkLoop tokens captureAt onCapture (c + 1) n (onCapture pos s r, s, captured ++ [(pos, s)])
    else chunkLoop tokens captureAt onCapture (c + 1) n (r, s, captured)

/-- The masked bucket after the last whole chunk. -/
def finish (tokens : List Token) (s : Gdn τ) : Gdn τ :=
  if tokens.length % CHUNK = 0 then s
  else d.tail (tokens.length / CHUNK) s (tokens.drop (tokens.length / CHUNK * CHUNK))

/-- A prefill from token 0. -/
def cold (tokens : List Token) : Gdn τ := d.finish tokens (Chunked.fold d.chunk CHUNK tokens d.zero)

/-- The checks of `prefill_traced_chunked`. -/
def prefillGuard (tokens : List Token) (actualLen start : Nat) (captureAt : List Nat) : Except PyError Unit := do
  raiseIf (¬(1 ≤ actualLen ∧ actualLen ≤ tokens.length))
    (.assertionError ("actual_len " ++ toString actualLen ++ " not in [1, " ++ toString tokens.length ++ "]"))
  raiseIf ((start ≠ 0 ∨ captureAt ≠ []) ∧ (start % CHUNK ≠ 0 ∨ actualLen ≤ start))
    (.assertionError ("prefix reuse: start_pos " ++ toString start ++
      " is not a chunk boundary inside the prompt (L=" ++ toString actualLen ++ ")"))
  raiseIf ((start ≠ 0 ∨ captureAt ≠ []) ∧ actualLen / CHUNK < 1)
    (.assertionError ("prefix reuse needs the chunked TP path: start=" ++ toString start ++ " L=" ++
      toString actualLen ++ " num_full=" ++ toString (actualLen / CHUNK)))

/-- `prefill_traced_chunked` of a row's real tokens on the tensor-parallel path. -/
def prefillTracedChunked (tokens : List Token) (actualLen start : Nat) (captureAt : List Nat)
    (onCapture : Nat → Gdn τ → ρ → ρ) (scratch : Gdn τ) (r : ρ) : Call ρ (Gdn τ × List (Nat × Gdn τ)) :=
  Call.attempt (prefillGuard tokens actualLen start captureAt) r fun () =>
  let numFull := actualLen / CHUNK
  if numFull = 0 then Call.ret r (d.finish tokens d.zero, [])
  else
    let entry := if start = 0 then d.zero else scratch
    let (r, s, captured) := d.chunkLoop tokens captureAt onCapture (start / CHUNK) (numFull - start / CHUNK)
      (r, entry, [])
    Call.ret r (d.finish tokens s, captured)

/-- What a row leaves: its slot's state and the states it handed to the registry. -/
structure RowRun (τ : Type) where
  state : Gdn τ
  captured : List (Nat × Gdn τ)

/-- `_qwen_prefix_restore`. -/
def restore (recState carry : Option (List τ)) : Except PyError (Gdn τ) :=
  match recState, carry with
  | some recState, some carry => .ok ⟨recState, carry⟩
  | _, _ => .error .typeError

variable [DecidableEq κ]

/-- `_qwen_prefix_capture`; `reading` is the size of the host copies, or none where reading the scratch raised. -/
def prefixCapture (reqId : Option String) (reading : Option Nat) (pos : Nat) (s : Gdn τ) (r : Registry κ τ) :
    Registry κ τ :=
  match reqId, reading with
  | some reqId, some nbytes => (r.capture reqId pos (some s.recState) (some s.carry) (some nbytes) (some pos)).1
  | _, _ => r

/-- One row of `_qwen_prefix_prefill_slots`, restored if it resumes; `reads` is what reading the scratch gives at each
boundary. -/
def runRow (reads : Nat → Option Nat) (scratch : Gdn τ) (row : Row τ) (tokens : List Token) (r : Registry κ τ) :
    Call (Registry κ τ) (RowRun τ) :=
  Call.attempt (if row.start = 0 then .ok scratch else restore row.recState row.carry) r fun scratch =>
  (d.prefillTracedChunked tokens row.actual row.start row.plan
    (fun pos s r => prefixCapture row.reqId (reads pos) pos s r) scratch r).map fun out => ⟨out.1, out.2⟩

/-- The row loop of `_qwen_prefix_prefill_slots`; every row leaves the scratch in the state the next one finds. -/
def runRows (reads : Nat → Nat → Option Nat) : Gdn τ → List (Row τ × List Token) → Registry κ τ →
    Call (Registry κ τ) (List (RowRun τ))
  | _, [], r => Call.ret r []
  | scratch, (row, tokens) :: rest, r =>
    (d.runRow (reads row.index) scratch row tokens r).bind fun r out =>
      (runRows reads out.state rest r).map fun outs => out :: outs

/-- The rows, checked. -/
def prefixRows (registry : Registry κ τ) : Nat → List RowInput → Except PyError (List (Row τ))
  | _, [] => .ok []
  | index, x :: xs => do
    raiseIf (x.actual < 1)
      (.assertionError ("prefix reuse: request " ++ toString index ++ ": empty prompt (actual_len=" ++
        toString x.actual ++ ")"))
    let row ← d.prefixRow (some registry) index x
    let rows ← prefixRows registry (index + 1) xs
    return row :: rows

/-- `_qwen_prefix_prefill_slots` with a registry: every row is checked before any row runs. -/
def prefillSlots (reads : Nat → Nat → Option Nat) (scratch : Gdn τ) (xs : List RowInput) (r : Registry κ τ) :
    Call (Registry κ τ) (List (RowRun τ)) :=
  Call.attempt (d.prefixRows r 0 xs) r fun rows => d.runRows reads scratch (rows.zip (xs.map RowInput.tokens)) r

/-! ## What the functions do -/

section Spec

variable {d}

omit [DecidableEq κ] in
/-- The state a checkpoint's check hands over is the checkpoint's, at the hit and over the row's first tokens. -/
theorem restorable_ok {place : String} {grant : Grant κ τ} {toks : List Token} {state : List τ × List τ}
    (h : d.restorable place grant toks = .ok state) :
    ∃ c, grant.checkpoint = some c ∧ c.pos = grant.q ∧ grant.q % CHUNK = 0 ∧ c.tokenIds = toks.take grant.q ∧
      c.recState = some state.1 ∧ c.carry = some state.2 := by
  unfold restorable at h
  simp only at h
  split at h
  · cases h
  rename_i hq
  split at h
  · cases h
  rename_i c hc
  rw [Option.filter_eq_some_iff, decide_eq_true_eq] at hc
  split at h
  · cases h
  rename_i htok
  split at h
  · rename_i recState carry hrec hcarry
    split at h
    · cases h
    split_ifs at h
    cases h
    exact ⟨c, hc.1, hc.2, not_not.mp hq, not_not.mp htok, hrec, hcarry⟩
  · cases h

/-- What the check of a row establishes. -/
structure RowFits (r : Registry κ τ) (x : RowInput) (row : Row τ) : Prop where
  reqId : row.reqId = x.reqId
  start : row.start = x.start
  actual : row.actual = x.actual
  inside : x.start < x.actual
  /-- A planned row belongs to a committed grant and stays within its whole chunks. -/
  plan : ∀ pos ∈ row.plan, x.start < pos ∧ pos ≤ x.actual / CHUNK * CHUNK ∧ pos % CHUNK = 0
  /-- A resumed row holds the state of its grant's checkpoint, taken over the row's own first tokens. -/
  resumed : x.start ≠ 0 → ∃ reqId grant c recState carry, x.reqId = some reqId ∧ r.grantFor reqId = some grant ∧
    grant.q = x.start ∧ grant.checkpoint = some c ∧ c.pos = x.start ∧ c.tokenIds = x.toks.take x.start ∧
    c.recState = some recState ∧ c.carry = some carry ∧ row.recState = some recState ∧ row.carry = some carry

omit [DecidableEq κ] in
/-- Inversion of `prefixRow`. -/
theorem prefixRow_ok {r : Registry κ τ} {index : Nat} {x : RowInput} {row : Row τ}
    (h : d.prefixRow (some r) index x = .ok row) : RowFits r x row := by
  unfold prefixRow at h
  obtain ⟨⟨⟩, hin, h⟩ := bind_ok h
  rw [raiseIf_ok, Nat.not_le] at hin
  split at h
  · obtain ⟨⟨⟩, hstart, h⟩ := bind_ok h
    rw [raiseIf_ok, not_not] at hstart
    cases h
    exact ⟨rfl, hstart.symm, rfl, hin, (fun pos hp => by cases hp), fun hne => absurd hstart hne⟩
  · rename_i grant hg
    obtain ⟨⟨⟩, -, h⟩ := bind_ok h
    obtain ⟨⟨⟩, hq, h⟩ := bind_ok h
    rw [raiseIf_ok, not_not] at hq
    obtain ⟨state, hstate, h⟩ := bind_ok h
    cases h
    unfold restoredState at hstate
    refine ⟨rfl, hq, rfl, hin, fun pos hp => ?_, fun hne => ?_⟩
    · simp only [List.mem_filter, Bool.and_eq_true, decide_eq_true_eq] at hp
      rw [← hq]
      exact ⟨hp.2.1.1, hp.2.1.2, hp.2.2⟩
    · rw [← hq] at hne ⊢
      rw [if_neg hne] at hstate
      cases hres : d.restorable ("prefix reuse: row " ++ toString index ++ " req=" ++ x.reqId.getD "None" ++
          " start_pos=" ++ toString x.start ++ " L=" ++ toString x.actual) grant x.toks with
      | error e => rw [hres] at hstate; cases hstate
      | ok st =>
        rw [hres] at hstate
        cases hstate
        obtain ⟨c, h1, h2, -, h4, h5, h6⟩ := restorable_ok hres
        cases hreq : x.reqId with
        | none => rw [hreq] at hg; cases hg
        | some reqId =>
          rw [hreq] at hg
          exact ⟨reqId, grant, c, st.1, st.2, rfl, hg, rfl, h1, h2, h4, h5, h6, rfl, rfl⟩

/-- The cold state after `n` chunks. -/
abbrev coldRun (d : Device τ) (tokens : List Token) (n : Nat) : Gdn τ := Chunked.run d.chunk CHUNK tokens 0 n d.zero

/-- What the chunk loop does from the cold state of its first chunks: it ends in the cold state, everything it captured
is the cold state at its boundary, and it keeps what every such capture keeps. -/
theorem chunkLoop_spec {P : ρ → Prop} {tokens : List Token} {captureAt : List Nat} {onCapture : Nat → Gdn τ → ρ → ρ}
    {total : Nat}
    (hcap : ∀ i r, i < total → (i + 1) * CHUNK ∈ captureAt → P r →
      P (onCapture ((i + 1) * CHUNK) (coldRun d tokens (i + 1)) r)) :
    ∀ (n c : Nat) (r : ρ) (captured : List (Nat × Gdn τ)), c + n = total → P r →
      (∀ p ∈ captured, ∃ i < total, p = ((i + 1) * CHUNK, coldRun d tokens (i + 1))) →
      P (d.chunkLoop tokens captureAt onCapture c n (r, coldRun d tokens c, captured)).1 ∧
        (d.chunkLoop tokens captureAt onCapture c n (r, coldRun d tokens c, captured)).2.1 = coldRun d tokens total ∧
        ∀ p ∈ (d.chunkLoop tokens captureAt onCapture c n (r, coldRun d tokens c, captured)).2.2,
          ∃ i < total, p = ((i + 1) * CHUNK, coldRun d tokens (i + 1))
  | 0, c, r, captured, hc, hP, hold => by
    obtain rfl : c = total := by omega
    exact ⟨hP, rfl, hold⟩
  | n + 1, c, r, captured, hc, hP, hold => by
    have hstep : d.chunk c (coldRun d tokens c) (Chunked.chunkAt CHUNK tokens c) = coldRun d tokens (c + 1) := by
      rw [coldRun, coldRun, Chunked.run_succ, Nat.zero_add]
    simp only [chunkLoop, hstep]
    split_ifs with hmem
    · refine chunkLoop_spec hcap n (c + 1) _ _ (by omega) (hcap c r (by omega) hmem hP) fun p hp => ?_
      rcases List.mem_append.mp hp with hp | hp
      · exact hold p hp
      · exact ⟨c, by omega, List.mem_singleton.mp hp⟩
    · exact chunkLoop_spec hcap n (c + 1) _ _ (by omega) hP hold

/-- Inversion of the checks of `prefill_traced_chunked`, on a row's real tokens. -/
theorem prefillGuard_ok {tokens : List Token} {actualLen start : Nat} {captureAt : List Nat}
    (h : prefillGuard tokens actualLen start captureAt = .ok ()) :
    actualLen ≤ tokens.length ∧ (start ≠ 0 → start % CHUNK = 0 ∧ start < actualLen) := by
  obtain ⟨⟨⟩, hlen, h⟩ := bind_ok h
  obtain ⟨⟨⟩, hstart, -⟩ := bind_ok h
  simp only [raiseIf_ok, not_not] at hlen
  rw [raiseIf_ok] at hstart
  refine ⟨hlen.2, fun hne => ?_⟩
  by_contra hc
  exact hstart ⟨Or.inl hne, by omega⟩

/-- **A prefill from the cold state of its first chunks ends as a cold one**, with cold captures; raising or not, it
keeps what every such capture keeps. -/
theorem prefill_spec {P : ρ → Prop} {tokens : List Token} {actualLen start : Nat} (captureAt : List Nat)
    (onCapture : Nat → Gdn τ → ρ → ρ) {scratch : Gdn τ} {r : ρ}
    (htokens : tokens.length ≤ actualLen) (hscratch : start ≠ 0 → scratch = coldRun d tokens (start / CHUNK))
    (hcap : ∀ i r, i < actualLen / CHUNK → actualLen ≤ tokens.length → (i + 1) * CHUNK ∈ captureAt → P r →
      P (onCapture ((i + 1) * CHUNK) (coldRun d tokens (i + 1)) r)) (hP : P r) :
    P (d.prefillTracedChunked tokens actualLen start captureAt onCapture scratch r).obj ∧
      ∀ out, (d.prefillTracedChunked tokens actualLen start captureAt onCapture scratch r).result = .ok out →
        out.1 = d.cold tokens ∧
          ∀ p ∈ out.2, ∃ i < tokens.length / CHUNK, p = ((i + 1) * CHUNK, coldRun d tokens (i + 1)) := by
  unfold prefillTracedChunked
  rcases Call.attempt_cases (prefillGuard tokens actualLen start captureAt) r _ with ⟨e, -, hc⟩ | ⟨⟨⟩, hg, hc⟩ <;>
    rw [hc]
  · exact ⟨hP, fun out h => by cases h⟩
  obtain ⟨hle, hin⟩ := prefillGuard_ok hg
  obtain rfl : actualLen = tokens.length := by omega
  simp only
  by_cases hzero : tokens.length / CHUNK = 0
  · rw [if_pos hzero]
    refine ⟨hP, fun out h => ?_⟩
    cases h
    refine ⟨?_, fun p hp => by cases hp⟩
    rw [cold, Chunked.fold, hzero]
    rfl
  · rw [if_neg hzero]
    have hentry : (if start = 0 then d.zero else scratch) = coldRun d tokens (start / CHUNK) := by
      split_ifs with hs
      · rw [hs]; rfl
      · exact hscratch hs
    have hcount : start / CHUNK + (tokens.length / CHUNK - start / CHUNK) = tokens.length / CHUNK := by
      have hstart : start ≤ tokens.length := by
        by_cases hs : start = 0
        · omega
        · exact Nat.le_of_lt (hin hs).2
      have := Nat.div_le_div_right (c := CHUNK) hstart
      omega
    obtain ⟨h1, h2, h3⟩ := chunkLoop_spec (fun i r hi => hcap i r hi (Nat.le_refl _)) _ _ r [] hcount hP
      (fun p hp => by cases hp)
    rw [← hentry] at h1 h2 h3
    refine ⟨h1, fun out h => ?_⟩
    cases h
    refine ⟨?_, h3⟩
    simp only [h2]
    rfl

end Spec

end Device

end BlackholeQwen.Prefix
