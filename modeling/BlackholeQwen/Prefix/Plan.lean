import BlackholeQwen.Prefix.Ledger
import BlackholeQwen.Prefix.Model
import BlackholeQwen.Prefix.Scheduler

/-!
# Captures are planned where the chunk loop stops

`SchedulerGraft.plan` computes boundaries from the prompt, the request and the hit; `_qwen_prefix_row` filters them by
the row, the chunk loop calls `on_capture` at those that are left, and the registry stores what it planned.
`chunkLoop_calls` lists the calls of the loop, whatever `on_capture` does; `planned_captured` says that the three agree:
a planned position is kept by the row, called once by the loop, with the state of the tokens up to it, and not refused.
-/

namespace BlackholeQwen.Prefix

open Lib

variable {κ τ : Type}

/-! ## The planner -/

/-- A candidate is a whole number of chunks, above the hit. -/
theorem mem_candidates {g : SchedulerGraft} {request : Request} {h q pos : Nat}
    (hpos : pos ∈ g.candidates request h q) : pos % CHUNK = 0 ∧ q < pos := by
  have hchunk : 0 < CHUNK := by decide
  have hfloor : ∀ n, floorChunk n % CHUNK = 0 := fun n => Nat.mul_mod_left _ _
  have hlower : ∀ n, (floorChunk n - CHUNK) % CHUNK = 0 := fun n => by
    have : floorChunk n - CHUNK = (n / CHUNK - 1) * CHUNK := by rw [floorChunk, Nat.sub_mul, Nat.one_mul]
    rw [this]
    exact Nat.mul_mod_left _ _
  simp only [SchedulerGraft.candidates, List.mem_mergeSort, List.mem_dedup, List.mem_append, List.mem_ite_nil_right,
    List.mem_singleton] at hpos
  rcases hpos with ⟨hq, hpos⟩ | ⟨hq, hpos⟩
  · rw [hpos]
    split_ifs at hq ⊢
    · exact ⟨hlower _, hq⟩
    · exact ⟨hfloor _, hq⟩
  · rw [hpos]
    exact ⟨hfloor _, by omega⟩

/-- A planned position is a plannable candidate that is not withheld. -/
theorem mem_plan {g : SchedulerGraft} {r : Registry κ τ} {request : Request} {hashes : List κ} {h q pos : Nat} {key : κ}
    (hp : (pos, key) ∈ (g.plan r request hashes h q).1) : pos ∈ g.candidates request h q ∧
      SchedulerGraft.plannable request hashes pos = true ∧ SchedulerGraft.withheld r request pos = false := by
  simp only [SchedulerGraft.plan, List.mem_filterMap, List.mem_filter] at hp
  obtain ⟨pos', ⟨⟨hcand, hplannable⟩, hwithheld⟩, hmap⟩ := hp
  obtain ⟨key', -, hkey⟩ := Option.map_eq_some_iff.mp hmap
  obtain ⟨rfl, -⟩ := Prod.mk.inj hkey
  exact ⟨hcand, hplannable, by simpa using hwithheld⟩

/-- **The planner's bounds**: above the hit, within the prompt and the request, on a chunk boundary. -/
theorem plan_bounds {g : SchedulerGraft} {r : Registry κ τ} {request : Request} {hashes : List κ} {h q pos : Nat}
    {key : κ}
    (hp : (pos, key) ∈ (g.plan r request hashes h q).1) : pos % CHUNK = 0 ∧ q < pos ∧
      pos ≤ floorChunk request.numPromptTokens ∧ pos ≤ floorChunk request.numTokens := by
  obtain ⟨hcand, hplannable, -⟩ := mem_plan hp
  obtain ⟨hmod, hlt⟩ := mem_candidates hcand
  simp only [SchedulerGraft.plannable, Bool.and_eq_true, decide_eq_true_eq] at hplannable
  exact ⟨hmod, hlt, hplannable.1.1, hplannable.1.2⟩

/-- Without the declaration of mid-loop captures only the drain is planned. -/
theorem plan_drain {g : SchedulerGraft} {r : Registry κ τ} {request : Request} {hashes : List κ} {h q pos : Nat}
    {key : κ}
    (hp : (pos, key) ∈ (g.plan r request hashes h q).1) (hmid : r.midLoopCapture = false) :
    pos = floorChunk request.numTokens := by
  obtain ⟨-, -, hwithheld⟩ := mem_plan hp
  simp only [SchedulerGraft.withheld, hmid, Bool.not_false, Bool.and_true, decide_eq_false_iff_not] at hwithheld
  exact Nat.le_antisymm (plan_bounds hp).2.2.2 (Nat.le_of_not_lt hwithheld)

/-! ## The row -/

/-- The positions of a plan, without their keys. -/
theorem mem_prefixPlan {grant : Grant κ τ} {pos : Nat} : pos ∈ prefixPlan grant ↔ ∃ key, (pos, key) ∈ grant.plan := by
  simp [prefixPlan]

/-- A granted row that restores starts at a chunk boundary. -/
theorem restoredState_boundary {d : Device τ} {place : String} {grant : Grant κ τ} {toks : List Token}
    {state : Option (List τ × List τ)} (h : d.restoredState place grant toks = .ok state) : grant.q % CHUNK = 0 := by
  unfold Device.restoredState at h
  split_ifs at h with hq
  · rw [hq]
    rfl
  · cases hrestore : d.restorable place grant toks with
    | error e => rw [hrestore] at h; cases h
    | ok state =>
      obtain ⟨-, -, -, hmod, -⟩ := Device.restorable_ok hrestore
      exact hmod

/-- **The row keeps a planned position** between its start, a chunk boundary, and its last whole chunk. -/
theorem prefixRow_keeps {d : Device τ} {r : Registry κ τ} {index : Nat} {x : RowInput} {row : Row τ} {reqId : String}
    {grant : Grant κ τ} (h : d.prefixRow (some r) index x = .ok row) (hreq : x.reqId = some reqId)
    (hgrant : r.grantFor reqId = some grant) {pos : Nat} {key : κ} (hp : (pos, key) ∈ grant.plan)
    (hmod : pos % CHUNK = 0) (hlt : grant.q < pos) (hle : pos ≤ floorChunk x.actual) :
    row.start = grant.q ∧ grant.q % CHUNK = 0 ∧ row.actual = x.actual ∧ pos ∈ row.plan ∧ pos ∉ row.dropped := by
  unfold Device.prefixRow at h
  obtain ⟨⟨⟩, -, h⟩ := bind_ok h
  rw [show (some r).bind (fun r => x.reqId.bind r.grantFor) = some grant by simp [hreq, hgrant]] at h
  obtain ⟨⟨⟩, -, h⟩ := bind_ok h
  obtain ⟨⟨⟩, -, h⟩ := bind_ok h
  obtain ⟨state, hstate, h⟩ := bind_ok h
  obtain rfl := Except.ok.inj h
  have hmem := mem_prefixPlan.mpr ⟨key, hp⟩
  have hle' : pos ≤ x.actual / CHUNK * CHUNK := hle
  refine ⟨rfl, restoredState_boundary hstate, rfl, ?_, ?_⟩
  · simp [hmem, hlt, hle', hmod]
  · simp [hlt, hle', hmod]

/-! ## The chunk loop -/

section Loop

variable (d : Device τ) (tokens : List Token) (captureAt : List Nat)

/-- The calls of `on_capture` by `n` chunks from chunk `c`: every asked boundary they pass, with the state of the chunks
up to it. -/
def Device.captureCalls (c n : Nat) (s : Gdn τ) : List (Nat × Gdn τ) :=
  ((List.range' (c + 1) n).filter (· * CHUNK ∈ captureAt)).map
    fun i => (i * CHUNK, Chunked.run d.chunk CHUNK tokens c (i - c) s)

/-- The state a prefill that resumes at `start` has at `pos`: the chunks from the one to the other, run on the scratch
it was left, or on the zero state. -/
def Device.reached (start pos : Nat) (scratch : Gdn τ) : Gdn τ :=
  Chunked.run d.chunk CHUNK tokens (start / CHUNK) (pos / CHUNK - start / CHUNK) (if start = 0 then d.zero else scratch)

/-- The calls of a chunk and those of the chunks after it. -/
theorem captureCalls_succ (c n : Nat) (s : Gdn τ) :
    d.captureCalls tokens captureAt c (n + 1) s =
      (if (c + 1) * CHUNK ∈ captureAt then [((c + 1) * CHUNK, d.chunk c s (Chunked.chunkAt CHUNK tokens c))] else []) ++
        d.captureCalls tokens captureAt (c + 1) n (d.chunk c s (Chunked.chunkAt CHUNK tokens c)) := by
  have hrest : ∀ i ∈ (List.range' (c + 1 + 1) n).filter (· * CHUNK ∈ captureAt),
      (i * CHUNK, Chunked.run d.chunk CHUNK tokens c (i - c) s) =
        (i * CHUNK, Chunked.run d.chunk CHUNK tokens (c + 1) (i - (c + 1))
          (d.chunk c s (Chunked.chunkAt CHUNK tokens c))) := by
    intro i hi
    have hle := (List.mem_range'_1.mp (List.mem_of_mem_filter hi)).1
    rw [show i - c = i - (c + 1) + 1 by omega, Chunked.run]
  have hfirst : Chunked.run d.chunk CHUNK tokens c (c + 1 - c) s = d.chunk c s (Chunked.chunkAt CHUNK tokens c) := by
    rw [Nat.add_sub_cancel_left]
    rfl
  simp only [Device.captureCalls, List.range'_succ]
  split_ifs with hmem
  · rw [List.filter_cons_of_pos (by simpa using hmem), List.map_cons, hfirst, List.map_congr_left hrest]
    rfl
  · rw [List.filter_cons_of_neg (by simpa using hmem), List.map_congr_left hrest]
    rfl

/-- **The chunk loop makes these calls**, in order, and no other. -/
theorem chunkLoop_calls {ρ : Type} (onCapture : Nat → Gdn τ → ρ → ρ) :
    ∀ (n c : Nat) (r : ρ) (s : Gdn τ) (captured : List (Nat × Gdn τ)),
      d.chunkLoop tokens captureAt onCapture c n (r, s, captured) =
        ((d.captureCalls tokens captureAt c n s).foldl (fun r call => onCapture call.1 call.2 r) r,
          Chunked.run d.chunk CHUNK tokens c n s, captured ++ d.captureCalls tokens captureAt c n s)
  | 0, c, r, s, captured => by simp [Device.chunkLoop, Device.captureCalls, Chunked.run]
  | n + 1, c, r, s, captured => by
    rw [captureCalls_succ, Chunked.run]
    simp only [Device.chunkLoop]
    split_ifs with hmem
    · rw [chunkLoop_calls onCapture n (c + 1)]
      simp
    · rw [chunkLoop_calls onCapture n (c + 1)]
      simp

/-- **An asked boundary that the chunks pass is called once**, with the state of the chunks up to it. -/
theorem captureCalls_once {c n pos : Nat} (hmod : pos % CHUNK = 0) (hlt : c * CHUNK < pos) (hle : pos ≤ (c + n) * CHUNK)
    (hmem : pos ∈ captureAt) (s : Gdn τ) : ∃ before after,
      d.captureCalls tokens captureAt c n s =
        before ++ (pos, Chunked.run d.chunk CHUNK tokens c (pos / CHUNK - c) s) :: after ∧
      pos ∉ before.map Prod.fst ∧ pos ∉ after.map Prod.fst := by
  have hchunk : CHUNK = 2048 := rfl
  obtain ⟨i, rfl⟩ : ∃ i, pos = i * CHUNK := ⟨pos / CHUNK, by rw [hchunk] at hmod ⊢; omega⟩
  have hlow : c + 1 ≤ i := Nat.lt_of_mul_lt_mul_right hlt
  have hhigh : i ≤ c + n := Nat.le_of_mul_le_mul_right hle (by decide)
  have hsplit : List.range' (c + 1) n = List.range' (c + 1) (i - (c + 1)) ++ i :: List.range' (i + 1) (c + n - i) := by
    rw [← List.range'_succ]
    have h := List.range'_append_1 (s := c + 1) (m := i - (c + 1)) (n := c + n - i + 1)
    rw [show c + 1 + (i - (c + 1)) = i by omega, show i - (c + 1) + (c + n - i + 1) = n by omega] at h
    exact h.symm
  rw [Nat.mul_div_cancel _ (by decide), Device.captureCalls, hsplit, List.filter_append,
    List.filter_cons_of_pos (by simpa using hmem), List.map_append, List.map_cons]
  refine ⟨_, _, rfl, ?_, ?_⟩ <;>
  · rw [List.map_map]
    intro h
    obtain ⟨j, hj, heq⟩ := List.mem_map.mp h
    have hrange := List.mem_range'_1.mp (List.mem_of_mem_filter hj)
    have hij : j = i := Nat.eq_of_mul_eq_mul_right (by decide) heq
    omega

/-- What a prefill leaves: the calls of its whole chunks, made in turn. -/
theorem prefill_calls {ρ : Type} {actualLen start : Nat} (onCapture : Nat → Gdn τ → ρ → ρ) (scratch : Gdn τ) (r : ρ)
    (hguard : Device.prefillGuard tokens actualLen start captureAt = .ok ()) (hfull : actualLen / CHUNK ≠ 0) :
    (d.prefillTracedChunked tokens actualLen start captureAt onCapture scratch r).result.isOk = true ∧
      (d.prefillTracedChunked tokens actualLen start captureAt onCapture scratch r).obj =
        (d.captureCalls tokens captureAt (start / CHUNK) (actualLen / CHUNK - start / CHUNK)
          (if start = 0 then d.zero else scratch)).foldl (fun r call => onCapture call.1 call.2 r) r := by
  unfold Device.prefillTracedChunked
  rw [hguard]
  simp only [Call.attempt, if_neg hfull, chunkLoop_calls]
  exact ⟨rfl, rfl⟩

/-- The checks of `prefill_traced_chunked` pass where the row resumes at a boundary below one it captures. -/
theorem prefillGuard_passes {actualLen start pos : Nat} (hlen : actualLen ≤ tokens.length) (hstart : start % CHUNK = 0)
    (hlt : start < pos) (hle : pos ≤ floorChunk actualLen) :
    Device.prefillGuard tokens actualLen start captureAt = .ok () ∧ actualLen / CHUNK ≠ 0 := by
  have hfloor : floorChunk actualLen ≤ actualLen := Nat.div_mul_le_self _ _
  have hfull : actualLen / CHUNK ≠ 0 := by
    intro hzero
    rw [floorChunk, hzero] at hle
    omega
  refine ⟨?_, hfull⟩
  have h1 : ¬¬(1 ≤ actualLen ∧ actualLen ≤ tokens.length) := not_not.mpr ⟨by omega, hlen⟩
  have h2 : ¬((start ≠ 0 ∨ captureAt ≠ []) ∧ (start % CHUNK ≠ 0 ∨ actualLen ≤ start)) := fun h => by omega
  have h3 : ¬((start ≠ 0 ∨ captureAt ≠ []) ∧ actualLen / CHUNK < 1) := fun h =>
    hfull (Nat.lt_one_iff.mp h.2)
  simp only [Device.prefillGuard, raiseIf, if_neg h1, if_neg h2, if_neg h3, bind, Except.bind]

/-- **The resumed chunk loop calls `on_capture` once at a boundary it is asked for**, with the state it reached
there. -/
theorem prefill_once {actualLen start pos : Nat} (hlen : actualLen ≤ tokens.length) (hstart : start % CHUNK = 0)
    (hmod : pos % CHUNK = 0) (hlt : start < pos) (hle : pos ≤ floorChunk actualLen) (hmem : pos ∈ captureAt)
    (scratch : Gdn τ) : ∃ before after, pos ∉ before.map Prod.fst ∧ pos ∉ after.map Prod.fst ∧
      ∀ (ρ : Type) (onCapture : Nat → Gdn τ → ρ → ρ) (r : ρ),
        (d.prefillTracedChunked tokens actualLen start captureAt onCapture scratch r).result.isOk = true ∧
        (d.prefillTracedChunked tokens actualLen start captureAt onCapture scratch r).obj =
          (before ++ (pos, d.reached tokens start pos scratch) :: after).foldl
            (fun r call => onCapture call.1 call.2 r) r := by
  obtain ⟨hguard, hfull⟩ := prefillGuard_passes tokens captureAt hlen hstart hlt hle
  have hfrom : start / CHUNK * CHUNK < pos := Nat.lt_of_le_of_lt (Nat.div_mul_le_self _ _) hlt
  have hto : pos ≤ (start / CHUNK + (actualLen / CHUNK - start / CHUNK)) * CHUNK :=
    hle.trans (Nat.mul_le_mul_right CHUNK (by omega))
  obtain ⟨before, after, hcalls, hbefore, hafter⟩ := captureCalls_once d tokens captureAt hmod hfrom hto hmem
    (if start = 0 then d.zero else scratch)
  refine ⟨before, after, hbefore, hafter, fun ρ onCapture r => ?_⟩
  obtain ⟨hok, hobj⟩ := prefill_calls d tokens captureAt onCapture scratch r hguard hfull
  exact ⟨hok, by rw [hobj, hcalls]; rfl⟩

end Loop

/-! ## The registry -/

section Capture

variable [DecidableEq κ]

/-- A checkpoint at a boundary with its tokens is not refused: it is left out only by a disabled registry or a budget it
does not fit. -/
theorem put_ok (r : Registry κ τ) (key : κ) {pos : Nat} {tokenIds : List Token} (hpos : pos ≠ 0)
    (hmod : pos % CHUNK = 0) (hlen : tokenIds.length = pos) (recState carry : Option (List τ)) (nbytes : Nat) :
    ∃ stored, (r.put key pos tokenIds recState carry nbytes).result = .ok stored ∧
      (stored = none ↔ r.disabled.isSome = true ∨ r.budgetBytes < nbytes) := by
  unfold Registry.put
  rcases Call.attempt_cases (do
      raiseIf (pos = 0 ∨ pos % CHUNK ≠ 0)
        (.valueError ("a checkpoint is only exact at a " ++ toString CHUNK ++ "-token boundary, not " ++ toString pos))
      raiseIf (tokenIds.length ≠ pos)
        (.valueError ("checkpoint at " ++ toString pos ++ " carries " ++ toString tokenIds.length ++ " token ids")))
    r _ with ⟨e, he, -⟩ | ⟨⟨⟩, -, h⟩
  · simp [raiseIf, hpos, hmod, hlen, bind, Except.bind] at he
  rw [h]
  by_cases hdisabled : r.disabled.isSome = true
  · rw [if_pos hdisabled]
    exact ⟨none, rfl, by simp [hdisabled]⟩
  by_cases hbudget : r.budgetBytes < nbytes
  · rw [if_neg hdisabled, if_pos hbudget]
    exact ⟨none, rfl, by simp [hbudget]⟩
  rw [if_neg hdisabled, if_neg hbudget]
  split
  · exact ⟨some _, rfl, by simp [hdisabled, hbudget]⟩
  split_ifs
  · exact ⟨some _, rfl, by simp [hdisabled, hbudget]⟩
  · exact ⟨some _, rfl, by simp [hdisabled, hbudget]⟩

/-- **The registry takes a planned state** handed over at its position. -/
theorem captureCall_planned {r : Registry κ τ} {staged : Grant κ τ} {handle : Nat} {tokensOf : Nat → List Token}
    {tokens : Option (List Token)} {reqId : String} {pos : Nat} {key : κ} (hp : (pos, key) ∈ staged.plan)
    (hrequest : staged.request = some handle) (htokens : Registry.planTokens tokensOf staged = .ok tokens)
    (hplan : ∀ p ∈ staged.plan, p.1 ≤ (tokensOf handle).length)
    (hgrant : r.grantFor reqId = some { staged with tokens, request := none }) (hmod : pos % CHUNK = 0) (hpos : 0 < pos)
    (recState carry : Option (List τ)) (nbytes : Nat) :
    ∃ stored, (r.captureCall reqId pos recState carry (some nbytes) (some pos)).result = .ok stored ∧
      (stored = none ↔ r.disabled.isSome = true ∨ r.budgetBytes < nbytes) := by
  have hmem : pos ∈ staged.plan.map Prod.fst := List.mem_map.mpr ⟨_, hp, rfl⟩
  obtain ⟨key', hkey⟩ := Option.isSome_iff_exists.mp (Dict.isSome_get?.mpr (Dict.mem_keys_ofList hp))
  obtain ⟨last, hlast⟩ : ∃ last, (staged.plan.map Prod.fst).max? = some last := by
    cases hmax : (staged.plan.map Prod.fst).max? with
    | some last => exact ⟨last, rfl⟩
    | none => rw [List.max?_eq_none_iff] at hmax; rw [hmax] at hmem; cases hmem
  obtain ⟨hin, hle⟩ := List.max?_eq_some_iff.mp hlast
  obtain ⟨p, hpin, rfl⟩ := List.mem_map.mp hin
  simp only [Registry.planTokens, hlast, hrequest] at htokens
  obtain rfl := Except.ok.inj htokens
  have hlen : ((tokensOf handle).take p.1 |>.take pos).length = pos := by
    have h1 := hplan p hpin
    have h2 := hle pos hmem
    simp only [List.length_take]
    omega
  have hgrant' : r.committed.get? reqId = _ := hgrant
  simp only [Registry.captureCall, hgrant', hkey, ne_eq, not_true_eq_false, if_false]
  exact put_ok r key' (Nat.ne_of_gt hpos) hmod hlen recState carry _

/-- What the captures of a chunk loop leave of the grants, the switch and the budget: all of it. -/
theorem captures_keep (reqId : Option String) (reads : Nat → Option Nat) :
    ∀ (calls : List (Nat × Gdn τ)) (r : Registry κ τ),
      let r' := calls.foldl (fun r call => Device.prefixCapture reqId (reads call.1) call.1 call.2 r) r
      r'.committed = r.committed ∧ r'.disabled = r.disabled ∧ r'.budgetBytes = r.budgetBytes
  | [], _ => ⟨rfl, rfl, rfl⟩
  | call :: calls, r => by
    obtain ⟨h1, h2, h3⟩ :=
      captures_keep reqId reads calls (Device.prefixCapture reqId (reads call.1) call.1 call.2 r)
    have hcall : (Device.prefixCapture reqId (reads call.1) call.1 call.2 r).committed = r.committed ∧
        (Device.prefixCapture reqId (reads call.1) call.1 call.2 r).disabled = r.disabled ∧
        (Device.prefixCapture reqId (reads call.1) call.1 call.2 r).budgetBytes = r.budgetBytes := by
      unfold Device.prefixCapture
      split
      · exact Registry.capture_keeps _ _ _ _ _ _ _
      · exact ⟨rfl, rfl, rfl⟩
    exact ⟨h1.trans hcall.1, h2.trans hcall.2.1, h3.trans hcall.2.2⟩

/-- **Capture planning agrees with the chunk loop.** A planned position is a chunk boundary above the hit and within the
prompt and the request; without mid-loop captures it is the drain. Once the grant is committed, the row keeps it. The
resumed chunk loop then calls `on_capture` there once, with the state of the tokens up to it, and the capture hook's
call, with that position for the loop's, is not refused: the state is stored, unless the registry is disabled or the
state larger than its budget. -/
theorem planned_captured {g : SchedulerGraft} {r : Registry κ τ} {request : Request} {hashes : List κ} {h q pos : Nat}
    {key : κ} (hp : (pos, key) ∈ (g.plan r request hashes h q).1) :
    (pos % CHUNK = 0 ∧ q < pos ∧ pos ≤ floorChunk request.numPromptTokens ∧ pos ≤ floorChunk request.numTokens) ∧
    (r.midLoopCapture = false → pos = floorChunk request.numTokens) ∧
    ∀ (d : Device τ) (staged : Grant κ τ) (handle : Nat) (tokensOf : Nat → List Token) (tokens : Option (List Token))
      (reqId : String), staged.plan = (g.plan r request hashes h q).1 → staged.q = q → staged.request = some handle →
      tokensOf handle = request.allTokenIds → Registry.planTokens tokensOf staged = .ok tokens →
      ∀ (r' : Registry κ τ) index x row, r'.grantFor reqId = some { staged with tokens, request := none } →
        x.reqId = some reqId → x.actual = request.numTokens → d.prefixRow (some r') index x = .ok row →
        pos ∈ row.plan ∧ pos ∉ row.dropped ∧
        ∀ toks scratch, row.actual ≤ toks.length → ∃ before after,
          pos ∉ before.map Prod.fst ∧ pos ∉ after.map Prod.fst ∧
          (∀ (ρ : Type) (onCapture : Nat → Gdn τ → ρ → ρ) (r₁ : ρ),
            let run := d.prefillTracedChunked toks row.actual row.start row.plan onCapture scratch r₁
            run.result.isOk = true ∧
            run.obj = (before ++ (pos, d.reached toks row.start pos scratch) :: after).foldl
              (fun r call => onCapture call.1 call.2 r) r₁) ∧
          ∀ (r₁ : Registry κ τ) (reads : Nat → Option Nat) nbytes,
            r₁.grantFor reqId = some { staged with tokens, request := none } → reads pos = some nbytes →
            let r₂ := before.foldl (fun r call => Device.prefixCapture row.reqId (reads call.1) call.1 call.2 r) r₁
            let s := d.reached toks row.start pos scratch
            let call := r₂.captureCall reqId pos (some s.recState) (some s.carry) (some nbytes) (some pos)
            Device.prefixCapture row.reqId (reads pos) pos s r₂ = call.obj ∧
            ∃ stored, call.result = .ok stored ∧
              (stored = none ↔ r₁.disabled.isSome = true ∨ r₁.budgetBytes < nbytes) := by
  obtain ⟨hmod, hlt, hprompt, hle⟩ := plan_bounds hp
  refine ⟨⟨hmod, hlt, hprompt, hle⟩, plan_drain hp, ?_⟩
  intro d staged handle tokensOf tokens reqId hplan hq hrequest hall htokens r' index x row hgrant hreq hactual hrow
  have hstaged : (pos, key) ∈ staged.plan := hplan ▸ hp
  have hlt' : staged.q < pos := by rw [hq]; exact hlt
  have hle' : pos ≤ floorChunk x.actual := by rw [hactual]; exact hle
  obtain ⟨hstart, hboundary, hlast, hkept, hdropped⟩ := prefixRow_keeps hrow hreq hgrant hstaged hmod hlt' hle'
  have hfits := Device.prefixRow_ok hrow
  refine ⟨hkept, hdropped, fun toks scratch hlen => ?_⟩
  have hresume : row.start % CHUNK = 0 ∧ row.start < pos := by
    rw [hstart]
    exact ⟨hboundary, hlt'⟩
  obtain ⟨before, after, hbefore, hafter, hcalls⟩ := prefill_once d toks row.plan hlen hresume.1 hmod hresume.2
    (by rw [hlast]; exact hle') hkept scratch
  refine ⟨before, after, hbefore, hafter, hcalls, fun r₁ reads nbytes hgrant₁ hreads => ?_⟩
  obtain ⟨hcommitted, hdisabled, hbudget⟩ := captures_keep row.reqId reads before r₁
  have hplanned : ∀ p ∈ staged.plan, p.1 ≤ (tokensOf handle).length := fun p hmem => by
    rw [hall]
    exact (plan_bounds (hplan ▸ hmem)).2.2.2.trans (Nat.div_mul_le_self _ _)
  obtain ⟨stored, hstored, hnone⟩ := captureCall_planned hstaged hrequest htokens hplanned
    (show Registry.grantFor _ reqId = _ by rw [Registry.grantFor, hcommitted]; exact hgrant₁) hmod (by omega)
    (some (d.reached toks row.start pos scratch).recState) (some (d.reached toks row.start pos scratch).carry) nbytes
  rw [hdisabled, hbudget] at hnone
  refine ⟨?_, stored, hstored, hnone⟩
  rw [hfits.reqId, hreq, hreads]
  rfl

/-- A salted request that was preempted in its third chunk: its prompt ends in its second. -/
def preemptedRequest : Request := ⟨"r", 2050, List.replicate 4101 0, true, false⟩

/-- The scheduler's step that admits it from token 0, with mid-loop captures declared. -/
def preemptedRegistry : Registry Nat Nat :=
  (((⟨"", false, false⟩ : SchedulerGraft).stageGrant (Registry.init 4096 true) preemptedRequest 0 (List.range 64) 0
    none).1.commit (Dict.ofList [("r", 0)]) fun _ => preemptedRequest.allTokenIds).obj

/-- A device whose state counts the tokens it has run. -/
def countDevice : Device Nat where
  zero := ⟨[0], [0]⟩
  chunk _ s tokens := ⟨[s.recState.headD 0 + tokens.length], [tokens.length]⟩
  tail _ s tokens := ⟨[s.recState.headD 0 + tokens.length], [tokens.length]⟩
  view _ := ⟨[1], "int"⟩
  stateSpec := none

/-- Its plan: the end of its prompt's last whole chunk, inside its chunk loop. -/
theorem preempted_plan : (⟨"", false, false⟩ : SchedulerGraft).plan (Registry.init 4096 true : Registry Nat Nat)
    preemptedRequest (List.range 64) 0 0 = ([(2048, 31)], [], 4096) := by
  have htokens : preemptedRequest.numTokens = 4101 := List.length_replicate
  have hcand : (⟨"", false, false⟩ : SchedulerGraft).candidates preemptedRequest 0 0 = [2048] := by
    have hbounds : 0 < floorChunk preemptedRequest.numPromptTokens ∧ ¬0 + CHUNK ≤ floorChunk 0 := by decide
    simp only [SchedulerGraft.candidates, Bool.and_self, Bool.false_eq_true, if_false, if_pos hbounds.1,
      if_neg hbounds.2, List.append_nil]
    exact List.mergeSort_singleton _
  have hplannable : SchedulerGraft.plannable preemptedRequest (List.range 64) 2048 = true := by
    rw [SchedulerGraft.plannable, htokens]
    decide
  have hwithheld :
      SchedulerGraft.withheld (Registry.init 4096 true : Registry Nat Nat) preemptedRequest 2048 = false := by
    rw [SchedulerGraft.withheld, htokens]
    decide
  simp only [SchedulerGraft.plan, hcand, htokens]
  simp [hplannable, hwithheld]
  decide

/-- The grant the step commits. -/
theorem preempted_grant : preemptedRegistry.grantFor "r" = some
    ⟨"r", 0, 0, none, none, [(2048, 31)], none, some (preemptedRequest.allTokenIds.take 2048), 4096, []⟩ := by
  simp only [preemptedRegistry, SchedulerGraft.stageGrant, Option.elim_none, preempted_plan]
  rfl

/-- The row of the preempted request. -/
def preemptedRow : RowInput := ⟨some "r", 0, preemptedRequest.allTokenIds, 4101⟩

/-- It is granted, and keeps the planned boundary. -/
theorem preempted_row : countDevice.prefixRow (some preemptedRegistry) 0 preemptedRow =
    .ok ⟨0, some "r", 0, 4101, none, none, [2048], [], true⟩ := by
  have hgrant : preemptedRow.reqId.bind preemptedRegistry.grantFor = _ := preempted_grant
  have hplan : prefixPlan (⟨"r", 0, 0, none, none, [(2048, 31)], none,
      some (preemptedRequest.allTokenIds.take 2048), 4096, []⟩ : Grant Nat Nat) = [2048] := List.mergeSort_singleton _
  simp only [Device.prefixRow, Option.bind_some, hgrant, hplan]
  rw [raiseIf_bind (by decide), raiseIf_bind (by decide), raiseIf_bind (by decide)]
  have hlast : 4101 / CHUNK * CHUNK = 4096 := by decide
  have hmod : 2048 % CHUNK = 0 := by decide
  simp [Device.restoredState, bind, Except.bind, pure, Except.pure, preemptedRow, hlast, hmod]

/-- A log of the calls has one at the planned boundary, and the registry stores the state handed over there. -/
theorem planned_captured_sample : ∃ (before : List (Nat × Gdn Nat)) (stored : Checkpoint Nat Nat),
    (countDevice.prefillTracedChunked preemptedRow.toks 4101 0 [2048] (fun pos _ log => log ++ [pos])
      countDevice.zero []).obj.count 2048 = 1 ∧
    ((before.foldl (fun r call => Device.prefixCapture (some "r") (some 8) call.1 call.2 r)
      preemptedRegistry).captureCall "r" 2048
      (some (countDevice.reached preemptedRow.toks 0 2048 countDevice.zero).recState)
      (some (countDevice.reached preemptedRow.toks 0 2048 countDevice.zero).carry) (some 8) (some 2048)).result =
      .ok (some stored) := by
  have htokens : preemptedRequest.numTokens = 4101 := List.length_replicate
  have hp : (2048, 31) ∈ ((⟨"", false, false⟩ : SchedulerGraft).plan (Registry.init 4096 true : Registry Nat Nat)
      preemptedRequest (List.range 64) 0 0).1 := by
    rw [preempted_plan]
    exact List.mem_singleton.mpr rfl
  obtain ⟨-, -, hloop⟩ := planned_captured hp
  obtain ⟨-, -, hrun⟩ := hloop countDevice
    ⟨"r", 0, 0, none, none, [(2048, 31)], some 0, none, 4096, []⟩ 0 (fun _ => preemptedRequest.allTokenIds)
    (some (preemptedRequest.allTokenIds.take 2048)) "r" (by rw [preempted_plan]) rfl rfl rfl rfl preemptedRegistry 0
    preemptedRow _ preempted_grant rfl htokens.symm preempted_row
  obtain ⟨before, after, hbefore, hafter, hcalls, hstored⟩ :=
    hrun preemptedRow.toks countDevice.zero (Nat.le_of_eq htokens.symm)
  obtain ⟨-, stored, hok, hnone⟩ := hstored preemptedRegistry (fun _ => some 8) 8 preempted_grant rfl
  refine ⟨before, ?_⟩
  obtain _ | checkpoint := stored
  · have hopen : preemptedRegistry.disabled = none ∧ preemptedRegistry.budgetBytes = 4096 := by
      simp only [preemptedRegistry, SchedulerGraft.stageGrant, Option.elim_none, preempted_plan]
      exact ⟨rfl, rfl⟩
    rw [hopen.1, hopen.2] at hnone
    exact absurd (hnone.mp rfl) (by decide)
  refine ⟨checkpoint, ?_, hok⟩
  obtain ⟨-, hlog⟩ := hcalls (List Nat) (fun pos _ log => log ++ [pos]) []
  have hcount (calls : List (Nat × Gdn Nat)) :
      calls.foldl (fun log call => log ++ [call.1]) [] = calls.map Prod.fst := by
    rw [List.foldl_append_eq_append, List.nil_append, ← List.flatMap_def, ← List.map_eq_flatMap]
  rw [hcount] at hlog
  refine (congrArg (List.count 2048) hlog).trans ?_
  simp [List.count_eq_zero_of_not_mem hbefore, List.count_eq_zero_of_not_mem hafter]

end Capture

end BlackholeQwen.Prefix
