import Mathlib.Data.List.Sort
import BlackholeQwen.Prefix.Registry

/-!
# The scheduler graft

`qwen_prefix_scheduler_patch.SchedulerGraft` around vLLM's scheduler: the trim of a hit to a checkpoint, the capture
plan, the cap on what a request publishes, the commit of a step's grants and the coupling of evictions. vLLM's own part
is the environment's: the raw hit and its blocks, the block hashes, the blocks it caches and evicts, the requests a step
admits.
-/

namespace BlackholeQwen.Prefix

open Lib

/-- What the graft reads of a vLLM request. -/
structure Request where
  requestId : String
  numPromptTokens : Nat
  allTokenIds : List Token
  cacheSalt : Bool
  resumable : Bool
  deriving DecidableEq, Repr

instance : Inhabited Request := ⟨⟨"", 0, [], false, false⟩⟩

/-- `request.num_tokens`. -/
def Request.numTokens (q : Request) : Nat := q.allTokenIds.length

/-- `SchedulerGraft`: its constants. -/
structure SchedulerGraft where
  killSwitchPath : String
  sticky : Bool
  dropLast : Bool
  deriving DecidableEq, Repr

/-- `SchedulerGraft.excluded`: an unsalted request, or a streaming session. -/
def excluded (request : Request) : Bool := !request.cacheSalt || request.resumable

/-- The scheduler's side of the graft: the registry and the latched kill switch. -/
structure Scheduler (κ τ : Type) where
  registry : Registry κ τ
  engaged : Bool

namespace SchedulerGraft

variable {κ τ : Type}

/-- The candidate positions of `plan`, sorted. -/
def candidates (g : SchedulerGraft) (request : Request) (h q : Nat) : List Nat :=
  let promptBoundary := floorChunk request.numPromptTokens
  let captureBoundary := if g.sticky && g.dropLast then promptBoundary - CHUNK else promptBoundary
  let gapBoundary := floorChunk h
  ((if q < captureBoundary then [captureBoundary] else []) ++
    (if q + CHUNK ≤ gapBoundary then [gapBoundary] else [])).dedup.mergeSort (· ≤ ·)

/-- The candidates that `plan` does not skip. -/
def plannable (request : Request) (hashes : List κ) (pos : Nat) : Bool :=
  decide (pos ≤ floorChunk request.numPromptTokens) && decide (pos ≤ floorChunk request.numTokens) &&
    decide (pos / BLOCK ≤ hashes.length)

/-- A capture at `pos` would be mid-loop, and the model takes none. -/
def withheld (r : Registry κ τ) (request : Request) (pos : Nat) : Bool :=
  decide (pos < floorChunk request.numTokens) && !r.midLoopCapture

/-- `plan`: the captures with their keys, those left out, the drain. -/
def plan (g : SchedulerGraft) (r : Registry κ τ) (request : Request) (hashes : List κ) (h q : Nat) :
    List (Nat × κ) × List Nat × Nat :=
  let positions := (g.candidates request h q).filter (plannable request hashes)
  ((positions.filter (fun pos => !withheld r request pos)).filterMap
      (fun pos => hashes[pos / BLOCK - 1]?.map (fun key => (pos, key))),
    positions.filter (withheld r request),
    floorChunk request.numTokens)

/-- The first block of the hit that was cached in this step. -/
def firstSame (sameStep : Finset Nat) (group : List Nat) (limit : Nat) : Except PyError Nat :=
  if sameStep = ∅ then .ok limit
  else match (group.take limit).findIdx? (fun block => decide (block ∈ sameStep)) with
    | some index => .ok index
    | none => if group.length < limit then .error .indexError else .ok limit

variable [DecidableEq κ]

/-- The `while` loop of `trim`: the longest candidate with a matching checkpoint, its key and the checkpoint. -/
def trimLoop (r : Registry κ τ) (request : Request) (hashes : List κ) (first : Nat) :
    Nat → Call (Registry κ τ) (Option (Nat × κ × Checkpoint κ τ))
  | 0 => Call.ret r none
  | k + 1 =>
    let candidate := (k + 1) * CHUNK
    let count := candidate / BLOCK
    if first < count then trimLoop r request hashes first k
    else match hashes[count - 1]? with
      | none => Call.throw r .indexError
      | some key =>
        match r.get key with
        | none => trimLoop r request hashes first k
        | some entry =>
          let checked := r.tokensMatch request.requestId candidate entry request.allTokenIds
          if checked.2 then Call.ret checked.1 (some (candidate, key, entry))
          else trimLoop checked.1 request hashes first k

/-- The boundaries above the hit up to the request's last but one token. -/
def orphanBoundaries (request : Request) (h : Nat) : List Nat :=
  ((List.range (floorChunk (request.numTokens - 1) / CHUNK + 1)).map (· * CHUNK)).filter (floorChunk h + CHUNK ≤ ·)

/-- The orphans `trim` notes. -/
def noteOrphans (r : Registry κ τ) (request : Request) (hashes : List κ) (h : Nat) : Registry κ τ :=
  if r.entries.items = [] then r
  else (orphanBoundaries request h).foldl (fun r boundary =>
    match hashes[boundary / BLOCK - 1]? with
    | some key => r.noteOrphan key
    | none => r) r

/-- `kill_switch_engaged`; `flag` says that this poll is due and finds the flag file. -/
def killSwitchEngaged (g : SchedulerGraft) (s : Scheduler κ τ) (flag : Bool) : Scheduler κ τ × Bool :=
  let s := if flag && !s.engaged then ⟨s.registry.disable ("kill switch " ++ g.killSwitchPath), true⟩ else s
  (s, s.engaged || s.registry.disabled.isSome)

/-- The end of `trim`: stage what was found, and the hit it leaves. -/
def stageGrant (g : SchedulerGraft) (r : Registry κ τ) (request : Request) (handle : Nat) (hashes : List κ) (h : Nat)
    (found : Option (Nat × κ × Checkpoint κ τ)) : Registry κ τ × Nat :=
  let q := found.elim 0 (·.1)
  let (plan, unplanned, drain) := g.plan r request hashes h q
  let grant : Grant κ τ :=
    { reqId := request.requestId
      q, h
      key := found.map (·.2.1)
      checkpoint := found.map (·.2.2)
      plan
      request := some handle
      tokens := none
      drain, unplanned }
  (if q ≠ 0 ∨ plan ≠ [] ∨ unplanned ≠ [] then r.stage grant else r.unstage request.requestId, q)

/-- `trim`: the hit it leaves of the raw hit `h`; `group` are the ids of the hit's blocks. -/
def trim (g : SchedulerGraft) (s : Scheduler κ τ) (request : Request) (handle : Nat) (hashes : List κ)
    (group : List Nat) (h : Nat) (flag : Bool) : Call (Scheduler κ τ) Nat :=
  if excluded request then Call.ret { s with registry := s.registry.unstage request.requestId } 0
  else
    let (s, killed) := g.killSwitchEngaged s flag
    if killed then Call.ret { s with registry := s.registry.unstage request.requestId } 0
    else Call.attempt (firstSame s.registry.sameStepBlocks group (h / BLOCK)) s fun first =>
      let k := h / CHUNK
      let k := if g.sticky then min k ((request.numPromptTokens - CHUNK) / CHUNK) else k
      let found := trimLoop s.registry request hashes first k
      match found.result with
      | .error e => Call.throw { s with registry := found.obj } e
      | .ok hit =>
        let r := noteOrphans found.obj request hashes h
        let (r, q) := g.stageGrant r request handle hashes h hit
        Call.ret { s with registry := r } q

/-- `cap`: how many tokens the wrapped `cache_blocks` is given. -/
def capTokens (s : Scheduler κ τ) (request : Request) (numComputedTokens : Nat) : Nat :=
  min numComputedTokens
    (if excluded request || (s.engaged || s.registry.disabled.isSome) then 0 else floorChunk request.numPromptTokens)

/-- `cap`: the blocks the wrapped `cache_blocks` newly cached join the step's. -/
def cap (s : Scheduler κ τ) (newlyCached : List Nat) : Scheduler κ τ :=
  { s with registry :=
    { s.registry with sameStepBlocks := s.registry.sameStepBlocks ∪ newlyCached.toFinset } }

/-- What the graft reads of a `SchedulerOutput`: the new requests with their computed tokens, the cached ones, and which
of them are resumed. -/
structure Output where
  scheduledNewReqs : List (String × Nat)
  scheduledCachedReqs : List (String × Nat)
  resumedReqIds : List String

/-- The requests a step admits, with their `start_pos`. -/
def Output.admitted (output : Output) : Dict String Nat :=
  Dict.ofList (output.scheduledNewReqs ++
    output.scheduledCachedReqs.filter (fun p => output.resumedReqIds.contains p.1))

/-- `commit`. -/
def commit (s : Scheduler κ τ) (output : Output) (allTokenIds : Nat → List Token) :
    Call (Scheduler κ τ) (List (Grant κ τ)) :=
  let c := s.registry.commit output.admitted allTokenIds
  ⟨{ s with registry := c.obj }, c.result⟩

/-- `evict`: of the evicted block's keys, those that map to no cached block any more drop their checkpoint. -/
def evict (s : Scheduler κ τ) (evicted : Bool) (keys : List κ) (cached : κ → Bool) : Scheduler κ τ :=
  if evicted && decide (s.registry.entries.items ≠ []) then
    { s with registry := (keys.filter (fun key => !cached key)).foldl (fun r key => (r.drop key).1) s.registry }
  else s

/-- The wrapped `reset_prefix_cache`; `result` is vLLM's answer. -/
def resetPrefixCache (s : Scheduler κ τ) (result : Bool) : Scheduler κ τ :=
  if result then { s with registry := s.registry.clear } else s

/-- The wrapped `_free_request`. -/
def freeRequest (s : Scheduler κ τ) (requestId : String) : Scheduler κ τ :=
  { s with registry := (s.registry.forgetRequest requestId).1 }

end SchedulerGraft

end BlackholeQwen.Prefix
