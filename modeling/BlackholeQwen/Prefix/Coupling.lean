import BlackholeQwen.Lib.Runs
import BlackholeQwen.Prefix.Sound

/-!
# Checkpoints and their KV blocks

The registry beside vLLM's block pool: captures are keyed by the plan, the cap decides what an admission publishes, and
evictions are coupled through a third hook. `Engine` is the scheduler's side of the graft with what vLLM keeps of its
pool and its requests; vLLM's own part of an event is data, within the bounds that the rules of `Step` state.

`Planned` ties a staged capture to its request, `Secured` says that the blocks of a running request hold what its grant
may capture, and `Coupled` is what every event keeps. `checkpoint_cached` reads off it that no checkpoint outlives its
block.
-/

namespace BlackholeQwen.Prefix

open Lib

variable {κ τ : Type}

/-! ## What operations on the registry do to its keys -/

namespace Registry

variable [DecidableEq κ] {r r' : Registry κ τ}

theorem remove_keys (r : Registry κ τ) (key key' : κ) :
    key' ∈ (r.remove key).entries.keys ↔ key' ∈ r.entries.keys ∧ key' ≠ key := by
  rw [remove_entries, Dict.mem_keys_erase]

theorem enforceBudget_keys (r : Registry κ τ) {key : κ} (h : key ∈ r.enforceBudget.entries.keys) :
    key ∈ r.entries.keys := by
  obtain ⟨c, hc⟩ := Dict.mem_keys.mp h
  exact Dict.mem_keys.mpr ⟨c, enforceBudget_sub r _ hc⟩

/-- The grants and the latch are left alone. -/
structure Keeps (r r' : Registry κ τ) : Prop where
  staged : r'.staged = r.staged
  committed : r'.committed = r.committed
  disabled : r'.disabled = r.disabled

omit [DecidableEq κ] in
theorem Keeps.refl (r : Registry κ τ) : Keeps r r := ⟨rfl, rfl, rfl⟩

omit [DecidableEq κ] in
theorem Keeps.trans {r'' : Registry κ τ} (h : Keeps r r') (h' : Keeps r' r'') : Keeps r r'' :=
  ⟨h'.1.trans h.1, h'.2.trans h.2, h'.3.trans h.3⟩

omit [DecidableEq κ] in
theorem Frame.keeps (h : Frame r r') : Keeps r r' := ⟨h.staged, h.committed, h.disabled⟩

/-- Coupled drops: the dropped keys go, and no others. -/
theorem foldl_drop (keys : List κ) (r : Registry κ τ) :
    Keeps r (keys.foldl (fun r key => (r.drop key).1) r) ∧
      ∀ key, key ∈ (keys.foldl (fun r key => (r.drop key).1) r).entries.keys ↔ key ∈ r.entries.keys ∧ key ∉ keys := by
  induction keys generalizing r with
  | nil => exact ⟨Keeps.refl r, by simp⟩
  | cons a keys ih =>
    obtain ⟨hf, hk⟩ := ih (r.remove a)
    refine ⟨(remove_frame r a).keeps.trans hf, fun key => (hk key).trans ?_⟩
    rw [remove_keys, List.mem_cons]
    tauto

/-- `put` writes its own key or none, and nothing once the registry is disabled. -/
theorem put_keys (r : Registry κ τ) (key : κ) (pos : Nat) (tokenIds : List Token) (recState carry : Option (List τ))
    (nbytes : Nat) :
    Keeps r (r.put key pos tokenIds recState carry nbytes).obj ∧
    ∀ key' ∈ (r.put key pos tokenIds recState carry nbytes).obj.entries.keys, key' ∈ r.entries.keys ∨ key' = key := by
  rcases put_cases r key pos tokenIds recState carry nbytes with h | h | ⟨h, -⟩ <;> rw [h]
  · exact ⟨Keeps.refl r, fun key' => Or.inl⟩
  · exact ⟨⟨rfl, rfl, rfl⟩, fun key' hk => Or.inl (Dict.mem_keys_moveToEnd.mp hk)⟩
  · have hadd : Keeps (r.remove key) ((r.remove key).addEntry key pos tokenIds recState carry nbytes) := ⟨rfl, rfl, rfl⟩
    refine ⟨(remove_frame r key).keeps.trans (hadd.trans (enforceBudget_frame _).keeps), fun key' hk => ?_⟩
    rcases Dict.mem_keys_set.mp (enforceBudget_keys _ hk) with hk | hk
    · exact Or.inl ((remove_keys r key key').mp hk).1
    · exact Or.inr hk

theorem put_disabled (h : r.disabled.isSome) (key : κ) (pos : Nat) (tokenIds : List Token)
    (recState carry : Option (List τ)) (nbytes : Nat) :
    (r.put key pos tokenIds recState carry nbytes).obj = r := by
  unfold put
  refine Call.attempt_obj (P := fun r' : Registry κ τ => r' = r) rfl fun _ _ => ?_
  rw [if_pos h]
  rfl

/-- A capture stores nothing, or is the `put` of a planned key of a committed grant. -/
theorem capture_cases (r : Registry κ τ) (reqId : String) (pos : Nat) (recState carry : Option (List τ))
    (nbytes loopPos : Option Nat) :
    (r.capture reqId pos recState carry nbytes loopPos).1 = r ∨
    ∃ grant key tokens n, (reqId, grant) ∈ r.committed.items ∧ (pos, key) ∈ grant.plan ∧
      (r.capture reqId pos recState carry nbytes loopPos).1 = (r.put key pos tokens recState carry n).obj := by
  simp only [Registry.capture, captureCall]
  split
  · exact Or.inl rfl
  rename_i grant hgrant
  split
  · exact Or.inl rfl
  rename_i key hkey
  split
  · exact Or.inl rfl
  split
  · exact Or.inl rfl
  · exact Or.inr ⟨grant, key, _, _, Dict.get?_eq_some_iff.mp hgrant,
      Dict.mem_ofList (Dict.get?_eq_some_iff.mp hkey), rfl⟩

/-- The loop of `commit`: the keys stay, and what is committed was staged, for an admitted request, under the same
plan. -/
theorem commitLoop_keys (admitted : Dict String Nat) (allTokenIds : Nat → List Token) :
    ∀ (l : List (String × Grant κ τ)) (r : Registry κ τ),
      (∀ key, key ∈ (r.commitLoop admitted allTokenIds l).obj.entries.keys ↔ key ∈ r.entries.keys) ∧
      (r.commitLoop admitted allTokenIds l).obj.disabled = r.disabled ∧
      (r.commitLoop admitted allTokenIds l).obj.staged = r.staged ∧
      ∀ p ∈ (r.commitLoop admitted allTokenIds l).obj.committed.items, p ∈ r.committed.items ∨
        ∃ grant, (p.1, grant) ∈ l ∧ p.2.plan = grant.plan ∧ p.1 ∈ admitted.keys
  | [], r => ⟨fun _ => Iff.rfl, rfl, rfl, fun p hp => Or.inl hp⟩
  | (reqId, grant) :: l, r => by
    rw [Registry.commitLoop]
    split_ifs with hadm
    · obtain ⟨h1, h2, h3, h4⟩ := commitLoop_keys admitted allTokenIds l r
      refine ⟨h1, h2, h3, fun p hp => (h4 p hp).imp_right ?_⟩
      rintro ⟨g, hg, hrest⟩
      exact ⟨g, List.mem_cons_of_mem _ hg, hrest⟩
    rcases Call.attempt_cases (planTokens allTokenIds grant) r _ with ⟨e, -, hc⟩ | ⟨tokens, -, hc⟩ <;> rw [hc]
    · exact ⟨fun _ => Iff.rfl, rfl, rfl, fun p hp => Or.inl hp⟩
    obtain ⟨h1, h2, h3, h4⟩ := commitLoop_keys admitted allTokenIds l (r.commitGrant reqId grant tokens)
    have hsame : (∀ key, key ∈ (r.commitGrant reqId grant tokens).entries.keys ↔ key ∈ r.entries.keys) ∧
        (r.commitGrant reqId grant tokens).disabled = r.disabled ∧
        (r.commitGrant reqId grant tokens).staged = r.staged := by
      simp only [Registry.commitGrant, pinGrant]
      split
      · exact ⟨fun _ => Iff.rfl, rfl, rfl⟩
      · cases grant.key with
        | none => exact ⟨fun _ => Iff.rfl, rfl, rfl⟩
        | some key => exact ⟨fun _ => Dict.mem_keys_moveToEnd, rfl, rfl⟩
    refine ⟨fun key => (h1 key).trans (hsame.1 key), h2.trans hsame.2.1, h3.trans hsame.2.2, fun p hp => ?_⟩
    rcases h4 p hp with hp | ⟨g, hg, hrest⟩
    · rw [commitGrant_committed] at hp
      rcases Dict.mem_set.mp hp with ⟨hp, -⟩ | rfl
      · exact Or.inl hp
      · exact Or.inr ⟨grant, List.mem_cons_self, rfl, Dict.mem_keys_of_get? (not_not.mp hadm)⟩
    · exact Or.inr ⟨g, List.mem_cons_of_mem _ hg, hrest⟩

theorem commit_keys (r : Registry κ τ) (admitted : Dict String Nat) (allTokenIds : Nat → List Token) :
    (∀ key, key ∈ (r.commit admitted allTokenIds).obj.entries.keys ↔ key ∈ r.entries.keys) ∧
    (r.commit admitted allTokenIds).obj.disabled = r.disabled ∧
    (∀ p ∈ (r.commit admitted allTokenIds).obj.staged.items, p ∈ r.staged.items) ∧
    ∀ p ∈ (r.commit admitted allTokenIds).obj.committed.items, p ∈ r.committed.items ∨
      ∃ grant, (p.1, grant) ∈ r.staged.items ∧ p.2.plan = grant.plan ∧ p.1 ∈ admitted.keys := by
  obtain ⟨h1, h2, h3, h4⟩ := commitLoop_keys admitted allTokenIds r.staged.items r
  unfold Registry.commit
  rcases Call.bind_cases (r.commitLoop admitted allTokenIds r.staged.items) _ with ⟨e, -, hb⟩ | ⟨done, -, hb⟩ <;>
    rw [hb]
  · exact ⟨h1, h2, fun p hp => (by rw [Call.throw_obj, h3] at hp; exact hp), h4⟩
  · exact ⟨h1, h2, fun p hp => (by cases hp), h4⟩

end Registry

/-! ## What an attempt stages -/

/-- The captures that a request may have staged: at full chunks of its prompt and of its tokens, keyed by the hash of
the block there. An excluded request has none. -/
structure Planned (request : Request) (hashes : List κ) (plan : List (Nat × κ)) : Prop where
  served : excluded request = false
  at' : ∀ p ∈ plan, CHUNK ≤ p.1 ∧ p.1 ≤ floorChunk request.numPromptTokens ∧ p.1 ≤ request.numTokens ∧
    hashes[p.1 / BLOCK - 1]? = some p.2

/-- A plan stays one while the request grows. -/
theorem Planned.grow {request request' : Request} {hashes more : List κ} {plan : List (Nat × κ)}
    (h : Planned request hashes plan) (hp : request'.numPromptTokens = request.numPromptTokens)
    (hx : excluded request' = excluded request) (hn : request.numTokens ≤ request'.numTokens) :
    Planned request' (hashes ++ more) plan := by
  refine ⟨hx.trans h.served, fun p hmem => ?_⟩
  obtain ⟨h1, h2, h3, h4⟩ := h.at' p hmem
  refine ⟨h1, by rw [hp]; exact h2, h3.trans hn, ?_⟩
  rw [List.getElem?_append_left (List.getElem?_eq_some_iff.mp h4).1, h4]

namespace SchedulerGraft

variable {g : SchedulerGraft} {request : Request}

/-- A candidate is a full chunk. -/
theorem candidates_ge {h q pos : Nat} (hpos : pos ∈ g.candidates request h q) : CHUNK ≤ pos := by
  simp only [candidates, List.mem_mergeSort, List.mem_dedup, List.mem_append, List.mem_ite_nil_right,
    List.mem_singleton] at hpos
  obtain ⟨n, hn⟩ : ∃ n, floorChunk request.numPromptTokens = n * CHUNK := ⟨_, rfl⟩
  rw [hn] at hpos
  rcases hpos with ⟨hlt, rfl⟩ | ⟨hle, rfl⟩
  · rw [show CHUNK = 2048 from rfl] at hlt ⊢
    split at hlt
    · rename_i hc; rw [if_pos hc]; omega
    · rename_i hc; rw [if_neg hc]; omega
  · omega

theorem plan_planned {r : Registry κ τ} {hashes : List κ} {h q : Nat} (hserved : excluded request = false) :
    Planned request hashes (g.plan r request hashes h q).1 := by
  refine ⟨hserved, fun p hp => ?_⟩
  have hle := plan_le hp
  simp only [plan, List.mem_filterMap, List.mem_filter] at hp
  obtain ⟨pos, ⟨⟨hcand, hpos⟩, -⟩, hmap⟩ := hp
  simp only [plannable, Bool.and_eq_true, decide_eq_true_eq] at hpos
  cases hk : hashes[pos / BLOCK - 1]? with
  | none => rw [hk] at hmap; cases hmap
  | some key =>
    rw [hk] at hmap
    cases hmap
    exact ⟨candidates_ge hcand, hpos.1.1, hle, hk⟩

/-- What an attempt does: it commits nothing, drops every entry only by latching the registry off, and stages for its
own request alone what that may have. -/
structure Attempted (request : Request) (hashes : List κ) (s s' : Scheduler κ τ) : Prop where
  committed : s'.registry.committed = s.registry.committed
  entries : (s'.registry.entries = s.registry.entries ∧ s'.registry.disabled = s.registry.disabled ∧
      s'.engaged = s.engaged) ∨
    (s'.registry.entries = Dict.empty ∧ s'.registry.disabled.isSome)
  staged : ∀ p ∈ s'.registry.staged.items, p ∈ s.registry.staged.items ∨
    p.1 = request.requestId ∧ Planned request hashes p.2.plan

theorem Attempted.unstage {hashes : List κ} {s s' : Scheduler κ τ} (h : Attempted request hashes s s') :
    Attempted request hashes s { s' with registry := s'.registry.unstage request.requestId } :=
  ⟨h.committed, h.entries, fun p hp => h.staged p (Dict.mem_erase.mp hp).1⟩

theorem killSwitchEngaged_attempted (s : Scheduler κ τ) (hashes : List κ) (flag : Bool) :
    Attempted request hashes s (g.killSwitchEngaged s flag).1 := by
  unfold killSwitchEngaged
  simp only
  split
  · refine ⟨rfl, Or.inr ⟨rfl, ?_⟩, fun p hp => Or.inl hp⟩
    show (s.registry.disabled.or _).isSome
    cases s.registry.disabled <;> rfl
  · exact ⟨rfl, Or.inl ⟨rfl, rfl, rfl⟩, fun p hp => Or.inl hp⟩

/-- A change of the registry that keeps the entries, the grants and the latch. -/
theorem Attempted.keeps {hashes : List κ} {s s' : Scheduler κ τ} (h : Attempted request hashes s s')
    {r : Registry κ τ} (hr : Registry.Keeps s'.registry r ∧ r.entries = s'.registry.entries) :
    Attempted request hashes s { s' with registry := r } := by
  obtain ⟨⟨hstaged, hcommitted, hdisabled⟩, hentries⟩ := hr
  refine ⟨hcommitted.trans h.committed, ?_, fun p hp => h.staged p (hstaged ▸ hp)⟩
  simp only [hentries, hdisabled]
  exact h.entries

theorem Attempted.stageGrant {hashes : List κ} {s s' : Scheduler κ τ} (h : Attempted request hashes s s')
    (hserved : excluded request = false) (handle hit : Nat) (found : Option (Nat × κ × Checkpoint κ τ)) :
    Attempted request hashes s
      { s' with registry := (g.stageGrant s'.registry request handle hashes hit found).1 } := by
  unfold SchedulerGraft.stageGrant
  simp only
  split_ifs
  · refine ⟨h.committed, h.entries, fun p hp => ?_⟩
    rcases Dict.mem_set.mp hp with ⟨hp, -⟩ | rfl
    · exact h.staged p hp
    · exact Or.inr ⟨rfl, plan_planned hserved⟩
  · exact h.unstage

variable [DecidableEq κ]

/-- The search for a checkpoint leaves the entries, the grants and the latch alone. -/
theorem trimLoop_keeps (hashes : List κ) (first : Nat) : ∀ (k : Nat) (r : Registry κ τ),
    Registry.Keeps r (trimLoop r request hashes first k).obj ∧
      (trimLoop r request hashes first k).obj.entries = r.entries
  | 0, r => ⟨.refl r, rfl⟩
  | k + 1, r => by
    rw [trimLoop]
    simp only
    split
    · exact trimLoop_keeps hashes first k r
    split
    · exact ⟨.refl r, rfl⟩
    split
    · exact trimLoop_keeps hashes first k r
    rename_i entry _
    have hmatch : Registry.Keeps r (r.tokensMatch request.requestId ((k + 1) * CHUNK) entry request.allTokenIds).1 ∧
        (r.tokensMatch request.requestId ((k + 1) * CHUNK) entry request.allTokenIds).1.entries = r.entries := by
      unfold Registry.tokensMatch
      simp only
      split <;> exact ⟨⟨rfl, rfl, rfl⟩, rfl⟩
    split
    · exact hmatch
    · obtain ⟨h1, h2⟩ := trimLoop_keeps hashes first k
        (r.tokensMatch request.requestId ((k + 1) * CHUNK) entry request.allTokenIds).1
      exact ⟨hmatch.1.trans h1, h2.trans hmatch.2⟩

omit [DecidableEq κ] in
/-- A loop whose rounds leave the entries, the grants and the latch alone. -/
theorem foldl_keeps {β : Type} {f : Registry κ τ → β → Registry κ τ}
    (hf : ∀ r b, Registry.Keeps r (f r b) ∧ (f r b).entries = r.entries) :
    ∀ (l : List β) (r : Registry κ τ), Registry.Keeps r (l.foldl f r) ∧ (l.foldl f r).entries = r.entries
  | [], r => ⟨.refl r, rfl⟩
  | b :: l, r => by
    obtain ⟨h1, h2⟩ := foldl_keeps hf l (f r b)
    exact ⟨(hf r b).1.trans h1, h2.trans (hf r b).2⟩

theorem noteOrphans_keeps (r : Registry κ τ) (hashes : List κ) (h : Nat) :
    Registry.Keeps r (noteOrphans r request hashes h) ∧ (noteOrphans r request hashes h).entries = r.entries := by
  unfold noteOrphans
  split
  · exact ⟨.refl r, rfl⟩
  refine foldl_keeps (fun r b => ?_) _ r
  split
  · unfold Registry.noteOrphan
    split <;> exact ⟨⟨rfl, rfl, rfl⟩, rfl⟩
  · exact ⟨.refl r, rfl⟩

theorem trim_attempted (g : SchedulerGraft) (s : Scheduler κ τ) (request : Request) (handle : Nat) (hashes : List κ)
    (group : List Nat) (h : Nat) (flag : Bool) :
    Attempted request hashes s (g.trim s request handle hashes group h flag).obj := by
  unfold trim
  have hrefl : Attempted request hashes s s := ⟨rfl, Or.inl ⟨rfl, rfl, rfl⟩, fun p hp => Or.inl hp⟩
  split
  · exact hrefl.unstage
  rename_i hserved
  simp only
  have hk : Attempted request hashes s (g.killSwitchEngaged s flag).1 := killSwitchEngaged_attempted s hashes flag
  split
  · exact hk.unstage
  refine Call.attempt_obj (P := fun s' : Scheduler κ τ => Attempted request hashes s s') hk fun first _ => ?_
  have hloop := hk.keeps (@trimLoop_keeps _ _ request _ hashes first
    (if g.sticky = true then min (h / CHUNK) ((request.numPromptTokens - CHUNK) / CHUNK) else h / CHUNK)
    (g.killSwitchEngaged s flag).1.registry)
  split
  · exact hloop
  · exact (hloop.keeps (noteOrphans_keeps _ hashes h)).stageGrant (by simpa using hserved) handle h _

end SchedulerGraft

/-! ## The engine -/

/-- Between the steps, inside `schedule`, and from there to the end of the step's model run. -/
inductive Phase
  | idle | scheduling | executing
  deriving DecidableEq, Repr

/-- The scheduler's side of the graft, and what vLLM keeps: the request objects by handle with their block hashes, the
handles of the live ones by id, the running ones and the blocks they hold, the pool's map as pairs of a block and a hash
it is cached under, and the requests that this `schedule` has admitted. -/
structure Engine (κ τ : Type) where
  scheduler : Scheduler κ τ
  requests : Nat → Request
  hashes : Nat → List κ
  arrivals : Nat
  live : Dict String Nat
  running : List Nat
  blocks : Nat → List Nat
  pool : List (Nat × κ)
  phase : Phase
  admitted : List String

namespace Engine

/-- An engine before its first request. -/
def init (budgetBytes : Nat) (midLoopCapture : Bool) : Engine κ τ where
  scheduler := ⟨Registry.init budgetBytes midLoopCapture, false⟩
  requests := fun _ => default
  hashes := fun _ => []
  arrivals := 0
  live := Dict.empty
  running := []
  blocks := fun _ => []
  pool := []
  phase := .idle
  admitted := []

/-- Some cached block has the hash. -/
def Cached (e : Engine κ τ) (key : κ) : Prop := ∃ block, (block, key) ∈ e.pool

/-- The keys of the registry's entries. -/
def keys (e : Engine κ τ) : List κ := e.scheduler.registry.entries.keys

/-- The wrapped `cache_blocks`: vLLM caches the request's full blocks below the capped number of tokens. -/
def publish (e : Engine κ τ) (handle numComputedTokens : Nat) (newlyCached : List Nat) : Engine κ τ :=
  { e with
    scheduler := SchedulerGraft.cap e.scheduler newlyCached
    pool := e.pool ++ ((e.blocks handle).zip (e.hashes handle)).take
      (SchedulerGraft.capTokens e.scheduler (e.requests handle) numComputedTokens / BLOCK) }

/-- A whole prompt allocated: its request runs, holds these blocks, and they are cached up to the cap. -/
def allocate (e : Engine κ τ) (id : String) (handle : Nat) (blocks newlyCached : List Nat) : Engine κ τ :=
  ({ e with
    running := handle :: e.running
    blocks := fun i => if i = handle then blocks else e.blocks i
    admitted := e.admitted ++ [id] } : Engine κ τ).publish handle (e.requests handle).numTokens newlyCached

/-- A request that no longer runs. -/
def stop (e : Engine κ τ) (id : String) (handle : Nat) : Engine κ τ :=
  { e with
    running := e.running.filter (· ≠ handle)
    admitted := e.admitted.filter (· ≠ id) }

variable [DecidableEq κ]

/-- `_maybe_evict_cached_block` as wrapped; `evicted` is vLLM's answer. -/
def evict (e : Engine κ τ) (block : Nat) (evicted : Bool) : Engine κ τ :=
  let pool := if evicted then e.pool.filter (·.1 ≠ block) else e.pool
  { e with
    pool
    scheduler := SchedulerGraft.evict e.scheduler evicted ((e.pool.filter (·.1 = block)).map Prod.snd)
      fun key => pool.any (·.2 = key) }

/-- `reset_prefix_cache` as wrapped; a reset that is done leaves nothing running and nothing cached. -/
def reset (e : Engine κ τ) (result : Bool) : Engine κ τ :=
  let e := { e with scheduler := SchedulerGraft.resetPrefixCache e.scheduler result }
  if result then { e with running := [], pool := [] } else e

end Engine

/-- What can happen to the engine. -/
inductive EngineEvent (κ τ : Type)
  | arrive (request : Request) (hashes : List κ)
  | append (id : String) (tokens : List Token) (hashes : List κ)
  | declareMidLoop
  | begin
  | attempt (id : String) (group : List Nat) (h : Nat) (flag : Bool)
  | allocate (id : String) (blocks newlyCached : List Nat)
  | publish (id : String) (numComputedTokens : Nat) (newlyCached : List Nat)
  | grow (id : String) (blocks : List Nat)
  | evict (block : Nat) (evicted : Bool)
  | preempt (id : String)
  | commit (output : SchedulerGraft.Output)
  | capture (reqId : String) (pos : Nat) (recState carry : Option (List τ)) (nbytes loopPos : Option Nat)
  | finishStep
  | reset (result : Bool)
  | free (id : String)

/-- An event. Attempts are of waiting requests; an admission allocates the whole of its request; a running request's
blocks are not evicted; a step's output admits what its `schedule` has allocated and not taken back; captures come
between a commit and the end of its step, resets between the steps. -/
inductive EngineStep [DecidableEq κ] (g : SchedulerGraft) : Engine κ τ → EngineEvent κ τ → Engine κ τ → Prop
  | arrive {e : Engine κ τ} {request : Request} {hashes : List κ} : e.live.get? request.requestId = none →
      EngineStep g e (.arrive request hashes)
        { e with
          requests := fun i => if i = e.arrivals then request else e.requests i
          hashes := fun i => if i = e.arrivals then hashes else e.hashes i
          arrivals := e.arrivals + 1
          live := e.live.set request.requestId e.arrivals }
  | append {e : Engine κ τ} {id : String} {handle : Nat} {tokens : List Token} {hashes : List κ} :
      e.live.get? id = some handle →
      EngineStep g e (.append id tokens hashes)
        { e with
          requests := fun i => if i = handle then
            { e.requests i with allTokenIds := (e.requests i).allTokenIds ++ tokens } else e.requests i
          hashes := fun i => if i = handle then e.hashes i ++ hashes else e.hashes i }
  | declareMidLoop {e : Engine κ τ} :
      EngineStep g e .declareMidLoop
        { e with scheduler := { e.scheduler with registry := e.scheduler.registry.enableMidLoopCapture } }
  | begin {e : Engine κ τ} : e.phase = .idle →
      EngineStep g e .begin
        { e with
          scheduler := { e.scheduler with registry := e.scheduler.registry.beginStep }
          phase := .scheduling
          admitted := [] }
  | attempt {e : Engine κ τ} {id : String} {handle : Nat} {group : List Nat} {h : Nat} {flag : Bool} :
      e.phase = .scheduling → e.live.get? id = some handle → handle ∉ e.running →
      EngineStep g e (.attempt id group h flag)
        { e with scheduler :=
          (g.trim e.scheduler (e.requests handle) handle (e.hashes handle) group h flag).obj }
  | allocate {e : Engine κ τ} {id : String} {handle : Nat} {blocks newlyCached : List Nat} :
      e.phase = .scheduling → e.live.get? id = some handle → handle ∉ e.running →
      (e.requests handle).numTokens ≤ blocks.length * BLOCK →
      EngineStep g e (.allocate id blocks newlyCached) (e.allocate id handle blocks newlyCached)
  | publish {e : Engine κ τ} {id : String} {handle numComputedTokens : Nat} {newlyCached : List Nat} :
      e.live.get? id = some handle → handle ∈ e.running →
      EngineStep g e (.publish id numComputedTokens newlyCached) (e.publish handle numComputedTokens newlyCached)
  | grow {e : Engine κ τ} {id : String} {handle : Nat} {blocks : List Nat} :
      e.live.get? id = some handle → handle ∈ e.running →
      EngineStep g e (.grow id blocks)
        { e with blocks := fun i => if i = handle then e.blocks i ++ blocks else e.blocks i }
  | evict {e : Engine κ τ} {block : Nat} {evicted : Bool} : (∀ handle ∈ e.running, block ∉ e.blocks handle) →
      EngineStep g e (.evict block evicted) (e.evict block evicted)
  | preempt {e : Engine κ τ} {id : String} {handle : Nat} : e.phase ≠ .executing → e.live.get? id = some handle →
      EngineStep g e (.preempt id) (e.stop id handle)
  | commit {e : Engine κ τ} {output : SchedulerGraft.Output} : e.phase = .scheduling →
      (∀ id ∈ output.admitted.keys, id ∈ e.admitted) →
      EngineStep g e (.commit output)
        { e with
          scheduler := (SchedulerGraft.commit e.scheduler output fun handle => (e.requests handle).allTokenIds).obj
          phase := .executing }
  | capture {e : Engine κ τ} {reqId : String} {pos : Nat} {recState carry : Option (List τ)}
      {nbytes loopPos : Option Nat} : e.phase = .executing →
      EngineStep g e (.capture reqId pos recState carry nbytes loopPos)
        { e with scheduler := { e.scheduler with
          registry := (e.scheduler.registry.capture reqId pos recState carry nbytes loopPos).1 } }
  | finishStep {e : Engine κ τ} : e.phase = .executing → EngineStep g e .finishStep { e with phase := .idle }
  | reset {e : Engine κ τ} {result : Bool} : e.phase = .idle → EngineStep g e (.reset result) (e.reset result)
  | free {e : Engine κ τ} {id : String} {handle : Nat} : e.live.get? id = some handle →
      EngineStep g e (.free id)
        { e.stop id handle with
          scheduler := SchedulerGraft.freeRequest e.scheduler id
          live := e.live.erase id }

/-! ## What every event keeps -/

/-- The request of this id runs, and a block it holds is cached under each planned key. -/
def Secured (e : Engine κ τ) (id : String) (plan : List (Nat × κ)) : Prop :=
  ∃ handle, e.live.get? id = some handle ∧ handle ∈ e.running ∧
    ∀ p ∈ plan, ∃ block ∈ e.blocks handle, (block, p.2) ∈ e.pool

/-- What a running request holds stays secured while it runs, holds it, and it stays cached. -/
theorem Secured.mono {e e' : Engine κ τ} {id : String} {plan : List (Nat × κ)} (h : Secured e id plan)
    (hlive : ∀ handle, e.live.get? id = some handle → handle ∈ e.running →
      e'.live.get? id = some handle ∧ handle ∈ e'.running ∧ (∀ b ∈ e.blocks handle, b ∈ e'.blocks handle) ∧
        ∀ b ∈ e.blocks handle, ∀ key, (b, key) ∈ e.pool → (b, key) ∈ e'.pool) : Secured e' id plan := by
  obtain ⟨handle, hl, hrun, hplan⟩ := h
  obtain ⟨hl', hrun', hblocks, hpool⟩ := hlive handle hl hrun
  refine ⟨handle, hl', hrun', fun p hp => ?_⟩
  obtain ⟨block, hb, hc⟩ := hplan p hp
  exact ⟨block, hblocks block hb, hpool block hb p.2 hc⟩

/-- **What every event keeps.** Every entry's key is cached; a latched registry is empty; a staged plan is of its live
request; inside `schedule` nothing is committed and what is admitted is secured, and in the step that follows what is
committed is. -/
structure Coupled [DecidableEq κ] (e : Engine κ τ) : Prop where
  cached : ∀ key ∈ e.keys, e.Cached key
  latched : e.scheduler.engaged = true → e.scheduler.registry.disabled.isSome
  emptied : e.scheduler.registry.disabled.isSome → ∀ key, key ∉ e.keys
  ids : ∀ p ∈ e.live.items, (e.requests p.2).requestId = p.1 ∧ p.2 < e.arrivals
  staged : ∀ p ∈ e.scheduler.registry.staged.items, ∃ handle, e.live.get? p.1 = some handle ∧
    Planned (e.requests handle) (e.hashes handle) p.2.plan
  uncommitted : e.phase = .scheduling → e.scheduler.registry.committed.items = []
  admitted : e.phase = .scheduling → ∀ id ∈ e.admitted, Secured e id [] ∧
    (e.scheduler.registry.disabled.isSome ∨
      ∀ grant, (id, grant) ∈ e.scheduler.registry.staged.items → Secured e id grant.plan)
  committed : e.phase = .executing → e.scheduler.registry.disabled.isSome ∨
    ∀ p ∈ e.scheduler.registry.committed.items, Secured e p.1 p.2.plan

namespace Coupled

variable [DecidableEq κ] {g : SchedulerGraft} {e e' : Engine κ τ}

/-- Events that leave the grants and the latch alone: what they do to the entries and to vLLM's state. -/
theorem transfer (h : Coupled e) (hkeep : Registry.Keeps e.scheduler.registry e'.scheduler.registry)
    (hengaged : e'.scheduler.engaged = e.scheduler.engaged) (hkeys : ∀ key ∈ e'.keys, key ∈ e.keys ∧ e'.Cached key)
    (hids : ∀ p ∈ e'.live.items, (e'.requests p.2).requestId = p.1 ∧ p.2 < e'.arrivals)
    (hplan : ∀ id handle plan, e.live.get? id = some handle → Planned (e.requests handle) (e.hashes handle) plan →
      ∃ handle', e'.live.get? id = some handle' ∧ Planned (e'.requests handle') (e'.hashes handle') plan)
    (hsec : ∀ id plan, Secured e id plan → Secured e' id plan) (hphase : e'.phase = e.phase)
    (hadm : e'.admitted = e.admitted) : Coupled e' where
  cached key hk := (hkeys key hk).2
  latched := by rw [hengaged, hkeep.disabled]; exact h.latched
  emptied hd key hk := h.emptied (by rwa [hkeep.disabled] at hd) key (hkeys key hk).1
  ids := hids
  staged p hp := by
    rw [hkeep.staged] at hp
    obtain ⟨handle, hlive, hplanned⟩ := h.staged p hp
    exact hplan p.1 handle p.2.plan hlive hplanned
  uncommitted := by rw [hphase, hkeep.committed]; exact h.uncommitted
  admitted := by
    rw [hphase, hadm, hkeep.disabled, hkeep.staged]
    intro hp id hid
    obtain ⟨hrun, hsecured⟩ := h.admitted hp id hid
    exact ⟨hsec id [] hrun, hsecured.imp_right fun hall grant hg => hsec id _ (hall grant hg)⟩
  committed := by
    rw [hphase, hkeep.disabled, hkeep.committed]
    exact fun hp => (h.committed hp).imp_right fun hall p hmem => hsec p.1 _ (hall p hmem)

/-- Live requests of different ids are different objects. -/
theorem handle_inj (h : Coupled e) {id id' : String} {handle : Nat} (hl : e.live.get? id = some handle)
    (hl' : e.live.get? id' = some handle) : id = id' :=
  (h.ids _ (Dict.get?_eq_some_iff.mp hl)).1.symm.trans (h.ids _ (Dict.get?_eq_some_iff.mp hl')).1

theorem arrive (h : Coupled e) {request : Request} (hashes : List κ) (hfresh : e.live.get? request.requestId = none) :
    Coupled { e with
      requests := fun i => if i = e.arrivals then request else e.requests i
      hashes := fun i => if i = e.arrivals then hashes else e.hashes i
      arrivals := e.arrivals + 1
      live := e.live.set request.requestId e.arrivals } := by
  have hold : ∀ id handle, e.live.get? id = some handle →
      (e.live.set request.requestId e.arrivals).get? id = some handle ∧ handle ≠ e.arrivals := by
    intro id handle hl
    have hne : id ≠ request.requestId := by rintro rfl; rw [hfresh] at hl; cases hl
    exact ⟨by rw [Dict.get?_set_of_ne _ _ hne, hl],
      Nat.ne_of_lt (h.ids _ (Dict.get?_eq_some_iff.mp hl)).2⟩
  refine h.transfer (.refl _) rfl (fun key hk => ⟨hk, h.cached key hk⟩) (fun p hp => ?_)
    (fun id handle plan hl hp => ?_)
    (fun id _ hs => hs.mono fun handle hl hrun => ⟨(hold id handle hl).1, hrun, fun _ hb => hb,
      fun _ _ _ hc => hc⟩) rfl rfl
  · rcases Dict.mem_set.mp hp with ⟨hp, -⟩ | rfl
    · obtain ⟨h1, h2⟩ := h.ids p hp
      simp only [if_neg (Nat.ne_of_lt h2)]
      exact ⟨h1, Nat.lt_succ_of_lt h2⟩
    · simp
  · obtain ⟨hl', hne⟩ := hold id handle hl
    exact ⟨handle, hl', by simpa only [if_neg hne] using hp⟩

theorem append (h : Coupled e) (handle : Nat) (tokens : List Token) (hashes : List κ) :
    Coupled { e with
      requests := fun i => if i = handle then
        { e.requests i with allTokenIds := (e.requests i).allTokenIds ++ tokens } else e.requests i
      hashes := fun i => if i = handle then e.hashes i ++ hashes else e.hashes i } := by
  refine h.transfer (.refl _) rfl (fun key hk => ⟨hk, h.cached key hk⟩) (fun p hp => ?_) (fun _ hd _ hl hp => ?_)
    (fun _ _ hs => hs) rfl rfl
  · obtain ⟨h1, h2⟩ := h.ids p hp
    refine ⟨?_, h2⟩
    simp only
    split_ifs <;> exact h1
  · refine ⟨hd, hl, ?_⟩
    simp only
    split_ifs with he
    · exact hp.grow rfl rfl (by simp [Request.numTokens])
    · exact hp

/-- Publishing only adds to the pool. -/
theorem publish (h : Coupled e) (handle n : Nat) (newlyCached : List Nat) :
    Coupled (e.publish handle n newlyCached) :=
  h.transfer ⟨rfl, rfl, rfl⟩ rfl
    (fun key hk => ⟨hk, (h.cached key hk).imp fun _ hb => List.mem_append_left _ hb⟩) h.ids
    (fun _ hd _ hl hp => ⟨hd, hl, hp⟩)
    (fun _ _ hs => hs.mono fun _ hl hrun =>
      ⟨hl, hrun, fun _ hb => hb, fun _ _ _ hc => List.mem_append_left _ hc⟩) rfl rfl

theorem grow (h : Coupled e) (handle : Nat) (blocks : List Nat) :
    Coupled { e with blocks := fun i => if i = handle then e.blocks i ++ blocks else e.blocks i } := by
  refine h.transfer (.refl _) rfl (fun key hk => ⟨hk, h.cached key hk⟩) h.ids (fun _ hd _ hl hp => ⟨hd, hl, hp⟩)
    (fun _ _ hs => hs.mono fun _ hl hrun => ⟨hl, hrun, fun b hb => ?_, fun _ _ _ hc => hc⟩) rfl rfl
  simp only
  split_ifs
  · exact List.mem_append_left _ hb
  · exact hb

/-- An eviction: what stays among the entries is still cached. -/
theorem evict_keys (e : Engine κ τ) (block : Nat) (evicted : Bool) {key : κ} (hkey : key ∈ e.keys) :
    key ∈ (e.evict block evicted).keys ∨ ¬(e.evict block evicted).Cached key := by
  unfold Engine.evict Engine.keys SchedulerGraft.evict
  simp only
  split
  · rw [or_iff_not_imp_right, not_not]
    intro hcached
    refine ((Registry.foldl_drop _ e.scheduler.registry).2 key).mpr ⟨hkey, fun hdrop => ?_⟩
    obtain ⟨b, hb⟩ := hcached
    have hnot := (List.mem_filter.mp hdrop).2
    rw [Bool.not_eq_true', List.any_eq_false] at hnot
    exact hnot _ hb (decide_eq_true rfl)
  · exact Or.inl hkey

theorem evict (h : Coupled e) {block : Nat} (evicted : Bool) (hfree : ∀ handle ∈ e.running, block ∉ e.blocks handle) :
    Coupled (e.evict block evicted) := by
  have hpool : ∀ b key, b ≠ block → (b, key) ∈ e.pool → (b, key) ∈ (e.evict block evicted).pool := by
    intro b key hne hc
    unfold Engine.evict
    simp only
    split
    · exact List.mem_filter.mpr ⟨hc, decide_eq_true hne⟩
    · exact hc
  have hkeys : ∀ key ∈ (e.evict block evicted).keys, key ∈ e.keys ∧ (e.evict block evicted).Cached key := by
    intro key hk
    unfold Engine.evict Engine.keys SchedulerGraft.evict at hk
    simp only at hk
    have hold : key ∈ e.keys := by
      split at hk
      · exact ((Registry.foldl_drop _ e.scheduler.registry).2 key |>.mp hk).1
      · exact hk
    refine ⟨hold, ?_⟩
    obtain ⟨b, hb⟩ := h.cached key hold
    by_cases hne : b = block
    · subst hne
      cases evicted with
      | false => exact ⟨b, by simpa [Engine.evict] using hb⟩
      | true =>
        -- the block's own keys go unless another block has them
        have hnonempty : e.scheduler.registry.entries.items ≠ [] := by
          intro hnil
          simp [Engine.keys, Dict.keys, hnil] at hold
        simp only [Bool.true_and, decide_eq_true hnonempty, if_true] at hk
        have hnot := ((Registry.foldl_drop _ e.scheduler.registry).2 key |>.mp hk).2
        rw [List.mem_filter, not_and] at hnot
        have hown : key ∈ (e.pool.filter (·.1 = b)).map Prod.snd :=
          List.mem_map.mpr ⟨(b, key), List.mem_filter.mpr ⟨hb, decide_eq_true rfl⟩, rfl⟩
        have hcached := hnot hown
        rw [Bool.not_eq_true', Bool.not_eq_false, List.any_eq_true] at hcached
        obtain ⟨p, hp, hpk⟩ := hcached
        obtain rfl := of_decide_eq_true hpk
        exact ⟨p.1, hp⟩
    · exact ⟨b, hpool b key hne hb⟩
  refine h.transfer ?_ ?_ hkeys h.ids (fun _ hd _ hl hp => ⟨hd, hl, hp⟩)
    (fun _ _ hs => hs.mono fun hd hl hrun => ⟨hl, hrun, fun _ hb => hb, fun b hb key hc =>
      hpool b key (fun heq => hfree hd hrun (heq ▸ hb)) hc⟩) rfl rfl
  · unfold Engine.evict SchedulerGraft.evict
    simp only
    split
    · exact (Registry.foldl_drop _ _).1
    · exact .refl _
  · unfold Engine.evict SchedulerGraft.evict
    simp only
    split <;> rfl

/-- A step begins: last step's grants go, and nothing is admitted yet. -/
theorem begin (h : Coupled e) :
    Coupled { e with
      scheduler := { e.scheduler with registry := e.scheduler.registry.beginStep }
      phase := .scheduling
      admitted := [] } := by
  have hf := Registry.enforceBudget_frame e.scheduler.registry.release
  have hstaged : e.scheduler.registry.beginStep.staged.items = [] := congrArg Dict.items hf.staged
  have hcommitted : e.scheduler.registry.beginStep.committed.items = [] := congrArg Dict.items hf.committed
  have hdisabled : e.scheduler.registry.beginStep.disabled = e.scheduler.registry.disabled := hf.disabled
  have hkeys : ∀ key ∈ e.scheduler.registry.beginStep.entries.keys, key ∈ e.keys := fun key hk =>
    Registry.enforceBudget_keys e.scheduler.registry.release hk
  refine ⟨fun key hk => h.cached key (hkeys key hk), fun hen => ?_, fun hd key hk => ?_, h.ids, fun p hp => ?_,
    fun _ => hcommitted, fun _ id hid => (by cases hid), fun hp => (by cases hp)⟩
  · rw [hdisabled]; exact h.latched hen
  · exact h.emptied (by rwa [hdisabled] at hd) key (hkeys key hk)
  · rw [hstaged] at hp; cases hp

/-- An attempt to admit a waiting request. -/
theorem attempt (h : Coupled e) {id : String} {handle : Nat} (hphase : e.phase = .scheduling)
    (hlive : e.live.get? id = some handle) (hwait : handle ∉ e.running) (group : List Nat) (hit : Nat) (flag : Bool) :
    Coupled { e with scheduler :=
      (g.trim e.scheduler (e.requests handle) handle (e.hashes handle) group hit flag).obj } := by
  have ha := SchedulerGraft.trim_attempted g e.scheduler (e.requests handle) handle (e.hashes handle) group hit flag
  generalize (g.trim e.scheduler (e.requests handle) handle (e.hashes handle) group hit flag).obj = s at ha ⊢
  have hid : (e.requests handle).requestId = id := (h.ids _ (Dict.get?_eq_some_iff.mp hlive)).1
  have hown : ∀ p ∈ s.registry.staged.items, p ∈ e.scheduler.registry.staged.items ∨
      p.1 = id ∧ Planned (e.requests handle) (e.hashes handle) p.2.plan := by rw [← hid]; exact ha.staged
  refine ⟨fun key hk => ?_, fun hen => ?_, fun hd key hk => ?_, h.ids, fun p hp => ?_, fun _ => ?_,
    fun _ id' hid' => ?_,
    fun hp => (by rw [hphase] at hp; cases hp)⟩
  · rcases ha.entries with ⟨he, -, -⟩ | ⟨he, -⟩ <;> rw [Engine.keys, he] at hk
    · exact h.cached key hk
    · simp [Dict.keys] at hk
  · rcases ha.entries with ⟨-, hd, hen'⟩ | ⟨-, hd⟩
    · rw [hd]; exact h.latched (hen'.symm.trans hen)
    · exact hd
  · rcases ha.entries with ⟨he, hd', -⟩ | ⟨he, -⟩ <;> rw [Engine.keys, he] at hk
    · exact h.emptied (by rwa [hd'] at hd) key hk
    · simp [Dict.keys] at hk
  · rcases hown p hp with hp | ⟨hp, hplanned⟩
    · exact h.staged p hp
    · exact ⟨handle, by rw [hp]; exact hlive, hplanned⟩
  · rw [ha.committed]; exact h.uncommitted hphase
  · obtain ⟨hrun, hsecured⟩ := h.admitted hphase id' hid'
    refine ⟨hrun, ?_⟩
    rcases ha.entries with ⟨-, hd, -⟩ | ⟨-, hd⟩
    · refine hsecured.imp (fun hd' => by rw [hd]; exact hd') fun hall grant hg => ?_
      rcases hown _ hg with hg | ⟨heq, -⟩
      · exact hall grant hg
      · -- what is admitted is running, so it is not what is attempted
        obtain ⟨handle', hl', hrun', -⟩ := hrun
        rw [show id' = id from heq, hlive] at hl'
        exact absurd (Option.some.inj hl' ▸ hrun') hwait
    · exact Or.inl hd

/-- The blocks of an admitted request that its plan names are cached. -/
theorem allocate_secured (h : Coupled e) {id : String} {handle : Nat} (hlive : e.live.get? id = some handle)
    {blocks newlyCached : List Nat} (hlen : (e.requests handle).numTokens ≤ blocks.length * BLOCK)
    (hon : e.scheduler.registry.disabled = none) {plan : List (Nat × κ)}
    (hplan : Planned (e.requests handle) (e.hashes handle) plan) :
    Secured (e.allocate id handle blocks newlyCached) id plan := by
  refine ⟨handle, hlive, List.mem_cons_self, fun p hp => ?_⟩
  obtain ⟨hpos, hprompt, htokens, hhash⟩ := hplan.at' p hp
  have hengaged : e.scheduler.engaged = false := by
    cases hen : e.scheduler.engaged with
    | false => rfl
    | true => have := h.latched hen; rw [hon] at this; cases this
  -- the cap is the whole prompt's full chunks, and the plan stays below it
  have hcap : p.1 ≤ SchedulerGraft.capTokens e.scheduler (e.requests handle) (e.requests handle).numTokens := by
    rw [SchedulerGraft.capTokens, if_neg (by simp [hplan.served, hengaged, hon])]
    exact Nat.le_min.mpr ⟨htokens, hprompt⟩
  have hindex : p.1 / BLOCK - 1 < SchedulerGraft.capTokens e.scheduler (e.requests handle)
      (e.requests handle).numTokens / BLOCK := by
    have := Nat.div_le_div_right (c := BLOCK) hcap
    unfold CHUNK at hpos
    unfold BLOCK at *
    omega
  have hblock : p.1 / BLOCK - 1 < blocks.length := by
    unfold CHUNK at hpos
    unfold BLOCK at *
    omega
  refine ⟨blocks[p.1 / BLOCK - 1], by simp [Engine.allocate, Engine.publish], List.mem_append_right _ ?_⟩
  rw [List.mem_iff_getElem?]
  refine ⟨p.1 / BLOCK - 1, ?_⟩
  simp only [if_true]
  rw [List.getElem?_take_of_lt hindex, List.getElem?_zip_eq_some]
  exact ⟨List.getElem?_eq_getElem hblock, hhash⟩

theorem allocate (h : Coupled e) {id : String} {handle : Nat} (hphase : e.phase = .scheduling)
    (hlive : e.live.get? id = some handle) (hwait : handle ∉ e.running) {blocks : List Nat} (newlyCached : List Nat)
    (hlen : (e.requests handle).numTokens ≤ blocks.length * BLOCK) :
    Coupled (e.allocate id handle blocks newlyCached) := by
  have hsec : ∀ id' plan, Secured e id' plan → Secured (e.allocate id handle blocks newlyCached) id' plan := by
    intro id' plan hs
    refine hs.mono fun hd hl hrun => ⟨hl, List.mem_cons_of_mem _ hrun, fun b hb => ?_,
      fun _ _ _ hc => List.mem_append_left _ hc⟩
    have hne : hd ≠ handle := fun heq => hwait (heq ▸ hrun)
    simpa only [Engine.allocate, Engine.publish, if_neg hne] using hb
  refine ⟨fun key hk => (h.cached key hk).imp fun _ hb => List.mem_append_left _ hb, h.latched, h.emptied, h.ids,
    h.staged, h.uncommitted, fun _ id' hid' => ?_, fun hp => ?_⟩
  · rcases List.mem_append.mp hid' with hid' | hid'
    · obtain ⟨hrun, hsecured⟩ := h.admitted hphase id' hid'
      exact ⟨hsec id' [] hrun, hsecured.imp_right fun hall grant hg => hsec id' _ (hall grant hg)⟩
    · obtain rfl := List.mem_singleton.mp hid'
      refine ⟨⟨handle, hlive, List.mem_cons_self, by simp⟩, ?_⟩
      cases hon : e.scheduler.registry.disabled with
      | some _ => exact Or.inl (by simp [Engine.allocate, Engine.publish, SchedulerGraft.cap, hon])
      | none =>
        refine Or.inr fun grant hg => ?_
        obtain ⟨handle', hl', hplanned⟩ := h.staged _ hg
        obtain rfl : handle = handle' := Option.some.inj (hlive.symm.trans hl')
        exact h.allocate_secured hlive hlen hon hplanned
  · rw [show (e.allocate id handle blocks newlyCached).phase = e.phase from rfl, hphase] at hp; cases hp

/-- A request that stops takes nothing from the others. -/
theorem stop_secured (h : Coupled e) {id id' : String} {handle : Nat} (hlive : e.live.get? id = some handle)
    (hne : id' ≠ id) {plan : List (Nat × κ)} (hs : Secured e id' plan) : Secured (e.stop id handle) id' plan := by
  refine hs.mono fun hd hl hrun => ⟨hl, List.mem_filter.mpr ⟨hrun, decide_eq_true fun heq => ?_⟩, fun _ hb => hb,
    fun _ _ _ hc => hc⟩
  exact hne (h.handle_inj (heq ▸ hl) hlive)

theorem preempt (h : Coupled e) {id : String} {handle : Nat} (hphase : e.phase ≠ .executing)
    (hlive : e.live.get? id = some handle) : Coupled (e.stop id handle) := by
  refine ⟨h.cached, h.latched, h.emptied, h.ids, h.staged, h.uncommitted, fun hp id' hid' => ?_,
    fun hp => absurd hp hphase⟩
  · obtain ⟨hid', hne⟩ := List.mem_filter.mp hid'
    have hne := of_decide_eq_true hne
    obtain ⟨hrun, hsecured⟩ := h.admitted hp id' hid'
    exact ⟨h.stop_secured hlive hne hrun,
      hsecured.imp_right fun hall grant hg => h.stop_secured hlive hne (hall grant hg)⟩

theorem free (h : Coupled e) {id : String} {handle : Nat} (hlive : e.live.get? id = some handle) :
    Coupled { e.stop id handle with
      scheduler := SchedulerGraft.freeRequest e.scheduler id
      live := e.live.erase id } := by
  have hsec : ∀ id' plan, id' ≠ id → Secured e id' plan → Secured
      { e.stop id handle with
        scheduler := SchedulerGraft.freeRequest e.scheduler id
        live := e.live.erase id } id' plan := by
    intro id' plan hne hs
    refine (h.stop_secured hlive hne hs).mono fun hd hl hrun => ⟨?_, hrun, fun _ hb => hb, fun _ _ _ hc => hc⟩
    exact (Dict.get?_erase_of_ne _ hne).trans hl
  refine ⟨h.cached, h.latched, h.emptied, fun p hp => h.ids p (Dict.mem_erase.mp hp).1, fun p hp => ?_, fun hp => ?_,
    fun hp id' hid' => ?_, fun hp => (h.committed hp).imp_right fun hall p hmem => ?_⟩
  · obtain ⟨hp, hne⟩ := Dict.mem_erase.mp hp
    obtain ⟨hd, hl, hplanned⟩ := h.staged p hp
    exact ⟨hd, (Dict.get?_erase_of_ne _ hne).trans hl, hplanned⟩
  · have hnil := h.uncommitted hp
    rw [List.eq_nil_iff_forall_not_mem] at hnil ⊢
    exact fun p hmem => hnil p (Dict.mem_erase.mp hmem).1
  · obtain ⟨hid', hne⟩ := List.mem_filter.mp hid'
    have hne := of_decide_eq_true hne
    obtain ⟨hrun, hsecured⟩ := h.admitted hp id' hid'
    exact ⟨hsec id' [] hne hrun,
      hsecured.imp_right fun hall grant hg => hsec id' _ hne (hall grant (Dict.mem_erase.mp hg).1)⟩
  · obtain ⟨hmem, hne⟩ := Dict.mem_erase.mp hmem
    exact hsec p.1 _ hne (hall p hmem)

/-- The commit of a step: what it commits was staged for an admitted request. -/
theorem commit (h : Coupled e) (hphase : e.phase = .scheduling) {output : SchedulerGraft.Output}
    (hadm : ∀ id ∈ output.admitted.keys, id ∈ e.admitted) :
    Coupled { e with
      scheduler := (SchedulerGraft.commit e.scheduler output fun handle => (e.requests handle).allTokenIds).obj
      phase := .executing } := by
  obtain ⟨hkeys, hdisabled, hstaged, hcommitted⟩ := e.scheduler.registry.commit_keys output.admitted
    fun handle => (e.requests handle).allTokenIds
  refine ⟨fun key hk => h.cached key ((hkeys key).mp hk), fun hen => ?_, fun hd key hk => ?_, h.ids,
    fun p hp => h.staged p (hstaged p hp), fun hp => (by cases hp), fun hp => (by cases hp), fun _ => ?_⟩
  · exact (congrArg Option.isSome hdisabled).trans (h.latched hen)
  · exact h.emptied ((congrArg Option.isSome hdisabled).symm.trans hd) key ((hkeys key).mp hk)
  · cases hon : e.scheduler.registry.disabled with
    | some _ => exact Or.inl ((congrArg Option.isSome hdisabled).trans (by rw [hon]; rfl))
    | none =>
      refine Or.inr fun p hp => ?_
      rcases hcommitted p hp with hp | ⟨grant, hg, hplan, hid⟩
      · rw [h.uncommitted hphase] at hp; cases hp
      · have hsecured := ((h.admitted hphase p.1 (hadm _ hid)).2.resolve_left (by simp [hon])) grant hg
        rw [← hplan] at hsecured
        exact hsecured

/-- A capture files a key that a block of its running request holds. -/
theorem capture (h : Coupled e) (hphase : e.phase = .executing) (reqId : String) (pos : Nat)
    (recState carry : Option (List τ)) (nbytes loopPos : Option Nat) :
    Coupled { e with scheduler := { e.scheduler with
      registry := (e.scheduler.registry.capture reqId pos recState carry nbytes loopPos).1 } } := by
  rcases e.scheduler.registry.capture_cases reqId pos recState carry nbytes loopPos with
    hc | ⟨grant, key, tokens, n, hgrant, hkey, hc⟩ <;> rw [hc]
  · exact h
  by_cases hon : e.scheduler.registry.disabled.isSome
  · rw [Registry.put_disabled hon]
    exact h
  obtain ⟨hkeep, hkeys⟩ := e.scheduler.registry.put_keys key pos tokens recState carry n
  obtain ⟨handle, -, -, hplan⟩ := ((h.committed hphase).resolve_left hon) _ hgrant
  obtain ⟨block, -, hblock⟩ := hplan _ hkey
  refine ⟨fun key' hk => ?_, fun hen => absurd (h.latched hen) hon, fun hd => absurd ?_ hon, h.ids, ?_, ?_, ?_, ?_⟩
  · rcases hkeys key' hk with hk | rfl
    · exact h.cached key' hk
    · exact ⟨block, hblock⟩
  · rwa [hkeep.disabled] at hd
  · rw [hkeep.staged]; exact h.staged
  · rw [hkeep.committed]; exact h.uncommitted
  · intro hp; rw [hphase] at hp; cases hp
  · rw [hkeep.disabled, hkeep.committed]; exact h.committed

theorem reset (h : Coupled e) (hphase : e.phase = .idle) (result : Bool) : Coupled (e.reset result) := by
  cases result with
  | false => exact h
  | true =>
    have hnone : ∀ key, key ∉ (e.reset true).keys := by
      simp [Engine.keys, Engine.reset, SchedulerGraft.resetPrefixCache, Registry.clear, Dict.keys]
    refine ⟨fun key hk => absurd hk (hnone key), h.latched, fun _ => hnone, h.ids, h.staged, h.uncommitted,
      fun hp => ?_, fun hp => ?_⟩
    · rw [show (e.reset true).phase = e.phase from rfl, hphase] at hp; cases hp
    · rw [show (e.reset true).phase = e.phase from rfl, hphase] at hp; cases hp

/-- Every event keeps it. -/
theorem step (h : Coupled e) {event : EngineEvent κ τ} (hs : EngineStep g e event e') : Coupled e' := by
  cases hs with
  | arrive hfresh => exact h.arrive _ hfresh
  | append _ => exact h.append _ _ _
  | declareMidLoop =>
    exact h.transfer ⟨rfl, rfl, rfl⟩ rfl (fun key hk => ⟨hk, h.cached key hk⟩) h.ids (fun _ hd _ hl hp => ⟨hd, hl, hp⟩)
      (fun _ _ hs => hs) rfl rfl
  | begin _ => exact h.begin
  | attempt hphase hlive hwait => exact h.attempt hphase hlive hwait _ _ _
  | allocate hphase hlive hwait hlen => exact h.allocate hphase hlive hwait _ hlen
  | publish _ _ => exact h.publish _ _ _
  | grow _ _ => exact h.grow _ _
  | evict hfree => exact h.evict _ hfree
  | preempt hphase hlive => exact h.preempt hphase hlive
  | commit hphase hadm => exact h.commit hphase hadm
  | capture hphase => exact h.capture hphase _ _ _ _ _ _
  | finishStep _ =>
    exact ⟨h.cached, h.latched, h.emptied, h.ids, h.staged, fun hp => (by cases hp), fun hp => (by cases hp),
      fun hp => (by cases hp)⟩
  | reset hphase => exact h.reset hphase _
  | free hlive => exact h.free hlive

theorem init (budgetBytes : Nat) (midLoopCapture : Bool) :
    Coupled (Engine.init budgetBytes midLoopCapture : Engine κ τ) := by
  constructor <;> simp [Engine.init, Engine.keys, Registry.init, Dict.keys]

theorem run {budgetBytes : Nat} {midLoopCapture : Bool} {events : List (EngineEvent κ τ)}
    (h : Run (EngineStep g) (Engine.init budgetBytes midLoopCapture) events e) : Coupled e :=
  h.invariant_state (init _ _) fun ht hs => ht.step hs

end Coupled

/-- **No checkpoint outlives its KV block.** After every run each entry's key is the hash of a block that is still
cached, and an eviction drops an entry only when no block is cached under its key any more. -/
theorem checkpoint_cached [DecidableEq κ] {g : SchedulerGraft} {e : Engine κ τ} {budgetBytes : Nat}
    {midLoopCapture : Bool} {events : List (EngineEvent κ τ)}
    (h : Run (EngineStep g) (Engine.init budgetBytes midLoopCapture) events e) :
    (∀ key ∈ e.scheduler.registry.entries.keys, ∃ block, (block, key) ∈ e.pool) ∧
      ∀ block evicted e', EngineStep g e (.evict block evicted) e' →
        ∀ key ∈ e.scheduler.registry.entries.keys, key ∉ e'.scheduler.registry.entries.keys →
          ∀ block', (block', key) ∉ e'.pool := by
  have hc := Coupled.run h
  refine ⟨hc.cached, fun block evicted e' hs key hkey hgone block' hblock => ?_⟩
  cases hs with
  | evict _ =>
    rcases Coupled.evict_keys e block evicted hkey with hk | hk
    · exact hgone hk
    · exact hk ⟨block', hblock⟩

/-- One chunk in blocks 0 to 31, prefilled and captured in its first step. -/
def sampleEngine : Engine Nat Nat :=
  let g : SchedulerGraft := ⟨"off", false, false⟩
  let e : Engine Nat Nat := Engine.init 100 true
  let e := { e with
    requests := fun i => if i = e.arrivals then ⟨"r", CHUNK, List.replicate CHUNK 7, true, false⟩ else e.requests i
    hashes := fun i => if i = e.arrivals then List.range 32 else e.hashes i
    arrivals := e.arrivals + 1
    live := e.live.set "r" e.arrivals }
  let e := { e with
    scheduler := { e.scheduler with registry := e.scheduler.registry.beginStep }
    phase := .scheduling
    admitted := [] }
  let e := { e with scheduler := (g.trim e.scheduler (e.requests 0) 0 (e.hashes 0) [] 0 false).obj }
  let e := e.allocate "r" 0 (List.range 32) []
  let e := { e with
    scheduler := (SchedulerGraft.commit e.scheduler ⟨[("r", 0)], [], []⟩ fun i => (e.requests i).allTokenIds).obj
    phase := .executing }
  { e with scheduler := { e.scheduler with
    registry := (e.scheduler.registry.capture "r" CHUNK (some [1]) (some [2]) (some 10) (some CHUNK)).1 } }

def sampleEngineEvents : List (EngineEvent Nat Nat) :=
  [.arrive ⟨"r", CHUNK, List.replicate CHUNK 7, true, false⟩ (List.range 32), .begin, .attempt "r" [] 0 false,
    .allocate "r" (List.range 32) [], .commit ⟨[("r", 0)], [], []⟩,
    .capture "r" CHUNK (some [1]) (some [2]) (some 10) (some CHUNK)]

theorem sampleEngine_run :
    Run (EngineStep ⟨"off", false, false⟩) (Engine.init 100 true) sampleEngineEvents sampleEngine :=
  (((((Run.single (.arrive rfl)).snoc (.begin rfl)).snoc (.attempt rfl rfl (by simp [Engine.init]))).snoc
    (.allocate rfl rfl (by simp [Engine.init]) (by simp [Request.numTokens, Engine.init]; decide))).snoc
      (.commit rfl (by decide))).snoc (.capture rfl)

/-- The coupling in the sample engine. -/
theorem checkpoint_cached_sample :
    (∀ key ∈ sampleEngine.scheduler.registry.entries.keys, ∃ block, (block, key) ∈ sampleEngine.pool) ∧
      ∀ block evicted e', EngineStep ⟨"off", false, false⟩ sampleEngine (.evict block evicted) e' →
        ∀ key ∈ sampleEngine.scheduler.registry.entries.keys, key ∉ e'.scheduler.registry.entries.keys →
          ∀ block', (block', key) ∉ e'.pool :=
  checkpoint_cached sampleEngine_run

end BlackholeQwen.Prefix
