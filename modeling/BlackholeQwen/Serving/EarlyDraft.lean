import BlackholeQwen.Dflash.Redraft
import Mathlib.Algebra.GroupWithZero.Nat

/-!
# Early drafting

`early_draft.py`. The next round is drafted inside the step that decided it: `execute` runs the packed step and then
the hook's drafts, and keeps what they returned with the key they were drafted from; `take` hands it over if the key
still holds, and otherwise drops the tickets drafted. The commit traces that the packed step's blocks deferred are
enqueued before `execute` ends.

The packed step and the drafts are the environment's: functions of the hook that may change it in any way, but a
request only by its own calls. Between the calls the hook may change just as freely.
-/

namespace BlackholeQwen.Serving.EarlyDraft

open Lib Dflash Speculative

/-! ## The packed step -/

/-- A block of the packed step, as far as its deferred commits go: the traces held, whether the block and what it
retains are live, and the traces enqueued. -/
structure Block where
  gdnAfterPairs : Bool
  deferArmed : Bool
  deferring : Bool
  deferred : List (Nat × Nat)
  live : Bool
  enqueued : List (Nat × Nat)
  deriving DecidableEq, Repr

namespace Block

/-- `arm_deferred_commits` of a block. -/
def arm (b : Block) : Block := if b.gdnAfterPairs then { b with deferArmed := true } else b

/-- The block holds nothing and is disarmed. -/
def cleared (b : Block) : Block := { b with deferArmed := false, deferring := false, deferred := [] }

/-- `flush_commits`; `enqueue` is what enqueueing the traces does. -/
def flushCommits (b : Block) (enqueue : Except PyError Unit) : Call Block Nat :=
  if b.deferred = [] ∨ b.live = false then .ret b.cleared 0
  else
    match enqueue with
    | .error e => .throw { b.cleared with live := false } e
    | .ok () => .ret { b.cleared with enqueued := b.enqueued ++ b.deferred } b.deferred.length

end Block

/-- A packed step: one without deferred commits, or one over blocks. -/
inductive PackedStep
  | plain (ident : Nat)
  | blocks (ident : Nat) (blocks : List Block)

/-- `id(packed_step)`. -/
def PackedStep.ident : PackedStep → Nat
  | plain ident => ident
  | blocks ident _ => ident

/-- The loop of `flush_deferred_commits`: a block that raises ends it. -/
def flushBlocks (enqueue : Nat → Except PyError Unit) (blocks : List Block) : Call (List Block) Nat :=
  (Call.each (fun i b => b.flushCommits (enqueue i)) 0 blocks).map List.sum

/-! ## The hook -/

/-- A bridge: its own failure, its request's closure and cancellation, the request, and the request's state in the
runner, as far as its budget goes. -/
structure Bridge where
  ident : Nat
  failed : Bool
  closed : Bool
  cancelled : Bool
  request : Dflash.Request
  maxTokens : Option Int
  outputTokenIds : Option (List Token)

namespace Bridge

/-- `real_remaining_budget`. -/
def realRemainingBudget (b : Bridge) : Option Int :=
  match b.maxTokens, b.outputTokenIds with
  | some maxTokens, some tokens => some (maxTokens - tokens.length)
  | _, _ => none

/-- `bridge.failed = True`. -/
def fail (b : Bridge) : Bridge := { b with failed := true }

end Bridge

/-- The worker hook. -/
structure Hook where
  closed : Bool
  packedStep : Option PackedStep
  bridges : List (String × Bridge)

namespace Hook

/-- Every bridge is marked failed. -/
def fail (h : Hook) : Hook := { h with bridges := h.bridges.map fun p => (p.1, p.2.fail) }

/-- Every bridge has been marked failed. -/
def Failed (h : Hook) : Prop := ∀ p ∈ h.bridges, p.2.failed = true

/-- A deferred commit is held. -/
def Holds (h : Hook) : Prop :=
  ∃ ident blocks, h.packedStep = some (.blocks ident blocks) ∧ ∃ b ∈ blocks, b.deferred ≠ []

/-- Each request is one that was bound and then only called. -/
def Reachable (h : Hook) : Prop := ∀ p ∈ h.bridges, p.2.request.Reachable

end Hook

/-! ## The key -/

/-- The ticket by value: without its identity. -/
def value (t : BlockTicket) : BlockTicket := { t with ident := 0 }

/-- What the drafts decide from, of one bridge. -/
structure Entry where
  requestId : String
  bridge : Nat
  failed : Bool
  closed : Bool
  cancelled : Bool
  phase : Phase
  pending : Option BlockTicket
  position : Nat
  emitted : Nat
  finished : Bool
  budget : Option Int
  deriving DecidableEq

/-- What the drafts decide from. -/
structure Key where
  packedStep : Option Nat
  entries : List Entry
  deriving DecidableEq

/-- A bridge's entry. -/
def entry (p : String × Bridge) : Entry where
  requestId := p.1
  bridge := p.2.ident
  failed := p.2.failed
  closed := p.2.closed
  cancelled := p.2.cancelled
  phase := p.2.request.session.phase
  pending := p.2.request.session.pending
  position := p.2.request.session.position
  emitted := p.2.request.session.emitted.length
  finished := p.2.request.session.finished
  budget := p.2.realRemainingBudget

/-- `draft_key`. -/
def draftKey (h : Hook) : Key := ⟨h.packedStep.map PackedStep.ident, h.bridges.map entry⟩

namespace Key

/-- `==` of two keys compares the tickets by value. -/
def values (k : Key) : Key := { k with entries := k.entries.map fun e => { e with pending := e.pending.map value } }

/-- The identities of the tickets drafted early: those pending when the drafts ended. -/
def early (k : Key) : List Nat := k.entries.filterMap fun e => e.pending.map BlockTicket.ident

end Key

/-! ## The early draft -/

/-- `counts`. -/
structure Counts where
  reuse : Nat
  redo : Nat
  failed : Nat
  untaken : Nat
  deriving DecidableEq, Repr

/-- `EarlyDraft`; `none` in `cache` is `MISSING`. -/
structure State (Result : Type) where
  cache : Option Result
  key : Option Key
  failure : Option PyError
  drafting : Bool
  armed : Bool
  rounds : Nat
  counts : Counts

/-- The early draft and the hook it belongs to. -/
structure World (Result : Type) where
  early : State Result
  hook : Hook

/-- What the drafts came to: a result, an `Exception`, or an exception that is none. -/
inductive Drafted (Result : Type)
  | result (r : Result)
  | raised (e : PyError)
  | interrupted (e : PyError)

/-- What happens during `execute`: whether commits are deferred, the packed step, the drafts, and the enqueueing of each
block's commits at the end. -/
structure ExecuteEnv (Out Result : Type) where
  gdnAfterPairs : Bool
  step : Hook → Call Hook Out
  drafts : Hook → Hook × Drafted Result
  enqueue : Nat → Except PyError Unit

/-- Where a flush happens. -/
inductive Site
  | window | stepEnd | reconcile
  deriving DecidableEq, Repr

namespace World

variable {Out Result : Type}

/-- `__init__`. -/
def init (h : Hook) : World Result := ⟨⟨none, none, none, false, false, 0, ⟨0, 0, 0, 0⟩⟩, h⟩

/-- `flush`. -/
def flush (w : World Result) (enqueue : Nat → Except PyError Unit) (site : Site) (quiet : Bool) :
    Call (World Result) Nat :=
  match w.hook.packedStep with
  | some (.blocks ident blocks) =>
    let c := flushBlocks enqueue blocks
    let flushed : World Result :=
      ⟨{ w.early with armed := if site = .window then w.early.armed else false },
        { w.hook with packedStep := some (.blocks ident c.obj) }⟩
    match c.result with
    | .ok n => .ret flushed n
    | .error e =>
      if quiet then .ret { flushed with hook := flushed.hook.fail } 0
      else .throw { flushed with hook := flushed.hook.fail } e
  | _ => .ret w 0

/-- The commits of the coming round are deferred, if they are to be. -/
def arm (w : World Result) (gdnAfterPairs : Bool) : World Result :=
  match gdnAfterPairs, w.hook.packedStep with
  | true, some (.blocks ident blocks) =>
    ⟨{ w.early with armed := blocks.any Block.gdnAfterPairs },
      { w.hook with packedStep := some (.blocks ident (blocks.map Block.arm)) }⟩
  | _, _ => { w with early := { w.early with armed := false } }

/-- `draft`. -/
def draft (w : World Result) (drafts : Hook → Hook × Drafted Result) : Call (World Result) Unit :=
  let early := { w.early with cache := none, key := none, failure := none, rounds := w.early.rounds + 1 }
  match (drafts w.hook).2 with
  | .result r => .ret ⟨{ early with cache := some r, key := some (draftKey (drafts w.hook).1) }, (drafts w.hook).1⟩ ()
  | .raised e => .ret ⟨{ early with failure := some e }, (drafts w.hook).1⟩ ()
  | .interrupted e => .throw ⟨early, (drafts w.hook).1⟩ e

/-- The drafts of `execute`, once the step has returned. -/
def draftOpen (w : World Result) (drafts : Hook → Hook × Drafted Result) : Call (World Result) Unit :=
  if w.hook.closed then .ret w () else w.draft drafts

/-- `execute`. -/
def execute (w : World Result) (env : ExecuteEnv Out Result) : Call (World Result) Out :=
  let armed := w.arm env.gdnAfterPairs
  let stepped := env.step armed.hook
  match stepped.result with
  | .error e => (({ armed with hook := stepped.obj } : World Result).flush env.enqueue .stepEnd true).bind fun w _ =>
      .throw w e
  | .ok output =>
    ((({ armed with hook := stepped.obj } : World Result).draftOpen env.drafts).lastly fun w =>
      w.flush env.enqueue .stepEnd false).map fun _ => output

/-- A bridge whose pending ticket was drafted early drops it. -/
def discardOne (early : List Nat) (p : String × Bridge) : Call (String × Bridge) Unit :=
  match p.2.request.session.pending with
  | some ticket =>
    if ticket.ident ∈ early then (p.2.request.discardTicket none).onto fun request => (p.1, { p.2 with request })
    else .ret p ()
  | none => .ret p ()

/-- The loop of `take` over the bridges. -/
def discardEarly (early : List Nat) (bridges : List (String × Bridge)) : Call (List (String × Bridge)) (List Unit) :=
  Call.each (fun _ p => discardOne early p) 0 bridges

/-- The cache is handed over or dropped. -/
def emptied (w : World Result) : World Result := { w with early := { w.early with cache := none, key := none } }

/-- The cache was handed over. -/
def reused (w : World Result) : World Result :=
  { w with early := { w.early with counts := { w.early.counts with reuse := w.early.counts.reuse + 1 } } }

/-- The kept failure is raised. -/
def raised (w : World Result) : World Result :=
  { w with early := { w.early with
    failure := none, counts := { w.early.counts with failed := w.early.counts.failed + 1 } } }

/-- The tickets drafted early are dropped, and the caller drafts again. -/
def redo (w : World Result) (key : Key) : Call (World Result) (Option Result) :=
  ((discardEarly key.early w.hook.bridges).onto fun bridges =>
    ({ w.emptied with hook := { w.hook with bridges } } : World Result)).bind fun w _ =>
      .ret { w with early := { w.early with counts := { w.early.counts with redo := w.early.counts.redo + 1 } } } none

/-- `take`. -/
def take (w : World Result) : Call (World Result) (Option Result) :=
  match w.early.failure, w.early.cache, w.early.key with
  | some e, _, _ => .throw w.raised e
  | none, none, _ => .ret w none
  | none, some cached, key =>
    match key with
    | none => .throw w.emptied .typeError
    | some key => if (draftKey w.hook).values = key.values then .ret w.emptied.reused (some cached) else w.redo key

/-- What `reconcile` drops. -/
def dropped (w : World Result) : World Result :=
  if w.early.cache.isSome ∨ w.early.failure.isSome then
    { w with early := { w.early with
      cache := none, key := none, failure := none
      counts := { w.early.counts with untaken := w.early.counts.untaken + 1 } } }
  else w

/-- `reconcile`. -/
def reconcile (w : World Result) (enqueue : Nat → Except PyError Unit) : Call (World Result) Nat :=
  w.dropped.flush enqueue .reconcile false

end World

/-! ## Deferred commits -/

/-- A block that was flushed holds nothing. -/
theorem Block.flushCommits_deferred (b : Block) (enqueue : Except PyError Unit) :
    (b.flushCommits enqueue).obj.deferred = [] := by
  unfold flushCommits
  split
  · rfl
  · cases enqueue <;> rfl

/-- A flush that returned left no block with a deferred commit. -/
theorem flushBlocks_deferred {enqueue : Nat → Except PyError Unit} {blocks : List Block} {n : Nat}
    (h : (flushBlocks enqueue blocks).result = .ok n) : ∀ b ∈ (flushBlocks enqueue blocks).obj, b.deferred = [] := by
  obtain ⟨counts, hcounts, -⟩ := Call.of_map h
  exact Call.each_all (P := fun b => b.deferred = []) (fun j b => b.flushCommits_deferred (enqueue j)) hcounts

theorem Hook.fail_failed (h : Hook) : h.fail.Failed := by
  intro p hp
  obtain ⟨q, -, rfl⟩ := List.mem_map.mp hp
  rfl

theorem Hook.Reachable.fail {h : Hook} (hr : h.Reachable) : h.fail.Reachable := by
  intro p hp
  obtain ⟨q, hq, rfl⟩ := List.mem_map.mp hp
  exact hr q hq

namespace World

variable {Out Result : Type} {w : World Result}

/-- **After a flush no deferred commit is held, unless it raised and every bridge has been marked failed.** -/
theorem flush_cases (w : World Result) (enqueue : Nat → Except PyError Unit) (site : Site) (quiet : Bool) :
    (¬(w.flush enqueue site quiet).obj.hook.Holds ∧ ∃ n, (w.flush enqueue site quiet).result = .ok n) ∨
    (w.flush enqueue site quiet).obj.hook.Failed ∧ (quiet = true → (w.flush enqueue site quiet).result = .ok 0) := by
  unfold flush
  split
  · rename_i ident blocks hp
    dsimp only
    cases hc : (flushBlocks enqueue blocks).result with
    | ok n =>
      refine Or.inl ⟨?_, n, rfl⟩
      rintro ⟨ident', blocks', hheld, b, hb, hne⟩
      cases hheld
      exact hne (flushBlocks_deferred hc b hb)
    | error e =>
      refine Or.inr ?_
      cases quiet with
      | true => exact ⟨Hook.fail_failed _, fun _ => rfl⟩
      | false => exact ⟨Hook.fail_failed _, fun h => nomatch h⟩
  · rename_i hnone
    refine Or.inl ⟨?_, 0, rfl⟩
    rintro ⟨ident, blocks, hheld, -⟩
    exact hnone ident blocks hheld

theorem flush_reachable (hr : w.hook.Reachable) (enqueue : Nat → Except PyError Unit) (site : Site) (quiet : Bool) :
    (w.flush enqueue site quiet).obj.hook.Reachable := by
  unfold flush
  split
  · rename_i ident blocks hp
    dsimp only
    cases (flushBlocks enqueue blocks).result with
    | ok n => exact hr
    | error e =>
      have hfail : ∀ packedStep, ({ w.hook with packedStep } : Hook).fail.Reachable := fun packedStep =>
        Hook.Reachable.fail (h := { w.hook with packedStep }) hr
      cases quiet <;> exact hfail _
  · exact hr

/-! ## The calls -/

/-- The drafts that `execute` makes: once the step has returned, while the hook is open. -/
def drafts (w : World Result) (env : ExecuteEnv Out Result) : Option (Hook × Drafted Result) :=
  let stepped := env.step (w.arm env.gdnAfterPairs).hook
  match stepped.result with
  | .ok _ => if stepped.obj.closed then none else some (env.drafts stepped.obj)
  | .error _ => none

/-- What `execute` leaves of the cache, the key, the failure and the count of rounds. -/
def drafted (s : State Result) : Option (Hook × Drafted Result) → State Result
  | none => s
  | some (h, .result r) => ⟨some r, some (draftKey h), none, s.drafting, s.armed, s.rounds + 1, s.counts⟩
  | some (_, .raised e) => ⟨none, none, some e, s.drafting, s.armed, s.rounds + 1, s.counts⟩
  | some (_, .interrupted _) => ⟨none, none, none, s.drafting, s.armed, s.rounds + 1, s.counts⟩

/-- The early drafts agree up to `armed`. -/
def Same (s s' : State Result) : Prop := ∃ armed, s = { s' with armed }

theorem Same.trans {s s' s'' : State Result} (h : Same s s') (h' : Same s' s'') : Same s s'' := by
  obtain ⟨armed, rfl⟩ := h
  obtain ⟨armed', rfl⟩ := h'
  exact ⟨armed, rfl⟩

/-- A flush changes the blocks and the bridges' failures only. -/
theorem flush_same (w : World Result) (enqueue : Nat → Except PyError Unit) (site : Site) (quiet : Bool) :
    Same (w.flush enqueue site quiet).obj.early w.early := by
  unfold flush
  split
  · rename_i ident blocks hp
    dsimp only
    cases (flushBlocks enqueue blocks).result with
    | ok n => exact ⟨_, rfl⟩
    | error e => cases quiet <;> exact ⟨_, rfl⟩
  · exact ⟨w.early.armed, rfl⟩

theorem arm_same (w : World Result) (gdnAfterPairs : Bool) : Same (w.arm gdnAfterPairs).early w.early := by
  unfold arm
  split <;> exact ⟨_, rfl⟩

/-- The world of `execute` once the step has ended. -/
def stepped (w : World Result) (env : ExecuteEnv Out Result) : World Result :=
  { w.arm env.gdnAfterPairs with hook := (env.step (w.arm env.gdnAfterPairs).hook).obj }

/-- A step that raised: the deferred commits are flushed, and `execute` raises the same. -/
theorem execute_raised {env : ExecuteEnv Out Result} {e : PyError}
    (hstep : (env.step (w.arm env.gdnAfterPairs).hook).result = .error e) :
    w.execute env = .throw ((w.stepped env).flush env.enqueue .stepEnd true).obj e := by
  unfold execute
  simp only [hstep]
  rcases Call.bind_cases ((w.stepped env).flush env.enqueue .stepEnd true) fun w _ => (.throw w e : Call _ Out) with
    ⟨e', he', -⟩ | ⟨n, -, h⟩
  · rcases (w.stepped env).flush_cases env.enqueue .stepEnd true with ⟨-, n, hn⟩ | ⟨-, hn⟩
    · rw [hn] at he'; cases he'
    · rw [hn rfl] at he'; cases he'
  · exact h

/-- A step that returned: the drafts are made and the deferred commits flushed. -/
theorem execute_returned {env : ExecuteEnv Out Result} {output : Out}
    (hstep : (env.step (w.arm env.gdnAfterPairs).hook).result = .ok output) :
    w.execute env = (((w.stepped env).draftOpen env.drafts).lastly fun w =>
      w.flush env.enqueue .stepEnd false).map fun _ => output := by
  unfold execute
  simp only [hstep]
  rfl

/-- The drafts of `execute` and what they leave. -/
theorem draftOpen_drafts {env : ExecuteEnv Out Result} {output : Out}
    (hstep : (env.step (w.arm env.gdnAfterPairs).hook).result = .ok output) :
    Same ((w.stepped env).draftOpen env.drafts).obj.early (drafted w.early (w.drafts env)) := by
  obtain ⟨armed, harm⟩ := w.arm_same env.gdnAfterPairs
  unfold drafts draftOpen
  simp only [hstep]
  cases hclosed : (env.step (w.arm env.gdnAfterPairs).hook).obj.closed with
  | true => exact ⟨armed, by simp [stepped, hclosed, drafted, harm]⟩
  | false =>
    simp only [stepped, hclosed, Bool.false_eq_true, if_false, draft]
    obtain ⟨h, d⟩ := env.drafts (env.step (w.arm env.gdnAfterPairs).hook).obj
    cases d <;> exact ⟨armed, by simp [drafted, harm]⟩

/-- The drafts return to `execute` unless they were interrupted. -/
theorem draftOpen_result {env : ExecuteEnv Out Result} {output : Out}
    (hstep : (env.step (w.arm env.gdnAfterPairs).hook).result = .ok output) :
    ((w.stepped env).draftOpen env.drafts).result = .ok () ∨
    ∃ h e, ((w.stepped env).draftOpen env.drafts).result = .error e ∧ w.drafts env = some (h, .interrupted e) := by
  unfold drafts draftOpen
  simp only [hstep]
  cases hclosed : (env.step (w.arm env.gdnAfterPairs).hook).obj.closed with
  | true => exact Or.inl (by simp [stepped, hclosed])
  | false =>
    simp only [stepped, hclosed, Bool.false_eq_true, if_false, draft]
    obtain ⟨h, d⟩ := env.drafts (env.step (w.arm env.gdnAfterPairs).hook).obj
    cases d with
    | result r => exact Or.inl rfl
    | raised e => exact Or.inl rfl
    | interrupted e => exact Or.inr ⟨h, e, rfl, rfl⟩

/-- **What `execute` drafts is what it keeps.** -/
theorem execute_early (w : World Result) (env : ExecuteEnv Out Result) :
    Same (w.execute env).obj.early (drafted w.early (w.drafts env)) := by
  cases hstep : (env.step (w.arm env.gdnAfterPairs).hook).result with
  | error e =>
    have hnone : w.drafts env = none := by unfold drafts; simp only [hstep]
    rw [execute_raised hstep, hnone]
    exact (flush_same _ _ _ _).trans (w.arm_same env.gdnAfterPairs)
  | ok output =>
    rw [execute_returned hstep, Call.map_obj, Call.lastly_obj]
    exact (flush_same _ _ _ _).trans (draftOpen_drafts hstep)

/-- **When `execute` ends, no deferred commit is held unless every bridge has been marked failed.** -/
theorem execute_holds (w : World Result) (env : ExecuteEnv Out Result) :
    ¬(w.execute env).obj.hook.Holds ∨ (w.execute env).obj.hook.Failed := by
  have hflush : ∀ (w' : World Result) quiet, ¬(w'.flush env.enqueue .stepEnd quiet).obj.hook.Holds ∨
      (w'.flush env.enqueue .stepEnd quiet).obj.hook.Failed := fun w' quiet =>
    (w'.flush_cases env.enqueue .stepEnd quiet).imp And.left And.left
  cases hstep : (env.step (w.arm env.gdnAfterPairs).hook).result with
  | error e => rw [execute_raised hstep]; exact hflush _ true
  | ok output => rw [execute_returned hstep, Call.map_obj, Call.lastly_obj]; exact hflush _ false

/-- **`execute` ends as the step did, unless a flush failed or the drafts were interrupted.** -/
theorem execute_result (w : World Result) (env : ExecuteEnv Out Result) :
    (w.execute env).result = (env.step (w.arm env.gdnAfterPairs).hook).result ∨
    ∃ e, (w.execute env).result = .error e ∧
      ((w.execute env).obj.hook.Failed ∨ ∃ h, w.drafts env = some (h, .interrupted e)) := by
  cases hstep : (env.step (w.arm env.gdnAfterPairs).hook).result with
  | error e => rw [execute_raised hstep]; exact Or.inl rfl
  | ok output =>
    rw [execute_returned hstep]
    rcases Call.lastly_cases ((w.stepped env).draftOpen env.drafts) (fun w => w.flush env.enqueue .stepEnd false) with
      ⟨e, he, hl⟩ | ⟨-, hl⟩
    · refine Or.inr ⟨e, by rw [Call.map, hl]; rfl, Or.inl ?_⟩
      rw [Call.map_obj, Call.lastly_obj]
      rcases flush_cases ((w.stepped env).draftOpen env.drafts).obj env.enqueue .stepEnd false with
        ⟨-, n, hn⟩ | ⟨hfailed, -⟩
      · rw [hn] at he; cases he
      · exact hfailed
    · rcases draftOpen_result hstep with hok | ⟨h, e, he, hd⟩
      · exact Or.inl (by rw [Call.map, hl, hok]; rfl)
      · exact Or.inr ⟨e, by rw [Call.map, hl, he]; rfl, Or.inr ⟨h, hd⟩⟩

theorem draftOpen_reachable {drafts : Hook → Hook × Drafted Result} (hr : w.hook.Reachable)
    (hdrafts : (drafts w.hook).1.Reachable) : (w.draftOpen drafts).obj.hook.Reachable := by
  unfold draftOpen draft
  split
  · exact hr
  · split <;> exact hdrafts

/-- The packed step and the drafts call the requests only. -/
structure Calls (env : ExecuteEnv Out Result) (w : World Result) : Prop where
  step : (w.stepped env).hook.Reachable
  drafts : (env.drafts (w.stepped env).hook).1.Reachable

theorem execute_reachable {env : ExecuteEnv Out Result} (h : Calls env w) : (w.execute env).obj.hook.Reachable := by
  cases hstep : (env.step (w.arm env.gdnAfterPairs).hook).result with
  | error e =>
    rw [execute_raised hstep]
    exact flush_reachable h.step _ _ _
  | ok output =>
    rw [execute_returned hstep, Call.map_obj, Call.lastly_obj]
    exact flush_reachable (draftOpen_reachable h.step h.drafts) _ _ _

/-! ## Taking -/

/-- A bridge before and after `take` found the key changed: a ticket drafted early and still pending in its session is
dropped, and the request can draft again; any other bridge is as it was. -/
def Redrafted (early : List Nat) (p p' : String × Bridge) : Prop :=
  (∃ ticket, p.2.request.session.pending = some ticket ∧ ticket.ident ∈ early ∧
    p.2.request.session.phase = .pending ∧ p' = (p.1, { p.2 with request := (p.2.request.discardTicket none).obj }) ∧
    p'.2.request.Ready) ∨
  (∀ ticket, p.2.request.session.pending = some ticket → ticket.ident ∈ early →
    p.2.request.session.phase ≠ .pending) ∧ p' = p

/-- One bridge's turn in `take`. -/
theorem discardOne_cases {p : String × Bridge} (hr : p.2.request.Reachable) (early : List Nat) :
    (discardOne early p).result = .ok () ∧ Redrafted early p (discardOne early p).obj := by
  unfold discardOne
  cases hp : p.2.request.session.pending with
  | none => exact ⟨rfl, Or.inr ⟨by simp [hp], rfl⟩⟩
  | some ticket =>
    dsimp only
    by_cases hearly : ticket.ident ∈ early
    · rw [if_pos hearly]
      by_cases hphase : p.2.request.session.phase = .pending
      · obtain ⟨hok, hready⟩ := hr.discardTicket hp hphase
        exact ⟨hok, Or.inl ⟨ticket, hp, hearly, hphase, rfl, hready⟩⟩
      · rw [Dflash.Request.discardTicket_idle (Or.inr hphase)]
        exact ⟨rfl, Or.inr ⟨fun _ _ _ => hphase, rfl⟩⟩
    · rw [if_neg hearly]
      refine ⟨rfl, Or.inr ⟨fun t ht hmem => ?_, rfl⟩⟩
      cases hp.symm.trans ht
      exact absurd hmem hearly

/-- The loop of `take` never raises, and drops the tickets drafted early. -/
theorem discardEarly_cases {bridges : List (String × Bridge)} (hr : ∀ p ∈ bridges, p.2.request.Reachable)
    (early : List Nat) : (∃ us, (discardEarly early bridges).result = .ok us) ∧
      List.Forall₂ (Redrafted early) bridges (discardEarly early bridges).obj := by
  obtain ⟨us, hus⟩ := Call.each_total (f := fun _ p => discardOne early p)
    (fun p hp _ => ⟨(), (discardOne_cases (hr p hp) early).1⟩) 0
  refine ⟨⟨us, hus⟩, ((List.forall₂_and_left _ _).mpr ⟨hr, Call.each_ok hus⟩).imp ?_⟩
  rintro p _ ⟨hp, -, rfl⟩
  exact (discardOne_cases hp early).2

theorem Redrafted.reachable {early : List Nat} {p p' : String × Bridge} (h : Redrafted early p p')
    (hr : p.2.request.Reachable) : p'.2.request.Reachable := by
  rcases h with ⟨ticket, -, -, -, rfl, -⟩ | ⟨-, rfl⟩
  · exact hr.apply (.discardTicket none)
  · exact hr

/-- The call found nothing kept. -/
theorem take_none (hfailure : w.early.failure = none) (hcache : w.early.cache = none) : w.take = .ret w none := by
  simp only [take, hfailure, hcache]

/-- The call raises the kept failure. -/
theorem take_raised {e : PyError} (hfailure : w.early.failure = some e) : w.take = .throw w.raised e := by
  simp only [take, hfailure]

/-- The call hands over the cache under an unchanged key. -/
theorem take_reused {cached : Result} {key : Key} (hfailure : w.early.failure = none)
    (hcache : w.early.cache = some cached) (hkey : w.early.key = some key)
    (heq : (draftKey w.hook).values = key.values) : w.take = .ret w.emptied.reused (some cached) := by
  simp only [take, hfailure, hcache, hkey, if_pos heq]

/-- Under a changed key the call drops the tickets drafted early and hands nothing over. -/
theorem take_redo {cached : Result} {key : Key} (hr : w.hook.Reachable) (hfailure : w.early.failure = none)
    (hcache : w.early.cache = some cached) (hkey : w.early.key = some key)
    (hne : (draftKey w.hook).values ≠ key.values) :
    w.take = .ret ⟨{ w.emptied.early with counts := { w.early.counts with redo := w.early.counts.redo + 1 } },
      { w.hook with bridges := (discardEarly key.early w.hook.bridges).obj }⟩ none := by
  obtain ⟨⟨us, hus⟩, -⟩ := discardEarly_cases hr key.early
  simp only [take, hfailure, hcache, hkey, if_neg hne, redo, Call.bind, Call.onto_result, hus, Call.onto_obj]
  rfl

end World

/-! ## Runs -/

/-- What has happened: the rounds drafted, with the key at the end of the drafts and their result, those whose drafts
raised, and the rounds whose result `take` returned or whose failure it raised. -/
structure Log (Result : Type) where
  drafted : List (Nat × Key × Result)
  failed : List (Nat × PyError)
  returned : List Nat
  raised : List Nat

/-- The world and its log. -/
structure Life (Result : Type) extends World Result where
  log : Log Result

/-- A call of vLLM's, or a change of the hook between the calls. -/
inductive Op (Out Result : Type)
  | execute (env : ExecuteEnv Out Result)
  | take
  | reconcile (enqueue : Nat → Except PyError Unit)
  | change (hook : Hook)

namespace Log

variable {Result : Type}

/-- The log after the drafts of a round. -/
def draft (l : Log Result) (round : Nat) : Option (Hook × Drafted Result) → Log Result
  | some (h, .result r) => { l with drafted := l.drafted ++ [(round, draftKey h, r)] }
  | some (_, .raised e) => { l with failed := l.failed ++ [(round, e)] }
  | _ => l

/-- The log after `take`. -/
def take (l : Log Result) (round : Nat) : Except PyError (Option Result) → Log Result
  | .ok (some _) => { l with returned := l.returned ++ [round] }
  | .error _ => { l with raised := l.raised ++ [round] }
  | .ok none => l

end Log

namespace Life

variable {Out Result : Type}

/-- A hook without an early draft. -/
def init (h : Hook) : Life Result := ⟨World.init h, ⟨[], [], [], []⟩⟩

/-- A call or a change. -/
def next (l : Life Result) : Op Out Result → Life Result
  | .execute env => ⟨(l.toWorld.execute env).obj, l.log.draft (l.early.rounds + 1) (l.drafts env)⟩
  | .take => ⟨l.toWorld.take.obj, l.log.take l.early.rounds l.toWorld.take.result⟩
  | .reconcile enqueue => ⟨(l.toWorld.reconcile enqueue).obj, l.log⟩
  | .change hook => ⟨{ l.toWorld with hook }, l.log⟩

/-- Whatever happens to the requests happens by their own calls. -/
def Allowed (l : Life Result) : Op Out Result → Prop
  | .execute env => World.Calls env l.toWorld
  | .change hook => hook.Reachable
  | _ => True

/-- A step. -/
def Step (l : Life Result) (op : Op Out Result) (l' : Life Result) : Prop := l.Allowed op ∧ l' = l.next op

end Life

/-! ## Exactly once -/

/-- What is kept was drafted in the newest round and has not been handed over. -/
structure Kept {Result : Type} (s : State Result) (log : Log Result) : Prop where
  drafted : (log.drafted.map Prod.fst).Nodup ∧ ∀ n ∈ log.drafted.map Prod.fst, n ≤ s.rounds
  failed : (log.failed.map Prod.fst).Nodup ∧ ∀ n ∈ log.failed.map Prod.fst, n ≤ s.rounds
  returned : log.returned.Nodup ∧ ∀ n ∈ log.returned, n ≤ s.rounds
  raised : log.raised.Nodup ∧ ∀ n ∈ log.raised, n ≤ s.rounds
  cache : ∀ r, s.cache = some r → s.failure = none ∧ s.rounds ∉ log.returned ∧
    ∃ key, s.key = some key ∧ (s.rounds, key, r) ∈ log.drafted
  failure : ∀ e, s.failure = some e → s.rounds ∉ log.raised ∧ (s.rounds, e) ∈ log.failed

/-- Rounds counted once, up to the newest, stay so when a newer one is added. -/
theorem fresh_snoc {ns : List Nat} {m n : Nat} (h : ns.Nodup ∧ ∀ k ∈ ns, k ≤ m) (hn : n ∉ ns) (hle : m ≤ n) :
    (ns ++ [n]).Nodup ∧ ∀ k ∈ ns ++ [n], k ≤ n := by
  refine ⟨List.nodup_append.mpr ⟨h.1, by simp, ?_⟩, fun k hk => ?_⟩
  · rintro a ha b hb rfl
    exact hn (List.mem_singleton.mp hb ▸ ha)
  rcases List.mem_append.mp hk with hk | hk
  · exact (h.2 k hk).trans hle
  · exact (List.mem_singleton.mp hk).le

theorem fresh_succ {ns : List Nat} {m : Nat} (h : ns.Nodup ∧ ∀ k ∈ ns, k ≤ m) :
    m + 1 ∉ ns ∧ ns.Nodup ∧ ∀ k ∈ ns, k ≤ m + 1 :=
  ⟨fun hm => absurd (h.2 _ hm) (by omega), h.1, fun k hk => (h.2 k hk).trans (by omega)⟩

namespace Kept

variable {Result : Type} {s : State Result} {log : Log Result}

theorem init (h : Hook) : Kept (Life.init h : Life Result).early (Life.init h : Life Result).log :=
  ⟨⟨List.nodup_nil, by simp [Life.init]⟩, ⟨List.nodup_nil, by simp [Life.init]⟩, ⟨List.nodup_nil, by simp [Life.init]⟩,
    ⟨List.nodup_nil, by simp [Life.init]⟩, fun r hr => (nomatch hr), fun e he => (nomatch he)⟩

/-- Whether commits are deferred is no part of what is kept. -/
theorem same {s' : State Result} (h : Kept s log) (hs : World.Same s' s) : Kept s' log := by
  obtain ⟨armed, rfl⟩ := hs
  exact ⟨h.drafted, h.failed, h.returned, h.raised, h.cache, h.failure⟩

/-- Nothing is kept. -/
theorem forget {s' : State Result} (h : Kept s log) (hcache : s'.cache = none) (hfailure : s'.failure = none)
    (hrounds : s'.rounds = s.rounds) : Kept s' log :=
  ⟨hrounds ▸ h.drafted, hrounds ▸ h.failed, hrounds ▸ h.returned, hrounds ▸ h.raised,
    fun r hr => (by rw [hcache] at hr; cases hr), fun e he => (by rw [hfailure] at he; cases he)⟩

/-- The drafts of a new round. -/
theorem draft (h : Kept s log) (d : Option (Hook × Drafted Result)) :
    Kept (World.drafted s d) (log.draft (s.rounds + 1) d) := by
  obtain ⟨hd, hdrafted⟩ := fresh_succ h.drafted
  obtain ⟨hf, hfailed⟩ := fresh_succ h.failed
  obtain ⟨hret, hreturned⟩ := fresh_succ h.returned
  obtain ⟨hra, hraised⟩ := fresh_succ h.raised
  rcases d with _ | ⟨hook, r | e | e⟩
  · exact h
  · refine ⟨?_, hfailed, hreturned, hraised, fun r' hr => ?_, fun e he => (nomatch he)⟩
    · simp only [Log.draft, List.map_append, List.map_cons, List.map_nil]
      exact fresh_snoc h.drafted hd (Nat.le_succ _)
    · cases hr
      exact ⟨rfl, hret, draftKey hook, rfl, by simp [Log.draft, World.drafted]⟩
  · refine ⟨hdrafted, ?_, hreturned, hraised, fun r' hr => (nomatch hr), fun e' he => ?_⟩
    · simp only [Log.draft, List.map_append, List.map_cons, List.map_nil]
      exact fresh_snoc h.failed hf (Nat.le_succ _)
    · cases he
      exact ⟨hra, by simp [Log.draft, World.drafted]⟩
  · exact ⟨hdrafted, hfailed, hreturned, hraised, fun r' hr => (nomatch hr), fun e' he => (nomatch he)⟩

/-- A call of `take`. -/
theorem take {w : World Result} (h : Kept w.early log) (hr : w.hook.Reachable) :
    Kept w.take.obj.early (log.take w.early.rounds w.take.result) := by
  cases hfailure : w.early.failure with
  | some e =>
    obtain ⟨hnot, -⟩ := h.failure e hfailure
    have hnone : w.early.cache = none := by
      cases hcache : w.early.cache with
      | none => rfl
      | some r => rw [(h.cache r hcache).1] at hfailure; cases hfailure
    rw [World.take_raised hfailure]
    exact ⟨h.drafted, h.failed, h.returned, fresh_snoc h.raised hnot le_rfl,
      fun r hr => absurd (hnone.symm.trans hr) (Option.some_ne_none r).symm, fun e he => (nomatch he)⟩
  | none =>
    cases hcache : w.early.cache with
    | none => rw [World.take_none hfailure hcache]; exact h
    | some cached =>
      obtain ⟨-, hnot, key, hkey, -⟩ := h.cache cached hcache
      by_cases heq : (draftKey w.hook).values = key.values
      · rw [World.take_reused hfailure hcache hkey heq]
        exact ⟨h.drafted, h.failed, fresh_snoc h.returned hnot le_rfl, h.raised, fun r hr => (nomatch hr),
          fun e he => absurd (hfailure.symm.trans he) (Option.some_ne_none e).symm⟩
      · rw [World.take_redo hr hfailure hcache hkey heq]
        exact h.forget rfl hfailure rfl

/-- What `reconcile` drops is not kept. -/
theorem dropped {w : World Result} (h : Kept w.early log) : Kept w.dropped.early log := by
  unfold World.dropped
  split
  · exact h.forget rfl rfl rfl
  · exact h

end Kept

namespace Life

variable {Out Result : Type}

/-- The requests are reachable, and what is kept was drafted last. -/
def Inv (l : Life Result) : Prop := l.hook.Reachable ∧ Kept l.early l.log

/-- The requests stay reachable when the tickets drafted early are dropped. -/
theorem Inv.take_reachable {l : Life Result} (h : l.Inv) : l.toWorld.take.obj.hook.Reachable := by
  cases hfailure : l.early.failure with
  | some e => rw [World.take_raised hfailure]; exact h.1
  | none =>
    cases hcache : l.early.cache with
    | none => rw [World.take_none hfailure hcache]; exact h.1
    | some cached =>
      obtain ⟨-, -, key, hkey, -⟩ := h.2.cache cached hcache
      by_cases heq : (draftKey l.hook).values = key.values
      · rw [World.take_reused hfailure hcache hkey heq]; exact h.1
      · rw [World.take_redo h.1 hfailure hcache hkey heq]
        intro p hp
        obtain ⟨q, hq, hpq⟩ := mem_forall₂ (World.discardEarly_cases h.1 key.early).2 hp
        exact hpq.reachable (h.1 q hq)

theorem Inv.step {l l' : Life Result} {op : Op Out Result} (h : l.Inv) (hs : Step l op l') : l'.Inv := by
  obtain ⟨hop, rfl⟩ := hs
  cases op with
  | execute env => exact ⟨World.execute_reachable hop, (h.2.draft _).same (World.execute_early _ env)⟩
  | take => exact ⟨h.take_reachable, h.2.take h.1⟩
  | reconcile enqueue =>
    have hr : l.toWorld.dropped.hook.Reachable := by
      unfold World.dropped
      split <;> exact h.1
    exact ⟨World.flush_reachable hr _ _ _, h.2.dropped.same (World.flush_same _ _ _ _)⟩
  | change hook => exact ⟨hop, h.2⟩

theorem Inv.start {h : Hook} (hr : h.Reachable) : (Life.init h : Life Result).Inv := ⟨hr, .init h⟩

theorem Inv.run {h : Hook} {ops : List (Op Out Result)} {l : Life Result} (hr : h.Reachable)
    (hrun : Run Step (Life.init h) ops l) : l.Inv :=
  hrun.invariant_state (.start hr) Inv.step

/-- What `take` returns was drafted last, under a key that still holds, and is returned for the first time. -/
theorem Inv.take_returned {l : Life Result} (h : l.Inv) {cached : Result}
    (hres : l.toWorld.take.result = .ok (some cached)) :
    ∃ key, (l.early.rounds, key, cached) ∈ l.log.drafted ∧ l.early.rounds ∉ l.log.returned ∧
      (draftKey l.hook).values = key.values ∧ l.toWorld.take.obj.hook = l.hook := by
  cases hfailure : l.early.failure with
  | some e => rw [World.take_raised hfailure] at hres; cases hres
  | none =>
    cases hcache : l.early.cache with
    | none => rw [World.take_none hfailure hcache] at hres; cases hres
    | some kept =>
      obtain ⟨-, hnot, key, hkey, hmem⟩ := h.2.cache kept hcache
      by_cases heq : (draftKey l.hook).values = key.values
      · rw [World.take_reused hfailure hcache hkey heq] at hres ⊢
        cases hres
        exact ⟨key, hmem, hnot, heq, rfl⟩
      · rw [World.take_redo h.1 hfailure hcache hkey heq] at hres
        cases hres

/-- What `take` raises is the failure of the newest drafts, raised for the first time. -/
theorem Inv.take_failed {l : Life Result} (h : l.Inv) {e : PyError} (hres : l.toWorld.take.result = .error e) :
    (l.early.rounds, e) ∈ l.log.failed ∧ l.early.rounds ∉ l.log.raised ∧ l.toWorld.take.obj.hook = l.hook := by
  cases hfailure : l.early.failure with
  | some e' =>
    rw [World.take_raised hfailure] at hres ⊢
    cases hres
    obtain ⟨hnot, hmem⟩ := h.2.failure e hfailure
    exact ⟨hmem, hnot, rfl⟩
  | none =>
    cases hcache : l.early.cache with
    | none => rw [World.take_none hfailure hcache] at hres; cases hres
    | some kept =>
      obtain ⟨-, -, key, hkey, -⟩ := h.2.cache kept hcache
      by_cases heq : (draftKey l.hook).values = key.values
      · rw [World.take_reused hfailure hcache hkey heq] at hres; cases hres
      · rw [World.take_redo h.1 hfailure hcache hkey heq] at hres; cases hres

/-- A kept result whose key no longer holds: the tickets drafted early are dropped. -/
theorem Inv.take_changed {l : Life Result} (h : l.Inv) {cached : Result} (hcache : l.early.cache = some cached) :
    ∃ key, (l.early.rounds, key, cached) ∈ l.log.drafted ∧
      ((draftKey l.hook).values ≠ key.values → l.toWorld.take.result = .ok none ∧
        List.Forall₂ (World.Redrafted key.early) l.hook.bridges l.toWorld.take.obj.hook.bridges) := by
  obtain ⟨hfailure, -, key, hkey, hmem⟩ := h.2.cache cached hcache
  refine ⟨key, hmem, fun hne => ?_⟩
  rw [World.take_redo h.1 hfailure hcache hkey hne]
  exact ⟨rfl, (World.discardEarly_cases h.1 key.early).2⟩

/-- **Early drafting is exactly once and safe.** After any calls and changes: no round's result was returned twice and
no round's failure raised twice; `take` returns the newest result under an unchanged key only, and under a changed key
drops each ticket drafted early that its session still awaits; and `execute` ends as the step did and without deferred
commits, unless a flush failed or the drafts were interrupted. -/
theorem early_draft_once {h : Hook} {ops : List (Op Out Result)} {l : Life Result} (hr : h.Reachable)
    (hrun : Run Step (Life.init h) ops l) :
    ((l.log.drafted.map Prod.fst).Nodup ∧ (l.log.failed.map Prod.fst).Nodup ∧ l.log.returned.Nodup ∧
      l.log.raised.Nodup) ∧
    (∀ cached, l.toWorld.take.result = .ok (some cached) → ∃ key, (l.early.rounds, key, cached) ∈ l.log.drafted ∧
      l.early.rounds ∉ l.log.returned ∧ (draftKey l.hook).values = key.values ∧ l.toWorld.take.obj.hook = l.hook) ∧
    (∀ cached, l.early.cache = some cached → ∃ key, (l.early.rounds, key, cached) ∈ l.log.drafted ∧
      ((draftKey l.hook).values ≠ key.values → l.toWorld.take.result = .ok none ∧
        List.Forall₂ (World.Redrafted key.early) l.hook.bridges l.toWorld.take.obj.hook.bridges)) ∧
    (∀ e, l.toWorld.take.result = .error e → (l.early.rounds, e) ∈ l.log.failed ∧ l.early.rounds ∉ l.log.raised ∧
      l.toWorld.take.obj.hook = l.hook) ∧
    ∀ env : ExecuteEnv Out Result,
      (¬(l.execute env).obj.hook.Holds ∨ (l.execute env).obj.hook.Failed) ∧
      ((l.execute env).result = (env.step (l.arm env.gdnAfterPairs).hook).result ∨
        ∃ e, (l.execute env).result = .error e ∧
          ((l.execute env).obj.hook.Failed ∨ ∃ h, l.drafts env = some (h, .interrupted e))) := by
  have hinv := Inv.run hr hrun
  exact ⟨⟨hinv.2.drafted.1, hinv.2.failed.1, hinv.2.returned.1, hinv.2.raised.1⟩,
    fun cached hres => hinv.take_returned hres, fun cached hcache => hinv.take_changed hcache,
    fun e hres => hinv.take_failed hres, fun env => ⟨l.execute_holds env, l.execute_result env⟩⟩

/-! ## A session that fails between the calls -/

/-- A bridge of the sample request. -/
def sampleBridge (r : Dflash.Request) (budget : Int) : Bridge := ⟨0, false, false, false, r, some budget, some []⟩

/-- A hook over one block that defers its commits. -/
def sampleHook (r : Dflash.Request) (budget : Int) : Hook :=
  ⟨false, some (.blocks 0 [⟨true, false, false, [], true, []⟩]), [("r", sampleBridge r budget)]⟩

/-- The sample request with a drafted ticket. -/
def sampleDrafted : Dflash.Request :=
  (Dflash.Request.sampleRequest.apply
    (.propose "r" 4 (some "dflash2") (fun _ _ _ _ => .error .typeError) 1 (.ok [7, 7]))).obj

/-- The sample request whose drafted ticket failed its verification. -/
def sampleFailed : Dflash.Request :=
  (sampleDrafted.apply (.failVerification "r" ⟨1, "r", 1, 1, some 5, [7], "dflash2", 0⟩)).obj

/-- A step that defers a commit, and drafts for the sample request. -/
def sampleEnv : ExecuteEnv Unit Unit where
  gdnAfterPairs := true
  step h := .ret { h with packedStep := some (.blocks 0 [⟨true, true, true, [(0, 1)], true, []⟩]) } ()
  drafts _ := (sampleHook sampleDrafted 10, .result ())
  enqueue _ := .ok ()

theorem sampleRequest_reachable : Dflash.Request.sampleRequest.Reachable :=
  ⟨Dflash.Request.sampleSession, 1, 1, 7, _, [], rfl, .nil⟩

theorem sampleHook_reachable {r : Dflash.Request} (hr : r.Reachable) (budget : Int) :
    (sampleHook r budget).Reachable := by
  intro p hp
  cases List.mem_singleton.mp hp
  exact hr

/-- The hook of the sample request. -/
def sampleLife : Life Unit := Life.init (sampleHook Dflash.Request.sampleRequest 10)

theorem sampleEnv_calls : World.Calls sampleEnv sampleLife.toWorld :=
  ⟨sampleHook_reachable sampleRequest_reachable 10, sampleHook_reachable (sampleRequest_reachable.apply _) 10⟩

/-- The sample request after its drafts, its runner then holding the request `r` with the budget `budget`. -/
def sampleChanged (r : Dflash.Request) (budget : Int) : Life Unit :=
  (sampleLife.next (.execute sampleEnv)).next (.change (sampleHook r budget) : Op Unit Unit)

theorem sampleChanged_run {r : Dflash.Request} (hr : r.Reachable) (budget : Int) :
    Run Step sampleLife [.execute sampleEnv, .change (sampleHook r budget)] (sampleChanged r budget) :=
  (Run.nil.snoc (l := Op.execute sampleEnv) ⟨sampleEnv_calls, rfl⟩).snoc ⟨sampleHook_reachable hr budget, rfl⟩

/-- A budget that changed: `take` returns nothing and drops the ticket drafted early. The drafts themselves left no
deferred commit. -/
theorem early_draft_once_sample :
    ¬(sampleLife.execute sampleEnv).obj.hook.Holds ∧
    (sampleChanged sampleDrafted 9).toWorld.take.result = .ok none ∧
    (sampleChanged sampleDrafted 9).toWorld.take.obj.hook.bridges.map (fun p => p.2.request.session.pending) =
      [none] := by
  have hr := sampleHook_reachable sampleRequest_reachable 10
  have hheld := ((early_draft_once hr (.nil : Run Step sampleLife ([] : List (Op Unit Unit)) _)).2.2.2.2 sampleEnv).1
  obtain ⟨key, hmem, hdrop⟩ :=
    (early_draft_once hr (sampleChanged_run (sampleRequest_reachable.apply _) 9)).2.2.1 () rfl
  have hkey : key = draftKey (sampleHook sampleDrafted 10) := by
    have hlog := List.mem_singleton.mp hmem
    exact (Prod.mk.inj (Prod.mk.inj hlog).2).1
  subst hkey
  refine ⟨hheld.resolve_right fun hfailed => ?_, (hdrop (by decide)).1, rfl⟩
  exact absurd (hfailed _ List.mem_cons_self) (by decide)

/-- A session that failed keeps its ticket: `take` finds the key changed and leaves the ticket pending. -/
theorem failed_ticket_stays :
    Run Step sampleLife [.execute sampleEnv, .change (sampleHook sampleFailed 10)] (sampleChanged sampleFailed 10) ∧
    ∃ key ticket, (sampleChanged sampleFailed 10).early.key = some key ∧
      (sampleChanged sampleFailed 10).early.cache = some () ∧
      (draftKey (sampleChanged sampleFailed 10).hook).values ≠ key.values ∧ ticket.ident ∈ key.early ∧
      (sampleChanged sampleFailed 10).toWorld.take.obj.hook.bridges.map (fun p => p.2.request.session.pending) =
        [some ticket] ∧
      (sampleChanged sampleFailed 10).toWorld.take.obj.hook.bridges.map (fun p => p.2.request.session.phase) =
        [.failed] :=
  ⟨sampleChanged_run ((sampleRequest_reachable.apply _).apply _) 10,
    draftKey (sampleHook sampleDrafted 10), ⟨1, "r", 1, 1, some 5, [7], "dflash2", 0⟩, rfl, rfl, by decide, by decide,
    by decide, by decide⟩

end Life

end BlackholeQwen.Serving.EarlyDraft
