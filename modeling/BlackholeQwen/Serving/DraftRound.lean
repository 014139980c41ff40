import BlackholeQwen.Attention.RequestPlan
import BlackholeQwen.Dflash.StepExits
import BlackholeQwen.Serving.PackedPolicy
import BlackholeQwen.Serving.VllmContract

/-!
# The drafts of a round (`serving_worker_hook.py`)

`FastWorkerHook._drafts` asks the packed step's policy for the width of the coming round, withdraws it where a request's
real budget is shorter, discards the tickets of another width, prewarms the devices and has each bridge draft.

- `GreedySession.propose_rows`: a session whose drafter drafts in full issues a ticket of the rows it was asked for.
- `Bridge.discardStale_returned`, `Bridge.drafts_returned`: what the two loops do to a bridge.
- `Settled`: what a round that returned made of a bridge.
- `drafts_one_width`: the round leaves one width, and names the tickets in bridge order.
-/

namespace BlackholeQwen

open Lib Speculative

namespace Serving.DraftRound

/-! ## The bridges -/

/-- What an engine's own captures hold: widths, or a replay plan. -/
inductive Captures
  | widths (rows : List Nat)
  | plan (plan : Attention.ReplayPlan)

/-- The widest ticket that they hold within the remaining budget. -/
def Captures.widest : Captures → Nat → Nat → Except PyError Nat
  | .widths rows, _, remaining =>
    (rows.filter (· ≤ remaining)).max?.elim (.error (.valueError "max() iterable argument is empty")) .ok
  | .plan p, position, remaining => p.maxRows position remaining

/-- What a round does with a ticket of a bridge: it discards one, which leaves the request so, or drafts one. -/
inductive Event
  | discarded (ticket : BlockTicket) (left : Dflash.FastRequest)
  | drafted (ticket : BlockTicket)

/-- `FastRunnerBridge`: its own failure, its request, the request's engine as the policy reads it, the engine's
captures, the request's state in the runner, as far as its budget goes, and, for the observer, what became of its
tickets. -/
structure Bridge where
  failed : Bool
  request : Dflash.FastRequest
  engine : Packed.Engine
  captures : Captures
  maxTokens : Option Int
  outputTokenIds : Option (List Token)
  log : List Event

/-- The phase of an engine, as the scheduler's contract reads it. -/
def enginePhase : Verifier.EnginePhase → EnginePhase
  | .preparing => .preparing
  | .idle => .idle
  | .verified => .verified
  | .committing => .committing
  | .failed => .failed
  | .parked => .parked
  | .closed => .closed

namespace Bridge

/-- The bridge's session. -/
abbrev session (b : Bridge) : GreedySession := b.request.request.session

/-- The request, as the scheduler's contract reads it. -/
def served (b : Bridge) : FastRequest where
  session := b.session
  engine := enginePhase b.request.request.parties.engine.phase
  drafterName := b.request.drafterName
  closed := b.request.closed
  cancelled := b.request.cancelled
  busy := b.request.busy

/-- `real_remaining_budget`. -/
def realRemainingBudget (b : Bridge) : Option Int :=
  match b.maxTokens, b.outputTokenIds with
  | some maxTokens, some tokens => some (maxTokens - tokens.length)
  | _, _ => none

/-- The session's own remaining budget. -/
def remaining (b : Bridge) : Nat := b.session.maxNewTokens - b.session.emitted.length

/-- The width of the engine's own captures. -/
def widest (b : Bridge) : Except PyError Nat := b.captures.widest b.request.request.parties.engine.position b.remaining

/-- `engine.proposal_rows`. -/
def proposalRows (b : Bridge) (packedRows : Option Nat) : Except PyError Nat :=
  b.widest >>= fun widest =>
  match packedRows with
  | none => .ok widest
  | some rows =>
    raiseIf (rows ∉ Attention.VERIFY_WIDTHS ∨ b.session.verifierRows < rows)
      (.valueError "The packed block rows must be a supported verify width within the session verifier rows") >>=
      fun _ => .ok (if rows ≤ b.remaining then rows else widest)

/-- The ticket that the coming round would replace. -/
def stale (b : Bridge) (packedRows : Option Nat) : Option BlockTicket :=
  b.session.pending.filter fun ticket => b.session.phase = .pending ∧ some ticket.rows ≠ packedRows

/-- `discard_stale_ticket`. -/
def discardStale (b : Bridge) (packedRows : Option Nat) : Call Bridge Unit :=
  ((b.request.on (b.request.request.discardTicket packedRows)).onto fun request => { b with request }).bind fun b' _ =>
    .ret { b' with log := b.log ++ (b.stale packedRows).toList.map fun ticket => .discarded ticket b'.request } ()

end Bridge

/-- What the environment answers while a bridge drafts. -/
structure DraftAnswers where
  others : Adapters
  ident : Nat
  tokens : Except PyError (List Token)

namespace Bridge

/-- `request.prepare`, where no ticket is pending. -/
def ticketed (b : Bridge) (packedRows : Option Nat) (answers : DraftAnswers) : Call Bridge Unit :=
  match b.session.pending with
  | some _ => .ret b ()
  | none =>
    ((b.request.prepare b.session.requestId
      ⟨b.proposalRows packedRows, answers.others, answers.ident, answers.tokens⟩).onto
        fun request => { b with request }).bind fun b' ticket =>
    .ret { b' with log := b.log ++ [.drafted ticket] } ()

/-- `FastRunnerBridge.drafts`. -/
def drafts (b : Bridge) (packedRows : Option Nat) (answers : DraftAnswers) : Call Bridge (Option DraftTokenIds) :=
  .attempt (raiseIf (b.failed = true ∨ b.request.closed = true ∨ b.request.cancelled = true)
    (.valueError "Live fast request required")) b fun _ =>
  if b.session.finished then .ret b none
  else (b.ticketed packedRows answers).bind fun b _ => .attempt (draftTokenIds b.served) b fun ids => .ret b (some ids)

/-- The device after its proposal was prewarmed. -/
def prewarm (b : Bridge) (device : Dflash.DFlashDevice → Dflash.DFlashDevice) : Bridge :=
  { b with request := { b.request with request := { b.request.request with
      parties := { b.request.request.parties with drafter := device b.request.request.parties.drafter } } } }

end Bridge

/-! ## The round -/

/-- `packed_step`: none, one without a policy, or one with a policy over its blocks. -/
inductive RoundStep
  | absent
  | plain
  | packed (world : PackedWorld) (blocks : List Nat)

/-- The worker hook; `owned` says that the worker that asks is its own. -/
structure Hook where
  closed : Bool
  owned : Bool
  step : RoundStep
  bridges : List Bridge

/-- What the environment answers during a round; `pipelined` is the flag of the prewarm, which raises or leaves the
devices as `devices` says. -/
structure RoundEnv where
  policy : PackedStepEnv
  pipelined : Bool
  prewarmed : Except PyError Unit
  devices : Nat → Dflash.DFlashDevice → Dflash.DFlashDevice
  answers : Nat → DraftAnswers

namespace Hook

/-- The requests and the blocks, as the policy reads them. -/
def world (h : Hook) (w : PackedWorld) : PackedWorld :=
  { w with owners := fun i => (h.bridges[i]?).elim (w.owners i) fun b => ⟨b.served, b.engine, none, none⟩ }

/-- The policy's answer; without a policy there is none. -/
def answer (h : Hook) (env : RoundEnv) : Except PyError (Option Nat) :=
  match h.step with
  | .packed w blocks => (h.world w).proposalRows env.policy blocks (List.range h.bridges.length)
  | _ => .ok none

/-- The width that the real budgets leave of the policy's answer. -/
def effective (h : Hook) (answer : Option Nat) : Option Nat :=
  answer.filter fun width => h.bridges.all fun b =>
    b.session.finished || b.realRemainingBudget.all fun left => decide ((width : Int) ≤ left)

/-- The tickets of another width are discarded, where there is a policy. -/
def discarding (h : Hook) (packedRows : Option Nat) : Call Hook Unit :=
  match h.step with
  | .packed .. =>
    ((Call.each (fun _ b => b.discardStale packedRows) 0 h.bridges).onto fun bridges => { h with bridges }).map
      fun _ => ()
  | _ => .ret h ()

/-- The prewarm of the devices. -/
def prewarming (h : Hook) (env : RoundEnv) : Call Hook Unit :=
  if env.pipelined then
    .attempt env.prewarmed h fun _ =>
      .ret { h with bridges := h.bridges.mapIdx fun i b => b.prewarm (env.devices i) } ()
  else .ret h ()

/-- `DraftTokenIds` of what the bridges answered, in their order. -/
def collected (answers : List (Option DraftTokenIds)) : Option DraftTokenIds :=
  if (answers.filterMap id).flatMap DraftTokenIds.reqIds = [] then none
  else some ⟨(answers.filterMap id).flatMap DraftTokenIds.reqIds,
    (answers.filterMap id).flatMap DraftTokenIds.draftTokenIds⟩

/-- The loop over the bridges. -/
def drafting (h : Hook) (packedRows : Option Nat) (env : RoundEnv) : Call Hook (Option DraftTokenIds) :=
  ((Call.each (fun i b => b.drafts packedRows (env.answers i)) 0 h.bridges).onto fun bridges => { h with bridges }).map
    collected

/-- The drafts of several bridges, or for a packed step. -/
def round (h : Hook) (env : RoundEnv) : Call Hook (Option DraftTokenIds) :=
  .attempt (h.answer env) h fun answer =>
  (h.discarding (h.effective answer)).bind fun h' _ =>
  (h'.prewarming env).bind fun h' _ =>
  h'.drafting (h.effective answer) env

/-- `_drafts`; `taken` is what an early draft handed over. -/
def drafts (h : Hook) (taken : Option (Except PyError (Option DraftTokenIds))) (env : RoundEnv) :
    Call Hook (Option DraftTokenIds) :=
  .attempt (raiseIf (h.closed = true ∨ h.owned = false) (.valueError "Live fast worker owner required")) h fun _ =>
  match h.step, h.bridges, taken with
  | .absent, [b], _ => (b.drafts none (env.answers 0)).onto fun b => { h with bridges := [b] }
  | _, _, some result => .attempt result h fun ids => .ret h ids
  | _, _, none => h.round env

end Hook

end Serving.DraftRound

/-! ## A ticket of the rows that were asked for -/

namespace Speculative.GreedySession

/-- The widest bucket within a bucket is that bucket. -/
theorem maxWidth_bucket {n w : Nat} (hn : n ∈ buckets) (h : maxWidth n = .ok w) : w = n := by
  unfold maxWidth at h
  split at h
  · rename_i width hw
    cases h
    obtain ⟨hmem, hmax⟩ := List.max?_eq_some_iff.mp hw
    have hle : w ≤ n := by simpa using (List.mem_filter.mp hmem).2
    exact le_antisymm hle (hmax n (List.mem_filter.mpr ⟨hn, by simp⟩))
  · cases h

/-- **A session whose drafter drafts in full issues a ticket of the rows it was asked for**, within its budget. -/
theorem propose_rows {s s' : GreedySession} {requestId : String} {maxRows ident : Nat} {selected : Option String}
    {adapters : Adapters} {t : BlockTicket}
    (hfull : ∀ p, s.drafter.propose requestId (maxRows - 1) true true selected adapters = .ok p →
      p.tokens.length = maxRows - 1) (hle : maxRows ≤ s.maxNewTokens - s.emitted.length)
    (h : s.propose requestId maxRows selected adapters ident = .ret s' t) :
    t.rows = maxRows ∧ s' = s.issued t ∧ t.requestId = requestId := by
  unfold propose at h
  obtain ⟨⟨⟩, hguard, h⟩ := Call.attempt_returned h
  obtain ⟨⟨⟩, -, hguard⟩ := bind_ok hguard
  obtain ⟨⟨⟩, -, hguard⟩ := bind_ok hguard
  simp only [raiseIf_ok, not_or, not_not] at hguard
  have hpos := bucket_pos hguard.1
  have hlimit : s.proposeLimit maxRows = maxRows := min_eq_left hle
  simp only [hlimit] at h
  obtain ⟨proposal, hproposal, h⟩ := Call.attempt_returned h
  have hdrafts : (proposal.elim [] Proposal.tokens).length + 1 = maxRows := by
    split at hproposal
    · rename_i hlt
      cases hp : s.drafter.propose requestId (maxRows - 1) true true selected adapters with
      | error e => rw [hp] at hproposal; cases hproposal
      | ok p =>
        rw [hp] at hproposal
        cases hproposal
        have := hfull p hp
        show p.tokens.length + 1 = maxRows
        omega
    · cases hproposal
      show 0 + 1 = maxRows
      omega
  rw [hdrafts, min_self] at h
  obtain ⟨rows, hrows, h⟩ := Call.attempt_returned h
  cases maxWidth_bucket hguard.1 hrows
  cases h
  refine ⟨?_, rfl, rfl⟩
  rw [BlockTicket.rows_eq]
  simp only [List.length_take]
  omega

end Speculative.GreedySession

namespace Dflash

/-- Requests that calls on a new one lead to. -/
def FastRequest.Reachable (f : FastRequest) : Prop :=
  ∃ requestId prompt seed vocabSize maxNewTokens eosIds neural verifierRows preferFullSuffix lookupEnabled,
  ∃ s position historyRows maxDrafts r₀ drafterName owned releasable collectTimings f₀ ops,
    GreedySession.init requestId prompt seed vocabSize maxNewTokens eosIds neural verifierRows preferFullSuffix
      lookupEnabled = .ok s ∧
    Request.bound s position historyRows maxDrafts = .ok r₀ ∧
    FastRequest.init r₀ drafterName owned releasable collectTimings = .ok f₀ ∧ Run FastRequest.Step f₀ ops f

theorem FastRequest.Reachable.resting {f : FastRequest} (h : f.Reachable) : f.Resting := by
  obtain ⟨_, _, _, _, _, _, _, _, _, _, _, _, _, _, _, _, _, _, _, _, _, hsession, hbound, hinit, hrun⟩ := h
  exact (run_onward (.start hsession hbound hinit) hrun).resting

/-- A runtime answers what the trace reads back, as many tokens as it was asked for within its geometry. -/
theorem DFlashRequestRuntime.propose_tokens {t : DFlashRequestRuntime} {s : GreedySession} {d : DFlashDevice}
    {requestId : String} {history tokens candidates : List Token} {count : Nat}
    (h : (t.propose s d requestId history count (.ok tokens)).result = .ok candidates) :
    candidates = tokens ∧ tokens.length = min count t.maxDrafts := by
  unfold propose at h
  obtain ⟨_, -, hcall⟩ := Call.of_attempt h
  rw [hcall] at h
  obtain ⟨candidates', hcandidates, hcall⟩ := Call.of_attempt h
  rw [hcall] at h
  cases h
  obtain ⟨read, hread, hcandidates⟩ := bind_ok hcandidates
  obtain ⟨⟨⟩, hlength, hcandidates⟩ := bind_ok hcandidates
  cases hcandidates
  obtain ⟨⟨⟩, -, hread⟩ := bind_ok hread
  cases hread
  simp only [raiseIf_ok, not_or, ne_eq, not_not] at hlength
  exact ⟨rfl, hlength.1⟩

/-- A ticket that was dropped leaves the session idle, and the runtime able to draft again. -/
theorem Request.discardTicket_returned {r r' : Request} {kept : Option Nat} {ticket : BlockTicket}
    (hticket : r.session.pending = some ticket) (hphase : r.session.phase = .pending)
    (hkept : some ticket.rows ≠ kept) (h : r.discardTicket kept = .ret r' ()) :
    r' = ⟨{ r.session with pending := none, phase := .idle },
      { r.parties with
        runtime := { r.parties.runtime with phase := .idle, proposed := r'.parties.runtime.proposed } }⟩ := by
  unfold Request.discardTicket at h
  rw [hticket] at h
  dsimp only at h
  rw [if_neg (not_or.mpr ⟨not_not.mpr hphase, hkept⟩)] at h
  obtain ⟨r₁, _, hruntime, h⟩ := Call.bind_returned h
  obtain ⟨runtime, hdiscard, rfl⟩ := Call.onto_returned hruntime
  cases h
  unfold DFlashRequestRuntime.discardProposal at hdiscard
  split at hdiscard
  · rename_i hidle
    cases hdiscard
    simp [← hidle]
  · obtain ⟨_, -, hdiscard⟩ := Call.attempt_returned hdiscard
    cases hdiscard
    rfl

theorem FastRequest.whileBusy_returned {α : Type} {f f' : FastRequest} {body : FastRequest → Call FastRequest α} {a : α}
    (h : f.whileBusy body = .ret f' a) :
    ∃ g, body { f with busy := true } = .ret g a ∧ f' = { g with busy := false } := by
  rw [whileBusy_eq] at h
  generalize body { f with busy := true } = c at h
  obtain ⟨g, r⟩ := c
  cases h
  exact ⟨g, rfl, rfl⟩

/-- **A preparation that returned** had an idle engine, and issued the ticket that the session proposed. -/
theorem FastRequest.prepare_returned {f f' : FastRequest} {requestId : String} {answers : PrepareAnswers}
    {t : BlockTicket} (h : f.prepare requestId answers = .ret f' t) :
    ∃ rows session runtime prepared, answers.proposalRows = .ok rows ∧ f.request.parties.engine.phase = .idle ∧
      f.request.session.propose requestId rows (some f.drafterName) (f.request.adapters answers.others answers.tokens)
        answers.ident = .ret session t ∧
      f' = { f with
        request := ⟨session, { f.request.parties with runtime := runtime }⟩, prepared := prepared, busy := false } := by
  unfold prepare at h
  obtain ⟨_, hguard, h⟩ := Call.attempt_returned h
  simp only [prepareGuard, raiseIf_ok, not_or, ne_eq, not_not] at hguard
  obtain ⟨g, hbody, rfl⟩ := whileBusy_returned h
  obtain ⟨rows, hrows, hbody⟩ := Call.attempt_returned hbody
  obtain ⟨rows', hproposal, hrows⟩ := bind_ok hrows
  obtain ⟨⟨⟩, -, hrows⟩ := bind_ok hrows
  cases hrows
  obtain ⟨g', ticket, hon, hret⟩ := Call.bind_returned hbody
  cases hret
  obtain ⟨r, hpropose, rfl⟩ := Call.onto_returned hon
  obtain ⟨session, hsession, rfl⟩ := Call.onto_returned hpropose
  exact ⟨rows, session, _, _, hproposal, hguard.2.2.2.2.2.2, hsession, rfl⟩

end Dflash

namespace Serving.DraftRound

/-- The widest ticket is within the remaining budget. -/
theorem Captures.widest_le {c : Captures} {position remaining rows : Nat}
    (h : c.widest position remaining = .ok rows) : rows ≤ remaining := by
  cases c with
  | widths widths =>
    change (widths.filter (· ≤ remaining)).max?.elim _ Except.ok = _ at h
    cases hmax : (widths.filter (· ≤ remaining)).max? with
    | none => rw [hmax] at h; cases h
    | some w =>
      rw [hmax] at h
      cases h
      have hmem := List.max?_mem hmax
      simpa using (List.mem_filter.mp hmem).2
  | plan p =>
    obtain ⟨captures, havailable, h⟩ := bind_ok h
    obtain ⟨_, -, havailable⟩ := bind_ok havailable
    cases havailable
    split at h
    · cases h
    · rename_i w hmax
      cases h
      obtain ⟨c, hc, rfl⟩ := List.mem_map.mp (List.max?_mem hmax)
      have hle := (List.mem_filter.mp hc).2
      simp only [Bool.decide_and, Bool.and_eq_true, decide_eq_true_eq] at hle
      exact hle.1

namespace Bridge

variable {b b₁ b₂ b₃ : Bridge} {packedRows : Option Nat} {answers : DraftAnswers}

/-- The live pending ticket of a bridge. -/
def ticket (b : Bridge) : Option BlockTicket := b.session.pending.filter fun _ => b.session.phase = .pending

/-- What a bridge answers of its live ticket. -/
def announced (b : Bridge) : Option DraftTokenIds := b.ticket.map fun t => ⟨[t.requestId], [t.proposals]⟩

theorem ticket_some {t : BlockTicket} :
    b.ticket = some t ↔ b.session.pending = some t ∧ b.session.phase = .pending := by
  simp [ticket, Option.filter_eq_some_iff]

/-- The drafter of a bridge drafts as many tokens as this round asks of it, one less than the rows that the engine
proposes, whatever becomes of the rest of its request. -/
def InFull (b : Bridge) (packedRows : Option Nat) (answers : DraftAnswers) : Prop :=
  ∀ r : Dflash.Request, r.session.drafter = b.session.drafter →
    r.parties.runtime.maxDrafts = b.request.request.parties.runtime.maxDrafts →
    ∀ rows, b.proposalRows packedRows = .ok rows → ∀ p,
    r.session.drafter.propose b.session.requestId (rows - 1) true true (some b.request.drafterName)
      (r.adapters answers.others answers.tokens) = .ok p → p.tokens.length = rows - 1

/-- With the lookup off, a runtime whose trace reads back fewer tokens than its geometry holds drafts in full: any other
number of tokens than was asked for is refused. -/
theorem inFull_of_tokens {tokens : List Token} (hlookup : b.session.drafter.lookupEnabled = false)
    (hname : b.request.drafterName = "dflash2") (hneural : b.session.drafter.neural.contains "dflash2" = true)
    (htokens : answers.tokens = .ok tokens)
    (hlt : tokens.length < b.request.request.parties.runtime.maxDrafts) : b.InFull packedRows answers := by
  intro r hdrafter hmax rows _ p hp
  generalize rows - 1 = count at hp ⊢
  rw [hdrafter, hname, htokens] at hp
  obtain ⟨⟨⟩, -, hp⟩ := bind_ok hp
  obtain ⟨⟨⟩, hcount, hp⟩ := bind_ok hp
  simp only [ne_eq, not_true_eq_false, or_self, if_false] at hp
  obtain ⟨⟨lookup, matched⟩, hnone, hp⟩ := bind_ok hp
  unfold HybridDraft.lookupProposal at hnone
  rw [hlookup] at hnone
  cases hnone
  rw [if_neg (not_not.mpr rfl)] at hp
  have hselected : (some "dflash2").filter (fun name => b.session.drafter.neural.contains name) = some "dflash2" :=
    if_pos hneural
  rw [hselected] at hp
  obtain ⟨candidates, hadapter, hp⟩ := bind_ok hp
  -- the adapter is the runtime, which answers exactly as many as it was asked for
  obtain ⟨hcandidates, rfl⟩ : candidates = tokens ∧ count = tokens.length := by
    obtain ⟨hsame, hlength⟩ := Dflash.DFlashRequestRuntime.propose_tokens
      (show (r.call _ _ count (.ok tokens)).result = .ok candidates from hadapter)
    rw [hmax] at hlength
    exact ⟨hsame, by omega⟩
  obtain ⟨validated, hvalid, hp⟩ := bind_ok hp
  obtain ⟨⟨⟩, -, hvalid⟩ := bind_ok hvalid
  cases hvalid
  obtain ⟨⟨⟩, -, hp⟩ := bind_ok hp
  split at hp
  · cases hp
    rw [hcandidates]
  · rename_i hempty
    cases hp
    simp only [raiseIf_ok, not_not] at hcount
    rw [not_not.mp hempty] at hcandidates
    rw [← hcandidates] at hcount
    simp at hcount

/-- What the discards and the prewarm leave of a bridge: all but its ticket, its runtime's proposal and its device. -/
structure Alike (b b' : Bridge) : Prop where
  failed : b'.failed = b.failed
  captures : b'.captures = b.captures
  session : ∃ phase pending, b'.session = { b.session with phase := phase, pending := pending }
  engine : b'.request.request.parties.engine = b.request.request.parties.engine
  maxDrafts : b'.request.request.parties.runtime.maxDrafts = b.request.request.parties.runtime.maxDrafts
  drafterName : b'.request.drafterName = b.request.drafterName

/-- What a discard does to a bridge: nothing, or its ticket of another width is gone, and it can draft again. -/
inductive Discards (packedRows : Option Nat) (b : Bridge) : Bridge → Prop
  | none : b.stale packedRows = none → Discards packedRows b b
  | ticket {t : BlockTicket} (request : Dflash.FastRequest) : b.stale packedRows = some t →
      request.request.session = { b.session with pending := none, phase := .idle } →
      request.request.parties.runtime.phase = .idle →
      Alike b { b with request, log := b.log ++ [.discarded t request] } →
      Discards packedRows b { b with request, log := b.log ++ [.discarded t request] }

/-- Without a stale ticket nothing is dropped. -/
theorem discardTicket_fresh (h : b.stale packedRows = none) :
    b.request.request.discardTicket packedRows = .ret b.request.request () := by
  unfold Dflash.Request.discardTicket
  cases hticket : b.request.request.session.pending with
  | none => rfl
  | some t =>
    dsimp only
    rw [if_pos]
    by_contra hstale
    rw [not_or, not_not] at hstale
    simp [stale, session, hticket, hstale.1] at h
    exact hstale.2 (by simpa [BlockTicket.rows_eq] using h)

/-- **`discard_stale_ticket`**, where it returned. -/
theorem discardStale_returned (h : b.discardStale packedRows = .ret b₁ ()) : Discards packedRows b b₁ := by
  obtain ⟨b', _, honto, hret⟩ := Call.bind_returned h
  obtain ⟨request, hon, rfl⟩ := Call.onto_returned honto
  obtain ⟨r, hdiscard, rfl⟩ := Call.onto_returned hon
  cases hret
  cases hstale : b.stale packedRows with
  | none =>
    rw [discardTicket_fresh hstale] at hdiscard
    cases hdiscard
    show Discards packedRows b { b with log := b.log ++ [] }
    rw [List.append_nil]
    exact .none hstale
  | some t =>
    obtain ⟨hticket, hphase, hkept⟩ : b.session.pending = some t ∧ b.session.phase = .pending ∧
        some t.rows ≠ packedRows := by simpa [stale, Option.filter_eq_some_iff, BlockTicket.rows_eq] using hstale
    have hr := Dflash.Request.discardTicket_returned hticket hphase hkept hdiscard
    refine .ticket { b.request with request := r } hstale ?_ ?_ ⟨rfl, rfl, ⟨.idle, none, ?_⟩, ?_, ?_, rfl⟩ <;>
      (show _ = _; rw [hr])

theorem Alike.refl (b : Bridge) : Alike b b := ⟨rfl, rfl, ⟨_, _, rfl⟩, rfl, rfl, rfl⟩

theorem Discards.alike (h : Discards packedRows b b₁) : Alike b b₁ := by
  cases h with
  | none => exact .refl b
  | ticket _ _ _ _ halike => exact halike

theorem Alike.prewarm (h : Alike b b₁) (device : Dflash.DFlashDevice → Dflash.DFlashDevice) :
    Alike b (b₁.prewarm device) := ⟨h.failed, h.captures, h.session, h.engine, h.maxDrafts, h.drafterName⟩

/-- The ticket that the scheduler is told of is the live one, with an idle engine. -/
theorem draftTokenIds_ok {ids : DraftTokenIds} (h : draftTokenIds b.served = .ok ids) :
    ∃ t, b.ticket = some t ∧ b.request.request.parties.engine.phase = .idle ∧ t.requestId = b.session.requestId ∧
      ids = ⟨[t.requestId], [t.proposals]⟩ := by
  obtain ⟨t, hprepared, h⟩ := bind_ok h
  cases h
  unfold preparedTicket at hprepared
  split at hprepared
  · rename_i t' hpending
    split at hprepared
    · cases hprepared
    · rename_i hlive
      cases hprepared
      simp only [not_or, ne_eq, not_not] at hlive
      obtain ⟨-, -, -, hphase, hidle, howner, -⟩ := hlive
      refine ⟨t, ticket_some.mpr ⟨hpending, hphase⟩, ?_, howner, rfl⟩
      change enginePhase b.request.request.parties.engine.phase = .idle at hidle
      cases hengine : b.request.request.parties.engine.phase <;> rw [hengine] at hidle <;>
        first | rfl | cases hidle
  · cases hprepared

/-- **`drafts`**, where it returned: the request was finished, or it has a ticket and answered it. -/
theorem drafts_returned {out : Option DraftTokenIds} (h : b.drafts packedRows answers = .ret b₁ out) :
    (b.session.finished = true ∧ b₁ = b ∧ out = none) ∨
    b.session.finished = false ∧ b.ticketed packedRows answers = .ret b₁ () ∧
      ∃ t, b₁.ticket = some t ∧ b₁.request.request.parties.engine.phase = .idle ∧
        t.requestId = b₁.session.requestId ∧ out = some ⟨[t.requestId], [t.proposals]⟩ := by
  obtain ⟨_, -, h⟩ := Call.attempt_returned h
  split at h
  · rename_i hfinished
    cases h
    exact Or.inl ⟨hfinished, rfl, rfl⟩
  · rename_i hfinished
    obtain ⟨b', ⟨⟩, hticketed, h⟩ := Call.bind_returned h
    obtain ⟨ids, hids, h⟩ := Call.attempt_returned h
    cases h
    obtain ⟨t, ht, hidle, howner, rfl⟩ := draftTokenIds_ok hids
    exact Or.inr ⟨by simpa using hfinished, hticketed, t, ht, hidle, howner, rfl⟩

/-- A width that is within the session's budget is what the engine proposes. -/
theorem proposalRows_some {w rows : Nat} (hbudget : w ≤ b.remaining) (h : b.proposalRows (some w) = .ok rows) :
    rows = w := by
  obtain ⟨widest, -, h⟩ := bind_ok h
  obtain ⟨_, -, h⟩ := bind_ok h
  rw [if_pos hbudget] at h
  exact (Except.ok.inj h).symm

theorem proposalRows_none {rows : Nat} (h : b.proposalRows none = .ok rows) : b.widest = .ok rows := by
  obtain ⟨widest, hwidest, h⟩ := bind_ok h
  cases h
  exact hwidest

/-- **A preparation** drafts a ticket of the rows that the engine proposed, with an idle engine. -/
theorem ticketed_none (hpending : b.session.pending = none) (hfull : b.InFull packedRows answers)
    (hrows : ∀ rows, b.proposalRows packedRows = .ok rows → rows ≤ b.remaining)
    (h : b.ticketed packedRows answers = .ret b₁ ()) :
    ∃ t, b.proposalRows packedRows = .ok t.rows ∧ b.request.request.parties.engine.phase = .idle ∧
      b₁.session = b.session.issued t ∧ b₁.request.request.parties.engine = b.request.request.parties.engine ∧
      b₁.captures = b.captures ∧ b₁.log = b.log ++ [.drafted t] := by
  unfold ticketed at h
  rw [hpending] at h
  obtain ⟨b', t, honto, h⟩ := Call.bind_returned h
  obtain ⟨f, hprepare, rfl⟩ := Call.onto_returned honto
  cases h
  obtain ⟨rows, session, runtime, prepared, hproposal, hidle, hpropose,
    rfl⟩ := Dflash.FastRequest.prepare_returned hprepare
  obtain ⟨htrows, rfl, -⟩ := GreedySession.propose_rows (hfull b.request.request rfl rfl rows hproposal)
    (hrows rows hproposal) hpropose
  exact ⟨t, htrows ▸ hproposal, hidle, rfl, rfl, rfl, rfl⟩

end Bridge

/-- **What a round made of a bridge.** It discarded the bridge's live ticket at most, with the engine idle, which left
the session idle and the runtime able to draft again; then it drafted the ticket the bridge now has, at most. A ticket
that it has is its own, of the shared width, or, without one, drafted now at the engine's. -/
structure Settled (packedRows : Option Nat) (b b' : Bridge) : Prop where
  log : ∃ discards drafts, b'.log = b.log ++ (discards ++ drafts) ∧
    (∀ e ∈ discards, ∃ t left, e = .discarded t left ∧ b.ticket = some t ∧
      b.request.request.parties.engine.phase = .idle ∧ left.request.session.phase = .idle ∧
      left.request.session.pending = none ∧ left.request.parties.runtime.phase = .idle) ∧
    (∀ e ∈ drafts, ∃ t, e = .drafted t ∧ b'.ticket = some t) ∧
    (packedRows = none → ∀ t, b'.ticket = some t → .drafted t ∈ drafts)
  owner : b'.session.requestId = b.session.requestId
  named : ∀ t, b'.ticket = some t → t.requestId = b.session.requestId
  packed : ∀ w, packedRows = some w → ∀ t, b'.ticket = some t → t.rows = w
  native : packedRows = none → ∀ t, b'.ticket = some t → b'.widest = .ok t.rows

namespace Bridge

variable {b b₁ b₂ b₃ : Bridge} {packedRows : Option Nat} {answers : DraftAnswers}

theorem Alike.remaining (h : Alike b b₁) : b₁.remaining = b.remaining := by
  obtain ⟨phase, pending, hsession⟩ := h.session
  unfold Bridge.remaining
  rw [hsession]

theorem Alike.proposalRows (h : Alike b b₁) : b₁.proposalRows packedRows = b.proposalRows packedRows := by
  obtain ⟨phase, pending, hsession⟩ := h.session
  unfold Bridge.proposalRows widest
  rw [h.captures, h.engine, h.remaining, hsession]

theorem Alike.inFull (h : Alike b b₁) (hfull : b.InFull packedRows answers) : b₁.InFull packedRows answers := by
  obtain ⟨phase, pending, hsession⟩ := h.session
  intro r hdrafter hmax rows hrows p hp
  rw [hsession] at hdrafter hp
  rw [h.maxDrafts] at hmax
  rw [h.proposalRows] at hrows
  rw [h.drafterName] at hp
  exact hfull r hdrafter hmax rows hrows p hp

/-- A stale ticket is a live one of another width. -/
theorem stale_some {t : BlockTicket} (h : b.stale packedRows = some t) :
    b.ticket = some t ∧ some t.rows ≠ packedRows := by
  obtain ⟨hticket, hphase, hkept⟩ : b.session.pending = some t ∧ b.session.phase = .pending ∧
      some t.rows ≠ packedRows := by simpa [stale, Option.filter_eq_some_iff, BlockTicket.rows_eq] using h
  exact ⟨ticket_some.mpr ⟨hticket, hphase⟩, hkept⟩

/-- A live ticket that is not stale is of the shared width. -/
theorem stale_none (h : b.stale packedRows = none) {t : BlockTicket} (ht : b.ticket = some t) :
    some t.rows = packedRows := by
  obtain ⟨hticket, hphase⟩ := ticket_some.mp ht
  by_contra hne
  simp [stale, hticket, hphase] at h
  exact hne (by simpa [BlockTicket.rows_eq] using h)

/-- What the engine proposes is within the budget. -/
theorem proposalRows_le (hbudget : ∀ w, packedRows = some w → w ≤ b.remaining) {rows : Nat}
    (h : b.proposalRows packedRows = .ok rows) : rows ≤ b.remaining := by
  cases packedRows with
  | none => exact Captures.widest_le (proposalRows_none h)
  | some w => exact proposalRows_some (hbudget w rfl) h ▸ hbudget w rfl

/-- A finished request has no live ticket. -/
theorem ticket_finished (hrest : b.request.Resting) (hfinished : b.session.finished = true) : b.ticket = none := by
  by_contra hsome
  obtain ⟨t, ht⟩ := Option.ne_none_iff_exists'.mp hsome
  have hunfinished := hrest.books.unfinished (ticket_some.mp ht).2
  rw [hfinished] at hunfinished
  cases hunfinished

/-- A finished request: no ticket was discarded, and none is there. -/
theorem settled_finished (device : Dflash.DFlashDevice → Dflash.DFlashDevice) (hnone : b.ticket = none)
    (hdiscards : Discards packedRows b b₁) :
    Settled packedRows b (b₁.prewarm device) ∧ (b₁.prewarm device).announced = none := by
  cases hdiscards with
  | none hstale =>
    have hnone' : (b.prewarm device).ticket = none := hnone
    refine ⟨⟨⟨[], [], by simp [prewarm], by simp, by simp, fun _ t ht => ?_⟩, rfl, fun t ht => ?_, fun _ _ t ht => ?_,
      fun _ t ht => ?_⟩, by rw [announced, hnone']; rfl⟩ <;> (rw [hnone'] at ht; cases ht)
  | ticket request hstale _ _ _ =>
    rw [(stale_some hstale).1] at hnone
    cases hnone

/-- A ticket that was left pending: it was not stale. -/
theorem settled_kept {device : Dflash.DFlashDevice → Dflash.DFlashDevice} {t : BlockTicket}
    (hdiscards : Discards packedRows b b₁) (ht : (b₁.prewarm device).ticket = some t)
    (howner : t.requestId = (b₁.prewarm device).session.requestId) :
    Settled packedRows b (b₁.prewarm device) := by
  cases hdiscards with
  | none hstale =>
    have hwidth : ∀ t, (b.prewarm device).ticket = some t → some t.rows = packedRows :=
      fun t ht => stale_none hstale (t := t) ht
    refine ⟨⟨[], [], by simp [prewarm], by simp, by simp, fun hn t ht => ?_⟩, rfl, fun t' ht' => ?_,
      fun w hw t ht => ?_, fun hn t ht => ?_⟩
    · rw [hn] at hwidth
      cases hwidth t ht
    · rw [ht] at ht'
      cases ht'
      exact howner
    · have hrows := hwidth t ht
      rw [hw] at hrows
      exact Option.some.inj hrows
    · rw [hn] at hwidth
      cases hwidth t ht
  | ticket request hstale hdropped _ _ =>
    have hpending : request.request.session.pending = some t := (ticket_some.mp ht).1
    rw [hdropped] at hpending
    cases hpending

/-- A ticket that was drafted: after one discard at most, at the width that the engine proposed. -/
theorem settled_drafted {device : Dflash.DFlashDevice → Dflash.DFlashDevice} {t : BlockTicket}
    (hbudget : ∀ w, packedRows = some w → w ≤ b.remaining) (hdiscards : Discards packedRows b b₁)
    (hrows : (b₁.prewarm device).proposalRows packedRows = .ok t.rows)
    (hidle : (b₁.prewarm device).request.request.parties.engine.phase = .idle)
    (hissued : b₃.session = (b₁.prewarm device).session.issued t)
    (hengine : b₃.request.request.parties.engine = (b₁.prewarm device).request.request.parties.engine)
    (hcaptures : b₃.captures = (b₁.prewarm device).captures)
    (hlog : b₃.log = (b₁.prewarm device).log ++ [.drafted t]) (howner : t.requestId = b₃.session.requestId) :
    Settled packedRows b b₃ := by
  have halike : Alike b (b₁.prewarm device) := hdiscards.alike.prewarm device
  have hticket : b₃.ticket = some t := ticket_some.mpr ⟨by rw [hissued]; rfl, by rw [hissued]; rfl⟩
  have hone : ∀ t', b₃.ticket = some t' → t' = t := fun t' ht' => by
    rw [hticket] at ht'
    exact (Option.some.inj ht').symm
  have hwidest : b₃.widest = (b₁.prewarm device).widest := by
    unfold widest remaining
    rw [hengine, hcaptures, hissued]
    rfl
  have hown : b₃.session.requestId = b.session.requestId := by
    obtain ⟨phase, pending, hsession⟩ := halike.session
    rw [hissued]
    show (b₁.prewarm device).session.requestId = _
    rw [hsession]
  refine ⟨?_, hown, fun t' ht' => ?_, fun w hw t' ht' => ?_, fun hn t' ht' => ?_⟩
  · cases hdiscards with
    | none hstale =>
      refine ⟨[], [.drafted t], hlog, by simp, by simpa using hticket, fun _ t' ht' => ?_⟩
      rw [hone t' ht']
      exact List.mem_singleton_self _
    | @ticket t₀ request hstale hdropped hruntime _ =>
      refine ⟨[.discarded t₀ request], [.drafted t], by rw [hlog]; simp [prewarm], ?_, by simpa using hticket,
        fun _ t' ht' => ?_⟩
      · rintro e he
        rw [List.mem_singleton] at he
        refine ⟨t₀, request, he, (stale_some hstale).1, ?_, by rw [hdropped], by rw [hdropped], hruntime⟩
        rw [← halike.engine]
        exact hidle
      · rw [hone t' ht']
        exact List.mem_singleton_self _
  · rw [hone t' ht']
    exact howner.trans hown
  · rw [hone t' ht']
    rw [hw] at hrows
    exact proposalRows_some (halike.remaining ▸ hbudget w hw) hrows
  · rw [hone t' ht', hwidest]
    rw [hn] at hrows
    exact proposalRows_none hrows

/-- **A bridge's part of a round that returned.** -/
theorem settled {device : Dflash.DFlashDevice → Dflash.DFlashDevice} {out : Option DraftTokenIds}
    (hrest : b.request.Resting) (hfull : b.InFull packedRows answers)
    (hbudget : ∀ w, packedRows = some w → b.session.finished = false → w ≤ b.remaining)
    (hdiscards : Discards packedRows b b₁)
    (h : (b₁.prewarm device).drafts packedRows answers = .ret b₃ out) :
    Settled packedRows b b₃ ∧ out = b₃.announced := by
  have halike : Alike b (b₁.prewarm device) := hdiscards.alike.prewarm device
  have hfinished : (b₁.prewarm device).session.finished = b.session.finished := by
    obtain ⟨phase, pending, hsession⟩ := halike.session
    rw [hsession]
  rcases drafts_returned h with ⟨hfin, rfl, rfl⟩ | ⟨hunfinished, hticketed, t, ht, hidle, howner, rfl⟩
  · obtain ⟨hsettled, hannounced⟩ := settled_finished device (ticket_finished hrest (hfinished ▸ hfin)) hdiscards
    exact ⟨hsettled, hannounced.symm⟩
  · refine ⟨?_, by rw [announced, ht]; rfl⟩
    have hwithin : ∀ w, packedRows = some w → w ≤ b.remaining := fun w hw => hbudget w hw (hfinished ▸ hunfinished)
    cases hpending : (b₁.prewarm device).session.pending with
    | some t' =>
      obtain rfl : b₃ = b₁.prewarm device := by
        unfold ticketed at hticketed
        rw [hpending] at hticketed
        cases hticketed
        rfl
      exact settled_kept hdiscards ht howner
    | none =>
      obtain ⟨t', hrows, hidle', hissued, hengine, hcaptures, hlog⟩ := ticketed_none hpending (halike.inFull hfull)
        (fun rows => proposalRows_le fun w hw => halike.remaining ▸ hwithin w hw) hticketed
      obtain rfl : t' = t := by
        have ht' := (ticket_some.mp ht).1
        rw [hissued] at ht'
        exact Option.some.inj ht'
      exact settled_drafted hwithin hdiscards hrows hidle' hissued hengine hcaptures hlog howner

end Bridge

end Serving.DraftRound

/-! ## The policy's budgets -/

namespace Serving.PackedWorld

variable {env : PackedStepEnv} {w : PackedWorld}

/-- A group that is served has a round's worth of tokens left for each request. -/
theorem proposalGroup_budget {b : Nat} {group : List Nat} (h : proposalGroup env w b group = .ok true) {r : Nat}
    (hr : r ∈ group) : (w.block b).shape.rowsPerUser ≤
      (w.owners r).request.session.maxNewTokens - (w.owners r).request.session.emitted.length := by
  unfold proposalGroup at h
  split at h
  · cases h
  split at h
  · cases h
  rename_i hrequests
  by_contra hlt
  exact hrequests ⟨r, hr, Or.inl (by omega)⟩

/-- **The policy answers no width that a live request's session has no budget for.** -/
theorem proposalRows_budget {blocks requests : List Nat} {width : Nat}
    (h : proposalRows env w blocks requests = .ok (some width)) {r : Nat} (hr : r ∈ requests)
    (hlive : (w.owners r).request.session.finished = false) :
    width ≤ (w.owners r).request.session.maxNewTokens - (w.owners r).request.session.emitted.length := by
  obtain ⟨hmatched, hgroups⟩ := proposalRows_some h
  have hmem : r ∈ w.live requests := List.mem_filter.mpr ⟨hr, by simpa using hlive⟩
  obtain ⟨b, hb⟩ := hmatched r hmem
  have hgroup : r ∈ (w.live requests).filter fun r => w.matched blocks r = some b :=
    List.mem_filter.mpr ⟨hmem, by simpa using hb⟩
  obtain ⟨rfl, hserved⟩ := hgroups b (List.ne_nil_of_mem hgroup)
  exact proposalGroup_budget hserved hgroup

end Serving.PackedWorld

/-! ## The round -/

namespace Serving.DraftRound

/-- What a round answers: each bridge's live ticket, in their order. -/
def named (bridges : List Bridge) : Option DraftTokenIds :=
  if bridges.filterMap Bridge.ticket = [] then none
  else some ⟨(bridges.filterMap Bridge.ticket).map (·.requestId), (bridges.filterMap Bridge.ticket).map (·.proposals)⟩

namespace Hook

variable {h h' : Hook} {env : RoundEnv}

/-- The effective width is `width`: the policy gave it, and each unfinished request's real budget is absent or as
long. -/
def Effective (h : Hook) (answer : Option Nat) (width : Nat) : Prop :=
  answer = some width ∧ ∀ b ∈ h.bridges, b.session.finished = false →
    ∀ left, b.realRemainingBudget = some left → (width : Int) ≤ left

theorem effective_some {answer : Option Nat} {width : Nat} :
    h.effective answer = some width ↔ h.Effective answer width := by
  unfold effective Effective
  rw [Option.filter_eq_some_iff, List.all_eq_true]
  refine and_congr_right fun _ => forall₂_congr fun b _ => ?_
  rw [Bool.or_eq_true]
  cases b.session.finished <;> cases b.realRemainingBudget <;> simp

/-- The effective width is within the session's budget of each unfinished request. -/
theorem effective_budget {w : PackedWorld} {blocks : List Nat} {answer : Option Nat} {width i : Nat} {b : Bridge}
    (hstep : h.step = .packed w blocks) (hanswer : h.answer env = .ok answer) (hb : h.bridges[i]? = some b)
    (hwidth : h.effective answer = some width) (hlive : b.session.finished = false) : width ≤ b.remaining := by
  obtain ⟨rfl, -⟩ := effective_some.mp hwidth
  have howner : (h.world w).owners i = ⟨b.served, b.engine, none, none⟩ := by
    show (h.bridges[i]?).elim _ _ = _
    rw [hb]
    rfl
  have hpolicy : (h.world w).proposalRows env.policy blocks (List.range h.bridges.length) = .ok (some width) := by
    unfold Hook.answer at hanswer
    split at hanswer
    · rename_i w' blocks' hstep'
      cases hstep.symm.trans hstep'
      exact hanswer
    · cases hanswer
  have hmem : i ∈ List.range h.bridges.length := List.mem_range.mpr (List.getElem?_eq_some_iff.mp hb).1
  have hle := PackedWorld.proposalRows_budget hpolicy hmem (by rw [howner]; exact hlive)
  rw [howner] at hle
  exact hle

theorem collected_map (bridges : List Bridge) :
    collected (bridges.map Bridge.announced) = named bridges := by
  have hfilter : (bridges.map Bridge.announced).filterMap id =
    (bridges.filterMap Bridge.ticket).map fun t => ⟨[t.requestId], [t.proposals]⟩ := by
    rw [List.filterMap_map, List.map_filterMap]
    rfl
  unfold collected named
  rw [hfilter, List.flatMap_map, List.flatMap_map, List.map_eq_flatMap, List.map_eq_flatMap]
  by_cases hnil : bridges.filterMap Bridge.ticket = []
  · rw [hnil]
    rfl
  · rw [if_neg hnil, if_neg]
    intro hempty
    rw [← List.map_eq_flatMap, List.map_eq_nil_iff] at hempty
    exact hnil hempty

/-- A loop over the bridges that returned. -/
theorem loop_returned {α β : Type} {f : Nat → Bridge → Call Bridge α} {g : List α → β} {x : β}
    (hret : ((Call.each f 0 h.bridges).onto fun bridges => { h with bridges }).map g = .ret h' x) :
    ∃ answers bridges, Call.each f 0 h.bridges = .ret bridges answers ∧ { h with bridges := bridges } = h' ∧
      g answers = x := by
  generalize Call.each f 0 h.bridges = c at hret
  obtain ⟨bridges, _ | answers⟩ := c <;> cases hret
  exact ⟨answers, bridges, rfl, rfl, rfl⟩

/-- **A round that returned**, bridge by bridge. -/
theorem round_returned {w : PackedWorld} {blocks : List Nat} {ids : Option DraftTokenIds}
    (hstep : h.step = .packed w blocks) (hret : h.round env = .ret h' ids) :
    ∃ answer outs, h.answer env = .ok answer ∧ h'.bridges.length = h.bridges.length ∧
      outs.length = h.bridges.length ∧ ids = collected outs ∧ ∀ i b, h.bridges[i]? = some b →
        ∃ b₁ device b₃ out, Bridge.Discards (h.effective answer) b b₁ ∧
          (b₁.prewarm device).drafts (h.effective answer) (env.answers i) = .ret b₃ out ∧
          h'.bridges[i]? = some b₃ ∧ outs[i]? = some out := by
  obtain ⟨answer, hanswer, hret⟩ := Call.attempt_returned hret
  obtain ⟨h₁, ⟨⟩, hdiscarding, hret⟩ := Call.bind_returned hret
  obtain ⟨h₂, ⟨⟩, hprewarming, hdrafting⟩ := Call.bind_returned hret
  have hloop : (((Call.each (fun _ b => b.discardStale (h.effective answer)) 0 h.bridges).onto
      fun bridges => { h with bridges }).map fun _ => ()) = .ret h₁ () := by
    unfold discarding at hdiscarding
    split at hdiscarding
    · exact hdiscarding
    · rename_i hother
      exact absurd hstep (hother w blocks)
  obtain ⟨_, bridges, hdiscards, rfl, -⟩ := loop_returned hloop
  obtain ⟨outs, bridges', hdrafts, rfl, rfl⟩ := loop_returned hdrafting
  obtain ⟨hlength, -, hturn⟩ := Call.each_returned (congrArg Call.result hdiscards)
  obtain ⟨hlength', houts, hturn'⟩ := Call.each_returned (congrArg Call.result hdrafts)
  rw [hdiscards] at hlength hturn
  rw [hdrafts] at hlength' hturn'
  have hwarm : ∃ devices : Nat → Dflash.DFlashDevice → Dflash.DFlashDevice,
      h₂.bridges = bridges.mapIdx fun i b => b.prewarm (devices i) := by
    unfold prewarming at hprewarming
    split at hprewarming
    · obtain ⟨_, -, hprewarming⟩ := Call.attempt_returned hprewarming
      cases hprewarming
      exact ⟨env.devices, rfl⟩
    · cases hprewarming
      refine ⟨fun _ device => device, ?_⟩
      show bridges = bridges.mapIdx fun _ b => b
      rw [List.mapIdx_eq_zipIdx_map]
      simp
  obtain ⟨devices, hwarm⟩ := hwarm
  have hmid : h₂.bridges.length = bridges.length := by rw [hwarm, List.length_mapIdx]
  refine ⟨answer, outs, hanswer, ?_, ?_, rfl, fun i b hb => ?_⟩
  · exact hlength'.trans (hmid.trans hlength)
  · exact houts.trans (hmid.trans hlength)
  · obtain ⟨b₁, ⟨⟩, hdiscard, hb₁, -⟩ := hturn i b hb
    have hb₂ : h₂.bridges[i]? = some (b₁.prewarm (devices i)) := by
      rw [hwarm, List.getElem?_mapIdx]
      change bridges[i]? = some b₁ at hb₁
      rw [hb₁]
      rfl
    obtain ⟨b₃, out, hdraft, hb₃, hout⟩ := hturn' i _ hb₂
    rw [Nat.zero_add] at hdraft
    exact ⟨b₁, devices i, b₃, out, Bridge.discardStale_returned hdiscard, hdraft, hb₃, hout⟩

/-- **Main result.** A drafting round that returned leaves one ticket width. Under the effective width every live
pending ticket has exactly its rows; without one every live pending ticket was drafted now, at its own engine's width.
Only tickets that no engine had taken were discarded, each with its session idle and its runtime able to draft again
before it drafted; and the result names each live pending ticket once, in bridge order, with its own draft tokens. -/
theorem drafts_one_width {w : PackedWorld} {blocks : List Nat} {ids : Option DraftTokenIds}
    (hstep : h.step = .packed w blocks) (hreach : ∀ b ∈ h.bridges, b.request.Reachable)
    (hfull : ∀ answer, h.answer env = .ok answer → ∀ i (b : Bridge), h.bridges[i]? = some b →
      b.InFull (h.effective answer) (env.answers i))
    (hret : h.drafts none env = .ret h' ids) :
    ∃ answer, h.answer env = .ok answer ∧
      (∀ width, h.Effective answer width → List.Forall₂ (Settled (some width)) h.bridges h'.bridges) ∧
      ((∀ width, ¬ h.Effective answer width) → List.Forall₂ (Settled none) h.bridges h'.bridges) ∧
      ids = named h'.bridges := by
  obtain ⟨_, -, hret⟩ := Call.attempt_returned hret
  have hround : h.round env = .ret h' ids := by
    split at hret
    · rename_i habsent _
      rw [hstep] at habsent
      cases habsent
    · rename_i hsome _
      cases hsome
    · exact hret
  obtain ⟨answer, outs, hanswer, hlength, houts, rfl, hturn⟩ := round_returned hstep hround
  have hsettled : ∀ (i : Nat) (b : Bridge), h.bridges[i]? = some b → ∃ b' : Bridge, h'.bridges[i]? = some b' ∧
      Settled (h.effective answer) b b' ∧
      outs[i]? = some b'.announced := by
    intro i b hb
    obtain ⟨b₁, device, b₃, out, hdiscards, hdrafts, hb₃, hout⟩ := hturn i b hb
    have hmem := List.mem_of_getElem? hb
    obtain ⟨hsettled, rfl⟩ := Bridge.settled (hreach b hmem).resting (hfull answer hanswer i b hb)
      (fun width => effective_budget hstep hanswer hb) hdiscards hdrafts
    exact ⟨b₃, hb₃, hsettled, hout⟩
  have hall : List.Forall₂ (Settled (h.effective answer)) h.bridges h'.bridges := by
    refine List.forall₂_iff_get.mpr ⟨hlength.symm, fun i hi hi' => ?_⟩
    obtain ⟨b', hb', hb, -⟩ := hsettled i _ (List.getElem?_eq_getElem hi)
    cases (List.getElem?_eq_getElem hi').symm.trans hb'
    exact hb
  have houts' : outs = h'.bridges.map Bridge.announced := by
    refine List.ext_getElem? fun i => ?_
    rw [List.getElem?_map]
    by_cases hi : i < h.bridges.length
    · obtain ⟨b', hb', -, hout⟩ := hsettled i _ (List.getElem?_eq_getElem hi)
      rw [hb', hout]
      rfl
    · rw [List.getElem?_eq_none (by omega), List.getElem?_eq_none (by omega)]
      rfl
  refine ⟨answer, hanswer, fun width hwidth => ?_, fun hnone => ?_, ?_⟩
  · rwa [effective_some.mpr hwidth] at hall
  · cases heffective : h.effective answer with
    | none => rwa [heffective] at hall
    | some width => exact absurd (effective_some.mp heffective) (hnone width)
  · rw [houts', collected_map]

/-! ## A round of two -/

theorem roundBlock_carries : [100, 101].length = 2 := rfl

theorem roundBlock_family (_ : true = false) : 256 % 256 = 0 := rfl

/-- A block of two users, two rows each. -/
def roundBlock : Packed.PackedBlock where
  shape := ⟨2, 2, 4, 4, 256⟩
  carries := [100, 101]
  paddedMinUsers := none
  extent := true
  replayCapacity := 256
  carriesInPlace := false
  lent := fun _ => true
  carries_length := roundBlock_carries
  family := roundBlock_family

/-- The session of a request at position 130, without the lookup. -/
def roundSession (requestId : String) : GreedySession :=
  { GreedySession.sample with
    requestId
    position := 130
    drafter := ⟨false, 10, ["dflash2"], ⟨requestId, 32768, 128, 15, false, false, List.replicate 130 3 ++ [5]⟩⟩ }

/-- Its new request. -/
def roundRequest (requestId : String) : Dflash.FastRequest :=
  ⟨⟨roundSession requestId, ⟨.idle, 130, 7, [], 0⟩, ⟨.idle, 130, none⟩, Dflash.DFlashDevice.init 130 1 7⟩, "dflash2",
    false,
    false, false, false, false, []⟩

/-- A preparation of one row. -/
def roundPrepare : Dflash.PrepareAnswers := ⟨.ok 1, fun _ _ _ _ => .error .typeError, 0, .ok [7]⟩

/-- A ticket of one row, drafted in an earlier round. -/
def roundEarlier : Dflash.FastRequest := ((roundRequest "a").prepare "a" roundPrepare).obj

/-- The first request has a ticket of another width, the second none. -/
def roundHook : Hook where
  closed := false
  owned := true
  step := .packed
    { PackedWorld.sampleWorld with blocks := fun _ => ⟨.start roundBlock false false false false, false⟩ } [0]
  bridges := [⟨false, roundEarlier, ⟨some 100, none⟩, .widths [1], some 10, some [], []⟩,
    ⟨false, roundRequest "b", ⟨some 101, none⟩, .widths [1], none, none, []⟩]

/-- Each trace reads one token back. -/
def roundEnv : RoundEnv where
  policy := PackedWorld.sampleEnv
  pipelined := false
  prewarmed := .ok ()
  devices := fun _ device => device
  answers := fun i => ⟨fun _ _ _ _ => .error .typeError, i + 1, .ok [7]⟩

set_option maxRecDepth 4000 in
theorem roundSession_init {requestId : String} (h : requestId = "a" ∨ requestId = "b") :
    GreedySession.init requestId (List.replicate 130 3) 5 10 4 [9] ["dflash2"] 16 false false =
      .ok (roundSession requestId) := by
  rcases h with rfl | rfl <;> rfl

theorem roundRequest_reachable {requestId : String} (h : requestId = "a" ∨ requestId = "b")
    {ops : List Dflash.FastRequest.Op} {f : Dflash.FastRequest}
    (hrun : Run Dflash.FastRequest.Step (roundRequest requestId) ops f) : f.Reachable :=
  ⟨_, _, _, _, _, _, _, _, _, _, _, 130, 1, 7, _, "dflash2", true, true, false, _, _, roundSession_init h, rfl, rfl,
    hrun⟩

theorem roundEarlier_run :
    Run Dflash.FastRequest.Step (roundRequest "a") [.prepare "a" roundPrepare] roundEarlier :=
  Run.nil.snoc ⟨trivial, rfl⟩

/-- The first request's ticket of one row gives way to one of two, as wide as the second's. -/
theorem drafts_one_width_sample : ∃ h',
    roundHook.drafts none roundEnv = .ret h' (some ⟨["a", "b"], [[7], [7]]⟩) ∧
    List.Forall₂ (Settled (some 2)) roundHook.bridges h'.bridges := by
  have hresult : (roundHook.drafts none roundEnv).result = .ok (some ⟨["a", "b"], [[7], [7]]⟩) := by decide
  have hret : roundHook.drafts none roundEnv =
      .ret (roundHook.drafts none roundEnv).obj (some ⟨["a", "b"], [[7], [7]]⟩) := by
    show _ = Call.mk _ _
    rw [← hresult]
  obtain ⟨answer, hanswer, hpacked, -⟩ := drafts_one_width (h := roundHook) rfl
    (by
      intro b hb
      rcases List.mem_cons.mp hb with rfl | hb
      · exact roundRequest_reachable (Or.inl rfl) roundEarlier_run
      · obtain rfl := List.mem_singleton.mp hb
        exact roundRequest_reachable (Or.inr rfl) .nil)
    (by
      intro _ _ i b hb
      have hmem := List.mem_of_getElem? hb
      rcases List.mem_cons.mp hmem with rfl | hmem
      · exact Bridge.inFull_of_tokens rfl rfl rfl rfl (by decide)
      · obtain rfl := List.mem_singleton.mp hmem
        exact Bridge.inFull_of_tokens rfl rfl rfl rfl (by decide))
    hret
  have hwidth : (roundHook.answer roundEnv).toOption = some (some 2) := by decide
  rw [hanswer] at hwidth
  obtain rfl : answer = some 2 := Option.some.inj hwidth
  refine ⟨_, hret, hpacked 2 ⟨rfl, ?_⟩⟩
  intro b hb _ left hleft
  rcases List.mem_cons.mp hb with rfl | hb
  · cases hleft
    decide
  · obtain rfl := List.mem_singleton.mp hb
    cases hleft

end Hook

end Serving.DraftRound

end BlackholeQwen
