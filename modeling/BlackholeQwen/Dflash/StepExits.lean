import BlackholeQwen.Dflash.Frontiers
import Mathlib.Logic.Relation

/-!
# The exits of a serving step (`serving_fast_request.py`)

`FastRequest` is a request's driver over its session and the three parties: `prepare`, `step` and `close`, with the busy
flag, the timing of the last preparation and, for the observer, the prefixes it handed to `runtime.publish`.

- `Books`: a session is pending exactly while it has a ticket, within its budget; kept by whatever moves it.
- `transact_cases`, `recover_fails`, `prepare_cases`: the parts of a step, by how they end.
- `Exit`: how a step ends past its first poll (`step_exit`).
- `apply_onward`: every call leaves the request between calls (`Resting`), its session moved on.
- `step_exits`: every exit of a step out of a reachable state.
- `poll_keeps_ticket`: a first poll that raises leaves a pending ticket pending.
-/

namespace BlackholeQwen.Dflash

open Lib Speculative GreedySession

/-! ## The driver -/

/-- `FastRequest`; `prepared` says that `prepared_timing` is set, `published` are the prefixes given to `publish`. -/
structure FastRequest where
  request : Request
  drafterName : String
  closed : Bool
  cancelled : Bool
  busy : Bool
  collectTimings : Bool
  prepared : Bool
  published : List Nat

/-- What the environment answers while a ticket is prepared. -/
structure PrepareAnswers where
  proposalRows : Except PyError Nat
  others : Adapters
  ident : Nat
  tokens : Except PyError (List Token)

/-- What the environment answers during a step: the two polls of `cancelled`, a preparation, the device's verification,
and the publications of a commit, an abort and a recovery. -/
structure StepAnswers where
  callable : Bool
  first : Except PyError Bool
  prepare : PrepareAnswers
  captured : Bool
  predicted : Except PyError (List Token)
  second : Except PyError Bool
  commit : PublishEnv
  abort : PublishEnv
  recover : PublishEnv

namespace FastRequest

/-- `__init__`; `owned` is `engine.session is session`, `releasable` that the clean-ups are callable. -/
def init (request : Request) (drafterName : String) (owned releasable collectTimings : Bool) :
    Except PyError FastRequest := do
  raiseIf (request.session.phase ≠ .idle ∨ request.parties.engine.phase ≠ .idle ∨ owned = false ∨
      request.session.verifierRows ≠ 16 ∨ releasable = false ∨ drafterName ∉ ["dflash2", "dspark"])
    (.valueError "Prepared request-owned greedy T16 engine and explicit cleanup required")
  return ⟨request, drafterName, false, false, false, collectTimings, false, []⟩

/-- `self.busy = True; try: … finally: self.busy = False`. -/
def whileBusy {α : Type} (f : FastRequest) (body : FastRequest → Call FastRequest α) : Call FastRequest α :=
  (body { f with busy := true }).lastly fun f => .ret { f with busy := false } ()

/-- A call on the request. -/
def on {α : Type} (f : FastRequest) (c : Call Request α) :
    Call FastRequest α := c.onto fun request => { f with request }

/-- The check of `prepare`. -/
def prepareGuard (f : FastRequest) (requestId : String) : Except PyError Unit :=
  raiseIf (f.closed = true ∨ f.busy = true ∨ f.cancelled = true ∨ requestId ≠ f.request.session.requestId ∨
      f.request.session.phase ≠ .idle ∨ f.request.session.finished = true ∨ f.request.parties.engine.phase ≠ .idle)
    (.valueError "One unfinished idle owner required for draft preparation")

/-- `prepare`. -/
def prepare (f : FastRequest) (requestId : String) (answers : PrepareAnswers) : Call FastRequest BlockTicket :=
  .attempt (f.prepareGuard requestId) f fun _ =>
  f.whileBusy fun f =>
    .attempt (do
        let rows ← answers.proposalRows
        raiseIf (rows ∉ [1, 2, 4, 8, 16]) (.valueError "Qualified T16 verifier bucket required")
        return rows) f fun rows =>
    (f.on (f.request.propose requestId rows (some f.drafterName) answers.others answers.ident answers.tokens)).bind
      fun f ticket => .ret { f with prepared := f.prepared || f.collectTimings } ticket

/-- `engine.verify`. -/
def verify (f : FastRequest) (ticket : BlockTicket) (captured : Bool) (predicted : Except PyError (List Token)) :
    Call FastRequest (List Token) :=
  (f.on (f.request.verify ticket captured (predicted.map fun _ => ()))).bind fun f _ =>
    .attempt predicted f fun predictions => .ret f predictions

/-- `session.commit(request_id, ticket, predictions, runtime.publish)`. -/
def commit (f : FastRequest) (requestId : String) (ticket : BlockTicket) (predictions : List Token)
    (env : PublishEnv) : Call FastRequest Decision :=
  .attempt (f.request.session.commitDecision requestId ticket predictions .returnsNone none) f fun decision =>
    (({ f with published := f.published ++ [decision.stateRows] } : FastRequest).on
      (f.request.commit requestId ticket predictions none env)).map fun _ => decision

/-- `session.abort(request_id, ticket, runtime.publish)`. -/
def abort (f : FastRequest) (requestId : String) (ticket : BlockTicket) (env : PublishEnv) : Call FastRequest Unit :=
  .attempt (f.request.session.abortGuard requestId ticket .returnsNone) f fun _ =>
    ({ f with published := f.published ++ [0] } : FastRequest).on (f.request.abort requestId ticket env)

/-- `session.fail_verification(request_id, ticket)`. -/
def failVerification (f : FastRequest) (requestId : String) (ticket : BlockTicket) : Call FastRequest Unit :=
  f.on ((f.request.session.failVerification requestId ticket).onto fun session => { f.request with session })

/-- The request with its session failed. -/
def fail (f : FastRequest) : FastRequest :=
  { f with request := { f.request with session := { f.request.session with phase := .failed } } }

/-- The `except` clause of `step`, before it raises again. -/
def recover (f : FastRequest) (requestId : String) (ticket : BlockTicket) (env : PublishEnv) : Call FastRequest Unit :=
  if f.request.session.phase = .pending then
    if f.request.parties.engine.phase = .verified then (f.abort requestId ticket env).onto fail
    else f.failVerification requestId ticket
  else .ret f ()

/-- The timing of a committed block, under its flag: it unpacks the preparation's. -/
def record (f : FastRequest) : Call FastRequest Unit :=
  if f.collectTimings then
    .attempt (raiseIf (f.prepared = false) .typeError) f fun _ => .ret { f with prepared := false } ()
  else .ret f ()

/-- The `try` of `step`. -/
def transact (f : FastRequest) (requestId : String) (ticket : BlockTicket) (answers : StepAnswers) :
    Call FastRequest Serving.CommittedOutput :=
  (f.verify ticket answers.captured answers.predicted).bind fun f predictions =>
  .attempt answers.second f fun cancelled =>
  if cancelled then
    (f.abort requestId ticket answers.abort).bind fun f _ =>
    .ret { f with cancelled := true } ⟨requestId, [], f.request.session.position, true, true⟩
  else
    (f.commit requestId ticket predictions answers.commit).bind fun f decision =>
    f.record.bind fun f _ =>
    .ret f ⟨requestId, decision.emitted, f.request.session.position, f.request.session.finished, false⟩

/-- The `try` with its `except` clause. -/
def transaction (f : FastRequest) (requestId : String) (ticket : BlockTicket) (answers : StepAnswers) :
    Call FastRequest Serving.CommittedOutput :=
  match (f.transact requestId ticket answers).result with
  | .ok _ => f.transact requestId ticket answers
  | .error e =>
    ((f.transact requestId ticket answers).obj.recover requestId ticket answers.recover).bind fun f _ => .throw f e

/-- `if self.session.pending is not None: self.session.fail_verification(…)`. -/
def dropPending (f : FastRequest) (requestId : String) : Call FastRequest Unit :=
  match f.request.session.pending with
  | some ticket => f.failVerification requestId ticket
  | none => .ret f ()

/-- `self.session.pending or self.prepare(request_id)`. -/
def livingTicket (f : FastRequest) (requestId : String) (answers : PrepareAnswers) : Call FastRequest BlockTicket :=
  match f.request.session.pending with
  | some ticket => .ret f ticket
  | none => f.prepare requestId answers

/-- The owner check of `step`. -/
def stepGuard (f : FastRequest) (requestId : String) (callable : Bool) : Except PyError Unit :=
  raiseIf (f.closed = true ∨ f.busy = true ∨ f.cancelled = true ∨ requestId ≠ f.request.session.requestId ∨
      f.request.session.phase ∉ [Phase.idle, Phase.pending] ∨ callable = false)
    (.valueError "One live owner and a cancellation callback required")

/-- `step`. -/
def step (f : FastRequest) (requestId : String) (answers : StepAnswers) : Call FastRequest Serving.CommittedOutput :=
  .attempt (f.stepGuard requestId answers.callable) f fun _ =>
  .attempt answers.first f fun cancelled =>
  if cancelled then
    (f.dropPending requestId).bind fun f _ =>
    .ret { f with cancelled := true } ⟨requestId, [], f.request.session.position, true, true⟩
  else if f.request.session.finished then .ret f ⟨requestId, [], f.request.session.position, true, false⟩
  else
    (f.livingTicket requestId answers.prepare).bind fun f ticket =>
    f.whileBusy fun f => f.transaction requestId ticket answers

/-- `close`; `release` is `engine.close` or `release_engine`, `dropped` what `release_drafter` answers. -/
def close (f : FastRequest) (requestId : String) (release : VerifierEngine → Call VerifierEngine Unit)
    (dropped : Except PyError Unit) : Call FastRequest Unit :=
  .attempt (raiseIf (requestId ≠ f.request.session.requestId ∨ f.busy = true)
    (.valueError "Only the idle owner can release request resources")) f fun _ =>
  if f.closed then .ret f ()
  else
    (if f.request.session.phase = .pending ∧ f.request.parties.engine.phase = .idle then f.dropPending requestId
      else .ret f ()).bind fun f _ =>
    (f.on ((release f.request.parties.engine).onto fun engine =>
      { f.request with parties := { f.request.parties with engine } })).bind fun f _ =>
    .attempt dropped f fun _ =>
    (f.on ((f.request.session.close requestId).onto fun session => { f.request with session })).bind fun f _ =>
    .ret { f with closed := true } ()

/-- A call on a request: its driver's own, or another owner's on the parts; `timing` is then what a round that commits
leaves of the timing. -/
inductive Op
  | prepare (requestId : String) (answers : PrepareAnswers)
  | step (requestId : String) (answers : StepAnswers)
  | close (requestId : String) (release : VerifierEngine → Call VerifierEngine Unit) (dropped : Except PyError Unit)
  | other (op : Dflash.Op) (timing : Bool)

/-- Only the driver prepares tickets. -/
def Op.Allowed : Op → Prop
  | .other (.propose ..) _ => False
  | _ => True

/-- Perform a call. -/
def apply (f : FastRequest) : Op → FastRequest
  | .prepare requestId answers => (f.prepare requestId answers).obj
  | .step requestId answers => (f.step requestId answers).obj
  | .close requestId release dropped => (f.close requestId release dropped).obj
  | .other op timing =>
    let request := (f.request.apply op).obj
    { f with request, prepared := if request.session.phase = .pending then f.prepared else timing }

/-- One call. -/
def Step (f : FastRequest) (op : Op) (f' : FastRequest) : Prop := op.Allowed ∧ f' = f.apply op

end FastRequest

/-! ## The session's books -/

/-- A session between calls: it is pending exactly while it has a ticket, which no finished one has, and its ticket and
its text are within the budget. -/
structure Books (s : GreedySession) : Prop where
  resting : s.phase ∈ [Phase.idle, .pending, .failed, .closed]
  idle : s.phase = .idle → s.pending = none
  pending : s.phase = .pending → ∃ t, s.pending = some t ∧ t.rows ≤ s.maxNewTokens - s.emitted.length
  budget : s.finished = false → s.emitted.length < s.maxNewTokens
  unfinished : s.phase = .pending → s.finished = false

/-- What a call can do to a session, other than to issue a ticket. -/
inductive Changed (s : GreedySession) : GreedySession → Prop
  | same : Changed s s
  | failed (n : Nat) (t : Option BlockTicket) : s.phase ≠ .closed →
      Changed s { s with abortedBlocks := n, pending := t, phase := .failed }
  | narrowed {t ticket : BlockTicket} : s.phase = .pending → s.pending = some ticket → t.rows ≤ ticket.rows →
      Changed s (s.issued t)
  | decided {ticket : BlockTicket} {d : Decision} {n : Nat} {predictions : List Token} (drafter : HybridDraft) :
      s.phase = .pending → s.pending = some ticket →
      Selected (ticket.proposals.take n) predictions s.vocabSize s.eosIds d → Changed s (s.decided ticket d drafter)
  | dropped (n : Nat) : s.phase = .pending → Changed s { s with abortedBlocks := n, pending := none, phase := .idle }
  | closed (drafter : HybridDraft) :
      Changed s { s with drafter := drafter, emitted := [], seed := none, pending := none, phase := .closed }

variable {s s' : GreedySession}

/-- **The books are kept.** -/
theorem Changed.books (hc : Changed s s') (h : Books s) : Books s' := by
  cases hc with
  | same => exact h
  | failed n t => exact ⟨by simp, fun hp => (by cases hp), fun hp => (by cases hp), h.budget, fun hp => (by cases hp)⟩
  | narrowed hpending hticket hrows =>
    obtain ⟨t', ht', hle⟩ := h.pending hpending
    rw [hticket] at ht'
    cases ht'
    refine ⟨by simp [GreedySession.issued], fun hp => ?_, fun _ => ⟨_, rfl, hrows.trans hle⟩, h.budget,
      fun _ => h.unfinished hpending⟩
    cases hp
  | @decided ticket d n predictions drafter hpending hticket hsel =>
    obtain ⟨t', ht', hle⟩ := h.pending hpending
    rw [hticket] at ht'
    cases ht'
    have hemitted := hsel.emitted_le
    have htake : (ticket.proposals.take n).length ≤ ticket.proposals.length := List.length_take_le' _ _
    rw [BlockTicket.rows_eq] at hle
    refine ⟨by simp [GreedySession.decided], fun _ => rfl, fun hp => (by cases hp), fun hf => ?_,
      fun hp => (by cases hp)⟩
    have hne : (d.finished || (s.emitted ++ d.emitted).length == s.maxNewTokens) = false := hf
    rw [Bool.or_eq_false_iff, beq_eq_false_iff_ne, List.length_append] at hne
    show (s.emitted ++ d.emitted).length < s.maxNewTokens
    rw [List.length_append]
    omega
  | dropped n => exact ⟨by simp, fun _ => rfl, fun hp => (by cases hp), h.budget, fun hp => (by cases hp)⟩
  | closed drafter =>
    refine ⟨by simp, fun _ => rfl, fun hp => (by cases hp), fun hf => ?_, fun hp => (by cases hp)⟩
    have hlt := h.budget hf
    show 0 < s.maxNewTokens
    omega

/-- The session failed, with its text and its frontier as they were. -/
def Fails (s s' : GreedySession) : Prop :=
  ∃ n t, s' = { s with abortedBlocks := n, pending := t, phase := .failed }

/-- One thing that happens to a session: a change, or a ticket. -/
inductive Moves (s : GreedySession) : GreedySession → Prop
  | changed {s' : GreedySession} : Changed s s' → Moves s s'
  | issued {t : BlockTicket} : s.phase = .idle → s.finished = false → s.Fits t → Moves s (s.issued t)

/-- A session that failed or closed stays so. -/
theorem Changed.dead (hc : Changed s s') (h : s.phase = .failed ∨ s.phase = .closed) :
    s'.phase = .failed ∨ s'.phase = .closed := by
  cases hc with
  | same => exact h
  | failed => exact Or.inl rfl
  | narrowed hpending => rw [hpending] at h; rcases h with h | h <;> cases h
  | decided _ hpending => rw [hpending] at h; rcases h with h | h <;> cases h
  | dropped _ hpending => rw [hpending] at h; rcases h with h | h <;> cases h
  | closed => exact Or.inr rfl

/-- A session that is pending afterwards was pending. -/
theorem Changed.pending (hc : Changed s s') (h : s'.phase = .pending) : s.phase = .pending := by
  cases hc with
  | same => exact h
  | failed => cases h
  | narrowed hpending => exact hpending
  | decided _ hpending => exact hpending
  | dropped _ hpending => exact hpending
  | closed => cases h

/-- A ticket is issued within the books. -/
theorem Books.issued (h : Books s) {t : BlockTicket} (hfin : s.finished = false) (hfit : s.Fits t) :
    Books (s.issued t) := by
  refine ⟨by simp [GreedySession.issued], fun hp => ?_, fun _ => ⟨t, rfl, hfit.budget⟩, h.budget, fun _ => hfin⟩
  cases hp

/-- A bucket within a positive number of rows exists. -/
theorem maxWidth_pos {n : Nat} (h : 1 ≤ n) : ∃ w, maxWidth n = .ok w := by
  have hmem : 1 ∈ buckets.filter (· ≤ n) := List.mem_filter.mpr ⟨by decide, by simpa using h⟩
  unfold maxWidth
  cases hmax : (buckets.filter (· ≤ n)).max? with
  | none => rw [List.max?_eq_none_iff] at hmax; rw [hmax] at hmem; cases hmem
  | some width => exact ⟨width, rfl⟩

/-- Within its books a session that does not propose is as it was, or failed. -/
theorem Books.propose (h : Books s) (requestId : String) (maxRows : Nat) (selected : Option String)
    (adapters : Adapters) (ident : Nat) :
    (∃ e, s.propose requestId maxRows selected adapters ident = .throw s e ∨
      s.phase = .idle ∧ s.propose requestId maxRows selected adapters ident = .throw { s with phase := .failed } e) ∨
    ∃ t, s.propose requestId maxRows selected adapters ident = .ret (s.issued t) t ∧ s.phase = .idle ∧
      s.finished = false ∧ s.Fits t := by
  rcases s.propose_cases requestId maxRows selected adapters ident with
    ⟨e, phase, hc, hphase⟩ | ⟨t, hc, hidle, hfin, -, hfit⟩
  · rcases hphase with rfl | ⟨hidle, rfl | rfl⟩
    · exact Or.inl ⟨e, Or.inl hc⟩
    · exact Or.inl ⟨e, Or.inr ⟨hidle, hc⟩⟩
    · -- the bucket of the rows exists, so the session is not left drafting
      exfalso
      unfold GreedySession.propose at hc
      rcases Call.attempt_cases (s.proposeGuard requestId maxRows) s _ with ⟨e', -, h'⟩ | ⟨⟨⟩, hg, h'⟩ <;>
        rw [h'] at hc
      · have hobj := congrArg Call.obj hc
        have hdrafting : s.phase = .drafting := congrArg GreedySession.phase hobj
        rw [hidle] at hdrafting
        cases hdrafting
      · obtain ⟨⟨⟩, -, hg⟩ := bind_ok hg
        obtain ⟨⟨⟩, hunfinished, hg⟩ := bind_ok hg
        simp only [raiseIf_ok, not_or, ne_eq, not_not, Bool.not_eq_true] at hunfinished hg
        have hrows := bucket_pos hg.1
        have hbudget := h.budget hunfinished.2
        rcases Call.attempt_cases
          (if 1 < s.proposeLimit maxRows then
            (s.drafter.propose requestId (s.proposeLimit maxRows - 1) true true selected adapters).map some
          else .ok none) { s with phase := .failed } _ with ⟨e', -, h'⟩ | ⟨proposal, -, h'⟩ <;> rw [h'] at hc
        · have hfailed : Phase.failed = .drafting := congrArg GreedySession.phase (congrArg Call.obj hc)
          cases hfailed
        · obtain ⟨w, hw⟩ := maxWidth_pos
            (show 1 ≤ min (s.proposeLimit maxRows) ((proposal.elim [] Proposal.tokens).length + 1) by
              unfold proposeLimit; omega)
          simp only [hw, Call.attempt_ok] at hc
          have hpending : Phase.pending = .drafting := congrArg GreedySession.phase (congrArg Call.obj hc)
          cases hpending
  · exact Or.inr ⟨t, hc, hidle, hfin, hfit⟩

/-- The session's calls change it so. -/
theorem commit_changed (s : GreedySession) (requestId : String) (ticket : BlockTicket) (predictions : List Token)
    (publish : Callback) (maxRows : Option Nat) :
      Changed s (s.commit requestId ticket predictions publish maxRows).obj := by
  rcases s.commit_cases requestId ticket predictions publish maxRows with
    ⟨e, phase, hc, rfl | ⟨hp, rfl⟩⟩ | ⟨d, drafter, n, hc, hp, ht, hsel, -⟩ <;> rw [hc]
  · exact .same
  · exact .failed s.abortedBlocks s.pending (by simp [hp])
  · exact .decided drafter hp ht hsel

theorem abort_changed (s : GreedySession) (requestId : String) (ticket : BlockTicket) (restore : Callback) :
    Changed s (s.abort requestId ticket restore).obj := by
  rcases s.abort_cases requestId ticket restore with ⟨e, phase, hc, rfl | ⟨hp, rfl⟩⟩ | ⟨hc, hp⟩ <;> rw [hc]
  · exact .same
  · exact .failed s.abortedBlocks s.pending (by simp [hp])
  · exact .dropped (s.abortedBlocks + 1) hp

theorem failVerification_changed (s : GreedySession) (requestId : String) (ticket : BlockTicket) :
    Changed s (s.failVerification requestId ticket).obj := by
  rcases s.failVerification_cases requestId ticket with ⟨e, hc⟩ | ⟨hc, hp⟩ <;> rw [hc]
  · exact .same
  · exact .failed s.abortedBlocks s.pending (by simp [hp])

theorem narrow_changed (s : GreedySession) (requestId : String) (ticket : BlockTicket) (rows ident : Nat) :
    Changed s (s.narrow requestId ticket rows ident).obj := by
  rcases s.narrow_cases requestId ticket rows ident with
    ⟨e, hc⟩ | ⟨t, hc, hp, ht, -, -, -, -, hrows, -, hle⟩ <;> rw [hc]
  · exact .same
  · exact .narrowed hp ht (hrows ▸ hle)

theorem close_changed (s : GreedySession) (requestId : String) : Changed s (s.close requestId).obj := by
  unfold GreedySession.close
  exact Call.attempt_obj (P := fun s' => Changed s s') .same fun drafter _ => .closed drafter

/-! ## Calls on the parts -/

/-- Another owner's call does one thing to the session. -/
theorem Request.apply_changed (r : Request) {op : Op} {timing : Bool} (h : (FastRequest.Op.other op timing).Allowed) :
    Changed r.session (r.apply op).obj.session := by
  cases op with
  | propose => cases h
  | narrow requestId ticket rows ident => exact narrow_changed r.session requestId ticket rows ident
  | discardProposal => exact .same
  | discardTicket kept =>
    show Changed r.session (r.discardTicket kept).obj.session
    unfold Request.discardTicket
    split
    · exact .same
    · rename_i ticket _
      split_ifs with hkept
      · exact .same
      · rw [not_or, not_not] at hkept
        refine Call.bind_obj (P := fun r' : Request => Changed r.session r'.session) .same fun _ _ => ?_
        exact .dropped r.session.abortedBlocks hkept.1
  | verify ticket captured predicted =>
    refine Call.attempt_obj (P := fun r' : Request => Changed r.session r'.session) .same fun _ _ => ?_
    cases predicted with
    | ok _ => exact .same
    | error e =>
      exact Call.bind_obj (P := fun r' : Request => Changed r.session r'.session)
        (failVerification_changed r.session _ ticket) fun _ _ => failVerification_changed r.session _ ticket
  | adoptPacked ticket held =>
    exact Call.attempt_obj (P := fun r' : Request => Changed r.session r'.session) .same fun _ _ => .same
  | commit requestId ticket predictions maxRows env =>
    exact Call.attempt_obj (P := fun r' : Request => Changed r.session r'.session) .same fun accepted _ =>
      commit_changed r.session requestId ticket predictions _ maxRows
  | abort requestId ticket env =>
    exact Call.attempt_obj (P := fun r' : Request => Changed r.session r'.session) .same fun _ _ =>
      abort_changed r.session requestId ticket _
  | failVerification requestId ticket => exact failVerification_changed r.session requestId ticket
  | failRound requestId ticket env =>
    show Changed r.session (r.failRound requestId ticket env).obj.session
    unfold Request.failRound
    split_ifs with hlive hverified
    · exact .same
    · rw [not_or, not_not, not_not] at hlive
      have hopen : r.session.phase ≠ .closed := by rw [hlive.1]; decide
      refine Call.attempt_obj (P := fun r' : Request => Changed r.session { r'.session with phase := .failed })
        (.failed r.session.abortedBlocks r.session.pending hopen) fun _ _ => ?_
      show Changed r.session { (r.session.abort requestId ticket _).obj with phase := .failed }
      rcases r.session.abort_cases requestId ticket
        (callback (r.parties.publish r.committing 0 env)) with ⟨e, phase, hc, -⟩ | ⟨hc, -⟩ <;> rw [hc]
      · exact .failed r.session.abortedBlocks r.session.pending hopen
      · exact .failed (r.session.abortedBlocks + 1) none hopen
    · exact failVerification_changed r.session requestId ticket
  | publish accepted env => exact .same
  | publishTarget accepted committed => exact .same
  | closeSession requestId => exact close_changed r.session requestId
  | closeEngine released => exact .same
  | closeDrafter fenced kvReleased released => exact .same

/-! ## The parts of a step -/

namespace FastRequest

variable {f : FastRequest} {requestId : String} {ticket : BlockTicket}

/-- However the body ends, the request is not busy afterwards. -/
theorem whileBusy_eq {α : Type} (f : FastRequest) (body : FastRequest → Call FastRequest α) :
    f.whileBusy body = ⟨{ (body { f with busy := true }).obj with busy := false },
      (body { f with busy := true }).result⟩ := rfl

/-- The request holds a live ticket. -/
structure Live (f : FastRequest) (requestId : String) (ticket : BlockTicket) : Prop where
  owner : requestId = f.request.session.requestId
  phase : f.request.session.phase = .pending
  ticket : f.request.session.pending = some ticket

/-- A live ticket passes the session's checks. -/
theorem Live.checkTicket (h : f.Live requestId ticket) : f.request.session.checkTicket requestId ticket = .ok () := by
  unfold GreedySession.checkTicket checkOwner
  rw [raiseIf_bind (by simp [h.owner, h.phase])]
  exact raiseIf_ok.mpr (by simp [h.phase, h.ticket])

/-- The session is as it was, or failed over its ticket. -/
def Unmoved (s s' : GreedySession) : Prop := s' = s ∨ s' = { s with phase := .failed }

/-- The engine's verification leaves the session unmoved, and as it was where it returns. -/
theorem request_verify_cases (r : Request) (ticket : BlockTicket) (captured : Bool) (predicted : Except PyError Unit) :
    (∃ request, request.session = r.session ∧ predicted = .ok () ∧
      r.verify ticket captured predicted = .ret request ()) ∨
    ∃ request e, Unmoved r.session request.session ∧ r.verify ticket captured predicted = .throw request e := by
  unfold Request.verify
  generalize (r.session.checkTicket r.session.requestId ticket >>= fun _ =>
    r.parties.engine.verifyCheck ticket captured) = check
  cases check with
  | error e => exact Or.inr ⟨r, e, Or.inl rfl, rfl⟩
  | ok _ =>
    rw [Call.attempt_ok]
    cases predicted with
    | ok _ => exact Or.inl ⟨{ r with parties := { r.parties with engine := r.parties.engine.verified ticket } }, rfl,
        rfl, rfl⟩
    | error e =>
      rcases r.session.failVerification_cases r.session.requestId ticket with ⟨e', hc⟩ | ⟨hc, -⟩
      · refine Or.inr ⟨_, e', Or.inl ?_, by rw [hc]; rfl⟩
        rfl
      · refine Or.inr ⟨_, e, Or.inr ?_, by rw [hc]; rfl⟩
        rfl

/-- So does the driver's. -/
theorem verify_cases (f : FastRequest) (ticket : BlockTicket) (captured : Bool)
    (predicted : Except PyError (List Token)) :
    (∃ request p, request.session = f.request.session ∧
      f.verify ticket captured predicted = .ret { f with request } p) ∨
    ∃ request e, Unmoved f.request.session request.session ∧
      f.verify ticket captured predicted = .throw { f with request } e := by
  unfold verify on
  rcases request_verify_cases f.request ticket captured (predicted.map fun _ => ()) with
    ⟨request, hsession, hpredicted, hv⟩ | ⟨request, e, hunmoved, hv⟩ <;> rw [hv]
  · cases predicted with
    | error e => cases hpredicted
    | ok p => exact Or.inl ⟨request, p, hsession, rfl⟩
  · exact Or.inr ⟨request, e, hunmoved, rfl⟩

/-- An abort publishes the prefix 0 at most: it leaves the session unmoved, or drops the ticket. -/
theorem abort_cases (f : FastRequest) (requestId : String) (ticket : BlockTicket) (env : PublishEnv) :
    (∃ request published e, Unmoved f.request.session request.session ∧
      f.abort requestId ticket env = .throw { f with request, published } e) ∨
    ∃ request, request.session = { f.request.session with
        abortedBlocks := f.request.session.abortedBlocks + 1, pending := none, phase := .idle } ∧
      f.abort requestId ticket env = .ret { f with request, published := f.published ++ [0] } () := by
  unfold abort Request.abort on
  cases hguard : f.request.session.abortGuard requestId ticket .returnsNone with
  | error e => exact Or.inl ⟨f.request, f.published, e, Or.inl rfl, rfl⟩
  | ok _ =>
    simp only [Call.attempt_ok]
    rcases f.request.session.abort_cases requestId ticket
      (Request.callback (f.request.parties.publish f.request.committing 0 env)) with ⟨e, phase, hc, hphase⟩ | ⟨hc,
        -⟩ <;> rw [hc]
    · refine Or.inl ⟨_, _, e, ?_, rfl⟩
      rcases hphase with rfl | ⟨-, rfl⟩
      · exact Or.inl rfl
      · exact Or.inr rfl
    · exact Or.inr ⟨_, rfl, rfl⟩

/-- A commit leaves the session unmoved, or emits what it decides. -/
theorem commit_cases (f : FastRequest) (requestId : String) (ticket : BlockTicket) (predictions : List Token)
    (env : PublishEnv) :
    (∃ request published e, Unmoved f.request.session request.session ∧
      f.commit requestId ticket predictions env = .throw { f with request, published } e) ∨
    ∃ request published, ∃ d : Decision, Changed f.request.session request.session ∧ request.session.phase = .idle ∧
      request.session.emitted = f.request.session.emitted ++ d.emitted ∧
      f.commit requestId ticket predictions env = .ret { f with request, published } d := by
  unfold commit Request.commit on
  cases hdecision : f.request.session.commitDecision requestId ticket predictions .returnsNone none with
  | error e => exact Or.inl ⟨f.request, f.published, e, Or.inl rfl, rfl⟩
  | ok decision =>
    have hdecided : f.request.decided requestId ticket predictions none = .ok decision.stateRows := by
      unfold Request.decided
      rw [hdecision]
      rfl
    simp only [Call.attempt_ok, hdecided]
    rcases f.request.session.commit_cases requestId ticket predictions
      (Request.callback (f.request.parties.publish f.request.committing decision.stateRows env)) none with
      ⟨e, phase, hc, hphase⟩ | ⟨d, drafter, n, hc, hpending, hticket, hsel, -⟩
    · rw [hc]
      refine Or.inl ⟨_, _, e, ?_, rfl⟩
      rcases hphase with rfl | ⟨-, rfl⟩
      · exact Or.inl rfl
      · exact Or.inr rfl
    · have hsame : d = decision := by
        have hresult := congrArg Call.result hc
        unfold GreedySession.commit at hresult
        rw [Request.commitDecision_callable (Request.callback_callable _), hdecision, Call.attempt_ok] at hresult
        obtain ⟨_, -, hret⟩ := Call.of_attempt hresult
        rw [hret] at hresult
        exact (Except.ok.inj hresult).symm
      subst hsame
      rw [hc]
      refine Or.inr ⟨_, _, d, ?_, ?_, ?_, rfl⟩
      · exact .decided drafter hpending hticket hsel
      · rfl
      · rfl

/-- The timing of a block that was prepared. -/
theorem record_ret (h : f.collectTimings = true → f.prepared = true) :
    ∃ prepared, f.record = .ret { f with prepared } () := by
  unfold record
  by_cases hc : f.collectTimings = true
  · rw [if_pos hc, (raiseIf_ok (u := ())).mpr (by simp [h hc])]
    exact ⟨false, rfl⟩
  · rw [if_neg hc]
    exact ⟨f.prepared, rfl⟩

/-- **The `try` of a step** over a live ticket, three ways out: it raises with the session unmoved, it dropped the
ticket for a cancellation, or it decided the ticket. -/
theorem transact_cases (htiming : f.collectTimings = true → f.prepared = true) (requestId : String)
    (ticket : BlockTicket) (answers : StepAnswers) :
    (∃ request published e, Unmoved f.request.session request.session ∧
      f.transact requestId ticket answers = .throw { f with request, published } e) ∨
    (∃ request, request.session = { f.request.session with
        abortedBlocks := f.request.session.abortedBlocks + 1, pending := none, phase := .idle } ∧
      f.transact requestId ticket answers =
        .ret { f with request, published := f.published ++ [0], cancelled := true }
          ⟨requestId, [], request.session.position, true, true⟩) ∨
    ∃ request published prepared, ∃ d :
      Decision, Changed f.request.session request.session ∧ request.session.phase = .idle ∧
      request.session.emitted = f.request.session.emitted ++ d.emitted ∧
      f.transact requestId ticket answers = .ret { f with request, published, prepared }
        ⟨requestId, d.emitted, request.session.position, request.session.finished, false⟩ := by
  unfold transact
  rcases f.verify_cases ticket answers.captured answers.predicted with
    ⟨request, predictions, hsession, hv⟩ | ⟨request, e, hunmoved, hv⟩ <;> rw [hv]
  · rw [Call.bind_ret]
    cases answers.second with
    | error e => exact Or.inl ⟨request, f.published, e, Or.inl hsession, rfl⟩
    | ok cancelled =>
      rw [Call.attempt_ok]
      cases cancelled with
      | true =>
        rw [if_pos rfl]
        rcases ({ f with request } : FastRequest).abort_cases requestId ticket answers.abort with
          ⟨request', published, e, hunmoved, ha⟩ | ⟨request', hdropped, ha⟩ <;> rw [ha]
        · exact Or.inl ⟨request', published, e, hsession ▸ hunmoved, rfl⟩
        · exact Or.inr (Or.inl ⟨request', by rw [hdropped, hsession], rfl⟩)
      | false =>
        rw [if_neg Bool.false_ne_true]
        rcases ({ f with request } : FastRequest).commit_cases requestId ticket predictions answers.commit with
          ⟨request', published, e, hunmoved, hc⟩ | ⟨request', published, d, hchanged, hidle, hemitted, hc⟩ <;> rw [hc]
        · exact Or.inl ⟨request', published, e, hsession ▸ hunmoved, rfl⟩
        · obtain ⟨prepared, hr⟩ := record_ret
            (f := { f with request := request', published := published }) htiming
          rw [Call.bind_ret, hr]
          exact Or.inr (Or.inr
            ⟨request', published, prepared, d, hsession ▸ hchanged, hidle, hsession ▸ hemitted, rfl⟩)
  · exact Or.inl ⟨request, f.published, e, hunmoved, rfl⟩

/-- **The `except` clause** fails the session of a live ticket, with its text and frontier as they were. -/
theorem recover_fails {s : GreedySession} (hlive : f.Live requestId ticket) {f' : FastRequest}
    (hs : f.request.session = s) (hunmoved : Unmoved s f'.request.session) (env : PublishEnv) :
    ∃ request published result, f'.recover requestId ticket env = ⟨{ f' with request, published }, result⟩ ∧
      Fails s request.session := by
  unfold recover
  subst hs
  rcases hunmoved with hsame | hfailed
  · rw [if_pos (by rw [hsame]; exact hlive.phase)]
    split_ifs with hverified
    · rcases f'.abort_cases requestId ticket env with
        ⟨request, published, e, hunmoved, ha⟩ | ⟨request, hdropped, ha⟩ <;> rw [ha]
      · refine ⟨{ request with session := { request.session with phase := .failed } }, _, _, rfl, ?_⟩
        rcases hunmoved with h | h <;> exact ⟨_, _, by rw [h, hsame]⟩
      · refine ⟨{ request with session := { request.session with phase := .failed } }, _, _, rfl, ?_⟩
        exact ⟨_, _, by rw [hdropped, hsame]⟩
    · have hfail : f'.request.session.failVerification requestId ticket =
          .ret { f'.request.session with phase := .failed } () := by
        unfold GreedySession.failVerification
        rw [hsame, hlive.checkTicket]
        rfl
      unfold failVerification on
      rw [hfail]
      exact ⟨{ f'.request with session := { f'.request.session with phase := .failed } }, f'.published, _, rfl, _, _,
        by rw [hsame]⟩
  · rw [if_neg (by simp [hfailed])]
    exact ⟨f'.request, f'.published, _, rfl, _, _, hfailed⟩

/-- **The transaction of a step**: as its `try`, but where it raises the session has failed with its text as it was. -/
theorem transaction_cases (hlive : f.Live requestId ticket) (htiming : f.collectTimings = true → f.prepared = true)
    (answers : StepAnswers) :
    (∃ request published e, Fails f.request.session request.session ∧
      f.transaction requestId ticket answers = .throw { f with request, published } e) ∨
    (∃ request, request.session = { f.request.session with
        abortedBlocks := f.request.session.abortedBlocks + 1, pending := none, phase := .idle } ∧
      f.transaction requestId ticket answers =
        .ret { f with request, published := f.published ++ [0], cancelled := true }
          ⟨requestId, [], request.session.position, true, true⟩) ∨
    ∃ request published prepared, ∃ d :
      Decision, Changed f.request.session request.session ∧ request.session.phase = .idle ∧
      request.session.emitted = f.request.session.emitted ++ d.emitted ∧
      f.transaction requestId ticket answers = .ret { f with request, published, prepared }
        ⟨requestId, d.emitted, request.session.position, request.session.finished, false⟩ := by
  unfold transaction
  rcases transact_cases htiming requestId ticket answers with
    ⟨request, published, e, hunmoved, ht⟩ | ⟨request, hdropped, ht⟩ |
      ⟨request, published, prepared, d, hchanged, hidle, hemitted, ht⟩
  · have hunmoved' : Unmoved f.request.session ({ f with request, published } : FastRequest).request.session := hunmoved
    obtain ⟨request', published', result, hr, hfails⟩ := recover_fails hlive rfl hunmoved' answers.recover
    rw [ht]
    simp only [Call.throw_result, Call.throw_obj, hr]
    cases result with
    | error e' => exact Or.inl ⟨request', published', e', hfails, rfl⟩
    | ok _ => exact Or.inl ⟨request', published', e, hfails, rfl⟩
  · rw [ht]
    exact Or.inr (Or.inl ⟨request, hdropped, rfl⟩)
  · rw [ht]
    exact Or.inr (Or.inr ⟨request, published, prepared, d, hchanged, hidle, hemitted, rfl⟩)

/-- A request between calls. -/
structure Resting (f : FastRequest) : Prop where
  books : Books f.request.session
  idle : f.busy = false
  timed : f.collectTimings = true → f.request.session.phase = .pending → f.prepared = true

/-- **A preparation** leaves the session as it was or failed, or issues a ticket. -/
theorem prepare_cases (h : f.Resting) (requestId : String) (answers : PrepareAnswers) :
    (∃ request e, (request.session = f.request.session ∨
        f.request.session.phase = .idle ∧ request.session = { f.request.session with phase := .failed }) ∧
      f.prepare requestId answers = .throw { f with request } e) ∨
    ∃ request prepared t, request.session = f.request.session.issued t ∧ f.request.session.phase = .idle ∧
      f.request.session.finished = false ∧ f.request.session.Fits t ∧ requestId = f.request.session.requestId ∧
        (f.collectTimings = true → prepared = true) ∧
      f.prepare requestId answers = .ret { f with request, prepared } t := by
  unfold prepare
  rcases Call.attempt_cases (f.prepareGuard requestId) f _ with ⟨e, -, hc⟩ | ⟨_, hguard, hc⟩ <;> rw [hc]
  · exact Or.inl ⟨f.request, e, Or.inl rfl, rfl⟩
  · simp only [prepareGuard, raiseIf_ok, not_or, ne_eq, not_not] at hguard
    rw [whileBusy_eq]
    rcases Call.attempt_cases (do
        let rows ← answers.proposalRows
        raiseIf (rows ∉ [1, 2, 4, 8, 16]) (.valueError "Qualified T16 verifier bucket required")
        return rows) ({ f with busy := true } : FastRequest) _ with ⟨e, -, hc⟩ | ⟨rows, -, hc⟩ <;> rw [hc]
    · exact Or.inl ⟨f.request, e, Or.inl rfl, by simp only [h.idle]; rfl⟩
    · unfold Request.propose on
      rcases h.books.propose requestId rows (some f.drafterName) (f.request.adapters answers.others answers.tokens)
        answers.ident with ⟨e, hp | ⟨hidle, hp⟩⟩ | ⟨t, hp, hidle, hfin, hfit⟩ <;> rw [hp]
      · refine Or.inl ⟨_, e, ?_, by simp only [h.idle]; rfl⟩
        exact Or.inl rfl
      · refine Or.inl ⟨_, e, ?_, by simp only [h.idle]; rfl⟩
        exact Or.inr ⟨hidle, rfl⟩
      · refine Or.inr ⟨_, f.prepared || f.collectTimings, t, ?_, hidle, hfin, hfit, hguard.2.2.2.1, fun hc => ?_,
          by simp only [h.idle]; rfl⟩
        · rfl
        · rw [hc, Bool.or_true]

/-- What becomes of the session over any number of calls. -/
abbrev Moved : GreedySession → GreedySession → Prop := Relation.ReflTransGen Moves

/-- **How a step ends** past its first poll: with nothing drafted, with the session failed, for a cancellation, with
nothing left to do, or with a block committed. -/
inductive Exit (f : FastRequest) (requestId : String) : Call FastRequest Serving.CommittedOutput → Prop
  | undrafted (request : Request) (e : PyError) : f.request.session.phase = .idle →
      request.session = f.request.session → Exit f requestId (.throw { f with request } e)
  | failed (request : Request) (prepared : Bool) (published : List Nat) (e : PyError) :
      Moved f.request.session request.session → request.session.phase = .failed →
      request.session.emitted = f.request.session.emitted →
      Exit f requestId (.throw { f with request, prepared, published } e)
  | cancelled (request : Request) (prepared : Bool) (n : Nat) :
      Moved f.request.session request.session → request.session.phase ≠ .pending →
      request.session.emitted = f.request.session.emitted →
      Exit f requestId (.ret
        { f with request, prepared, published := f.published ++ List.replicate n 0, cancelled := true }
        ⟨requestId, [], request.session.position, true, true⟩)
  | finished : Exit f requestId (.ret f ⟨requestId, [], f.request.session.position, true, false⟩)
  | committed (request : Request) (prepared : Bool) (published : List Nat) (tokens : List Token) :
      Moved f.request.session request.session → request.session.phase ≠ .pending →
      request.session.emitted = f.request.session.emitted ++ tokens →
      Exit f requestId (.ret { f with request, prepared, published }
        ⟨requestId, tokens, request.session.position, request.session.finished, false⟩)

/-- A failed session has moved. -/
theorem Fails.moved {s s' : GreedySession} (h : Fails s s') (hopen : s.phase ≠ .closed) : Moved s s' := by
  obtain ⟨n, t, rfl⟩ := h
  exact .single (.changed (.failed n t hopen))

/-- The transaction of a step behind the busy flag, on a ticket the request had or was just given. -/
theorem transaction_exit (hidle : f.busy = false) {request : Request} {prepared : Bool}
    (hlive : ({ f with request, prepared } : FastRequest).Live requestId ticket)
    (htiming : f.collectTimings = true → prepared = true) (hmoved : Moved f.request.session request.session)
    (hemitted : request.session.emitted = f.request.session.emitted) (answers : StepAnswers) :
    Exit f requestId
      (({ f with request, prepared } : FastRequest).whileBusy fun f => f.transaction requestId ticket answers) := by
  have hpending : request.session.phase = .pending := hlive.phase
  have hbusy : ({ f with request, prepared, busy := true } : FastRequest).Live requestId ticket :=
    ⟨hlive.owner, hlive.phase, hlive.ticket⟩
  rw [whileBusy_eq]
  rcases transaction_cases hbusy htiming answers with
    ⟨request', published, e, hfails, ht⟩ | ⟨request', hdropped, ht⟩ |
      ⟨request', published, prepared', d, hchanged, hphase, htokens, ht⟩ <;> rw [ht]
  · have hmoved' := hmoved.trans (Fails.moved hfails (by simp [hpending]))
    obtain ⟨n, t, hsession⟩ := hfails
    cases f
    cases hidle
    exact .failed request' prepared published e hmoved' (by rw [hsession]) (by rw [hsession]; exact hemitted)
  · have hmoved' : Moved f.request.session request'.session :=
      hmoved.trans (.single (.changed (hdropped ▸ .dropped _ hpending)))
    cases f
    cases hidle
    exact .cancelled request' prepared 1 hmoved' (by simp [hdropped]) (by rw [hdropped]; exact hemitted)
  · have hmoved' : Moved f.request.session request'.session := hmoved.trans (.single (.changed hchanged))
    cases f
    cases hidle
    exact .committed request' prepared' published d.emitted hmoved' (by simp [hphase])
      (htokens.trans (congrArg (· ++ d.emitted) hemitted))

/-- A step past its first poll ends in one of these ways. -/
theorem step_exit (h : f.Resting) {answers : StepAnswers} {cancelled : Bool}
    (hguard : f.stepGuard requestId answers.callable = .ok ()) (hfirst : answers.first = .ok cancelled) :
    Exit f requestId (f.step requestId answers) := by
  have hg := hguard
  simp only [stepGuard, raiseIf_ok, not_or, ne_eq, not_not, List.mem_cons, List.not_mem_nil, or_false] at hg
  obtain ⟨-, -, -, howner, hlive, -⟩ := hg
  have hphase : f.request.session.phase = .idle ∨ f.request.session.phase = .pending := by tauto
  unfold step
  rw [hguard, hfirst, Call.attempt_ok, Call.attempt_ok]
  cases hticket : f.request.session.pending with
  | none =>
    have hidle : f.request.session.phase = .idle := by
      refine hphase.resolve_right fun hpending => ?_
      obtain ⟨t, ht, -⟩ := h.books.pending hpending
      rw [hticket] at ht
      cases ht
    cases cancelled with
    | true =>
      simp only [if_true, dropPending, hticket, Call.bind_ret]
      have hend : Exit f requestId _ := .cancelled f.request f.prepared 0 .refl (by simp [hidle]) rfl
      rwa [List.replicate_zero, List.append_nil] at hend
    | false =>
      rw [if_neg Bool.false_ne_true]
      split_ifs with hfinished
      · exact .finished
      · simp only [livingTicket, hticket]
        rcases prepare_cases h requestId answers.prepare with
          ⟨request, e, hsession, hp⟩ | ⟨request, prepared, t, hissued, -, hfin, hfit, -, htimed, hp⟩ <;> rw [hp]
        · rcases hsession with hsame | ⟨-, hfailed⟩
          · exact .undrafted request e hidle hsame
          · have hmoved : Moved f.request.session request.session :=
              .single (.changed (hfailed ▸ .failed _ _ (by simp [hidle])))
            exact .failed request f.prepared f.published e hmoved (by rw [hfailed]) (by rw [hfailed])
        · have hmoved : Moved f.request.session request.session := .single (hissued ▸ .issued hidle hfin hfit)
          refine transaction_exit h.idle ⟨?_, ?_, ?_⟩ htimed hmoved ?_ answers
          · rw [hissued]; exact howner
          · rw [hissued]; rfl
          · rw [hissued]; rfl
          · rw [hissued]; rfl
  | some ticket =>
    have hpending : f.request.session.phase = .pending := by
      refine hphase.resolve_left fun hidle => ?_
      rw [h.books.idle hidle] at hticket
      cases hticket
    have hlive : f.Live requestId ticket := ⟨howner, hpending, hticket⟩
    cases cancelled with
    | true =>
      have hfail : f.request.session.failVerification requestId ticket =
          .ret { f.request.session with phase := .failed } () := by
        unfold GreedySession.failVerification
        rw [hlive.checkTicket]
        rfl
      have hdrop : f.dropPending requestId =
          .ret { f with request := { f.request with session := { f.request.session with phase := .failed } } } () := by
        unfold dropPending
        split
        · rename_i ticket' hticket'
          cases hticket.symm.trans hticket'
          unfold failVerification on
          rw [hfail]
          rfl
        · rename_i hnone
          cases hticket.symm.trans hnone
      rw [if_pos rfl, hdrop]
      have hmoved : Moved f.request.session { f.request.session with phase := .failed } :=
        .single (.changed (.failed f.request.session.abortedBlocks f.request.session.pending (by simp [hpending])))
      have hend : Exit f requestId _ := .cancelled
        { f.request with session := { f.request.session with phase := .failed } } f.prepared 0 hmoved (by simp) rfl
      rw [List.replicate_zero, List.append_nil] at hend
      exact hend
    | false =>
      rw [if_neg Bool.false_ne_true]
      split_ifs with hfinished
      · exact .finished
      · simp only [livingTicket, hticket, Call.bind_ret]
        exact transaction_exit h.idle hlive (fun hc => h.timed hc hpending) .refl rfl answers

/-! ## Over a run -/

/-- A move keeps the books, and keeps a failed or closed session so. -/
theorem Moved.books {s s' : GreedySession} (hm : Moved s s') (h : Books s) : Books s' := by
  induction hm with
  | refl => exact h
  | tail _ hstep ih =>
    cases hstep with
    | changed hc => exact hc.books ih
    | issued _ hfin hfit => exact ih.issued hfin hfit

theorem Moved.dead {s s' : GreedySession} (hm : Moved s s') (h : s.phase = .failed ∨ s.phase = .closed) :
    s'.phase = .failed ∨ s'.phase = .closed := by
  induction hm with
  | refl => exact h
  | tail _ hstep ih =>
    cases hstep with
    | changed hc => exact hc.dead ih
    | issued hidle _ _ => rw [hidle] at ih; rcases ih with h | h <;> cases h

/-- What a call makes of a request. -/
structure Onward (f f' : FastRequest) : Prop where
  resting : f'.Resting
  session : Moved f.request.session f'.request.session
  cancelled : f.cancelled = true → f'.cancelled = true

theorem Onward.refl (h : f.Resting) : Onward f f := ⟨h, .refl, id⟩

/-- A change of the session that leaves the timing of a ticket alone. -/
theorem Onward.changed {f₀ f' : FastRequest} (h : Onward f₀ f) (hc : Changed f.request.session f'.request.session)
    (hbusy : f'.busy = false) (htimings : f'.collectTimings = f.collectTimings)
    (hprepared : f'.request.session.phase = .pending → f'.prepared = f.prepared)
    (hcancelled : f.cancelled = true → f'.cancelled = true) : Onward f₀ f' where
  resting := ⟨hc.books h.resting.books, hbusy, fun ht hp =>
    (hprepared hp).trans (h.resting.timed (htimings ▸ ht) (hc.pending hp))⟩
  session := h.session.tail (.changed hc)
  cancelled := fun hf => hcancelled (h.cancelled hf)

/-- A step's ends are between calls again. -/
theorem Exit.onward (h : f.Resting) {c : Call FastRequest Serving.CommittedOutput} (hc : Exit f requestId c) :
    Onward f c.obj := by
  cases hc with
  | undrafted request e _ hsession => exact (Onward.refl h).changed (hsession ▸ .same) h.idle rfl (fun _ => rfl) id
  | failed request prepared published e hmoved hphase _ =>
    exact ⟨⟨hmoved.books h.books, h.idle, fun _ hp => absurd (hphase.symm.trans hp) (by decide)⟩, hmoved, id⟩
  | cancelled request prepared n hmoved hphase _ =>
    exact ⟨⟨hmoved.books h.books, h.idle, fun _ hp => absurd hp hphase⟩, hmoved, fun _ => rfl⟩
  | finished => exact .refl h
  | committed request prepared published tokens hmoved hphase _ =>
    exact ⟨⟨hmoved.books h.books, h.idle, fun _ hp => absurd hp hphase⟩, hmoved, id⟩

/-- A preparation's too. -/
theorem prepare_onward (h : f.Resting) (requestId : String) (answers : PrepareAnswers) :
    Onward f (f.prepare requestId answers).obj := by
  rcases prepare_cases h requestId answers with
    ⟨request, e, hsession, hp⟩ | ⟨request, prepared, t, hissued, hidle, hfin, hfit, -, htimed, hp⟩ <;> rw [hp]
  · have hc : Changed f.request.session request.session := by
      rcases hsession with hsame | ⟨hidle, hfailed⟩
      · exact hsame ▸ .same
      · exact hfailed ▸ .failed _ _ (by simp [hidle])
    exact (Onward.refl h).changed hc h.idle rfl (fun _ => rfl) id
  · have hmoved : Moved f.request.session request.session := .single (hissued ▸ .issued hidle hfin hfit)
    exact ⟨⟨hmoved.books h.books, h.idle, fun hc _ => htimed hc⟩, hmoved, id⟩

/-- A close's too. -/
theorem close_onward (h : f.Resting) (requestId : String) (release : VerifierEngine → Call VerifierEngine Unit)
    (dropped : Except PyError Unit) : Onward f (f.close requestId release dropped).obj := by
  unfold close
  refine Call.attempt_obj (P := Onward f) (.refl h) fun _ _ => ?_
  by_cases hclosed : f.closed = true
  · rw [if_pos hclosed]
    exact .refl h
  · rw [if_neg hclosed]
    have hdropped : Onward f (f.dropPending requestId).obj := by
      unfold dropPending
      split
      · exact (Onward.refl h).changed (failVerification_changed _ _ _) h.idle rfl (fun _ => rfl) id
      · exact .refl h
    have hleft : Onward f (if f.request.session.phase = .pending ∧ f.request.parties.engine.phase = .idle then
        f.dropPending requestId else .ret f ()).obj := by
      rw [apply_ite Call.obj]
      split_ifs
      · exact hdropped
      · exact .refl h
    generalize (if f.request.session.phase = .pending ∧ f.request.parties.engine.phase = .idle then
        f.dropPending requestId else .ret f ()) = c at hleft ⊢
    refine Call.bind_obj (P := Onward f) hleft fun _ _ => ?_
    generalize c.obj = g at hleft ⊢
    have hreleased : Onward f (g.on ((release g.request.parties.engine).onto fun engine =>
        { g.request with parties := { g.request.parties with engine } })).obj :=
      hleft.changed .same hleft.resting.idle rfl (fun _ => rfl) id
    refine Call.bind_obj (P := Onward f) hreleased fun _ _ => ?_
    refine Call.attempt_obj (P := Onward f) hreleased fun _ _ => ?_
    generalize (on _ _ : Call FastRequest Unit).obj = g at hreleased ⊢
    have hclosed : Onward f (g.on ((g.request.session.close requestId).onto fun session =>
        { g.request with session })).obj :=
      hreleased.changed (close_changed _ _) hreleased.resting.idle rfl (fun _ => rfl) id
    refine Call.bind_obj (P := Onward f) hclosed fun _ _ => ?_
    exact hclosed.changed .same hclosed.resting.idle rfl (fun _ => rfl) id

/-- **Every call** leaves the request between calls, with its session moved on. -/
theorem apply_onward (h : f.Resting) {op : Op} (ha : op.Allowed) : Onward f (f.apply op) := by
  cases op with
  | prepare requestId answers => exact prepare_onward h requestId answers
  | step requestId answers =>
    show Onward f (f.step requestId answers).obj
    cases hguard : f.stepGuard requestId answers.callable with
    | error e => rw [step, hguard]; exact .refl h
    | ok _ =>
      cases hfirst : answers.first with
      | error e => rw [step, hguard, hfirst]; exact .refl h
      | ok cancelled => exact (step_exit h hguard hfirst).onward h
  | close requestId release dropped => exact close_onward h requestId release dropped
  | other op timing =>
    exact (Onward.refl h).changed (f.request.apply_changed ha) h.idle rfl (fun hp => if_pos hp) id

theorem run_onward (h : f.Resting) {ops : List Op} {f' : FastRequest} (hrun : Run Step f ops f') : Onward f f' := by
  induction hrun with
  | nil => exact .refl h
  | snoc _ hstep ih =>
    obtain ⟨ha, rfl⟩ := hstep
    have hnext := apply_onward ih.resting ha
    exact ⟨hnext.resting, ih.session.trans hnext.session, fun hc => hnext.cancelled (ih.cancelled hc)⟩

/-- A request that was built is between calls. -/
theorem Resting.start {requestId : String} {prompt : List Token} {seed : Token} {vocabSize : Int} {maxNewTokens : Nat}
    {eosIds : List Token} {neural : List String} {verifierRows : Nat} {preferFullSuffix lookupEnabled : Bool}
    {s : GreedySession} {position historyRows maxDrafts : Nat} {r₀ : Request} {drafterName : String}
    {owned releasable collectTimings : Bool}
    (hsession : GreedySession.init requestId prompt seed vocabSize maxNewTokens eosIds neural verifierRows
      preferFullSuffix lookupEnabled = .ok s)
    (hbound : Request.bound s position historyRows maxDrafts = .ok r₀)
    (hinit : init r₀ drafterName owned releasable collectTimings = .ok f) : f.Resting := by
  obtain ⟨⟨⟩, hmax, hsession⟩ := bind_ok hsession
  obtain ⟨⟨⟩, -, hsession⟩ := bind_ok hsession
  obtain ⟨_, -, hsession⟩ := bind_ok hsession
  obtain ⟨_, -, hsession⟩ := bind_ok hsession
  obtain ⟨_, -, hsession⟩ := bind_ok hsession
  cases hsession
  rw [raiseIf_ok, Nat.not_lt] at hmax
  obtain ⟨_, -, hbound⟩ := bind_ok hbound
  obtain ⟨_, -, hbound⟩ := bind_ok hbound
  cases hbound
  obtain ⟨⟨⟩, -, hinit⟩ := bind_ok hinit
  cases hinit
  refine ⟨⟨by simp, fun _ => rfl, fun hp => (by cases hp), fun hf => ?_, fun hp => (by cases hp)⟩, rfl,
    fun _ hp => (by cases hp)⟩
  simp only [Bool.or_eq_false_iff, beq_eq_false_iff_ne] at hf
  show 1 < maxNewTokens
  have := hf.2
  omega

/-- A request whose session failed or closed, or that was cancelled, refuses its steps. -/
theorem step_refused (h : f.cancelled = true ∨ f.request.session.phase = .failed ∨ f.request.session.phase = .closed)
    (requestId : String) (answers : StepAnswers) : ∃ e, f.step requestId answers = .throw f e := by
  refine ⟨.valueError "One live owner and a cancellation callback required", ?_⟩
  have hguard : f.stepGuard requestId answers.callable =
      .error (.valueError "One live owner and a cancellation callback required") := by
    unfold stepGuard raiseIf
    rcases h with h | h | h <;> simp [h]
  rw [step, hguard]
  rfl

/-- And so does whatever later calls make of it. -/
theorem Onward.stopped {f' : FastRequest} (h : Onward f f')
    (hstop : f.cancelled = true ∨ f.request.session.phase = .failed) :
    f'.cancelled = true ∨ f'.request.session.phase = .failed ∨ f'.request.session.phase = .closed := by
  rcases hstop with hc | hf
  · exact Or.inl (h.cancelled hc)
  · exact Or.inr (h.session.dead (Or.inl hf))

/-- **Main result.** The exits of a step, out of any state that calls on a new request lead to: it is not busy
afterwards; a refused call, or one whose first poll raises, leaves the request as it was; a cancelled one returns no
token, emits nothing, publishes no prefix but 0, and every later step is refused; any other that returns gives exactly
what it emitted, and the new position; and one that raises after its first poll has emitted nothing, and either the
session has failed, and every later step is refused, or it is idle as before, with nothing drafted. -/
theorem step_exits {sessionId : String} {prompt : List Token} {seed : Token} {vocabSize : Int} {maxNewTokens : Nat}
    {eosIds : List Token} {neural : List String} {verifierRows : Nat} {preferFullSuffix lookupEnabled : Bool}
    {s : GreedySession} {position historyRows maxDrafts : Nat} {r₀ : Request} {drafterName : String}
    {owned releasable collectTimings : Bool} {f₀ : FastRequest}
    (hsession : GreedySession.init sessionId prompt seed vocabSize maxNewTokens eosIds neural verifierRows
      preferFullSuffix lookupEnabled = .ok s)
    (hbound : Request.bound s position historyRows maxDrafts = .ok r₀)
    (hinit : init r₀ drafterName owned releasable collectTimings = .ok f₀)
    {ops : List Op} (hrun : Run Step f₀ ops f) (requestId : String) (answers : StepAnswers) :
    (f.step requestId answers).obj.busy = false ∧
    (∀ e, f.stepGuard requestId answers.callable = .error e → f.step requestId answers = .throw f e) ∧
    (∀ e, f.stepGuard requestId answers.callable = .ok () → answers.first = .error e →
      f.step requestId answers = .throw f e) ∧
    (∀ out, (f.step requestId answers).result = .ok out → out.cancelled = true →
      out.tokenIds = [] ∧ (f.step requestId answers).obj.request.session.emitted = f.request.session.emitted ∧
        (∃ n, (f.step requestId answers).obj.published = f.published ++ List.replicate n 0) ∧
        ∀ ops' f', Run Step (f.step requestId answers).obj ops' f' → ∀ id answers', ∃ e,
          f'.step id answers' = .throw f' e) ∧
    (∀ out, (f.step requestId answers).result = .ok out → out.cancelled = false →
      (f.step requestId answers).obj.request.session.emitted = f.request.session.emitted ++ out.tokenIds ∧
        out.position = (f.step requestId answers).obj.request.session.position) ∧
    ∀ e cancelled, f.stepGuard requestId answers.callable = .ok () → answers.first = .ok cancelled →
      (f.step requestId answers).result = .error e →
      (f.step requestId answers).obj.request.session.emitted = f.request.session.emitted ∧
        ((f.step requestId answers).obj.request.session.phase = .failed ∧
            (∀ ops' f', Run Step (f.step requestId answers).obj ops' f' → ∀ id answers', ∃ e',
              f'.step id answers' = .throw f' e') ∨
          f.request.session.phase = .idle ∧ f.request.session.pending = none ∧
            (f.step requestId answers).obj.request.session = f.request.session) := by
  have hrest : f.Resting := (run_onward (.start hsession hbound hinit) hrun).resting
  have hnext : Onward f (f.step requestId answers).obj :=
    apply_onward hrest (show (Op.step requestId answers).Allowed from trivial)
  have hstopped : (f.step requestId answers).obj.cancelled = true ∨
      (f.step requestId answers).obj.request.session.phase = .failed → ∀ ops' f',
      Run Step (f.step requestId answers).obj ops' f' → ∀ id answers', ∃ e, f'.step id answers' = .throw f' e :=
    fun hstop ops' f' hrun' id answers' => step_refused ((run_onward hnext.resting hrun').stopped hstop) id answers'
  have hexit : ∀ out, (f.step requestId answers).result = .ok out → Exit f requestId (f.step requestId answers) := by
    intro out hout
    cases hguard : f.stepGuard requestId answers.callable with
    | error e => rw [step, hguard] at hout; cases hout
    | ok _ =>
      cases hfirst : answers.first with
      | error e => rw [step, hguard, hfirst] at hout; cases hout
      | ok cancelled => exact step_exit hrest hguard hfirst
  refine ⟨hnext.resting.idle, fun e he => by rw [step, he]; rfl, fun e hg he => by rw [step, hg, he]; rfl,
    fun out hout hcancelled => ?_, fun out hout hcancelled => ?_, fun e cancelled hg hc he => ?_⟩
  · have hend := hexit out hout
    generalize f.step requestId answers = c at hout hend hstopped ⊢
    cases hend with
    | undrafted | failed => cases hout
    | finished | committed => cases hout; cases hcancelled
    | cancelled request prepared n hmoved hphase hemitted =>
      cases hout
      exact ⟨rfl, hemitted, ⟨n, rfl⟩, hstopped (Or.inl rfl)⟩
  · have hend := hexit out hout
    generalize f.step requestId answers = c at hout hend ⊢
    cases hend with
    | undrafted | failed => cases hout
    | cancelled => cases hout; cases hcancelled
    | finished => cases hout; exact ⟨(List.append_nil _).symm, rfl⟩
    | committed request prepared published tokens hmoved hphase hemitted => cases hout; exact ⟨hemitted, rfl⟩
  · have hend : Exit f requestId (f.step requestId answers) := step_exit hrest hg hc
    generalize f.step requestId answers = c at he hend hstopped ⊢
    cases hend with
    | cancelled | finished | committed => cases he
    | undrafted request e' hidle hsame =>
      exact ⟨congrArg GreedySession.emitted hsame, Or.inr ⟨hidle, hrest.books.idle hidle, hsame⟩⟩
    | failed request prepared published e' hmoved hphase hemitted =>
      exact ⟨hemitted, Or.inl ⟨hphase, hstopped (Or.inr hphase)⟩⟩

/-- The driver of the sample request, which keeps timings. -/
def sampleFast : FastRequest := ⟨Request.sampleRequest, "dflash2", false, false, false, true, false, []⟩

/-- A preparation of one draft. -/
def samplePrepare : PrepareAnswers := ⟨.ok 4, fun _ _ _ _ => .error .typeError, 0, .ok [7, 7]⟩

/-- A step in which nothing raises but, maybe, the polls. -/
def sampleAnswers (first second : Except PyError Bool) : StepAnswers :=
  ⟨true, first, samplePrepare, true, .ok [7, 8], second, Request.quietEnv, Request.quietEnv, Request.quietEnv⟩

/-- The sample request with a ticket. -/
def samplePrepared : FastRequest := (sampleFast.prepare "r" samplePrepare).obj

theorem samplePrepared_run : Run Step sampleFast [.prepare "r" samplePrepare] samplePrepared :=
  Run.nil.snoc ⟨trivial, rfl⟩

theorem sampleSession_init :
    GreedySession.init "r" [3] 5 10 4 [9] ["dflash2"] 16 false true = .ok Request.sampleSession := by decide

/-- Uncancelled, the step returns the two tokens it emits; cancelled at its second poll, it returns none. -/
theorem step_exits_sample :
    (samplePrepared.step "r" (sampleAnswers (.ok false) (.ok false))).obj.request.session.emitted = [5] ++ [7, 8] ∧
    (samplePrepared.step "r" (sampleAnswers (.ok false) (.ok true))).obj.request.session.emitted = [5] ∧
    (samplePrepared.step "r" (sampleAnswers (.ok false) (.error (.raised "interrupt")))).obj.busy = false := by
  have hexits := fun answers =>
    step_exits sampleSession_init (show Request.bound Request.sampleSession 1 1 7 = .ok Request.sampleRequest from rfl)
      (show init Request.sampleRequest "dflash2" true true true = .ok sampleFast from rfl) samplePrepared_run "r"
      answers
  have hcommitted := (hexits (sampleAnswers (.ok false) (.ok false))).2.2.2.2.1 ⟨"r", [7, 8], 3, false, false⟩
    (by decide) rfl
  have hcancelled := (hexits (sampleAnswers (.ok false) (.ok true))).2.2.2.1 ⟨"r", [], 1, true, true⟩ (by decide) rfl
  exact ⟨hcommitted.1, hcancelled.2.1, (hexits (sampleAnswers (.ok false) (.error (.raised "interrupt")))).1⟩

/-- **A first poll that raises leaves the ticket it found pending**: it comes before the `try`. -/
theorem poll_keeps_ticket :
    GreedySession.init "r" [3] 5 10 4 [9] ["dflash2"] 16 false true = .ok Request.sampleSession ∧
    Request.bound Request.sampleSession 1 1 7 = .ok Request.sampleRequest ∧
    init Request.sampleRequest "dflash2" true true true = .ok sampleFast ∧
    Run Step sampleFast [.prepare "r" samplePrepare] samplePrepared ∧
    samplePrepared.request.session.pending = some ⟨0, "r", 1, 1, some 5, [7], "dflash2", 0⟩ ∧
    (samplePrepared.step "r" (sampleAnswers (.error (.raised "interrupt")) (.ok false))).result =
      .error (.raised "interrupt") ∧
    (samplePrepared.step "r" (sampleAnswers (.error (.raised "interrupt")) (.ok false))).obj.request.session.phase =
      .pending :=
  ⟨by decide, rfl, rfl, Run.nil.snoc ⟨trivial, rfl⟩, by decide, by decide, by decide⟩

end FastRequest

end BlackholeQwen.Dflash
