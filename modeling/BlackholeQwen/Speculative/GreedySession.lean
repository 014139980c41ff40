import BlackholeQwen.Speculative.HybridDraft

/-!
# The greedy session

`GreedySession` is `greedy_session.GreedySession`: one request's host coordinator. A block is proposed, possibly
narrowed, verified on the device, and committed or aborted. Each method is a `Call`: the session afterwards, and what
the method returned or raised. The device and the adapters are the environment's: a callback's answer and the drafts of
the adapters are arguments of the call.

The section at the end says, method by method, all that a call can do (`propose_cases`, `narrow_cases`, `commit_cases`,
`abort_cases`); later proofs use these and never unfold a method.
-/

namespace BlackholeQwen.Speculative

open Lib

/-- `BlockTicket`; `ident` is the object's identity, so that equal tickets are the same object. `tokens` is
`(seed, *proposals)`. -/
structure BlockTicket where
  ident : Nat
  requestId : String
  epoch : Nat
  position : Nat
  seed : Option Token
  proposals : List Token
  source : String
  matchLength : Nat
  deriving DecidableEq, Repr

/-- `ticket.tokens`. -/
def BlockTicket.tokens (t : BlockTicket) : List (Option Token) := t.seed :: t.proposals.map some

/-- `len(ticket.tokens)`. -/
def BlockTicket.rows (t : BlockTicket) : Nat := t.tokens.length

@[simp] theorem BlockTicket.rows_eq (t : BlockTicket) : t.rows = t.proposals.length + 1 := by
  simp [rows, tokens]

/-- `phase`. -/
inductive Phase
  | idle | preparing | drafting | pending | committing | failed | closed
  deriving DecidableEq, Repr

/-- What a callback handed to the session does when it is called. -/
inductive Callback
  | notCallable | returnsNone | returnsValue | raises (e : PyError)
  deriving DecidableEq, Repr

/-- `if callback(rows) is not None: raise RuntimeError(text)`. -/
def Callback.await (text : String) : Callback → Except PyError Unit
  | .notCallable => .error .typeError
  | .returnsNone => .ok ()
  | .returnsValue => .error (.runtimeError text)
  | .raises e => .error e

/-- The verifier buckets. -/
def buckets : List Nat := [1, 2, 4, 8, 16, 32]

/-- `max(width for width in buckets if width <= n)`. -/
def maxWidth (n : Nat) : Except PyError Nat :=
  match (buckets.filter (· ≤ n)).max? with
  | some width => .ok width
  | none => .error (.valueError "max() arg is an empty sequence")

/-- `GreedySession`. -/
structure GreedySession where
  drafter : HybridDraft
  requestId : String
  vocabSize : Int
  maxNewTokens : Nat
  eosIds : List Token
  verifierRows : Nat
  position : Nat
  seed : Option Token
  emitted : List Token
  finished : Bool
  phase : Phase
  epoch : Nat
  pending : Option BlockTicket
  committedBlockProposals : Nat
  acceptedProposals : Nat
  committedBlocks : Nat
  committedDecodeTokens : Nat
  abortedBlocks : Nat
  deriving DecidableEq, Repr

namespace GreedySession

/-- `GreedySession.__init__`. -/
def init (requestId : String) (prompt : List Token) (seed : Token) (vocabSize : Int) (maxNewTokens : Nat)
    (eosIds : List Token) (neural : List String) (verifierRows : Nat) (preferFullSuffix lookupEnabled : Bool) :
    Except PyError GreedySession := do
  raiseIf (maxNewTokens < 1) (.valueError "Positive generation budget required")
  raiseIf (verifierRows ≠ 16 ∧ verifierRows ≠ 32) (.valueError "Explicit T16 or T32 verifier capacity required")
  let _ ← selectPrefix [] [seed] vocabSize eosIds 15
  let drafter ← HybridDraft.init requestId prompt vocabSize neural lookupEnabled (verifierRows - 1) preferFullSuffix
  let drafter ← drafter.commitVerified requestId [seed]
  return {
    drafter, requestId, vocabSize, maxNewTokens, eosIds, verifierRows
    position := prompt.length
    seed := some seed
    emitted := [seed]
    finished := decide (seed ∈ eosIds) || maxNewTokens == 1
    phase := .idle
    epoch := 0
    pending := none
    committedBlockProposals := 0
    acceptedProposals := 0
    committedBlocks := 0
    committedDecodeTokens := 0
    abortedBlocks := 0 }

/-- `check_owner`. -/
def checkOwner (s : GreedySession) (requestId : String) : Except PyError Unit :=
  raiseIf (requestId ≠ s.requestId ∨ s.phase = .failed ∨ s.phase = .closed)
    (.valueError "Closed, failed or mismatched request")

/-- `begin_preparation`. -/
def beginPreparation (s : GreedySession) (requestId : String) : Call GreedySession Unit :=
  Call.attempt (do
      s.checkOwner requestId
      raiseIf (s.phase ≠ .idle ∨ s.pending ≠ none ∨ s.finished = true)
        (.valueError "An unfinished idle request is required before device preparation")) s fun () =>
    Call.ret { s with phase := .preparing } ()

/-- `finish_preparation` and `fail_preparation`, which leave the phases `idle` and `failed`. -/
def endPreparation (s : GreedySession) (requestId : String) (phase : Phase) : Call GreedySession Unit :=
  Call.attempt (do
      s.checkOwner requestId
      raiseIf (s.phase ≠ .preparing) (.valueError "Request preparation is not active")) s fun () =>
    Call.ret { s with phase } ()

/-- `finish_preparation`. -/
def finishPreparation (s : GreedySession) (requestId : String) : Call GreedySession Unit :=
  s.endPreparation requestId .idle

/-- `fail_preparation`. -/
def failPreparation (s : GreedySession) (requestId : String) : Call GreedySession Unit :=
  s.endPreparation requestId .failed

/-- The checks of `propose`. -/
def proposeGuard (s : GreedySession) (requestId : String) (maxRows : Nat) : Except PyError Unit := do
  s.checkOwner requestId
  raiseIf (s.phase ≠ .idle ∨ s.finished = true) (.valueError "An unfinished idle request is required")
  raiseIf (maxRows ∉ buckets ∨ s.verifierRows < maxRows) (.valueError "Supported verifier bucket required")

/-- `limit` of `propose`: the requested rows, within the remaining budget. -/
def proposeLimit (s : GreedySession) (maxRows : Nat) : Nat := min maxRows (s.maxNewTokens - s.emitted.length)

/-- `propose`. -/
def propose (s : GreedySession) (requestId : String) (maxRows : Nat) (selected : Option String) (adapters : Adapters)
    (ident : Nat) : Call GreedySession BlockTicket :=
  Call.attempt (s.proposeGuard requestId maxRows) s fun () =>
  let limit := s.proposeLimit maxRows
  Call.attempt
    (if 1 < limit then (s.drafter.propose requestId (limit - 1) true true selected adapters).map some else .ok none)
    { s with phase := .failed } fun proposal =>
  let tokens := proposal.elim [] Proposal.tokens
  Call.attempt (maxWidth (min limit (tokens.length + 1))) { s with phase := .drafting } fun rows =>
  let ticket : BlockTicket :=
    { ident, requestId
      epoch := s.epoch + 1
      position := s.position
      seed := s.seed
      proposals := tokens.take (rows - 1)
      source := if 1 < rows then proposal.elim "target" Proposal.source else "target"
      matchLength := if 1 < rows then proposal.elim 0 Proposal.matchLength else 0 }
  Call.ret { s with epoch := s.epoch + 1, pending := some ticket, phase := .pending } ticket

/-- `check_ticket`. -/
def checkTicket (s : GreedySession) (requestId : String) (ticket : BlockTicket) : Except PyError Unit := do
  s.checkOwner requestId
  raiseIf (s.phase ≠ .pending ∨ s.pending ≠ some ticket) (.valueError "The current live block ticket is required")

/-- `narrow`. -/
def narrow (s : GreedySession) (requestId : String) (ticket : BlockTicket) (rows ident : Nat) :
    Call GreedySession BlockTicket :=
  Call.attempt (do
      s.checkTicket requestId ticket
      raiseIf (rows ∉ buckets ∨ ticket.rows < rows)
        (.valueError "A verifier bucket no wider than the live ticket is required")) s fun () =>
  let narrowed : BlockTicket :=
    { ident, requestId
      epoch := s.epoch + 1
      position := ticket.position
      seed := ticket.seed
      proposals := ticket.proposals.take (rows - 1)
      source := if 1 < rows then ticket.source else "target"
      matchLength := if 1 < rows then min ticket.matchLength (rows - 1) else 0 }
  Call.ret { s with epoch := s.epoch + 1, pending := some narrowed, phase := .pending } narrowed

/-- The proposals and the predictions `commit` decides on, under its cap. -/
def capped (ticket : BlockTicket) (predictions : List Token) : Option Nat → Except PyError (List Token × List Token)
  | none => .ok (ticket.proposals, predictions)
  | some maxRows =>
    if 1 ≤ maxRows ∧ maxRows ≤ ticket.rows then
      .ok (ticket.proposals.take (maxRows - 1), predictions.take maxRows)
    else
      .error (.valueError
        ("A commit cap of 1 to " ++ toString ticket.rows ++ " rows is required, got " ++ toString maxRows))

/-- `commit` up to its decision. -/
def commitDecision (s : GreedySession) (requestId : String) (ticket : BlockTicket) (predictions : List Token)
    (publish : Callback) (maxRows : Option Nat) : Except PyError Decision := do
  s.checkTicket requestId ticket
  raiseIf (publish = .notCallable) (.valueError "Synchronized state publication callback required")
  let (proposals, targets) ← capped ticket predictions maxRows
  selectPrefix proposals targets s.vocabSize s.eosIds (s.verifierRows - 1)

/-- The session after a published decision. -/
def decided (s : GreedySession) (ticket : BlockTicket) (d : Decision) (drafter : HybridDraft) : GreedySession :=
  { s with
    drafter
    position := s.position + d.stateRows
    seed := d.nextInput
    emitted := s.emitted ++ d.emitted
    committedBlockProposals := s.committedBlockProposals + (ticket.rows - 1)
    acceptedProposals := s.acceptedProposals + d.accepted
    committedBlocks := s.committedBlocks + 1
    committedDecodeTokens := s.committedDecodeTokens + d.emitted.length
    finished := d.finished || (s.emitted ++ d.emitted).length == s.maxNewTokens
    pending := none
    phase := .idle }

/-- `commit`. -/
def commit (s : GreedySession) (requestId : String) (ticket : BlockTicket) (predictions : List Token)
    (publish : Callback) (maxRows : Option Nat) : Call GreedySession Decision :=
  Call.attempt (s.commitDecision requestId ticket predictions publish maxRows) s fun d =>
  Call.attempt (do
      publish.await "Publication must return None after successful synchronization"
      s.drafter.commitVerified requestId d.emitted) { s with phase := .failed } fun drafter =>
  Call.ret (s.decided ticket d drafter) d

/-- The checks of `abort`. -/
def abortGuard (s : GreedySession) (requestId : String) (ticket : BlockTicket) (restore : Callback) :
    Except PyError Unit := do
  s.checkTicket requestId ticket
  raiseIf (restore = .notCallable) (.valueError "Synchronized entry-state restore callback required")

/-- `abort`. -/
def abort (s : GreedySession) (requestId : String) (ticket : BlockTicket) (restore : Callback) :
    Call GreedySession Unit :=
  Call.attempt (s.abortGuard requestId ticket restore) s fun () =>
  Call.attempt (restore.await "Abort must return None after successful synchronization")
    { s with phase := .failed } fun () =>
  Call.ret { s with abortedBlocks := s.abortedBlocks + 1, pending := none, phase := .idle } ()

/-- `fail_verification`. -/
def failVerification (s : GreedySession) (requestId : String) (ticket : BlockTicket) : Call GreedySession Unit :=
  Call.attempt (s.checkTicket requestId ticket) s fun () => Call.ret { s with phase := .failed } ()

/-! ## What the calls do -/

theorem checkOwner_ok {s : GreedySession} {requestId : String} (h : s.checkOwner requestId = .ok ()) :
    requestId = s.requestId ∧ s.phase ≠ .failed ∧ s.phase ≠ .closed := by
  simpa [checkOwner] using h

theorem checkTicket_ok {s : GreedySession} {requestId : String} {ticket : BlockTicket}
    (h : s.checkTicket requestId ticket = .ok ()) :
    requestId = s.requestId ∧ s.phase = .pending ∧ s.pending = some ticket := by
  obtain ⟨⟨⟩, howner, h⟩ := bind_ok h
  simp only [raiseIf_ok, not_or, ne_eq, not_not] at h
  exact ⟨(checkOwner_ok howner).1, h⟩

/-- `maxWidth` picks a bucket within its bound. -/
theorem maxWidth_ok {n w : Nat} (h : maxWidth n = .ok w) : w ∈ buckets ∧ w ≤ n := by
  unfold maxWidth at h
  split at h
  · rename_i width hw
    cases h
    have := List.max?_mem hw
    simpa [List.mem_filter] using this
  · cases h

/-- A bucket is at least one row. -/
theorem bucket_pos {w : Nat} (h : w ∈ buckets) : 1 ≤ w := by
  simp only [buckets, List.mem_cons, List.not_mem_nil, or_false] at h
  omega

/-- A live ticket of the session: at its position and seed, a bucket wide, within the verifier and the budget. -/
structure Fits (s : GreedySession) (t : BlockTicket) : Prop where
  position : t.position = s.position
  seed : t.seed = s.seed
  width : t.rows ∈ buckets
  verifier : t.rows ≤ s.verifierRows
  budget : t.rows ≤ s.maxNewTokens - s.emitted.length

/-- A ticket is issued: it takes the next epoch and becomes the live one. -/
def issued (s : GreedySession) (t : BlockTicket) : GreedySession :=
  { s with epoch := s.epoch + 1, pending := some t, phase := .pending }

/-- `propose` raises, from an idle session possibly leaving it failed or drafting, or issues a ticket that fits. -/
theorem propose_cases (s : GreedySession) (requestId : String) (maxRows : Nat) (selected : Option String)
    (adapters : Adapters) (ident : Nat) :
    (∃ e phase, s.propose requestId maxRows selected adapters ident = Call.throw { s with phase } e ∧
      (phase = s.phase ∨ s.phase = .idle ∧ (phase = .failed ∨ phase = .drafting))) ∨
    ∃ t, s.propose requestId maxRows selected adapters ident = Call.ret (s.issued t) t ∧
      s.phase = .idle ∧ s.finished = false ∧ t.epoch = s.epoch + 1 ∧ s.Fits t := by
  unfold propose
  rcases Call.attempt_cases (s.proposeGuard requestId maxRows) s _ with ⟨e, -, h⟩ | ⟨⟨⟩, hg, h⟩ <;> rw [h]
  · exact Or.inl ⟨e, s.phase, rfl, Or.inl rfl⟩
  obtain ⟨⟨⟩, -, hg⟩ := bind_ok hg
  obtain ⟨⟨⟩, hidle, hg⟩ := bind_ok hg
  simp only [raiseIf_ok, not_or, ne_eq, not_not, Bool.not_eq_true, not_lt] at hidle hg
  rcases Call.attempt_cases
    (if 1 < s.proposeLimit maxRows then
      (s.drafter.propose requestId (s.proposeLimit maxRows - 1) true true selected adapters).map some
    else .ok none) { s with phase := .failed } _ with ⟨e, -, h⟩ | ⟨proposal, -, h⟩ <;> rw [h]
  · exact Or.inl ⟨e, .failed, rfl, Or.inr ⟨hidle.1, Or.inl rfl⟩⟩
  rcases Call.attempt_cases
    (maxWidth (min (s.proposeLimit maxRows) ((proposal.elim [] Proposal.tokens).length + 1)))
    { s with phase := .drafting } _ with ⟨e, -, h⟩ | ⟨rows, hw, h⟩ <;> rw [h]
  · exact Or.inl ⟨e, .drafting, rfl, Or.inr ⟨hidle.1, Or.inr rfl⟩⟩
  obtain ⟨hmem, hle⟩ := maxWidth_ok hw
  have hrows : ((proposal.elim [] Proposal.tokens).take (rows - 1)).length + 1 = rows := by
    have := bucket_pos hmem
    rw [List.length_take]; omega
  unfold proposeLimit at hle
  refine Or.inr ⟨_, rfl, hidle.1, hidle.2, rfl, rfl, rfl, ?_, ?_, ?_⟩ <;> simp only [BlockTicket.rows_eq, hrows]
  · exact hmem
  · omega
  · omega

/-- `narrow` raises and changes nothing, or issues a narrower ticket in place of the live one. -/
theorem narrow_cases (s : GreedySession) (requestId : String) (ticket : BlockTicket) (rows ident : Nat) :
    (∃ e, s.narrow requestId ticket rows ident = Call.throw s e) ∨
    ∃ t, s.narrow requestId ticket rows ident = Call.ret (s.issued t) t ∧ s.phase = .pending ∧
      s.pending = some ticket ∧ t.epoch = s.epoch + 1 ∧ t.position = ticket.position ∧ t.seed = ticket.seed ∧
      t.proposals = ticket.proposals.take (rows - 1) ∧ t.rows = rows ∧ rows ∈ buckets ∧ rows ≤ ticket.rows := by
  unfold narrow
  rcases Call.attempt_cases (do
      s.checkTicket requestId ticket
      raiseIf (rows ∉ buckets ∨ ticket.rows < rows)
        (.valueError "A verifier bucket no wider than the live ticket is required")) s _ with
    ⟨e, -, h⟩ | ⟨⟨⟩, hg, h⟩ <;> rw [h]
  · exact Or.inl ⟨e, rfl⟩
  obtain ⟨⟨⟩, ht, hg⟩ := bind_ok hg
  obtain ⟨-, hphase, hpending⟩ := checkTicket_ok ht
  simp only [raiseIf_ok, not_or, not_not, Nat.not_lt] at hg
  have hpos := bucket_pos hg.1
  have hle := hg.2
  rw [BlockTicket.rows_eq] at hle
  refine Or.inr ⟨_, rfl, hphase, hpending, rfl, rfl, rfl, rfl, ?_, hg.1, hg.2⟩
  rw [BlockTicket.rows_eq, List.length_take]
  omega

/-- Under its cap `commit` decides on a leading part of the ticket against as many predictions. -/
theorem capped_ok {ticket : BlockTicket} {predictions ps ts : List Token} {maxRows : Option Nat}
    (h : capped ticket predictions maxRows = .ok (ps, ts)) :
    ∃ n, ps = ticket.proposals.take n ∧ (ts.length = ps.length + 1 → ts = predictions.take (n + 1)) := by
  cases maxRows with
  | none =>
    cases h
    exact ⟨ticket.proposals.length, (List.take_length).symm, fun h => (List.take_of_length_le (by omega)).symm⟩
  | some maxRows =>
    simp only [capped] at h
    split_ifs at h with hm
    cases h
    exact ⟨maxRows - 1, rfl, fun _ => by rw [Nat.sub_add_cancel hm.1]⟩

/-- `commit` raises, leaving the session as it was or failed, or publishes a decision on a leading part of the live
ticket. -/
theorem commit_cases (s : GreedySession) (requestId : String) (ticket : BlockTicket) (predictions : List Token)
    (publish : Callback) (maxRows : Option Nat) :
    (∃ e phase, s.commit requestId ticket predictions publish maxRows = Call.throw { s with phase } e ∧
      (phase = s.phase ∨ s.phase = .pending ∧ phase = .failed)) ∨
    ∃ d drafter n, s.commit requestId ticket predictions publish maxRows = Call.ret (s.decided ticket d drafter) d ∧
      s.phase = .pending ∧ s.pending = some ticket ∧
      Selected (ticket.proposals.take n) (predictions.take (n + 1)) s.vocabSize s.eosIds d ∧
      drafter = s.drafter.extend d.emitted := by
  unfold commit
  rcases Call.attempt_cases (s.commitDecision requestId ticket predictions publish maxRows) s _ with
    ⟨e, -, h⟩ | ⟨d, hd, h⟩ <;> rw [h]
  · exact Or.inl ⟨e, s.phase, rfl, Or.inl rfl⟩
  obtain ⟨⟨⟩, ht, hd⟩ := bind_ok hd
  obtain ⟨⟨⟩, -, hd⟩ := bind_ok hd
  obtain ⟨⟨ps, ts⟩, hcap, hd⟩ := bind_ok hd
  obtain ⟨-, hphase, hpending⟩ := checkTicket_ok ht
  have hsel := selectPrefix_ok hd
  obtain ⟨n, rfl, hts⟩ := capped_ok hcap
  rw [hts hsel.rows] at hsel
  rcases Call.attempt_cases (do
      publish.await "Publication must return None after successful synchronization"
      s.drafter.commitVerified requestId d.emitted) { s with phase := .failed } _ with
    ⟨e, -, h⟩ | ⟨drafter, hdr, h⟩ <;> rw [h]
  · exact Or.inl ⟨e, .failed, rfl, Or.inr ⟨hphase, rfl⟩⟩
  obtain ⟨⟨⟩, -, hdr⟩ := bind_ok hdr
  exact Or.inr ⟨d, drafter, n, rfl, hphase, hpending, hsel, HybridDraft.commitVerified_ok hdr⟩

/-- `abort` raises, leaving the session as it was or failed, or drops the live ticket. -/
theorem abort_cases (s : GreedySession) (requestId : String) (ticket : BlockTicket) (restore : Callback) :
    (∃ e phase, s.abort requestId ticket restore = Call.throw { s with phase } e ∧
      (phase = s.phase ∨ s.phase = .pending ∧ phase = .failed)) ∨
    (s.abort requestId ticket restore =
        Call.ret { s with abortedBlocks := s.abortedBlocks + 1, pending := none, phase := .idle } () ∧
      s.phase = .pending) := by
  unfold abort
  rcases Call.attempt_cases (s.abortGuard requestId ticket restore) s _ with ⟨e, -, h⟩ | ⟨⟨⟩, hg, h⟩ <;> rw [h]
  · exact Or.inl ⟨e, s.phase, rfl, Or.inl rfl⟩
  obtain ⟨⟨⟩, ht, -⟩ := bind_ok hg
  have hphase := (checkTicket_ok ht).2.1
  rcases Call.attempt_cases (restore.await "Abort must return None after successful synchronization")
    { s with phase := .failed } _ with ⟨e, -, h⟩ | ⟨⟨⟩, -, h⟩ <;> rw [h]
  · exact Or.inl ⟨e, .failed, rfl, Or.inr ⟨hphase, rfl⟩⟩
  · exact Or.inr ⟨rfl, hphase⟩

/-- `fail_verification` raises and changes nothing, or fails a pending session. -/
theorem failVerification_cases (s : GreedySession) (requestId : String) (ticket : BlockTicket) :
    (∃ e, s.failVerification requestId ticket = Call.throw s e) ∨
    (s.failVerification requestId ticket = Call.ret { s with phase := .failed } () ∧ s.phase = .pending) := by
  unfold failVerification
  rcases Call.attempt_cases (s.checkTicket requestId ticket) s _ with ⟨e, -, h⟩ | ⟨⟨⟩, hg, h⟩ <;> rw [h]
  · exact Or.inl ⟨e, rfl⟩
  · exact Or.inr ⟨rfl, (checkTicket_ok hg).2.1⟩

/-- A preparation call raises and changes nothing, or moves a session between `idle`, `preparing` and `failed`. -/
theorem preparation_cases (s : GreedySession) (requestId : String) {c : Call GreedySession Unit}
    (h : c = s.beginPreparation requestId ∨ c = s.finishPreparation requestId ∨ c = s.failPreparation requestId) :
    (∃ e, c = Call.throw s e) ∨
    ∃ phase, c = Call.ret { s with phase } () ∧ (s.phase = .idle ∧ s.pending = none ∧ phase = .preparing ∨
      s.phase = .preparing ∧ (phase = .idle ∨ phase = .failed)) := by
  have hend : ∀ phase, (∃ e, s.endPreparation requestId phase = Call.throw s e) ∨
      (s.endPreparation requestId phase = Call.ret { s with phase } () ∧ s.phase = .preparing) := fun phase => by
    unfold endPreparation
    rcases Call.attempt_cases (do
        s.checkOwner requestId
        raiseIf (s.phase ≠ .preparing) (.valueError "Request preparation is not active")) s _ with
      ⟨e, -, h⟩ | ⟨⟨⟩, hg, h⟩ <;> rw [h]
    · exact Or.inl ⟨e, rfl⟩
    · obtain ⟨⟨⟩, -, hg⟩ := bind_ok hg
      exact Or.inr ⟨rfl, by simpa using hg⟩
  rcases h with rfl | rfl | rfl
  · unfold beginPreparation
    rcases Call.attempt_cases (do
        s.checkOwner requestId
        raiseIf (s.phase ≠ .idle ∨ s.pending ≠ none ∨ s.finished = true)
          (.valueError "An unfinished idle request is required before device preparation")) s _ with
      ⟨e, -, h⟩ | ⟨⟨⟩, hg, h⟩ <;> rw [h]
    · exact Or.inl ⟨e, rfl⟩
    · obtain ⟨⟨⟩, -, hg⟩ := bind_ok hg
      simp only [raiseIf_ok, not_or, ne_eq, not_not] at hg
      exact Or.inr ⟨.preparing, rfl, Or.inl ⟨hg.1, hg.2.1, rfl⟩⟩
  · rcases hend .idle with h | ⟨h, hp⟩
    · exact Or.inl h
    · exact Or.inr ⟨.idle, h, Or.inr ⟨hp, Or.inl rfl⟩⟩
  · rcases hend .failed with h | ⟨h, hp⟩
    · exact Or.inl h
    · exact Or.inr ⟨.failed, h, Or.inr ⟨hp, Or.inr rfl⟩⟩

end GreedySession

end BlackholeQwen.Speculative
