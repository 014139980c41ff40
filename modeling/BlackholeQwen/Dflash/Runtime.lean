import BlackholeQwen.Dflash.Device
import BlackholeQwen.Serving.FastRequest
import BlackholeQwen.Verifier.Engine

/-!
# A request and its three parties

`DFlashRequestRuntime` (`dflash_request_runtime.py`) proposes for a `GreedySession` from the learned drafter, and
publishes a decided block to the target's engine and to the drafter. Here the engine is its phase, its frontier and its
pending ticket; what its traces and copies do is an exception that they may raise.

- `Parties`: the runtime, the engine and the drafter; `Request`: them and the session.
- `propose`, `discardProposal`, `publish`: the runtime's methods. `PublishEnv` may raise at the start and the end of
  every stage of a publication and within it.
- `Request.apply`: the calls that a request's owners make, in any order.
-/

namespace BlackholeQwen.Dflash

open Lib Speculative GreedySession

/-! ## The engine -/

/-- `VerifierEngine`, as its request sees it. -/
structure VerifierEngine where
  phase : Verifier.EnginePhase
  position : Nat
  pending : Option BlockTicket
  deriving DecidableEq, Repr

namespace VerifierEngine

/-- The checks of `verify` after the session's; `captured` says that a bucket holds the ticket. -/
def verifyCheck (e : VerifierEngine) (ticket : BlockTicket) (captured : Bool) : Except PyError Unit :=
  raiseIf (e.phase ≠ .idle ∨ e.pending ≠ none ∨ ticket.position ≠ e.position ∨ captured = false)
    (.valueError "An idle engine and its next supported request ticket are required")

/-- The checks of `adopt_packed` after the session's; `held` says that the block's segments hold the ticket's rows. -/
def adoptCheck (e : VerifierEngine) (ticket : BlockTicket) (held : Bool) : Except PyError Unit := do
  raiseIf (e.phase ≠ .idle ∨ e.pending ≠ none ∨ ticket.position ≠ e.position)
    (.valueError "Only an idle engine at the ticket frontier can adopt a packed verification")
  raiseIf (held = false) (.valueError "A packed block segment holding exactly this ticket's rows is required")

/-- The engine with a verified ticket. -/
def verified (e : VerifierEngine) (ticket : BlockTicket) : VerifierEngine :=
  { e with phase := .verified, pending := some ticket }

/-- `verified_features_for_publication`. -/
def featuresForPublication (e : VerifierEngine) (s : GreedySession) (ticket : BlockTicket)
    (outputs : Except PyError Unit) : Except PyError Unit := do
  raiseIf (e.phase ≠ .verified ∨ e.pending ≠ some ticket ∨ s.pending ≠ some ticket ∨ s.phase ≠ .committing)
    (.valueError "Feature publication requires the current committing verifier ticket")
  outputs

/-- The checks of `publish`. -/
def publishCheck (e : VerifierEngine) (s : GreedySession) (accepted : Nat) : Except PyError Unit := do
  raiseIf (e.phase ≠ .verified ∨ e.pending = none ∨ s.pending ≠ e.pending ∨ s.phase ≠ .committing)
    (.valueError "Publication requires the live verified ticket during its owner decision")
  raiseIf (e.pending.any (fun ticket => ticket.rows < accepted)) (.valueError "Selected prefix outside verified block")

/-- `publish`; `committed` is the commit of the engine's own bucket and its carry, or of the packed block. -/
def publish (e : VerifierEngine) (s : GreedySession) (accepted : Nat) (committed : Except PyError Unit) :
    Call VerifierEngine Unit :=
  Call.attempt (e.publishCheck s accepted) e fun _ =>
  Call.attempt committed { e with phase := .failed } fun _ =>
  Call.ret { e with position := e.position + accepted, phase := .idle, pending := none } ()

/-- A publication that returned moved the frontier by the accepted rows. -/
theorem publish_ok {e : VerifierEngine} {s : GreedySession} {accepted : Nat} {committed : Except PyError Unit}
    {u : Unit} (h : (e.publish s accepted committed).result = .ok u) :
    e.publish s accepted committed =
      Call.ret { e with position := e.position + accepted, phase := .idle, pending := none } () := by
  obtain ⟨⟨⟩, -, hc⟩ := Call.of_attempt h
  rw [publish, hc] at h ⊢
  obtain ⟨⟨⟩, -, hc⟩ := Call.of_attempt h
  exact hc

/-- `close`; `released` is its fence and its releases. -/
def close (e : VerifierEngine) (released : Except PyError Unit) : Call VerifierEngine Unit :=
  if e.phase = .closed then Call.ret e ()
  else Call.attempt (do
      raiseIf (e.phase ∉ [Verifier.EnginePhase.idle, .preparing, .failed, .parked])
        (.valueError "Finish or abort the pending verifier block before closing")
      released) e fun _ =>
  Call.ret { e with phase := .closed, pending := none } ()

end VerifierEngine

/-! ## The runtime -/

/-- `phase`. -/
inductive RuntimePhase
  | unbound | idle | drafting | proposed | committing | failed
  deriving DecidableEq, Repr

/-- `DFlashRequestRuntime`. -/
structure DFlashRequestRuntime where
  phase : RuntimePhase
  position : Nat
  maxDrafts : Nat
  proposed : List Token
  committedFeatureRows : Nat
  deriving DecidableEq, Repr

namespace DFlashRequestRuntime

/-- `__init__`. -/
def init (drafter : DFlashDevice) (position : Nat) : Except PyError DFlashRequestRuntime := do
  raiseIf (position < 1 ∨ drafter.position ≠ position)
    (.valueError "Prepared feature drafter at the exact prefilled frontier required")
  raiseIf (drafter.maxDrafts ∉ [7, 15, 31])
    (.valueError "Explicit supported feature-drafter proposal geometry required")
  return ⟨.unbound, position, drafter.maxDrafts, [], 0⟩

/-- `bind`, to a session and the engine built for it. -/
def bind (t : DFlashRequestRuntime) (s : GreedySession) : Except PyError DFlashRequestRuntime := do
  raiseIf (t.phase ≠ .unbound ∨ s.phase ≠ .idle ∨ s.position ≠ t.position)
    (.valueError "Current prefilled request and complete feature-retaining verifier required")
  return { t with phase := .idle }

/-- The checks of `__call__`. -/
def proposeCheck (t : DFlashRequestRuntime) (s : GreedySession) (d : DFlashDevice) (requestId : String)
    (history : List Token) (count : Nat) : Except PyError Unit :=
  raiseIf (t.phase ≠ .idle ∨ s.requestId ≠ requestId ∨ s.phase ≠ .drafting ∨ s.position ≠ t.position ∨
      d.position ≠ t.position ∨ history = [] ∨ history.getLast? ≠ s.seed ∨ count < 1)
    (.valueError "Feature proposal requires the current committed request frontier")

/-- The candidates of a proposal: the drafter's, as many as were asked for and all in the vocabulary. -/
def candidates (t : DFlashRequestRuntime) (s : GreedySession) (d : DFlashDevice) (count : Nat)
    (tokens : Except PyError (List Token)) : Except PyError (List Token) := do
  let candidates ← d.propose s.seed (min count t.maxDrafts) tokens
  raiseIf (candidates.length ≠ min count t.maxDrafts ∨ candidates.all (inVocab s.vocabSize) = false)
    (.valueError "Complete global feature-drafter proposal IDs required")
  return candidates

/-- `__call__`; `tokens` is what the drafter's trace reads back. -/
def propose (t : DFlashRequestRuntime) (s : GreedySession) (d : DFlashDevice) (requestId : String)
    (history : List Token) (count : Nat) (tokens : Except PyError (List Token)) :
    Call DFlashRequestRuntime (List Token) :=
  Call.attempt (t.proposeCheck s d requestId history count) t fun _ =>
  Call.attempt (t.candidates s d count tokens) { t with phase := .failed } fun candidates =>
  Call.ret { t with phase := .proposed, proposed := candidates } candidates

/-- `discard_proposal`. -/
def discardProposal (t : DFlashRequestRuntime) : Call DFlashRequestRuntime Unit :=
  if t.phase = .idle then Call.ret t ()
  else Call.attempt
    (raiseIf (t.phase ≠ .proposed) (.valueError "An idle or unpublished proposal is required to discard")) t fun _ =>
  Call.ret { t with proposed := [], phase := .idle } ()

/-- The runtime after a publication. -/
def published (t : DFlashRequestRuntime) (accepted : Nat) : DFlashRequestRuntime :=
  { t with
    position := t.position + accepted
    committedFeatureRows := t.committedFeatureRows + accepted
    proposed := []
    phase := .idle }

end DFlashRequestRuntime

/-! ## A publication -/

/-- The runtime, the engine and the drafter of a request. -/
structure Parties where
  runtime : DFlashRequestRuntime
  engine : VerifierEngine
  drafter : DFlashDevice
  deriving DecidableEq, Repr

/-- The stages of a publication. -/
inductive Stage
  | features | prepareHistory | publishTarget | commitHistory
  deriving DecidableEq, Repr

/-- What may raise in a publication: the start and the end of a stage, the reading of the features and their validation,
the drafter's and the engine's device work, and the audit of the committed cache. -/
structure PublishEnv where
  enter : Stage → Except PyError Unit
  leave : Stage → Except PyError Unit
  outputs : Except PyError Unit
  validate : Except PyError Unit
  prepare : PrepareEnv
  committed : Except PyError Unit
  audited : Except PyError Unit

/-- A publication under way: the parties, and the drafter's publication once it has been prepared. -/
structure Publishing where
  parties : Parties
  publication : Option DevicePublication

namespace Publishing

/-- `with self.publication_stage(name, prefix):`. -/
def within (env : PublishEnv) (stage : Stage) (w : Publishing) (body : Call Publishing Unit) : Call Publishing Unit :=
  Call.attempt (env.enter stage) w fun _ =>
  body.bind fun w _ =>
  Call.attempt (env.leave stage) w fun _ => Call.ret w ()

/-- The stages `features` and `prepare_history`. -/
def prepare (s : GreedySession) (ticket : BlockTicket) (accepted : Nat) (env : PublishEnv) (w : Publishing) :
    Call Publishing Unit :=
  (w.within env .features (Call.attempt (do
      w.parties.engine.featuresForPublication s ticket env.outputs
      env.validate) w fun _ => Call.ret w ())).bind fun w _ =>
  w.within env .prepareHistory
    (((w.parties.drafter.preparePublication accepted w.parties.runtime.position env.prepare).onto fun drafter =>
        { w with parties := { w.parties with drafter } }).bind fun w publication =>
      Call.ret { w with publication := some publication } ())

/-- The stage `publish_target`. -/
def target (s : GreedySession) (accepted : Nat) (env : PublishEnv) (w : Publishing) : Call Publishing Unit :=
  w.within env .publishTarget
    ((w.parties.engine.publish s accepted env.committed).onto fun engine =>
      { w with parties := { w.parties with engine } })

/-- The stage `commit_history`, where there is a publication. -/
def commit (env : PublishEnv) (w : Publishing) : Call Publishing Unit :=
  match w.publication with
  | none => Call.ret w ()
  | some p => w.within env .commitHistory
      ((w.parties.drafter.commitPublication p env.audited).onto fun drafter =>
        { w with parties := { w.parties with drafter } })

/-- The last check, and the runtime's own frontier. -/
def settle (accepted : Nat) (w : Publishing) : Call Publishing Unit :=
  Call.attempt
    (raiseIf (w.parties.drafter.position ≠ w.parties.runtime.position + accepted)
      (.valueError "Drafter and target feature frontiers diverged")) w fun _ =>
  Call.ret { w with parties := { w.parties with runtime := w.parties.runtime.published accepted } } ()

/-- The `try` of `publish`. -/
def stages (s : GreedySession) (ticket : BlockTicket) (accepted : Nat) (env : PublishEnv) (w : Publishing) :
    Call Publishing Unit :=
  (if accepted = 0 then Call.ret w () else w.prepare s ticket accepted env).bind fun w _ =>
  (w.target s accepted env).bind fun w _ =>
  (w.commit env).bind fun w _ =>
  w.settle accepted

end Publishing

namespace Parties

/-- The checks of `publish`: the live ticket. -/
def publishCheck (p : Parties) (s : GreedySession) (accepted : Nat) : Except PyError BlockTicket :=
  match s.pending with
  | none => .error (.valueError "Feature publication requires the current verified target transaction")
  | some ticket => do
    raiseIf (p.runtime.phase ∉ [RuntimePhase.idle, .proposed] ∨ s.phase ≠ .committing ∨ p.engine.phase ≠ .verified ∨
        p.engine.pending ≠ some ticket ∨ ticket.position ≠ p.runtime.position ∨ ticket.rows < accepted)
      (.valueError "Feature publication requires the current verified target transaction")
    return ticket

/-- The runtime and the engine have failed. -/
def failed (p : Parties) : Parties :=
  { p with runtime := { p.runtime with phase := .failed }, engine := { p.engine with phase := .failed } }

/-- The `except` of `publish`: the parties fail, and the drafter's publication is discarded. -/
def recover (w : Publishing) (e : PyError) : Call Parties Unit :=
  match w.publication with
  | none => Call.throw w.parties.failed e
  | some publication =>
    ((w.parties.failed.drafter.discardPublication publication).onto fun drafter =>
      { w.parties.failed with drafter }).bind fun p _ => Call.throw p e

/-- A publication under way, before its first stage. -/
def begun (p : Parties) : Publishing := ⟨{ p with runtime := { p.runtime with phase := .committing } }, none⟩

/-- `DFlashRequestRuntime.publish`. -/
def publish (p : Parties) (s : GreedySession) (accepted : Nat) (env : PublishEnv) : Call Parties Unit :=
  Call.attempt (p.publishCheck s accepted) p fun ticket =>
  match (p.begun.stages s ticket accepted env).result with
  | .ok () => Call.ret (p.begun.stages s ticket accepted env).obj.parties ()
  | .error e => recover (p.begun.stages s ticket accepted env).obj e

end Parties

/-! ## The request -/

/-- The adapter that `HybridDraft.propose` calls, if it gets as far as calling one. -/
def asked (d : HybridDraft) (requestId : String) (count : Nat) (selected : Option String) :
    Except PyError (Option String) := do
  d.lookup.checkOwner requestId
  raiseIf (¬(1 ≤ count ∧ count ≤ d.lookup.maxProposals))
    (.valueError "Proposal count exceeds the configured verifier capacity")
  let found ← d.lookupProposal requestId count
  return if found.1 = [] then selected.filter (fun name => d.neural.contains name) else none

/-- A request: its session and the parties bound to it. -/
structure Request where
  session : GreedySession
  parties : Parties

/-- A call on a request, with what the environment answers during it. -/
inductive Op
  /-- `session.propose`, with the runtime as the adapter `dflash2`. -/
  | propose (requestId : String) (maxRows : Nat) (selected : Option String) (adapters : Adapters) (ident : Nat)
      (tokens : Except PyError (List Token))
  | narrow (requestId : String) (ticket : BlockTicket) (rows ident : Nat)
  /-- `runtime.discard_proposal`. -/
  | discardProposal
  /-- `serving_worker_hook.discard_stale_ticket`, and `early_draft.discard_ticket` where no width is kept. -/
  | discardTicket (kept : Option Nat)
  /-- `engine.verify`. -/
  | verify (ticket : BlockTicket) (captured : Bool) (predicted : Except PyError Unit)
  /-- `engine.adopt_packed`. -/
  | adoptPacked (ticket : BlockTicket) (held : Bool)
  /-- `session.commit`, with `runtime.publish`. -/
  | commit (requestId : String) (ticket : BlockTicket) (predictions : List Token) (maxRows : Option Nat)
      (env : PublishEnv)
  /-- `session.abort`, with `runtime.publish`. -/
  | abort (requestId : String) (ticket : BlockTicket) (env : PublishEnv)
  /-- `session.fail_verification`. -/
  | failVerification (requestId : String) (ticket : BlockTicket)
  /-- `serving_packed_step.fail_round`, for this request. -/
  | failRound (requestId : String) (ticket : BlockTicket) (env : PublishEnv)
  /-- `runtime.publish`, outside a commit. -/
  | publish (accepted : Nat) (env : PublishEnv)
  /-- `engine.publish`, outside a commit. -/
  | publishTarget (accepted : Nat) (committed : Except PyError Unit)
  | closeSession (requestId : String)
  | closeEngine (released : Except PyError Unit)
  | closeDrafter (fenced kvReleased released : Except PyError Unit)

/-- The calls that would carry the request on. -/
def Op.Advances : Op → Prop
  | .propose .. | .narrow .. | .verify .. | .adoptPacked .. => True
  | .commit .. | .abort .. | .publish .. | .publishTarget .. => True
  | _ => False

namespace Request

/-- A session, and the drafter, the engine and the runtime built for it at its prefilled frontier. -/
def bound (s : GreedySession) (position historyRows maxDrafts : Nat) : Except PyError Request := do
  let runtime ← DFlashRequestRuntime.init (DFlashDevice.init position historyRows maxDrafts) position
  let runtime ← runtime.bind s
  return ⟨s, runtime, ⟨.idle, s.position, none⟩, DFlashDevice.init position historyRows maxDrafts⟩

/-- The session while its callback runs. -/
def drafting (r : Request) : GreedySession := { r.session with phase := .drafting }

/-- The session while its callback runs. -/
def committing (r : Request) : GreedySession := { r.session with phase := .committing }

/-- The runtime called as the session's adapter. -/
def call (r : Request) (requestId : String) (history : List Token) (count : Nat)
    (tokens : Except PyError (List Token)) : Call DFlashRequestRuntime (List Token) :=
  r.parties.runtime.propose r.drafting r.parties.drafter requestId history count tokens

/-- The session's adapters: the runtime under its name, and the others. -/
def adapters (r : Request) (others : Adapters) (tokens : Except PyError (List Token)) : Adapters :=
  fun name requestId history count =>
    if name = "dflash2" then (r.call requestId history count tokens).result else others name requestId history count

/-- `session.propose` calls the runtime. -/
def calls (r : Request) (requestId : String) (maxRows : Nat) (selected : Option String) : Bool :=
  (r.session.proposeGuard requestId maxRows).isOk && decide (1 < r.session.proposeLimit maxRows) &&
    decide ((asked r.session.drafter requestId (r.session.proposeLimit maxRows - 1) selected).toOption.join =
      some "dflash2")

/-- The runtime after a `session.propose`. -/
def proposed (r : Request) (requestId : String) (maxRows : Nat) (selected : Option String)
    (tokens : Except PyError (List Token)) : DFlashRequestRuntime :=
  if r.calls requestId maxRows selected then
    (r.call requestId r.session.drafter.lookup.history (r.session.proposeLimit maxRows - 1) tokens).obj
  else r.parties.runtime

/-- `session.propose`. -/
def propose (r : Request) (requestId : String) (maxRows : Nat) (selected : Option String) (others : Adapters)
    (ident : Nat) (tokens : Except PyError (List Token)) : Call Request BlockTicket :=
  (r.session.propose requestId maxRows selected (r.adapters others tokens) ident).onto fun session =>
    ⟨session, { r.parties with runtime := r.proposed requestId maxRows selected tokens }⟩

/-- A pending ticket is dropped: the drafter's proposal first, then the session's ticket. -/
def discardTicket (r : Request) (kept : Option Nat) : Call Request Unit :=
  match r.session.pending with
  | none => Call.ret r ()
  | some ticket =>
    if r.session.phase ≠ .pending ∨ some ticket.rows = kept then Call.ret r ()
    else (r.parties.runtime.discardProposal.onto fun runtime =>
        ({ r with parties := { r.parties with runtime } } : Request)).bind fun r _ =>
      Call.ret { r with session := { r.session with pending := none, phase := .idle } } ()

/-- `engine.verify`: a device failure fails the engine and the session. -/
def verify (r : Request) (ticket : BlockTicket) (captured : Bool) (predicted : Except PyError Unit) :
    Call Request Unit :=
  Call.attempt (do
      r.session.checkTicket r.session.requestId ticket
      r.parties.engine.verifyCheck ticket captured) r fun _ =>
  match predicted with
  | .ok () => Call.ret { r with parties := { r.parties with engine := r.parties.engine.verified ticket } } ()
  | .error e =>
    ((r.session.failVerification r.session.requestId ticket).onto fun session =>
        (⟨session, { r.parties with engine := { r.parties.engine with phase := .failed, pending := some ticket } }⟩ :
          Request)).bind fun r _ => Call.throw r e

/-- `engine.adopt_packed`. -/
def adoptPacked (r : Request) (ticket : BlockTicket) (held : Bool) : Call Request Unit :=
  Call.attempt (do
      r.session.checkTicket r.session.requestId ticket
      r.parties.engine.adoptCheck ticket held) r fun _ =>
  Call.ret { r with parties := { r.parties with engine := r.parties.engine.verified ticket } } ()

/-- What the session sees of a publication. -/
def callback (c : Call Parties Unit) : Callback :=
  match c.result with
  | .ok () => .returnsNone
  | .error e => .raises e

/-- The rows that `session.commit` publishes, where it gets as far as publishing. -/
def decided (r : Request) (requestId : String) (ticket : BlockTicket) (predictions : List Token)
    (maxRows : Option Nat) : Except PyError Nat :=
  (r.session.commitDecision requestId ticket predictions .returnsNone maxRows).map Decision.stateRows

/-- `session.commit(…, runtime.publish)`. -/
def commit (r : Request) (requestId : String) (ticket : BlockTicket) (predictions : List Token) (maxRows : Option Nat)
    (env : PublishEnv) : Call Request Unit :=
  Call.attempt (r.decided requestId ticket predictions maxRows) r fun accepted =>
  ((r.session.commit requestId ticket predictions (callback (r.parties.publish r.committing accepted env)) maxRows).onto
    fun session => ⟨session, (r.parties.publish r.committing accepted env).obj⟩).map fun _ => ()

/-- `session.abort(…, runtime.publish)`. -/
def abort (r : Request) (requestId : String) (ticket : BlockTicket) (env : PublishEnv) : Call Request Unit :=
  Call.attempt (r.session.abortGuard requestId ticket .returnsNone) r fun _ =>
  (r.session.abort requestId ticket (callback (r.parties.publish r.committing 0 env))).onto fun session =>
    ⟨session, (r.parties.publish r.committing 0 env).obj⟩

/-- `fail_round`, for this request: an adopted ticket is aborted, whatever comes of it, and the session fails. -/
def failRound (r : Request) (requestId : String) (ticket : BlockTicket) (env : PublishEnv) : Call Request Unit :=
  if r.session.phase ≠ .pending ∨ r.session.pending ≠ some ticket then Call.ret r ()
  else if r.parties.engine.phase = .verified then
    Call.ret { (r.abort requestId ticket env).obj with
      session := { (r.abort requestId ticket env).obj.session with phase := .failed } } ()
  else (r.session.failVerification requestId ticket).onto fun session => { r with session }

/-- Perform a call. -/
def apply (r : Request) : Op → Call Request Unit
  | .propose requestId maxRows selected others ident tokens =>
    (r.propose requestId maxRows selected others ident tokens).map fun _ => ()
  | .narrow requestId ticket rows ident =>
    ((r.session.narrow requestId ticket rows ident).onto fun session => { r with session }).map fun _ => ()
  | .discardProposal =>
    r.parties.runtime.discardProposal.onto fun runtime => { r with parties := { r.parties with runtime } }
  | .discardTicket kept => r.discardTicket kept
  | .verify ticket captured predicted => r.verify ticket captured predicted
  | .adoptPacked ticket held => r.adoptPacked ticket held
  | .commit requestId ticket predictions maxRows env => r.commit requestId ticket predictions maxRows env
  | .abort requestId ticket env => r.abort requestId ticket env
  | .failVerification requestId ticket =>
    (r.session.failVerification requestId ticket).onto fun session => { r with session }
  | .failRound requestId ticket env => r.failRound requestId ticket env
  | .publish accepted env => (r.parties.publish r.session accepted env).onto fun parties => { r with parties }
  | .publishTarget accepted committed =>
    (r.parties.engine.publish r.session accepted committed).onto fun engine =>
      { r with parties := { r.parties with engine } }
  | .closeSession requestId => (r.session.close requestId).onto fun session => { r with session }
  | .closeEngine released =>
    (r.parties.engine.close released).onto fun engine => { r with parties := { r.parties with engine } }
  | .closeDrafter fenced kvReleased released =>
    (r.parties.drafter.close fenced kvReleased released).onto fun drafter =>
      { r with parties := { r.parties with drafter } }

/-- One call. -/
def Step (r : Request) (op : Op) (r' : Request) : Prop := r' = (r.apply op).obj

end Request

end BlackholeQwen.Dflash
