import BlackholeQwen.Lib.Call
import BlackholeQwen.Lib.Leases
import BlackholeQwen.Speculative.GreedyVerify
import Mathlib.Data.Finset.Card
import Mathlib.Data.Fintype.Card

/-!
# Prepared proposals

`PreparedDFlashProposal` and `PreparedPackedDFlashProposal` (`dflash_proposal_trace.py`) and
`PreparedQuadDFlashProposal` (`quad_draft.py`). `prepare_device` enqueues the copies of a proposal and the replay of
its trace, and keeps what was enqueued pending; `finish` reads the answer back once the caller has fenced the device.
The pair and the quad are one definition, `Shared`, with the number of users and the texts of their errors as
parameters.

What the device does is an argument of the call: `Enqueue` for what `prepare_device` meets, `Readback` for what is met
on reading back. A transient is known by the attempt that allocated it, so that the allocator's ledger can tell two
buffers at one address apart. The learned head is a `Selector`, a function of the outputs of the trace: the rows of its
search do not see each other, so a call over many users is one call for each of them.
-/

namespace BlackholeQwen.Dflash.Proposal

open Lib Speculative

/-! ## The device -/

/-- A transient: the attempt that allocated it, and its address. -/
structure Buffer where
  attempt : Nat
  address : Nat
  deriving DecidableEq, Repr

/-- The device's allocator: how many attempts have asked for transients, which they queued and which were freed. -/
structure Allocator where
  attempts : Nat
  ledger : Ledger Buffer
  deriving DecidableEq, Repr

namespace Allocator

/-- Nothing has been allocated. -/
def init : Allocator := ⟨0, .blank⟩

/-- The transients that the next attempt retains. -/
def next (d : Allocator) (addresses : List Nat) : List Buffer := addresses.map (Buffer.mk d.attempts)

/-- `device.temporaries` and its `retain`s. -/
def retain (d : Allocator) (addresses : List Nat) : Allocator :=
  ⟨d.attempts + 1, d.ledger.take (d.next addresses)⟩

/-- `release_owned`: each address once. -/
def releaseOwned (d : Allocator) (owned : List Buffer) : Allocator := { d with ledger := d.ledger.give owned.dedup }

end Allocator

/-- A prepared proposal and the device it runs on. -/
structure Hosted (τ : Type) where
  proposal : τ
  device : Allocator

/-- What a `prepare_device` meets: whether the devices decline, the bucket or why there is none, the host's checks, the
transients retained until the copies were enqueued or raised, and what the replayed trace leaves in its outputs. -/
structure Enqueue (β Out : Type) where
  declined : Bool
  bucket : Except PyError β
  checks : Except PyError Unit
  transients : List Nat
  copies : Except PyError Unit
  replay : Except PyError Out

/-- What reading back meets: whether the addresses of the inputs moved, and faults of the readback and the selection. -/
structure Readback where
  moved : Except PyError Bool
  read : Except PyError Unit
  select : Except PyError Unit

/-- A pending proposal: its seeds, its bucket, and the transients to release. -/
structure Pending (β : Type) where
  seeds : List Token
  bucket : β
  owned : List Buffer

/-- `release_owned` of the transients of a pending proposal. -/
def Hosted.release {τ β : Type} (s : Hosted τ) (p : Pending β) : Hosted τ :=
  { s with device := s.device.releaseOwned p.owned }

/-- `_update(..., defer_finish=True)`: the copies are enqueued, and what they retained is returned or, if they raise,
released. -/
def enqueueCopies {τ β Out : Type} (s : Hosted τ) (e : Enqueue β Out) : Call (Hosted τ) (List Buffer) :=
  .attempt e.checks s fun _ =>
    .attempt e.copies ⟨s.proposal, (s.device.retain e.transients).releaseOwned (s.device.next e.transients)⟩ fun _ =>
    .ret ⟨s.proposal, s.device.retain e.transients⟩ (s.device.next e.transients)

/-! ## Selection -/

/-- The learned head: what is read back of the outputs, for the only user or for each, and the search over one user's
rows. -/
structure Selector (Out Part : Type) where
  readOwn : Out → Except PyError Part
  readUsers : Out → Except PyError (List Part)
  width : Part → Nat
  choose : Part → Token → Except PyError (List Token)

namespace Selector

variable {Out Part : Type} (sel : Selector Out Part)

/-- `device.select_proposal`. -/
def selectProposal (out : Out) (seed : Token) (count : Nat) (r : Readback) : Except PyError (List Token) := do
  r.read
  let part ← sel.readOwn out
  r.select
  let tokens ← sel.choose part seed
  return tokens.take count

/-- The count check of one user. -/
def countCheck (part : Part) (count : Nat) : Except PyError Unit :=
  raiseIf (¬(1 ≤ count ∧ count ≤ sel.width part))
    (.valueError "Bounded proposal count within this user block required")

/-- One user of `select_packed`. -/
def selectUser (part : Part) (seed : Token) (count : Nat) : Except PyError (List Token) := do
  sel.countCheck part count
  let tokens ← sel.choose part seed
  return tokens.take count

/-- `select_packed`. -/
def selectPacked (parts : List Part) (seeds : List Token) (counts : List Nat) : Except PyError (List (List Token)) := do
  raiseIf (parts.length ≠ seeds.length ∨ parts.length ≠ counts.length)
    (.valueError "One anchor and one proposal count per packed user required")
  (parts.zip (seeds.zip counts)).mapM fun u => sel.selectUser u.1 u.2.1 u.2.2

/-- `select_packed_batched`: every count is checked, then one search runs over all rows. -/
def selectPackedBatched (parts : List Part) (seeds : List Token) (counts : List Nat) :
    Except PyError (List (List Token)) := do
  raiseIf (parts = [] ∨ parts.length ≠ seeds.length ∨ parts.length ≠ counts.length)
    (.valueError "One anchor and one proposal count per packed user required")
  let _ ← (parts.zip counts).mapM fun u => sel.countCheck u.1 u.2
  let chosen ← (parts.zip seeds).mapM fun u => sel.choose u.1 u.2
  return (chosen.zip counts).map fun u => u.1.take u.2

/-- `select_device_outputs` and `select_quad_outputs`: the outputs are read, split by user, and selected. -/
def selectOutputs (out : Out) (seeds : List Token) (counts : List Nat) (r : Readback) :
    Except PyError (List (List Token)) := do
  r.read
  let parts ← sel.readUsers out
  r.select
  sel.selectPacked parts seeds counts

/-- `read_device_outputs` and `read_quad_outputs`. -/
def readOutputs (out : Out) (r : Readback) : Except PyError (List Part) := do
  r.read
  sel.readUsers out

end Selector

/-! ## One selection for a round -/

/-- What `collect` returns. -/
structure Collected (Part : Type) where
  parts : List Part
  seeds : List Token
  counts : List Nat

/-- Every user has a seed and a count. -/
def Collected.Even {Part : Type} (c : Collected Part) : Prop :=
  c.seeds.length = c.parts.length ∧ c.counts.length = c.parts.length

section Batch

variable {Out Part : Type} {sel : Selector Out Part}

theorem Collected.flatMap_even {cs : List (Collected Part)} (h : ∀ c ∈ cs, c.Even) :
    (cs.flatMap (·.seeds)).length = (cs.flatMap (·.parts)).length ∧
      (cs.flatMap (·.counts)).length = (cs.flatMap (·.parts)).length := by
  induction cs with
  | nil => exact ⟨rfl, rfl⟩
  | cons c cs ih =>
    obtain ⟨h1, h2⟩ := h c List.mem_cons_self
    obtain ⟨h3, h4⟩ := ih fun d hd => h d (List.mem_cons_of_mem _ hd)
    simp only [List.flatMap_cons, List.length_append]
    omega

namespace Selector

/-- The batched selection of a round: the users of every collected proposal, one after the other. -/
def batch (sel : Selector Out Part) (cs : List (Collected Part)) : Except PyError (List (List Token)) :=
  sel.selectPackedBatched (cs.flatMap (·.parts)) (cs.flatMap (·.seeds)) (cs.flatMap (·.counts))

/-- Checking every count and then searching every row selects for every user. -/
theorem selectUsers_of_batched {parts : List Part} {seeds : List Token} {counts : List Nat}
    (h1 : parts.length = seeds.length) (h2 : parts.length = counts.length) {us : List Unit}
    {chosen : List (List Token)} (hcheck : ((parts.zip counts).mapM fun u => sel.countCheck u.1 u.2) = .ok us)
    (hchoose : ((parts.zip seeds).mapM fun u => sel.choose u.1 u.2) = .ok chosen) :
    ((parts.zip (seeds.zip counts)).mapM fun u => sel.selectUser u.1 u.2.1 u.2.2) =
      .ok ((chosen.zip counts).map fun u => u.1.take u.2) := by
  induction parts generalizing seeds counts us chosen with
  | nil => cases hchoose; rfl
  | cons part parts ih =>
    cases seeds with
    | nil => cases h1
    | cons seed seeds =>
    cases counts with
    | nil => cases h2
    | cons count counts =>
    rw [List.zip_cons_cons, List.mapM_cons] at hcheck hchoose
    obtain ⟨u, hu, hcheck⟩ := bind_ok hcheck
    obtain ⟨us', hus, -⟩ := bind_ok hcheck
    obtain ⟨ts, hts, hchoose⟩ := bind_ok hchoose
    obtain ⟨rest, hrest, hchoose⟩ := bind_ok hchoose
    cases hchoose
    have huser : sel.selectUser part seed count = .ok (ts.take count) := by
      unfold selectUser
      rw [show sel.countCheck part count = .ok u from hu, show sel.choose part seed = .ok ts from hts]
      rfl
    rw [List.zip_cons_cons, List.zip_cons_cons, List.mapM_cons, huser,
      ih (Nat.succ.inj h1) (Nat.succ.inj h2) hus hrest]
    rfl

/-- A batched selection that returns selects for every user. -/
theorem batch_ok {parts : List Part} {seeds : List Token} {counts : List Nat} {all : List (List Token)}
    (h : sel.selectPackedBatched parts seeds counts = .ok all) :
    parts.length = seeds.length ∧ parts.length = counts.length ∧
      ((parts.zip (seeds.zip counts)).mapM fun u => sel.selectUser u.1 u.2.1 u.2.2) = .ok all := by
  obtain ⟨u, hu, h⟩ := bind_ok h
  obtain ⟨us, hus, h⟩ := bind_ok h
  obtain ⟨chosen, hchosen, h⟩ := bind_ok h
  cases h
  have hlen := raiseIf_ok.mp hu
  have h1 : parts.length = seeds.length := by by_contra hne; exact hlen (Or.inr (Or.inl hne))
  have h2 : parts.length = counts.length := by by_contra hne; exact hlen (Or.inr (Or.inr hne))
  exact ⟨h1, h2, selectUsers_of_batched h1 h2 hus hchosen⟩

/-- The users of two lists of proposals, one after the other. -/
theorem zip_users_append {ps : List Part} {ss : List Token} {cs : List Nat} (h1 : ss.length = ps.length)
    (h2 : cs.length = ps.length) (ps' : List Part) (ss' : List Token) (cs' : List Nat) :
    (ps ++ ps').zip ((ss ++ ss').zip (cs ++ cs')) = ps.zip (ss.zip cs) ++ ps'.zip (ss'.zip cs') := by
  rw [List.zip_append (h1.trans h2.symm), List.zip_append]
  rw [List.length_zip, h1, h2, Nat.min_self]

/-- **The batched selection of a round selects for each proposal what `select_packed` selects for it alone.** -/
theorem batch_slice {before after : List (Collected Part)} {c : Collected Part} {all : List (List Token)}
    (h : sel.batch (before ++ c :: after) = .ok all) (hbefore : ∀ d ∈ before, d.Even) (hafter : ∀ d ∈ after, d.Even)
    (hc : c.seeds.length = c.counts.length) :
    sel.selectPacked c.parts c.seeds c.counts =
      .ok ((all.drop (before.flatMap (·.parts)).length).take c.parts.length) := by
  obtain ⟨h1, h2, hall⟩ := batch_ok h
  obtain ⟨hb1, hb2⟩ := Collected.flatMap_even hbefore
  obtain ⟨ha1, ha2⟩ := Collected.flatMap_even hafter
  simp only [List.flatMap_append, List.flatMap_cons, List.length_append] at h1 h2
  have hc1 : c.parts.length = c.seeds.length := by omega
  have hc2 : c.parts.length = c.counts.length := by omega
  have hrows := zip_users_append hb1 hb2 (c.parts ++ after.flatMap (·.parts)) (c.seeds ++ after.flatMap (·.seeds))
    (c.counts ++ after.flatMap (·.counts))
  have hown := zip_users_append hc1.symm hc2.symm (after.flatMap (·.parts)) (after.flatMap (·.seeds))
    (after.flatMap (·.counts))
  simp only [List.flatMap_append, List.flatMap_cons, hrows, hown] at hall
  have hcut := (mapM_append_ok (mapM_append_ok hall).2).1
  have hwidth : (c.parts.zip (c.seeds.zip c.counts)).length = c.parts.length := by
    simp only [List.length_zip]; omega
  have hoffset : ((before.flatMap (·.parts)).zip
      ((before.flatMap (·.seeds)).zip (before.flatMap (·.counts)))).length = (before.flatMap (·.parts)).length := by
    simp only [List.length_zip]; omega
  rw [hwidth, hoffset] at hcut
  unfold selectPacked
  rw [show raiseIf (c.parts.length ≠ c.seeds.length ∨ c.parts.length ≠ c.counts.length) _ = .ok () from
    raiseIf_ok.mpr (by omega)]
  exact hcut

end Selector

end Batch

/-! ## One user -/

/-- `PreparedDFlashProposal`: the pending proposal, and what each bucket's trace last left in its outputs. -/
structure PreparedDFlashProposal (β Out : Type) where
  closed : Bool
  pending : Option (Pending β)
  outputs : β → Option Out

namespace PreparedDFlashProposal

variable {β Out Part : Type} [DecidableEq β]

/-- A capture that has prepared nothing. -/
def init : PreparedDFlashProposal β Out := ⟨false, none, fun _ => none⟩

/-- `has_pending`. -/
def hasPending (t : PreparedDFlashProposal β Out) (seed : Token) : Bool :=
  match t.pending with
  | none => false
  | some p => decide (p.seeds = [seed])

/-- `discard_pending`. -/
def discardPending (s : Hosted (PreparedDFlashProposal β Out)) : Hosted (PreparedDFlashProposal β Out) :=
  match s.proposal.pending with
  | none => s
  | some p => ⟨{ s.proposal with pending := none }, s.device.releaseOwned p.owned⟩

/-- `prepare_device`. -/
def prepareDevice (s : Hosted (PreparedDFlashProposal β Out)) (seed : Token) (e : Enqueue β Out) :
    Call (Hosted (PreparedDFlashProposal β Out)) Bool :=
  if s.proposal.closed ∨ e.declined then .ret s false
  else
    .attempt e.bucket (discardPending s) fun bucket =>
    (enqueueCopies (discardPending s) e).bind fun s owned =>
    .attempt e.replay s fun out =>
    .ret { s with proposal := { s.proposal with
      pending := some ⟨[seed], bucket, owned⟩
      outputs := Function.update s.proposal.outputs bucket (some out) } } true

/-- The tail of `finish`, once the transients are released. -/
def selected (sel : Selector Out Part) (t : PreparedDFlashProposal β Out) (p : Pending β) (count : Nat)
    (r : Readback) : Except PyError (List Token) :=
  match t.outputs p.bucket, p.seeds with
  | some out, [seed] => sel.selectProposal out seed count r
  | _, _ => .error .attributeError

/-- `finish`: whether or not the address check raises, the transients are released. -/
def finish (sel : Selector Out Part) (s : Hosted (PreparedDFlashProposal β Out)) (count : Nat) (r : Readback) :
    Call (Hosted (PreparedDFlashProposal β Out)) (List Token) :=
  match s.proposal.pending with
  | none => .throw s (.valueError "No prepared proposal is pending")
  | some p =>
    .attempt r.moved (discardPending s) fun moved =>
    .attempt (raiseIf moved (.assertionError "Prepared proposal input addresses moved")) (discardPending s) fun _ =>
    .attempt (selected sel s.proposal p count r) (discardPending s) fun tokens => .ret (discardPending s) tokens

/-- `close`. -/
def close (s : Hosted (PreparedDFlashProposal β Out)) : Hosted (PreparedDFlashProposal β Out) :=
  if s.proposal.closed then s
  else { discardPending s with proposal := { (discardPending s).proposal with closed := true } }

end PreparedDFlashProposal

/-! ## A pair and a quad -/

/-- What a pair and a quad differ in. -/
structure Kind where
  users : Nat
  blockRows : Nat
  anchors : String
  missing : String
  moved : String
  selected : String
  unadopted : String

/-- `bucket.tokens`, `bucket.consumed`, and what the bucket's trace last left in its outputs. -/
structure Bucket (users : Nat) (Out : Type) where
  outputs : Option Out
  tokens : Option (List (List Token))
  consumed : Finset (Fin users)

/-- A bucket that no trace has been replayed in. -/
def Bucket.fresh {users : Nat} {Out : Type} : Bucket users Out := ⟨none, none, ∅⟩

/-- Nothing is selected and nobody has been answered. -/
def Bucket.reset {users : Nat} {Out : Type} (b : Bucket users Out) : Bucket users Out :=
  { b with tokens := none, consumed := ∅ }

/-- What a prepared pair and a prepared quad keep; a bucket that is not yet built is `fresh`. -/
structure Shared (users : Nat) (β Out : Type) where
  closed : Bool
  pending : Option (Pending β)
  buckets : β → Bucket users Out

namespace Shared

variable {β Out Part : Type} [DecidableEq β] (k : Kind)

/-- A capture that has prepared nothing. -/
def init (users : Nat) : Shared users β Out := ⟨false, none, fun _ => .fresh⟩

/-- A bucket is written. -/
def setBucket {users : Nat} (t : Shared users β Out) (bucket : β) (b : Bucket users Out) : Shared users β Out :=
  { t with buckets := Function.update t.buckets bucket b }

section SetBucket

variable {users : Nat} (t : Shared users β Out) (bucket : β) (b : Bucket users Out)

@[simp] theorem setBucket_pending : (t.setBucket bucket b).pending = t.pending := rfl
@[simp] theorem setBucket_closed : (t.setBucket bucket b).closed = t.closed := rfl
@[simp] theorem setBucket_self : (t.setBucket bucket b).buckets bucket = b := Function.update_self ..
theorem setBucket_of_ne {bucket' : β} (h : bucket' ≠ bucket) :
    (t.setBucket bucket b).buckets bucket' = t.buckets bucket' := Function.update_of_ne h ..

end SetBucket

/-- `bucket.tokens = tokens` of the pending bucket. -/
def setTokens {users : Nat} (t : Shared users β Out) (p : Pending β) (tokens : List (List Token)) :
    Shared users β Out :=
  t.setBucket p.bucket { t.buckets p.bucket with tokens := some tokens }

/-- `has_pending`. -/
def hasPending {users : Nat} (t : Shared users β Out) (which : Fin users) (seed : Token) : Bool :=
  match t.pending with
  | none => false
  | some p => decide (which ∉ (t.buckets p.bucket).consumed) && decide (p.seeds[which.val]? = some seed)

/-- `discard_pending`. -/
def discardPending {users : Nat} (s : Hosted (Shared users β Out)) : Hosted (Shared users β Out) :=
  match s.proposal.pending with
  | none => s
  | some p =>
    ⟨{ s.proposal with pending := none }.setBucket p.bucket (s.proposal.buckets p.bucket).reset,
      s.device.releaseOwned p.owned⟩

/-- The trace has been enqueued: its proposal is pending. -/
def enqueued {users : Nat} (t : Shared users β Out) (seeds : List Token) (bucket : β) (owned : List Buffer)
    (out : Out) : Shared users β Out :=
  { t with pending := some ⟨seeds, bucket, owned⟩ }.setBucket bucket { t.buckets bucket with outputs := some out }

/-- `prepare_device`. -/
def prepareDevice (s : Hosted (Shared k.users β Out)) (seeds : List Token) (e : Enqueue β Out) :
    Call (Hosted (Shared k.users β Out)) Bool :=
  if s.proposal.closed then .ret s false
  else
    .attempt (raiseIf (seeds.length ≠ k.users) (.valueError k.anchors)) (discardPending s) fun _ =>
    if e.declined then .ret (discardPending s) false
    else
      .attempt e.bucket (discardPending s) fun bucket =>
      (enqueueCopies (discardPending s) e).bind fun s owned =>
      .attempt e.replay s fun out =>
      .ret { s with proposal := s.proposal.enqueued seeds bucket owned out } true

/-- The counts that every user is selected with. -/
def counts : List Nat := List.replicate k.users (k.blockRows - 1)

/-- What `finish` selects from the bucket's outputs. -/
def selected (sel : Selector Out Part) (t : Shared k.users β Out) (p : Pending β) (r : Readback) :
    Except PyError (List (List Token)) :=
  match (t.buckets p.bucket).outputs with
  | none => .error .attributeError
  | some out => sel.selectOutputs out p.seeds (counts k) r

/-- The first `finish` of a proposal checks the addresses, releases the transients and selects for every user; the
pending entry keeps the transients it had. -/
def ensureTokens (sel : Selector Out Part) (s : Hosted (Shared k.users β Out)) (p : Pending β) (r : Readback) :
    Call (Hosted (Shared k.users β Out)) (List (List Token)) :=
  match (s.proposal.buckets p.bucket).tokens with
  | some tokens => .ret s tokens
  | none =>
    .attempt r.moved s fun moved =>
    .attempt (raiseIf moved (.assertionError k.moved)) (s.release p) fun _ =>
    .attempt (selected k sel s.proposal p r) (s.release p) fun tokens =>
    .ret { s.release p with proposal := s.proposal.setTokens p tokens } tokens

/-- A user has its tokens; after the last one nothing is pending. -/
def consume {users : Nat} (t : Shared users β Out) (p : Pending β) (which : Fin users) : Shared users β Out :=
  let b := t.buckets p.bucket
  let consumed := insert which b.consumed
  if consumed.card = users then { t with pending := none }.setBucket p.bucket b.reset
  else t.setBucket p.bucket { b with consumed }

/-- `tokens[which]`. -/
def own (tokens : List (List Token)) (which : Nat) : Except PyError (List Token) :=
  match tokens[which]? with
  | none => .error .indexError
  | some ts => .ok ts

/-- `finish`. -/
def finish (sel : Selector Out Part) (s : Hosted (Shared k.users β Out)) (which : Fin k.users) (count : Nat)
    (r : Readback) : Call (Hosted (Shared k.users β Out)) (List Token) :=
  match s.proposal.pending with
  | none => .throw s (.valueError k.missing)
  | some p =>
    (ensureTokens k sel s p r).bind fun s tokens =>
    .attempt (own tokens which) s fun ts => .ret { s with proposal := s.proposal.consume p which } (ts.take count)

/-- Whether the pending proposal was already selected. -/
def taken {users : Nat} (t : Shared users β Out) (p : Pending β) : Prop :=
  (t.buckets p.bucket).tokens ≠ none ∨ (t.buckets p.bucket).consumed ≠ ∅

instance {users : Nat} (t : Shared users β Out) (p : Pending β) : Decidable (t.taken p) := by
  unfold taken; infer_instance

/-- The readback of `collect`. -/
def readBack (sel : Selector Out Part) (t : Shared k.users β Out) (p : Pending β) (r : Readback) :
    Except PyError (List Part) :=
  match (t.buckets p.bucket).outputs with
  | none => .error .attributeError
  | some out => sel.readOutputs out r

/-- The pending entry keeps an empty list of transients. -/
def emptied {users : Nat} (s : Hosted (Shared users β Out)) (p : Pending β) : Hosted (Shared users β Out) :=
  { s with proposal := { s.proposal with pending := some { p with owned := [] } } }

/-- `collect`: the pending entry keeps no transients, from before the addresses are read. -/
def collect (sel : Selector Out Part) (s : Hosted (Shared k.users β Out)) (r : Readback) :
    Call (Hosted (Shared k.users β Out)) (Collected Part) :=
  match s.proposal.pending with
  | none => .throw s (.valueError k.missing)
  | some p =>
    .attempt (raiseIf (s.proposal.taken p) (.valueError k.selected)) s fun _ =>
    .attempt r.moved (emptied s p) fun moved =>
    .attempt (raiseIf moved (.assertionError k.moved)) ((emptied s p).release p) fun _ =>
    .attempt (readBack k sel s.proposal p r) ((emptied s p).release p) fun parts =>
    .ret ((emptied s p).release p) ⟨parts, p.seeds, counts k⟩

/-- `adopt`. -/
def adopt (s : Hosted (Shared k.users β Out)) (tokens : List (List Token)) :
    Call (Hosted (Shared k.users β Out)) Unit :=
  match s.proposal.pending with
  | none => .throw s (.valueError k.missing)
  | some p =>
    if s.proposal.taken p ∨ tokens.length ≠ k.users then .throw s (.valueError k.unadopted)
    else .ret { s with proposal := s.proposal.setTokens p tokens } ()

/-- `close`. -/
def close {users : Nat} (s : Hosted (Shared users β Out)) : Hosted (Shared users β Out) :=
  if s.proposal.closed then s
  else { discardPending s with
    proposal := { (discardPending s).proposal with closed := true, buckets := fun _ => .fresh } }

end Shared

/-- A side of a pair. -/
inductive Side
  | a | b
  deriving DecidableEq, Repr

/-- `0 if which == 'a' else 1`. -/
def Side.index : Side → Fin 2
  | .a => 0
  | .b => 1

namespace PreparedPackedDFlashProposal

variable {β Out Part : Type} [DecidableEq β] (blockRows : Nat)

/-- What a pair is. -/
def kind : Kind where
  users := 2
  blockRows := blockRows
  anchors := ""
  missing := "No prepared packed proposal is pending"
  moved := "Prepared packed proposal input addresses moved"
  selected := "This packed proposal was already selected"
  unadopted := "Both users of one pending packed proposal must adopt one selection"

/-- `prepare_device`: a pair is always given two anchors. -/
def prepareDevice (s : Hosted (Shared 2 β Out)) (seedA seedB : Token) (e : Enqueue β Out) :
    Call (Hosted (Shared 2 β Out)) Bool := Shared.prepareDevice (kind blockRows) s [seedA, seedB] e

/-- `has_pending`. -/
def hasPending (t : Shared 2 β Out) (which : Side) (seed : Token) : Bool := t.hasPending which.index seed

/-- `finish`. -/
def finish (sel : Selector Out Part) (s : Hosted (Shared 2 β Out)) (which : Side) (count : Nat) (r : Readback) :
    Call (Hosted (Shared 2 β Out)) (List Token) := Shared.finish (kind blockRows) sel s which.index count r

/-- `collect`. -/
def collect (sel : Selector Out Part) (s : Hosted (Shared 2 β Out)) (r : Readback) :
    Call (Hosted (Shared 2 β Out)) (Collected Part) := Shared.collect (kind blockRows) sel s r

/-- `adopt`. -/
def adopt (s : Hosted (Shared 2 β Out)) (tokens : List (List Token)) : Call (Hosted (Shared 2 β Out)) Unit :=
  Shared.adopt (kind blockRows) s tokens

end PreparedPackedDFlashProposal

namespace PreparedQuadDFlashProposal

variable {β Out Part : Type} [DecidableEq β]

/-- What a quad is. -/
def kind : Kind where
  users := 4
  blockRows := 16
  anchors := "One anchor per quad user required"
  missing := "No prepared quad proposal is pending"
  moved := "Prepared quad proposal input addresses moved"
  selected := "This quad proposal was already selected"
  unadopted := "All four users of one pending quad proposal must adopt one selection"

/-- `prepare_device`. -/
def prepareDevice (s : Hosted (Shared 4 β Out)) (seeds : List Token) (e : Enqueue β Out) :
    Call (Hosted (Shared 4 β Out)) Bool := Shared.prepareDevice kind s seeds e

/-- `has_pending`. -/
def hasPending (t : Shared 4 β Out) (which : Fin 4) (seed : Token) : Bool := t.hasPending which seed

/-- `finish`. -/
def finish (sel : Selector Out Part) (s : Hosted (Shared 4 β Out)) (which : Fin 4) (count : Nat) (r : Readback) :
    Call (Hosted (Shared 4 β Out)) (List Token) := Shared.finish kind sel s which count r

/-- `collect`. -/
def collect (sel : Selector Out Part) (s : Hosted (Shared 4 β Out)) (r : Readback) :
    Call (Hosted (Shared 4 β Out)) (Collected Part) := Shared.collect kind sel s r

/-- `adopt`. -/
def adopt (s : Hosted (Shared 4 β Out)) (tokens : List (List Token)) : Call (Hosted (Shared 4 β Out)) Unit :=
  Shared.adopt kind s tokens

end PreparedQuadDFlashProposal

end BlackholeQwen.Dflash.Proposal
