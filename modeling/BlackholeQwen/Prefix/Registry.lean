import Mathlib.Data.Finset.Basic
import BlackholeQwen.Lib.Call
import BlackholeQwen.Lib.Dict

/-!
# The checkpoint registry

`Registry` is `qwen_prefix_registry.PrefixRegistry`: an LRU of checkpoints bounded by bytes, and the grants of the
current scheduler step.

A checkpoint is an object. Its fields but one never change; `pins` does, and other holders of the object see it. So
`Checkpoint` carries the object's identity with the constant fields, and the registry's state has the table of pins by
identity. Counters that nothing reads back are left out.

`κ` is the type of block hashes, `τ` the type of the model's host tensors.
-/

namespace BlackholeQwen.Prefix

open Lib

/-- A token id. -/
abbrev Token := Int

/-- `CHUNK`. -/
def CHUNK : Nat := 2048

/-- `BLOCK`. -/
def BLOCK : Nat := 64

/-- `CHECKPOINT_NBYTES`. -/
def CHECKPOINT_NBYTES : Nat := 2 * 48 * (24 * 128 * 128 * 4 + 3 * 5120 * 2)

/-- `floor_chunk`. -/
def floorChunk (tokens : Nat) : Nat := tokens / CHUNK * CHUNK

/-- `Checkpoint`; `ident` is the object's identity, `pins` is in the registry. -/
structure Checkpoint (κ τ : Type) where
  ident : Nat
  key : κ
  pos : Nat
  tokenIds : List Token
  recState : Option (List τ)
  carry : Option (List τ)
  nbytes : Nat
  serial : Nat

/-- `Checkpoint.matches`. -/
def Checkpoint.isMatch {κ τ : Type} (c : Checkpoint κ τ) (tokens : List Token) : Bool :=
  decide (tokens.length = c.pos) && decide (c.tokenIds = tokens)

/-- `Grant`; `request` is the handle of the request object, whose tokens the scheduler knows. -/
structure Grant (κ τ : Type) where
  reqId : String
  q : Nat
  h : Nat
  key : Option κ
  checkpoint : Option (Checkpoint κ τ)
  plan : List (Nat × κ)
  request : Option Nat
  tokens : Option (List Token)
  drain : Nat
  unplanned : List Nat

/-- The grant's checkpoint is the object `ident`. -/
def Grant.holds {κ τ : Type} (ident : Nat) (g : Grant κ τ) : Bool :=
  decide (g.checkpoint.map Checkpoint.ident = some ident)

/-- `PrefixRegistry`. `pins` is the `pins` of every checkpoint object by identity, `objects` how many there are. -/
structure Registry (κ τ : Type) where
  budgetBytes : Nat
  entries : Dict κ (Checkpoint κ τ)
  bytes : Int
  staged : Dict String (Grant κ τ)
  committed : Dict String (Grant κ τ)
  sameStepBlocks : Finset Nat
  disabled : Option String
  midLoopCapture : Bool
  orphanKeys : Finset κ
  tokenChecks : Dict String (Dict Nat (Nat × Bool))
  serials : Nat
  pins : Nat → Nat
  objects : Nat

namespace Registry

variable {κ τ : Type}

/-- `PrefixRegistry.__init__`. -/
def init (budgetBytes : Nat) (midLoopCapture : Bool) : Registry κ τ where
  budgetBytes
  entries := Dict.empty
  bytes := 0
  staged := Dict.empty
  committed := Dict.empty
  sameStepBlocks := ∅
  disabled := none
  midLoopCapture
  orphanKeys := ∅
  tokenChecks := Dict.empty
  serials := 1
  pins := fun _ => 0
  objects := 0

/-- `grant_for`. -/
def grantFor (r : Registry κ τ) (reqId : String) : Option (Grant κ τ) := r.committed.get? reqId

/-- `stage`. -/
def stage (r : Registry κ τ) (grant : Grant κ τ) : Registry κ τ :=
  { r with staged := r.staged.set grant.reqId grant }

/-- `unstage`. -/
def unstage (r : Registry κ τ) (reqId : String) : Registry κ τ := { r with staged := r.staged.erase reqId }

/-- `enable_mid_loop_capture`. -/
def enableMidLoopCapture (r : Registry κ τ) : Registry κ τ := { r with midLoopCapture := true }

/-- `clear`. -/
def clear (r : Registry κ τ) : Registry κ τ :=
  { r with entries := Dict.empty, bytes := 0, orphanKeys := ∅, tokenChecks := Dict.empty }

/-- `disable`. -/
def disable (r : Registry κ τ) (reason : String) : Registry κ τ :=
  ({ r with disabled := r.disabled.or (some reason) }).clear

/-- `checkpoint.pins -= 1` where it is positive. -/
def unpin (pins : Nat → Nat) (ident : Nat) : Nat → Nat := fun i => if i = ident then pins i - 1 else pins i

/-- `checkpoint.pins += 1`. -/
def pin (pins : Nat → Nat) (ident : Nat) : Nat → Nat := fun i => if i = ident then pins i + 1 else pins i

/-- The pins after releasing a list of grants. -/
def releasePins (pins : Nat → Nat) : List (Grant κ τ) → Nat → Nat
  | [] => pins
  | g :: gs => releasePins (match g.checkpoint with | none => pins | some c => unpin pins c.ident) gs

variable [DecidableEq κ]

/-- `get`. -/
def get (r : Registry κ τ) (key : κ) : Option (Checkpoint κ τ) := r.entries.get? key

/-- `touch`. -/
def touch (r : Registry κ τ) (key : κ) : Registry κ τ := { r with entries := r.entries.moveToEnd key }

/-- `_remove`. -/
def remove (r : Registry κ τ) (key : κ) : Registry κ τ :=
  match r.entries.get? key with
  | none => r
  | some checkpoint =>
    { r with
      entries := r.entries.erase key
      bytes := r.bytes - checkpoint.nbytes
      orphanKeys := r.orphanKeys.erase key }

/-- `drop`, which also returns the checkpoint. -/
def drop (r : Registry κ τ) (key : κ) : Registry κ τ × Option (Checkpoint κ τ) := (r.remove key, r.entries.get? key)

/-- The loop of `_enforce_budget` over the remaining keys of its snapshot. -/
def enforceLoop (r : Registry κ τ) : List κ → Registry κ τ
  | [] => r
  | key :: keys =>
    if r.bytes ≤ r.budgetBytes then r
    else match r.entries.get? key with
      | none => enforceLoop r keys
      | some checkpoint =>
        if r.pins checkpoint.ident ≠ 0 then enforceLoop r keys else enforceLoop (r.remove key) keys

/-- `_enforce_budget`. -/
def enforceBudget (r : Registry κ τ) : Registry κ τ :=
  if r.bytes ≤ r.budgetBytes then r else r.enforceLoop r.entries.keys

/-- The new entry of `put`. -/
def addEntry (r : Registry κ τ) (key : κ) (pos : Nat) (tokenIds : List Token) (recState carry : Option (List τ))
    (nbytes : Nat) : Registry κ τ :=
  { r with
    entries := r.entries.set key ⟨r.objects, key, pos, tokenIds, recState, carry, nbytes, r.serials⟩
    bytes := r.bytes + nbytes
    serials := r.serials + 1
    pins := fun i => if i = r.objects then 0 else r.pins i
    objects := r.objects + 1 }

/-- `put`. -/
def put (r : Registry κ τ) (key : κ) (pos : Nat) (tokenIds : List Token) (recState carry : Option (List τ))
    (nbytes : Nat) : Call (Registry κ τ) (Option (Checkpoint κ τ)) :=
  Call.attempt (do
      raiseIf (pos = 0 ∨ pos % CHUNK ≠ 0)
        (.valueError ("a checkpoint is only exact at a " ++ toString CHUNK ++ "-token boundary, not " ++ toString pos))
      raiseIf (tokenIds.length ≠ pos)
        (.valueError ("checkpoint at " ++ toString pos ++ " carries " ++ toString tokenIds.length ++ " token ids")))
    r fun () =>
  if r.disabled.isSome then Call.ret r none
  else if r.budgetBytes < nbytes then Call.ret r none
  else match r.entries.get? key with
    | none =>
      let new : Checkpoint κ τ := ⟨r.objects, key, pos, tokenIds, recState, carry, nbytes, r.serials⟩
      Call.ret (r.addEntry key pos tokenIds recState carry nbytes).enforceBudget (some new)
    | some old =>
      if r.pins old.ident ≠ 0 then Call.ret (r.touch key) (some old)
      else
        let new : Checkpoint κ τ := ⟨r.objects, key, pos, tokenIds, recState, carry, nbytes, r.serials⟩
        Call.ret ((r.remove key).addEntry key pos tokenIds recState carry nbytes).enforceBudget (some new)

/-- `tokens_match`; `tokens` is what the callable returns. -/
def tokensMatch (r : Registry κ τ) (reqId : String) (candidate : Nat) (entry : Checkpoint κ τ) (tokens : List Token) :
    Registry κ τ × Bool :=
  let memo := (r.tokenChecks.get? reqId).getD Dict.empty
  match (memo.get? candidate).filter (fun seen => seen.1 = entry.serial) with
  | some seen => ({ r with tokenChecks := r.tokenChecks.set reqId memo }, seen.2)
  | none =>
    let verdict := decide (entry.pos = candidate) && entry.isMatch (tokens.take candidate)
    ({ r with tokenChecks := r.tokenChecks.set reqId (memo.set candidate (entry.serial, verdict)) }, verdict)

/-- `note_orphan`. -/
def noteOrphan (r : Registry κ τ) (key : κ) : Registry κ τ :=
  if (r.entries.get? key).isSome then { r with orphanKeys := insert key r.orphanKeys } else r

/-- `begin_step` before its budget pass. -/
def release (r : Registry κ τ) : Registry κ τ :=
  { r with
    pins := releasePins r.pins r.committed.values
    committed := Dict.empty
    staged := Dict.empty
    sameStepBlocks := ∅ }

/-- `begin_step`. -/
def beginStep (r : Registry κ τ) : Registry κ τ := r.release.enforceBudget

/-- The tokens `commit` writes into a grant: those of its request up to its last planned boundary. -/
def planTokens (allTokenIds : Nat → List Token) (grant : Grant κ τ) : Except PyError (Option (List Token)) :=
  match (grant.plan.map Prod.fst).max? with
  | none => .ok grant.tokens
  | some last =>
    match grant.request with
    | none => .error .attributeError
    | some request => .ok (some ((allTokenIds request).take last))

/-- What `commit` does with the checkpoint of a grant. -/
def pinGrant (r : Registry κ τ) (grant : Grant κ τ) : Registry κ τ :=
  match grant.checkpoint with
  | none => r
  | some checkpoint =>
    { r with
      pins := pin r.pins checkpoint.ident
      entries := grant.key.elim r.entries r.entries.moveToEnd
      orphanKeys := grant.key.elim r.orphanKeys r.orphanKeys.erase }

/-- One iteration of the loop of `commit` past its two `continue`s. -/
def commitGrant (r : Registry κ τ) (reqId : String) (grant : Grant κ τ) (tokens : Option (List Token)) :
    Registry κ τ :=
  let r := r.pinGrant grant
  { r with committed := r.committed.set reqId { grant with tokens, request := none } }

/-- The loop of `commit` over the remaining staged grants. -/
def commitLoop (r : Registry κ τ) (admitted : Dict String Nat) (allTokenIds : Nat → List Token) :
    List (String × Grant κ τ) → Call (Registry κ τ) (List (Grant κ τ))
  | [] => Call.ret r []
  | (reqId, grant) :: rest =>
    if admitted.get? reqId ≠ some grant.q then commitLoop r admitted allTokenIds rest
    else Call.attempt (planTokens allTokenIds grant) r fun tokens =>
      (commitLoop (r.commitGrant reqId grant tokens) admitted allTokenIds rest).map
        (fun done => { grant with tokens, request := none } :: done)

/-- `commit`; `allTokenIds` is what the request objects hold. -/
def commit (r : Registry κ τ) (admitted : Dict String Nat) (allTokenIds : Nat → List Token) :
    Call (Registry κ τ) (List (Grant κ τ)) :=
  (commitLoop r admitted allTokenIds r.staged.items).bind fun r done =>
    Call.ret { r with staged := Dict.empty } done

/-- The `try` of `capture`. -/
def captureCall (r : Registry κ τ) (reqId : String) (pos : Nat) (recState carry : Option (List τ))
    (nbytes loopPos : Option Nat) : Call (Registry κ τ) (Option (Checkpoint κ τ)) :=
  match r.committed.get? reqId with
  | none => Call.throw r .keyError
  | some grant =>
    match (Dict.ofList grant.plan).get? pos with
    | none => Call.throw r .keyError
    | some key =>
      if loopPos ≠ some pos then
        Call.throw r (.valueError ("the state was taken after " ++ loopPos.elim "None" toString ++ " tokens, not " ++
          toString pos ++ ": refused (it would be restored as the state at " ++ toString pos ++ ")"))
      else match grant.tokens with
        | none => Call.throw r .typeError
        | some tokens => r.put key pos (tokens.take pos) recState carry (nbytes.getD CHECKPOINT_NBYTES)

/-- `capture`, which never raises. -/
def capture (r : Registry κ τ) (reqId : String) (pos : Nat) (recState carry : Option (List τ))
    (nbytes loopPos : Option Nat) : Registry κ τ × Option (Checkpoint κ τ) :=
  let c := r.captureCall reqId pos recState carry nbytes loopPos
  (c.obj, c.getD none)

/-- `forget_request`, which also returns whether the request was known. -/
def forgetRequest (r : Registry κ τ) (reqId : String) : Registry κ τ × Bool :=
  let staged := (r.staged.get? reqId).isSome
  let grant := r.committed.get? reqId
  ({ r with
      tokenChecks := r.tokenChecks.erase reqId
      staged := r.staged.erase reqId
      committed := r.committed.erase reqId
      pins := releasePins r.pins grant.toList },
    staged || grant.isSome)

end Registry

end BlackholeQwen.Prefix
