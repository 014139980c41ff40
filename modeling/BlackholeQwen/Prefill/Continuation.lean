import BlackholeQwen.Lib.Call
import BlackholeQwen.Lib.Runs
import BlackholeQwen.Lib.Spans

/-!
# Prefill continuation

`ContinuationController` of `optimisation/sim/continuation.py`: one prompt owns the prefill scratch from its chunk at 0
to its final chunk, or until it is cancelled. `backend.run` and `backend.drain` may raise; what they answer is data of a
call.

`Scratch` is the controller with the log of what reached the device. `forward_cases` says what a call can do, `Tracked`
that the newest entry of the log determines the controller, and `RunsOnce` is read off the log.
-/

namespace BlackholeQwen.Prefill.Continuation

open Lib

/-! ## What a call is passed -/

/-- The element types told apart. -/
inductive DType
  | int32 | int64 | bool | other
  deriving DecidableEq, Repr

/-- `dtype in (torch.int32, torch.int64)`. -/
def DType.integral (d : DType) : Bool := d = .int32 || d = .int64

/-- A tensor; `rows` is `none` where it is not two-dimensional. -/
structure Tensor where
  rows : Option (List (List Int))
  cpu : Bool
  dtype : DType

/-- The row of a two-dimensional tensor that has one. -/
def Tensor.row? (t : Tensor) : Option (List Int) :=
  match t.rows with
  | some [row] => some row
  | _ => none

/-- A position, slot, epoch or marker. -/
inductive Scalar
  | int (n : Int) | bool (b : Bool) | tensor (dtype : DType) (values : List Int) | other
  deriving DecidableEq, Repr

/-- A request id. -/
inductive RequestId
  | str (id : String) | other
  deriving DecidableEq, Repr

/-- A value of the metadata: not there, without a length, or a row. -/
inductive Field (α : Type)
  | missing | unsized | row (values : List α)

/-- `len(value)`; `none` where it raises. -/
def Field.len {α : Type} : Field α → Option Nat
  | .row values => some values.length
  | _ => none

/-- `value[0]`. -/
def Field.first {α : Type} : Field α → Except PyError α
  | .missing => .error .keyError
  | .unsized => .error .typeError
  | .row [] => .error .indexError
  | .row (x :: _) => .ok x

/-- `pixel_values`: absent or `None`, a list of one `None`, or anything else. -/
inductive Pixels
  | none | absentRow | present
  deriving DecidableEq, Repr

/-- `metadata`; `visionTokens` says that they are not `None`. -/
structure Metadata where
  startPos : Field Scalar
  intermediatePrefillMask : Field Scalar
  requestIds : Field RequestId
  requestEpochs : Field Scalar
  emptySlots : Field Scalar
  pixelValues : Pixels
  pixelValuesVideos : Pixels
  visionTokens : Bool

/-- The arguments of `forward`; `promptLens` is `missing` where it is `None`. -/
structure Args where
  tokens : Tensor
  pageTable : Tensor
  promptLens : Field Scalar
  metadata : Metadata

/-- The backend's limits. The chunk is a positive multiple of the block. -/
structure Backend where
  chunkSize : Nat
  blockSize : Nat
  maxLength : Nat
  maxSlots : Nat
  pageCapacity : Nat
  physicalPages : Nat
  vocabSize : Nat
  chunk_pos : 0 < chunkSize
  block_dvd : blockSize ∣ chunkSize

/-- `math.ceil(n / block_size)`: the pages that `n` tokens fill. -/
def Backend.usedPages (b : Backend) (n : Nat) : Nat := (n + b.blockSize - 1) / b.blockSize

/-- A request and its epoch. -/
abbrev Owner := String × Int

/-- What an admitted call runs: the tokens up to `stop`, and the whole page table. -/
structure Chunk where
  owner : Owner
  tokens : List Int
  tokenType : DType
  pages : List Int
  pageType : DType
  start : Nat
  stop : Nat
  final : Bool
  slot : Nat
  deriving DecidableEq, Repr

/-- The rows a chunk computes. -/
def Chunk.size (k : Chunk) : Nat := k.stop - k.start

/-! ## The checks -/

/-- `integer`. -/
def integer : Scalar → Except PyError Int
  | .tensor dtype [value] =>
    if dtype.integral then .ok value else .error (.valueError "Positions and slots must be scalar integers")
  | .tensor _ _ => .error (.valueError "Positions and slots must be scalar integers")
  | .int n => .ok n
  | _ => .error (.valueError "Positions and slots must be integers")

/-- The intermediate-prefill marker. -/
def marker : Scalar → Except PyError Bool
  | .tensor .bool [value] => .ok (value ≠ 0)
  | .bool b => .ok b
  | _ => .error (.valueError "Intermediate-prefill marker must be boolean")

/-- The request identity. -/
def identity : RequestId → Scalar → Except PyError Owner
  | .str id, .int epoch =>
    if id = "" ∨ epoch < 0 then
      .error (.valueError "Request identity requires a nonempty ID and nonnegative integer epoch")
    else .ok (id, epoch)
  | _, _ => .error (.valueError "Request identity requires a nonempty ID and nonnegative integer epoch")

/-- `any(len(value) != 1 ...)`, in order. -/
def anyNotOne : List (Option Nat) → Except PyError Bool
  | [] => .ok false
  | none :: _ => .error .typeError
  | some n :: lens => if n ≠ 1 then .ok true else anyNotOne lens

namespace Metadata

/-- `any(name not in metadata for name in required)`. -/
def lacks (m : Metadata) : Bool :=
  match m.startPos, m.intermediatePrefillMask, m.requestIds, m.requestEpochs, m.emptySlots with
  | .missing, _, _, _, _ | _, .missing, _, _, _ | _, _, .missing, _, _ | _, _, _, .missing, _
  | _, _, _, _, .missing => true
  | _, _, _, _, _ => false

/-- The lengths of the required values. -/
def lens (m : Metadata) : List (Option Nat) :=
  [m.startPos.len, m.intermediatePrefillMask.len, m.requestIds.len, m.requestEpochs.len, m.emptySlots.len]

end Metadata

namespace Args

/-- Whether `prompt_lens` is `None` or a row is not of length one. -/
def ragged (a : Args) : Except PyError Bool :=
  match a.promptLens with
  | .missing => .ok true
  | lens => anyNotOne (lens.len :: a.metadata.lens)

/-- The checks of what kind of call this is. -/
def check (a : Args) : Except PyError Unit := do
  raiseIf (a.metadata.lacks = true) (.valueError ("Continuation requires ('start_pos', 'intermediate_prefill_mask', " ++
    "'request_ids', 'request_epochs', 'empty_slots')"))
  raiseIf (a.tokens.row? = none ∨ a.pageTable.row? = none)
    (.valueError "Continuation v1 admits exactly one text prefill per lane")
  let ragged ← a.ragged
  raiseIf (ragged = true) (.valueError "Continuation metadata must contain exactly one row")
  raiseIf (a.tokens.cpu = false ∨ a.pageTable.cpu = false)
    (.valueError "Continuation expects host token IDs and page table")
  raiseIf (a.tokens.dtype.integral = false ∨ a.pageTable.dtype.integral = false)
    (.valueError "Token IDs and page table must be integer tensors")
  raiseIf (a.metadata.pixelValues = .present ∨ a.metadata.pixelValuesVideos = .present)
    (.valueError "Continuation v1 is text-only")
  raiseIf (a.metadata.visionTokens = true) (.valueError "Continuation v1 is text-only")

/-- The checks of the range, the slot and the pages. -/
def checkRange (b : Backend) (tokens pages : List Int) (start stop slot : Int) (final : Bool) :
    Except PyError Unit := do
  raiseIf (¬(0 ≤ start ∧ start < stop ∧ stop ≤ min tokens.length b.maxLength))
    (.valueError "Invalid continuation token range")
  raiseIf (start % b.chunkSize ≠ 0 ∨ b.chunkSize < stop - start ∨ (final = false ∧ stop - start ≠ b.chunkSize))
    (.valueError "Non-final steps must be one aligned full chunk; only the final step may have a tail")
  raiseIf (¬(0 ≤ slot ∧ slot < b.maxSlots)) (.valueError "Invalid decode slot")
  raiseIf (pages.length < b.usedPages stop.toNat ∨ b.pageCapacity < b.usedPages stop.toNat)
    (.valueError "Insufficient page-table capacity")
  raiseIf (∃ page ∈ pages.take (b.usedPages stop.toNat), page < 0 ∨ b.physicalPages ≤ page)
    (.valueError "Physical page ID outside the allocated pool")
  raiseIf (∃ token ∈ tokens.take stop.toNat, token < 0 ∨ b.vocabSize ≤ token)
    (.valueError "Token ID outside the model vocabulary")

/-- The chunk that a call asks for. -/
def chunk (b : Backend) (a : Args) : Except PyError Chunk := do
  a.check
  let start ← a.metadata.startPos.first >>= integer
  let stop ← a.promptLens.first >>= integer
  let slot ← a.metadata.emptySlots.first >>= integer
  let intermediate ← a.metadata.intermediatePrefillMask.first >>= marker
  let id ← a.metadata.requestIds.first
  let epoch ← a.metadata.requestEpochs.first
  let owner ← identity id epoch
  let tokens := a.tokens.row?.getD []
  let pages := a.pageTable.row?.getD []
  checkRange b tokens pages start stop slot (!intermediate)
  return {
    owner
    tokens := tokens.take stop.toNat
    tokenType := a.tokens.dtype
    pages
    pageType := a.pageTable.dtype
    start := start.toNat
    stop := stop.toNat
    final := !intermediate
    slot := slot.toNat }

end Args

/-! ## The controller -/

/-- `self.active`. -/
structure Active where
  owner : Owner
  stop : Nat
  tokenType : DType
  tokens : List Int
  pageType : DType
  pages : List Int
  deriving DecidableEq, Repr

/-- `ContinuationController`. -/
structure Controller where
  active : Option Active
  poisoned : Bool
  deriving DecidableEq, Repr

/-- The scratch once the first `n` tokens of the chunk's prompt have run. -/
def Chunk.upTo (b : Backend) (k : Chunk) (n : Nat) : Active :=
  ⟨k.owner, n, k.tokenType, k.tokens.take n, k.pageType, k.pages.take (b.usedPages n)⟩

/-- `torch.equal`. -/
def torchEqual (d d' : DType) (xs ys : List Int) : Except PyError Bool :=
  if d = d' then .ok (xs = ys) else .error (.raised "torch.equal")

/-- The checks against the live owner. -/
def Controller.owns (c : Controller) (k : Chunk) : Except PyError Unit :=
  match c.active with
  | none => raiseIf (k.start ≠ 0) (.valueError "Continuation has no live scratch owner")
  | some a => do
    raiseIf (k.owner ≠ a.owner ∨ k.start ≠ a.stop)
      (.valueError "Scratch owner or expected continuation position mismatch")
    let tokens ← torchEqual k.tokenType a.tokenType (k.tokens.take k.start) a.tokens
    raiseIf (tokens = false) (.valueError "Previously processed token prefix changed")
    let pages ← torchEqual k.pageType a.pageType (k.pages.take a.pages.length) a.pages
    raiseIf (pages = false) (.valueError "Previously populated KV page mapping changed")

/-- What `forward` checks before it takes the scratch. -/
def Controller.admission (b : Backend) (c : Controller) (a : Args) : Except PyError Chunk := do
  raiseIf (c.poisoned = true)
    (.runtimeError "Prefill scratch is poisoned; cancel its owner after a successful drain")
  let k ← a.chunk b
  c.owns k
  return k

theorem Controller.admission_chunk {b : Backend} {c : Controller} {a : Args} {k : Chunk} (h : c.admission b a = .ok k) :
    a.chunk b = .ok k := by
  unfold Controller.admission at h
  obtain ⟨_, -, h⟩ := bind_ok h
  obtain ⟨k', hk, h⟩ := bind_ok h
  obtain ⟨_, -, h⟩ := bind_ok h
  rw [hk, Except.ok.inj h]

/-- What reached the device: a run, and whether it returned, or a cancellation whose drain returned. -/
inductive Entry
  | ran (k : Chunk) (returned : Bool)
  | cancelled (owner : Owner)
  deriving DecidableEq, Repr

/-- The controller, and what has reached the device. -/
structure Scratch where
  controller : Controller
  log : List Entry

namespace Scratch

variable {ω : Type}

/-- `ContinuationController.__init__`. -/
def init : Scratch := ⟨⟨none, false⟩, []⟩

/-- `forward`; `run` is what `backend.run` answers if it is called. -/
def forward (b : Backend) (s : Scratch) (a : Args) (run : Except PyError ω) : Call Scratch ω :=
  Call.attempt (s.controller.admission b a) s fun k =>
    match run with
    | .error e => .throw ⟨⟨some (k.upTo b k.start), true⟩, s.log ++ [.ran k false]⟩ e
    | .ok output =>
      .ret ⟨⟨if k.final then none else some (k.upTo b k.stop), s.controller.poisoned⟩, s.log ++ [.ran k true]⟩ output

/-- `cancel`; `drain` is what `backend.drain` answers if it is called. -/
def cancel (s : Scratch) (owner : Owner) (drain : Except PyError Unit) : Call Scratch Unit :=
  if s.controller.active.map Active.owner ≠ some owner then
    .throw s (.valueError "Cancellation does not own the prefill scratch")
  else Call.attempt drain s fun _ => .ret ⟨⟨none, false⟩, s.log ++ [.cancelled owner]⟩ ()

end Scratch

/-! ## What an admitted chunk is -/

/-- A chunk of the right shape: one chunk of the prompt from an aligned start, full unless it is final, with its pages
and tokens in range. -/
structure Chunk.Valid (b : Backend) (k : Chunk) : Prop where
  lt : k.start < k.stop
  length : k.tokens.length = k.stop
  stop_le : k.stop ≤ b.maxLength
  aligned : k.start % b.chunkSize = 0
  size_le : k.size ≤ b.chunkSize
  full : k.final = false → k.size = b.chunkSize
  slot : k.slot < b.maxSlots
  pages : b.usedPages k.stop ≤ k.pages.length ∧ b.usedPages k.stop ≤ b.pageCapacity
  inPool : ∀ page ∈ k.pages.take (b.usedPages k.stop), 0 ≤ page ∧ page < b.physicalPages
  inVocabulary : ∀ token ∈ k.tokens, 0 ≤ token ∧ token < b.vocabSize

variable {b : Backend}

theorem Args.chunk_ok {a : Args} {k : Chunk} (h : a.chunk b = .ok k) : k.Valid b := by
  unfold Args.chunk at h
  obtain ⟨_, -, h⟩ := bind_ok h
  obtain ⟨start, -, h⟩ := bind_ok h
  obtain ⟨stop, -, h⟩ := bind_ok h
  obtain ⟨slot, -, h⟩ := bind_ok h
  obtain ⟨intermediate, -, h⟩ := bind_ok h
  obtain ⟨_, -, h⟩ := bind_ok h
  obtain ⟨_, -, h⟩ := bind_ok h
  obtain ⟨owner, -, h⟩ := bind_ok h
  obtain ⟨_, hrange, h⟩ := bind_ok h
  cases h
  unfold Args.checkRange at hrange
  obtain ⟨_, hlt, hrange⟩ := bind_ok hrange
  obtain ⟨_, hsize, hrange⟩ := bind_ok hrange
  obtain ⟨_, hslot, hrange⟩ := bind_ok hrange
  obtain ⟨_, hpages, hrange⟩ := bind_ok hrange
  obtain ⟨_, hpool, hvocab⟩ := bind_ok hrange
  rw [raiseIf_ok] at hlt hsize hslot hpages hpool hvocab
  simp only [not_not] at hlt hslot
  simp only [not_or, Int.not_lt, not_and, not_not] at hsize
  simp only [not_or, Nat.not_lt] at hpages
  obtain ⟨hstart, hstop, hlen⟩ := hlt
  obtain ⟨haligned, hle, hfull⟩ := hsize
  have hstartNat : ((start.toNat : Nat) : Int) = start := Int.toNat_of_nonneg hstart
  have hstopNat : ((stop.toNat : Nat) : Int) = stop := Int.toNat_of_nonneg (by omega)
  refine ⟨by simp only; omega, ?_, by simp only; omega, ?_, ?_, ?_, by simp only; omega, hpages, ?_, ?_⟩
  · simp only [List.length_take]; omega
  · have : ((start.toNat : Int)) % (b.chunkSize : Int) = 0 := by rw [hstartNat]; exact haligned
    exact_mod_cast this
  · simp only [Chunk.size]; omega
  · intro hfinal
    have hsize := hfull hfinal
    simp only [Chunk.size]
    omega
  · exact fun page hpage => by
      by_contra hout
      exact hpool ⟨page, hpage, by omega⟩
  · exact fun token htoken => by
      by_contra hout
      exact hvocab ⟨token, htoken, by omega⟩

theorem identity_ok {id : RequestId} {epoch : Scalar} {owner : Owner} (h : identity id epoch = .ok owner) :
    id = .str owner.1 ∧ epoch = .int owner.2 := by
  unfold identity at h
  split at h
  · rename_i name n
    by_cases hbad : name = "" ∨ n < 0
    · rw [if_pos hbad] at h; cases h
    · rw [if_neg hbad] at h
      obtain rfl := Except.ok.inj h
      exact ⟨rfl, rfl⟩
  · cases h

/-- Whose chunk it is, and whether it is final. -/
theorem Args.chunk_identity {a : Args} {k : Chunk} (h : a.chunk b = .ok k) :
    ∃ id epoch m, a.metadata.requestIds.first = .ok id ∧ a.metadata.requestEpochs.first = .ok epoch ∧
      identity id epoch = .ok k.owner ∧ a.metadata.intermediatePrefillMask.first = .ok m ∧
      marker m = .ok (!k.final) := by
  unfold Args.chunk at h
  obtain ⟨_, -, h⟩ := bind_ok h
  obtain ⟨_, -, h⟩ := bind_ok h
  obtain ⟨_, -, h⟩ := bind_ok h
  obtain ⟨_, -, h⟩ := bind_ok h
  obtain ⟨intermediate, hmarker, h⟩ := bind_ok h
  obtain ⟨id, hid, h⟩ := bind_ok h
  obtain ⟨epoch, hepoch, h⟩ := bind_ok h
  obtain ⟨owner, howner, h⟩ := bind_ok h
  obtain ⟨_, -, h⟩ := bind_ok h
  obtain ⟨m, hm, hmarker⟩ := bind_ok hmarker
  obtain rfl := Except.ok.inj h
  exact ⟨id, epoch, m, hid, hepoch, howner, hm, by rw [hmarker, Bool.not_not]⟩

/-- A chunk that continues another: of its owner, from where it ended, with its tokens and its pages. -/
structure Chunk.Continues (b : Backend) (k p : Chunk) : Prop where
  owner : k.owner = p.owner
  start : k.start = p.stop
  tokens : k.tokens.take k.start = p.tokens
  pages : k.pages.take (b.usedPages k.start) = p.pages.take (b.usedPages p.stop)

/-- The live owner's next chunk continues what has run. -/
theorem Controller.owns_ok {c : Controller} {k : Chunk} {u : Unit} (h : c.owns k = .ok u) :
    match c.active with
    | none => k.start = 0
    | some a => k.owner = a.owner ∧ k.start = a.stop ∧ k.tokens.take k.start = a.tokens ∧
        k.pages.take a.pages.length = a.pages := by
  unfold Controller.owns at h
  cases hc : c.active with
  | none => simpa [hc] using h
  | some a =>
    simp only [hc] at h
    obtain ⟨_, howner, h⟩ := bind_ok h
    obtain ⟨tokens, htokens, h⟩ := bind_ok h
    obtain ⟨_, hsame, h⟩ := bind_ok h
    obtain ⟨pages, hpages, h⟩ := bind_ok h
    rw [raiseIf_ok] at howner hsame h
    simp only [not_or, not_not] at howner
    unfold torchEqual at htokens hpages
    split at htokens <;> [skip; cases htokens]
    split at hpages <;> [skip; cases hpages]
    cases htokens
    cases hpages
    simp only [Bool.not_eq_false, decide_eq_true_eq] at hsame h
    exact ⟨howner.1, howner.2, hsame, h⟩

theorem Controller.admission_ok {c : Controller} {a : Args} {k : Chunk} (h : c.admission b a = .ok k) :
    c.poisoned = false ∧ k.Valid b ∧ c.owns k = .ok () := by
  unfold Controller.admission at h
  obtain ⟨_, hpoison, h⟩ := bind_ok h
  obtain ⟨k', hk, h⟩ := bind_ok h
  obtain ⟨_, howns, h⟩ := bind_ok h
  cases h
  rw [raiseIf_ok] at hpoison
  exact ⟨by simpa using hpoison, Args.chunk_ok hk, howns⟩

/-! ## The log determines the controller -/

/-- The controller after the newest entry of the log. -/
def stateAfter (b : Backend) : Option Entry → Controller
  | some (.ran k true) => ⟨if k.final then none else some (k.upTo b k.stop), false⟩
  | some (.ran k false) => ⟨some (k.upTo b k.start), true⟩
  | _ => ⟨none, false⟩

/-- What an entry says of the one before it: a run starts a prompt where no owner is live, or continues the chunk before
it; a cancellation is by the owner of the run before it. -/
def Follows (b : Backend) (prev : Option Entry) : Entry → Prop
  | .ran k _ => k.Valid b ∧ ((k.start = 0 ∧ stateAfter b prev = ⟨none, false⟩) ∨
      ∃ p, prev = some (.ran p true) ∧ p.final = false ∧ k.Continues b p)
  | .cancelled owner => ∃ p returned, prev = some (.ran p returned) ∧ p.owner = owner ∧
      (returned = true → p.final = false)

namespace Scratch

variable {ω : Type} {s s' : Scratch} {a : Args} {run : Except PyError ω} {owner : Owner} {drain : Except PyError Unit}

/-- What every sequence of calls keeps. -/
structure Tracked (b : Backend) (s : Scratch) : Prop where
  controller : s.controller = stateAfter b s.log.getLast?
  chained : ∀ pre e post, s.log = pre ++ e :: post → Follows b pre.getLast? e

/-- A call of `forward` was refused and left everything as it was, or ran an admitted chunk. -/
theorem forward_cases (b : Backend) (s : Scratch) (a : Args) (run : Except PyError ω) :
    (∃ e, s.forward b a run = .throw s e) ∨
    ∃ k returned, s.controller.admission b a = .ok k ∧
      (s.forward b a run).obj = ⟨stateAfter b (some (.ran k returned)), s.log ++ [.ran k returned]⟩ ∧
      (s.forward b a run).result = run ∧ (returned = true ↔ ∃ output, run = .ok output) := by
  unfold forward
  rcases Call.attempt_cases (s.controller.admission b a) s _ with ⟨e, -, h⟩ | ⟨k, hk, h⟩ <;> rw [h]
  · exact Or.inl ⟨e, rfl⟩
  · cases run with
    | error e => exact Or.inr ⟨k, false, hk, rfl, rfl, by simp⟩
    | ok output =>
      refine Or.inr ⟨k, true, hk, ?_, rfl, by simp⟩
      simp only [Call.ret_obj, stateAfter, (Controller.admission_ok hk).1]

/-- A cancellation was refused or its drain raised, and left everything as it was, or cleared the scratch. -/
theorem cancel_cases (b : Backend) (s : Scratch) (owner : Owner) (drain : Except PyError Unit) :
    (∃ e, s.cancel owner drain = .throw s e) ∨
    s.controller.active.map Active.owner = some owner ∧
      s.cancel owner drain = .ret ⟨stateAfter b (some (.cancelled owner)), s.log ++ [.cancelled owner]⟩ () := by
  unfold cancel
  split
  · exact Or.inl ⟨_, rfl⟩
  · rename_i howner
    cases drain with
    | error e => exact Or.inl ⟨e, rfl⟩
    | ok u => exact Or.inr ⟨not_not.mp howner, rfl⟩

/-- One more entry. -/
theorem Tracked.snoc (h : Tracked b s) {e : Entry} (he : Follows b s.log.getLast? e) :
    Tracked b ⟨stateAfter b (some e), s.log ++ [e]⟩ := by
  refine ⟨by simp, fun pre x post hlog => ?_⟩
  rcases List.eq_nil_or_concat post with rfl | ⟨post, y, rfl⟩
  · obtain ⟨rfl, hx⟩ := List.append_inj' hlog rfl
    obtain rfl := List.singleton_inj.mp hx
    exact he
  · have hlog' : s.log ++ [e] = (pre ++ x :: post) ++ [y] := hlog.trans (by simp)
    obtain ⟨hs, -⟩ := List.append_inj' hlog' rfl
    exact h.chained pre x post hs

/-- The newest run, as it stands in the log. -/
theorem Tracked.last_valid (h : Tracked b s) {p : Chunk} {returned : Bool}
    (hp : s.log.getLast? = some (.ran p returned)) : p.Valid b := by
  obtain ⟨pre, hpre⟩ := List.getLast?_eq_some_iff.mp hp
  exact (h.chained pre _ [] hpre).1

/-- An admitted chunk follows what is in the log. -/
theorem Tracked.admitted (h : Tracked b s) {k : Chunk} (hk : s.controller.admission b a = .ok k) (returned : Bool) :
    Follows b s.log.getLast? (.ran k returned) := by
  obtain ⟨hpoison, hvalid, howns⟩ := Controller.admission_ok hk
  refine ⟨hvalid, ?_⟩
  have howns := Controller.owns_ok howns
  rw [h.controller] at hpoison howns
  match hlast : s.log.getLast? with
  | none => exact Or.inl ⟨by simpa [hlast, stateAfter] using howns, rfl⟩
  | some (.cancelled _) => exact Or.inl ⟨by simpa [hlast, stateAfter] using howns, rfl⟩
  | some (.ran p false) => simp [hlast, stateAfter] at hpoison
  | some (.ran p true) =>
    by_cases hfinal : p.final = true
    · exact Or.inl ⟨by simpa [hlast, stateAfter, hfinal] using howns, by simp [stateAfter, hfinal]⟩
    · have hp := h.last_valid hlast
      simp only [hlast, stateAfter, hfinal, Bool.false_eq_true, if_false, Chunk.upTo] at howns
      obtain ⟨howner, hstart, htokens, hpages⟩ := howns
      refine Or.inr ⟨p, rfl, by simpa using hfinal, howner, hstart, ?_, ?_⟩
      · rw [htokens, ← hp.length, List.take_length]
      · rw [List.length_take, Nat.min_eq_left hp.pages.1] at hpages
        rw [hstart, hpages]

/-- An owner that may cancel is the owner of the newest run. -/
theorem Tracked.cancelled (h : Tracked b s) (howner : s.controller.active.map Active.owner = some owner) :
    Follows b s.log.getLast? (.cancelled owner) := by
  rw [h.controller] at howner
  match hlast : s.log.getLast? with
  | none => simp [hlast, stateAfter] at howner
  | some (.cancelled _) => simp [hlast, stateAfter] at howner
  | some (.ran p false) =>
    exact ⟨p, false, rfl, by simpa [hlast, stateAfter, Chunk.upTo] using howner, by simp⟩
  | some (.ran p true) =>
    by_cases hfinal : p.final = true
    · simp [hlast, stateAfter, hfinal] at howner
    · exact ⟨p, true, rfl, by simpa [hlast, stateAfter, hfinal, Chunk.upTo] using howner, by simpa using hfinal⟩

theorem Tracked.forward (h : Tracked b s) (a : Args) (run : Except PyError ω) :
    Tracked b (s.forward b a run).obj := by
  rcases forward_cases b s a run with ⟨e, hf⟩ | ⟨k, returned, hk, hobj, -, -⟩
  · rw [hf]; exact h
  · rw [hobj]; exact h.snoc (h.admitted hk returned)

theorem Tracked.cancel (h : Tracked b s) (owner : Owner) (drain : Except PyError Unit) :
    Tracked b (s.cancel owner drain).obj := by
  rcases cancel_cases b s owner drain with ⟨e, hc⟩ | ⟨howner, hc⟩ <;> rw [hc]
  · exact h
  · exact h.snoc (h.cancelled howner)

theorem Tracked.init : Tracked b Scratch.init := ⟨rfl, fun pre e post h => by simp [Scratch.init] at h⟩

end Scratch

/-! ## What the log says -/

/-- The log of one scratch. A run past 0 continues the run before it, which returned; the runs that returned since the
one at 0 are full aligned chunks of one owner end to end; and after a run that raised comes a cancellation by its
owner. -/
structure RunsOnce (b : Backend) (log : List Entry) : Prop where
  valid : ∀ k returned, .ran k returned ∈ log → k.Valid b
  continues : ∀ pre k returned post, log = pre ++ .ran k returned :: post → 0 < k.start →
    ∃ p, pre.getLast? = some (.ran p true) ∧ p.final = false ∧ k.Continues b p
  tiles : ∀ pre k returned post, log = pre ++ .ran k returned :: post →
    ∃ front ks, pre = front ++ ks.map (Entry.ran · true) ∧ Spans Chunk.start Chunk.size 0 ks k.start ∧
      ∀ p ∈ ks, p.owner = k.owner ∧ p.final = false ∧ p.size = b.chunkSize ∧ p.start % b.chunkSize = 0
  raised : ∀ pre k post, log = pre ++ .ran k false :: post → post = [] ∨ ∃ rest, post = .cancelled k.owner :: rest

/-- The owner of a run or a cancellation. -/
def Entry.owner : Entry → Owner
  | .ran k _ => k.owner
  | .cancelled owner => owner

/-- A call on the controller; what the backend answers if it is called is part of it. -/
inductive ScratchEvent (ω : Type)
  | forward (a : Args) (run : Except PyError ω)
  | cancel (owner : Owner) (drain : Except PyError Unit)

namespace Scratch

variable {s : Scratch}

/-- One call. -/
def Step {ω : Type} (b : Backend) (s : Scratch) (e : ScratchEvent ω) (s' : Scratch) : Prop :=
  match e with
  | .forward a run => s' = (s.forward b a run).obj
  | .cancel owner drain => s' = (s.cancel owner drain).obj

/-- Every sequence of calls keeps it. -/
theorem Tracked.run {ω : Type} {events : List (ScratchEvent ω)} (h : Run (Step b) Scratch.init events s) :
    Tracked b s := by
  refine h.invariant_state .init ?_
  rintro t e _ ht hs
  cases e with
  | forward a run => obtain rfl := hs; exact ht.forward a run
  | cancel owner drain => obtain rfl := hs; exact ht.cancel owner drain

/-- A returned final run leaves no owner. -/
theorem Tracked.final (h : Tracked b s) {pre : List Entry} {k : Chunk} (hlog : s.log = pre ++ [.ran k true])
    (hfinal : k.final = true) : s.controller.active = none := by
  rw [h.controller, hlog, List.getLast?_concat]
  simp [stateAfter, hfinal]

/-- **A call that does not reach the device leaves the scratch as it was.** -/
theorem forward_unchanged {ω : Type} (a : Args) (run : Except PyError ω) (h : (s.forward b a run).obj.log = s.log) :
    (s.forward b a run).obj = s := by
  rcases forward_cases b s a run with ⟨e, hf⟩ | ⟨k, returned, -, hobj, -, -⟩
  · rw [hf]; rfl
  · rw [hobj] at h; simp at h

theorem cancel_unchanged (b : Backend) (owner : Owner) (drain : Except PyError Unit)
    (h : (s.cancel owner drain).obj.log = s.log) : (s.cancel owner drain).obj = s := by
  rcases cancel_cases b s owner drain with ⟨e, hc⟩ | ⟨-, hc⟩
  · rw [hc]; rfl
  · rw [hc] at h; simp at h

theorem Tracked.continues (h : Tracked b s) {pre post : List Entry} {k : Chunk} {returned : Bool}
    (hlog : s.log = pre ++ .ran k returned :: post) (hpos : 0 < k.start) :
    ∃ p, pre.getLast? = some (.ran p true) ∧ p.final = false ∧ k.Continues b p :=
  (h.chained pre _ post hlog).2.resolve_left fun h0 => by omega

theorem Tracked.tiles (h : Tracked b s) (n : Nat) {pre post : List Entry} {k : Chunk} {returned : Bool}
    (hn : pre.length = n) (hlog : s.log = pre ++ .ran k returned :: post) :
    ∃ front ks, pre = front ++ ks.map (Entry.ran · true) ∧ Spans Chunk.start Chunk.size 0 ks k.start ∧
      ∀ p ∈ ks, p.owner = k.owner ∧ p.final = false ∧ p.size = b.chunkSize ∧ p.start % b.chunkSize = 0 := by
  induction n generalizing pre post k returned with
  | zero =>
    obtain rfl := List.length_eq_zero_iff.mp hn
    have hstart : k.start = 0 := by
      by_contra hne
      obtain ⟨p, hp, -⟩ := h.continues hlog (Nat.pos_of_ne_zero hne)
      simp at hp
    exact ⟨[], [], rfl, by rw [hstart]; exact .nil 0, by simp⟩
  | succ n ih =>
    by_cases hstart : k.start = 0
    · exact ⟨pre, [], by simp, by rw [hstart]; exact .nil 0, by simp⟩
    obtain ⟨p, hp, hfinal, hc⟩ := h.continues hlog (Nat.pos_of_ne_zero hstart)
    obtain ⟨pre', rfl⟩ := List.getLast?_eq_some_iff.mp hp
    have hlog' : s.log = pre' ++ .ran p true :: (.ran k returned :: post) := by rw [hlog]; simp
    have hp' := (h.chained pre' _ _ hlog').1
    obtain ⟨front, ks, rfl, hspans, hks⟩ := ih (by simpa using hn) hlog'
    refine ⟨front, ks ++ [p], by simp, ?_, fun x hx => ?_⟩
    · -- the chunk before ends where this one starts
      have hend : p.start + p.size = k.start := by
        have := hp'.lt
        rw [hc.start, Chunk.size]; omega
      exact hend ▸ hspans.snoc rfl (by have := hp'.lt; unfold Chunk.size; omega)
    · rcases List.mem_append.mp hx with hx | hx
      · obtain ⟨howner, hrest⟩ := hks x hx
        exact ⟨howner.trans hc.owner.symm, hrest⟩
      · obtain rfl := List.mem_singleton.mp hx
        exact ⟨hc.owner.symm, hfinal, hp'.full hfinal, hp'.aligned⟩

theorem Tracked.raised (h : Tracked b s) {pre post : List Entry} {k : Chunk}
    (hlog : s.log = pre ++ .ran k false :: post) : post = [] ∨ ∃ rest, post = .cancelled k.owner :: rest := by
  cases post with
  | nil => exact Or.inl rfl
  | cons e rest =>
    have he := h.chained (pre ++ [.ran k false]) e rest (by rw [hlog]; simp)
    rw [List.getLast?_concat] at he
    cases e with
    | ran k' returned =>
      rcases he.2 with ⟨-, hstate⟩ | ⟨p, hp, -⟩
      · simp [stateAfter] at hstate
      · cases hp
    | cancelled owner =>
      obtain ⟨p, returned, hp, rfl, -⟩ := he
      cases hp
      exact Or.inr ⟨rest, rfl⟩

theorem Tracked.runsOnce (h : Tracked b s) : RunsOnce b s.log where
  valid k returned hk := by
    obtain ⟨pre, post, hlog⟩ := List.append_of_mem hk
    exact (h.chained pre _ post hlog).1
  continues _ _ _ _ hlog hpos := h.continues hlog hpos
  tiles pre _ _ _ hlog := h.tiles pre.length rfl hlog
  raised _ _ _ hlog := h.raised hlog

end Scratch

end BlackholeQwen.Prefill.Continuation
