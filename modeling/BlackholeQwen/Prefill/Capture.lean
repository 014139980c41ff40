import BlackholeQwen.Lib.Runs
import BlackholeQwen.Prefill.Window

/-!
# The capture of a chunked prefill

`PrefillWindowCapture` of `dflash_prefill_window.py`. A capture spans the engine steps of one prompt: a segment is one
step, in which the model's batched entries and its chunk function are wrapped. `SegmentEvent` is a call that arrives at
a wrapper while a segment is open, or an exception of the model's own; the first exception ends the segment.

`Good` is what holds between calls: the recorded chunks lie end to end from the start to the cursor, and the snapshots
are the rows of the window the chunks have passed. `capture_ledger` reads off it that a complete capture was given every
row of its prompt once and in order, that its outputs are the feature rows of the draft window, and that its last
segment's batched call wrote the slot it holds.
-/

namespace BlackholeQwen.Prefill

open Lib

/-- One element of a Python list of slots or starts, as `operator.index` sees it. -/
inductive PyIndex
  | int (n : Int) | bool (b : Bool) | other
  deriving DecidableEq, Repr

/-- A value used as a list of indices; `none` where `list(value)` raises. -/
abbrev PyList := Option (List PyIndex)

/-- The batched entries: `prefill_paged_slots`, the resumable `prefill_paged_slots_range`, and the prefix-reuse
route. -/
inductive Entry
  | slots | range | route
  deriving DecidableEq, Repr

/-- `resumed_start`. -/
def resumedStart : PyList → Option Int
  | some [.int n] => some n
  | _ => none

/-- `prefill_slot`. -/
def prefillSlot : PyList → Except PyError Nat
  | some [.int n] => if n < 0 then .error (.valueError "Non-negative native GDN slot required") else .ok n.toNat
  | some [.other] => .error (.valueError "Integer native GDN slot required")
  | _ => .error (.valueError "Fast serving prefills exactly one user per call")

/-- `call_starts`: the route takes its starts as a keyword only. -/
def callStarts (entry : Entry) (args : List PyList) (starts : PyList) : Except PyError PyList :=
  match entry, args with
  | .route, _ :: _ => .error (.valueError "The prefix-reuse route takes valid_lens, starts and req_ids as keywords")
  | .route, [] => .ok starts
  | _, arg :: _ => .ok arg
  | _, [] => .ok starts

/-- What a capture is made for. -/
structure CaptureConfig where
  position : Nat
  taps : List Nat
  start : Nat
  recordsPrefixRoute : Bool
  layers : Nat
  maxPosition : Nat
  deriving DecidableEq, Repr

/-- `PrefillWindowCapture`; `children` holds the snapshots of its chunks. -/
structure Capture (ρ : Type) extends CaptureConfig where
  chunks : List ChunkRecord
  children : List (LayerOutputs ρ)
  cursor : Nat
  started : Bool
  active : Bool
  complete : Bool
  closed : Bool
  segments : Nat
  prefillSlot : Option Nat
  segmentSlot : Option Nat
  segmentCalls : Nat

/-- A chunk the model ran: its start and its valid rows. -/
abbrev Ran := Nat × Nat

/-- A call that arrives while a segment is open. A chunk call comes with what the model's forward answers: the layer
outputs in the order the layers ran. -/
inductive SegmentEvent (ρ : Type)
  | chunk (validLen chunkStart bucket : Int) (forward : Except PyError (List (Nat × List ρ)))
  | batched (entry : Entry) (slots : PyList) (args : List PyList) (starts : PyList)
  | raised (e : PyError)

/-- The model's layers answer a chunk with the features of its tokens, a row for each, and padding behind. -/
def SegmentEvent.Faithful {ρ : Type} (feature : Nat → Nat → ρ) : SegmentEvent ρ → Prop
  | .chunk validLen chunkStart _ forward => ∀ outputs, forward = .ok outputs → ∀ p ∈ outputs,
    ∀ i < validLen.toNat, p.2[i]? = some (feature p.1 (chunkStart.toNat + i))
  | _ => True

namespace Capture

variable {ρ : Type}

/-- `PrefillWindowCapture.__init__`; `native` and `hasRoute` say that the model has the chunk boundary and the
prefix-reuse route. -/
def init (maxPosition position : Nat) (taps : List Nat) (layers : Nat) (start : Int)
    (prefixRoute native hasRoute : Bool) : Except PyError (Capture ρ) := do
  let _ ← prefillWindow maxPosition position
  raiseIf (native = false) (.valueError "Pinned native TP slot-prefill chunk boundary required")
  let start ← resumeStart position start
  let recordsPrefixRoute := prefixRoute && hasRoute
  raiseIf (start ≠ 0 ∧ recordsPrefixRoute = false)
    (.valueError ("A prefill resumed at " ++ toString start ++ " needs the prefix-reuse route " ++
      "(_qwen_prefix_prefill_slots) wrapped by this capture"))
  return {
    position, taps, start, recordsPrefixRoute, layers, maxPosition
    chunks := []
    children := []
    cursor := start
    started := false
    active := false
    complete := false
    closed := false
    segments := 0
    prefillSlot := none
    segmentSlot := none
    segmentCalls := 0 }

/-- The checks of the wrapped chunk function. -/
def chunkGuard (c : Capture ρ) (validLen chunkStart bucket : Int) : Except PyError Window := do
  raiseIf (c.active = false ∨ chunkStart ≠ c.cursor)
    (.valueError "Prefill chunks must execute once in absolute sequence order")
  let piece ← chunkWindow c.maxPosition c.position chunkStart validLen
  raiseIf (bucket % 32 ≠ 0 ∨ ¬(validLen ≤ bucket ∧ bucket ≤ 2048))
    (.valueError "Bounded native padded chunk geometry required")
  return piece

/-- The ledger after a chunk has run. -/
def recorded (c : Capture ρ) (validLen chunkStart bucket : Int) (piece : Window) (children : List (LayerOutputs ρ)) :
    Capture ρ :=
  { c with
    children
    chunks := c.chunks ++ [⟨chunkStart.toNat, validLen.toNat, bucket.toNat, piece.rows⟩]
    cursor := c.cursor + validLen.toNat }

/-- The wrapped chunk function. A chunk with rows in the window runs under a capture of its layer outputs. -/
def chunk (c : Capture ρ) (validLen chunkStart bucket : Int) (forward : Except PyError (List (Nat × List ρ))) :
    Call (Capture ρ) Ran :=
  Call.attempt (c.chunkGuard validLen chunkStart bucket) c fun piece =>
  if piece.rows = 0 then
    Call.attempt forward c fun _ =>
    Call.ret (c.recorded validLen chunkStart bucket piece c.children) (chunkStart.toNat, validLen.toNat)
  else
    Call.attempt (checkTaps c.layers c.taps) c fun () =>
    Call.attempt (do
        let outputs ← forward
        captureLayers c.taps (snapshotPrefillTail c.maxPosition c.position chunkStart validLen) outputs)
      { c with children := c.children ++ [Dict.empty] } fun records =>
    Call.ret (c.recorded validLen chunkStart bucket piece (c.children ++ [records]))
      (chunkStart.toNat, validLen.toNat)

/-- `moved` of `check_resumed_call`. -/
def moved (c : Capture ρ) (slot : Nat) : Bool := c.prefillSlot.any (· ≠ slot)

/-- `check_resumed_call`. -/
def checkResumedCall (c : Capture ρ) (slot : Nat) (entry : Entry) (starts : PyList) : Except PyError Unit :=
  if entry = .route then
    raiseIf (resumedStart starts ≠ some (c.cursor : Int))
      (.valueError "The prefix-reuse route must start at this capture's cursor")
  else if c.start ≠ 0 ∧ c.cursor = c.start then
    .error (.valueError ("A prefill resumed at " ++ toString c.start ++
      " takes its first call only through _qwen_prefix_prefill_slots"))
  else if c.cursor = 0 ∧ c.moved slot = false then .ok ()
  else if entry ≠ .range ∨ c.cursor = 0 ∨ resumedStart starts ≠ some (c.cursor : Int) then
    if c.moved slot then
      .error (.valueError "A prefill slot may move only on a resumed chunk at this capture's cursor")
    else
      .error (.valueError ("A batched prefill after the first chunk must resume this capture at its cursor through " ++
        "prefill_paged_slots_range"))
  else .ok ()

/-- The checks of a wrapped batched entry; the value is the slot. -/
def batchedGuard (c : Capture ρ) (entry : Entry) (slots : PyList) (args : List PyList) (starts : PyList) :
    Except PyError Nat := do
  raiseIf (c.active = false ∨ c.segmentCalls ≠ 0) (.valueError "One batched prefill per capture required")
  let slot ← Prefill.prefillSlot slots
  let starts ← callStarts entry args starts
  c.checkResumedCall slot entry starts
  return slot

/-- A batched entry up to the call of the model. The route is wrapped only by a capture that records it; under any other
capture the model's route refuses to run. -/
def batched (c : Capture ρ) (entry : Entry) (slots : PyList) (args : List PyList) (starts : PyList) :
    Call (Capture ρ) Unit :=
  Call.attempt (raiseIf (entry = .route ∧ c.recordsPrefixRoute = false)
    (.assertionError "prefix reuse: _qwen_dflash_prefill_capture is bound")) c fun () =>
  Call.attempt (c.batchedGuard entry slots args starts) c fun slot =>
  Call.ret
    { c with segmentCalls := c.segmentCalls + 1, prefillSlot := some slot, segmentSlot := some slot } ()

/-- One call of a segment; its value is the list of the chunks it ran. -/
def event (c : Capture ρ) : SegmentEvent ρ → Call (Capture ρ) (List Ran)
  | .chunk validLen chunkStart bucket forward => (c.chunk validLen chunkStart bucket forward).map fun ran => [ran]
  | .batched entry slots args starts => (c.batched entry slots args starts).map fun _ => []
  | .raised e => Call.throw c e

/-- The calls of a segment, up to the first that raises. -/
def events (c : Capture ρ) : List (SegmentEvent ρ) → Call (Capture ρ) (List Ran)
  | [] => Call.ret c []
  | e :: es => (c.event e).bind fun c ran => (c.events es).map (ran ++ ·)

/-- The end of a segment that nothing raised out of: a prompt that is covered is complete. -/
def finish (c : Capture ρ) : Call (Capture ρ) Unit :=
  if c.cursor < c.position then Call.ret c ()
  else
    Call.attempt (do
        let _ ← validatePrefillChunks c.maxPosition c.position c.chunks c.start
        raiseIf (c.prefillSlot ≠ none ∧ c.segmentSlot = none)
          (.valueError "The final prefill segment made no batched call")) c fun () =>
    Call.ret { c with complete := true } ()

/-- The capture with its snapshots released. -/
def release (c : Capture ρ) : Capture ρ := if c.closed then c else { c with closed := true, children := [] }

/-- `close`. -/
def close (c : Capture ρ) : Call (Capture ρ) Unit :=
  Call.attempt (raiseIf (c.active = true) (.valueError "Cannot release chunked features during prefill")) c fun () =>
  Call.ret c.release ()

/-- The checks of `segment`; `nested` says that the model carries another capture. -/
def segmentGuard (c : Capture ρ) (nested : Bool) : Except PyError Unit := do
  raiseIf (c.closed = true) (.valueError "Chunked prefill capture is closed")
  raiseIf (c.complete = true) (.valueError "Chunked prefill capture already covered its prompt")
  raiseIf (nested = true) (.valueError "One non-nested native prefill capture required")

/-- A segment that has been entered. -/
def entered (c : Capture ρ) : Capture ρ :=
  { c with started := true, active := true, segmentCalls := 0, segmentSlot := none, segments := c.segments + 1 }

/-- The `try` of `segment`: the wrappers are bound, the calls arrive, and the segment ends. -/
def segmentBody (c : Capture ρ) (bindings : Except PyError Unit) (body : List (SegmentEvent ρ)) :
    Call (Capture ρ) (List Ran) :=
  Call.attempt bindings c fun () =>
  (c.events body).bind fun c ran =>
  c.finish.map fun _ => ran

/-- `segment`, around the calls `body`. Its value is the list of the chunks the model ran. -/
def segment (c : Capture ρ) (nested : Bool) (bindings : Except PyError Unit) (body : List (SegmentEvent ρ)) :
    Call (Capture ρ) (List Ran) :=
  Call.attempt (c.segmentGuard nested) c fun () =>
  match (c.entered.segmentBody bindings body).result with
  | .ok ran => Call.ret { (c.entered.segmentBody bindings body).obj with active := false } ran
  | .error e => Call.throw { (c.entered.segmentBody bindings body).obj with active := false }.release e

/-- `capture`, around the calls `body`: one segment that has to cover the prompt. -/
def capture (c : Capture ρ) (nested : Bool) (bindings : Except PyError Unit) (body : List (SegmentEvent ρ)) :
    Call (Capture ρ) (List Ran) :=
  Call.attempt (raiseIf (c.started = true) (.valueError "One non-nested native prefill capture required")) c fun () =>
  (c.segment nested bindings body).bind fun c ran =>
  if c.complete then Call.ret c ran
  else Call.attempt (validatePrefillChunks c.maxPosition c.position c.chunks c.start) c.release fun _ => Call.ret c ran

/-- One tap of a child's `outputs`. -/
def tapRows (tap : Nat) (child : LayerOutputs ρ) : Except PyError (List ρ) :=
  match child.get? tap with
  | some value => .ok value
  | none => .error (.runtimeError "Only a complete, open feature capture may be consumed")

/-- The snapshots of one tap, one chunk after the other. -/
def stitched (c : Capture ρ) (tap : Nat) : Except PyError (List ρ) := do
  let values ← c.children.mapM (tapRows tap)
  raiseIf (values.flatten.length ≠ min c.position 2048)
    (.assertionError "Stitched prefill features must contain exactly the valid tail")
  return values.flatten

/-- `outputs`. -/
def outputs (c : Capture ρ) : Except PyError (List (List ρ)) := do
  raiseIf (c.complete = false ∨ c.active = true ∨ c.closed = true)
    (.valueError "Complete open chunked prefill capture required")
  c.taps.mapM c.stitched

/-! ## What a call does to the ledger -/

/-- The rows of a recorded chunk in the window. -/
def pieceOf (c : Capture ρ) (r : ChunkRecord) : Window := tailOf c.position r.chunkStart r.validRows

/-- The chunks with rows in the window. -/
def pieces (c : Capture ρ) : List Window := (c.chunks.map c.pieceOf).filter fun w => w.rows ≠ 0

/-- The recorded chunks, as the model ran them. -/
def ran (c : Capture ρ) : List Ran := c.chunks.map fun r => (r.chunkStart, r.validRows)

/-- The ledger: the chunks lie end to end from the start to the cursor, and for each of them with rows in the window
there is a snapshot of these rows of every tap. -/
structure Ledger (feature : Nat → Nat → ρ) (c : Capture ρ) : Prop where
  spans : Spans ChunkRecord.chunkStart ChunkRecord.validRows c.start c.chunks c.cursor
  within : c.cursor ≤ c.position
  snapshots : c.closed = false → ∀ t ∈ c.taps, c.children.map (fun child => child.get? t) =
    c.pieces.map fun w => some ((List.range' w.start w.rows).map (feature t))

/-- The state inside a segment. -/
structure Inside (feature : Nat → Nat → ρ) (c : Capture ρ) : Prop where
  ledger : Ledger feature c
  active : c.active = true
  opened : c.closed = false
  incomplete : c.complete = false
  calls : c.segmentCalls = 0 ↔ c.segmentSlot = none
  slot : ∀ s, c.segmentSlot = some s → c.prefillSlot = some s

/-- The slots of the batched calls among these. -/
def batchedSlots (body : List (SegmentEvent ρ)) : List Nat :=
  body.filterMap fun
    | .batched _ slots _ _ => (Prefill.prefillSlot slots).toOption
    | _ => none

variable {feature : Nat → Nat → ρ} {c : Capture ρ}

/-- An accepted chunk starts at the cursor and ends within the prompt. -/
theorem chunkGuard_ok {validLen chunkStart bucket : Int} {piece : Window}
    (h : c.chunkGuard validLen chunkStart bucket = .ok piece) :
    chunkStart.toNat = c.cursor ∧ 0 < validLen.toNat ∧ c.cursor + validLen.toNat ≤ c.position ∧
      piece = tailOf c.position chunkStart.toNat validLen.toNat := by
  obtain ⟨⟨⟩, hcursor, h⟩ := bind_ok h
  obtain ⟨w, hw, h⟩ := bind_ok h
  obtain ⟨⟨⟩, -, h⟩ := bind_ok h
  obtain rfl := Except.ok.inj h
  obtain ⟨h0, h1, h2, rfl⟩ := chunkWindow_ok hw
  simp only [raiseIf_ok, not_or, ne_eq, not_not] at hcursor
  refine ⟨by omega, by omega, by omega, rfl⟩

/-- A recorded chunk extends the ledger. -/
theorem Ledger.recorded (h : Ledger feature c) {validLen chunkStart bucket : Int} {piece : Window}
    (hguard : c.chunkGuard validLen chunkStart bucket = .ok piece) (new : List (LayerOutputs ρ))
    (hnew : c.closed = false → ∀ t ∈ c.taps, new.map (fun child => child.get? t) =
      ([piece].filter fun w => w.rows ≠ 0).map fun w => some ((List.range' w.start w.rows).map (feature t))) :
    Ledger feature (c.recorded validLen chunkStart bucket piece (c.children ++ new)) := by
  obtain ⟨hstart, hpos, hle, hpiece⟩ := chunkGuard_ok hguard
  refine ⟨h.spans.snoc hstart hpos, hle, fun hc t ht => ?_⟩
  show (c.children ++ new).map _ = ((c.chunks ++ [_]).map _ |>.filter _).map _
  rw [List.map_append, h.snapshots hc t ht, hnew hc t ht, List.map_append, List.filter_append, List.map_append, hpiece]
  rfl

/-- A returned chunk call keeps the state inside a segment, and is the next chunk of the ledger. -/
theorem chunk_ok (h : Inside feature c) {validLen chunkStart bucket : Int}
    {forward : Except PyError (List (Nat × List ρ))} {r : Ran}
    (hf : (SegmentEvent.chunk validLen chunkStart bucket forward).Faithful feature)
    (hr : (c.chunk validLen chunkStart bucket forward).result = .ok r) :
    Inside feature (c.chunk validLen chunkStart bucket forward).obj ∧
      (c.chunk validLen chunkStart bucket forward).obj.toCaptureConfig = c.toCaptureConfig ∧
      (c.chunk validLen chunkStart bucket forward).obj.ran = c.ran ++ [r] ∧
      (c.chunk validLen chunkStart bucket forward).obj.segmentSlot = c.segmentSlot := by
  obtain ⟨piece, hguard, hc⟩ := Call.of_attempt hr
  have hchunk : c.chunk validLen chunkStart bucket forward = _ := hc
  rw [hchunk] at hr ⊢
  obtain ⟨hledger, h1, h2, h3, h4, h5⟩ := h
  split at hr
  · rename_i hrows
    rw [if_pos hrows]
    obtain ⟨outputs, -, hc⟩ := Call.of_attempt hr
    rw [hc] at hr ⊢
    obtain rfl := Except.ok.inj hr
    have hl := hledger.recorded hguard [] fun _ _ _ => by simp [hrows]
    rw [List.append_nil] at hl
    exact ⟨⟨hl, h1, h2, h3, h4, h5⟩, rfl, by simp [ran, Capture.recorded], rfl⟩
  · rename_i hrows
    rw [if_neg hrows]
    obtain ⟨⟨⟩, -, hc⟩ := Call.of_attempt hr
    rw [hc] at hr ⊢
    obtain ⟨records, hrecords, hc⟩ := Call.of_attempt hr
    rw [hc] at hr ⊢
    obtain rfl := Except.ok.inj hr
    obtain ⟨outputs, hout, hcapture⟩ := bind_ok hrecords
    obtain ⟨-, -, -, hpiece⟩ := chunkGuard_ok hguard
    have hl := hledger.recorded hguard [records] fun _ t ht => by
      rw [List.map_singleton, captureLayers_ok hcapture (hf outputs hout) ht, ← hpiece]
      simp [hrows]
    exact ⟨⟨hl, h1, h2, h3, h4, h5⟩, rfl, by simp [ran, Capture.recorded], rfl⟩

/-- An accepted batched call is the segment's first and names its slot. -/
theorem batched_ok {entry : Entry} {slots : PyList} {args : List PyList} {starts : PyList}
    (hr : (c.batched entry slots args starts).result = .ok ()) :
    ∃ slot starts', Prefill.prefillSlot slots = .ok slot ∧ callStarts entry args starts = .ok starts' ∧
      c.checkResumedCall slot entry starts' = .ok () ∧ c.segmentCalls = 0 ∧
      (c.batched entry slots args starts).obj =
        { c with segmentCalls := c.segmentCalls + 1, prefillSlot := some slot, segmentSlot := some slot } := by
  obtain ⟨⟨⟩, -, hc⟩ := Call.of_attempt hr
  have hbatched : c.batched entry slots args starts = _ := hc
  rw [hbatched] at hr ⊢
  obtain ⟨slot, hguard, hc⟩ := Call.of_attempt hr
  rw [hc]
  obtain ⟨⟨⟩, hfirst, hguard⟩ := bind_ok hguard
  obtain ⟨slot', hslot, hguard⟩ := bind_ok hguard
  obtain ⟨starts', hstarts, hguard⟩ := bind_ok hguard
  obtain ⟨⟨⟩, hcheck, hguard⟩ := bind_ok hguard
  obtain rfl := Except.ok.inj hguard
  simp only [raiseIf_ok, not_or, ne_eq, not_not] at hfirst
  exact ⟨slot', starts', hslot, hstarts, hcheck, hfirst.2, rfl⟩

/-- A batched call that is refused changes nothing. -/
theorem batched_error {entry : Entry} {slots : PyList} {args : List PyList} {starts : PyList} {e : PyError}
    (hr : (c.batched entry slots args starts).result = .error e) : (c.batched entry slots args starts).obj = c := by
  unfold batched at hr ⊢
  refine Call.attempt_obj (P := fun c' => c' = c) rfl fun _ h1 => ?_
  rw [h1, Call.attempt_ok] at hr
  rcases Call.attempt_cases (c.batchedGuard entry slots args starts) c _ with ⟨x, -, h⟩ | ⟨slot, -, h⟩ <;>
    rw [h] at hr ⊢
  · rfl
  · cases hr

/-- **After the first chunk a batched call is accepted only at the cursor**, through the resumable entry or the
prefix-reuse route. -/
theorem checkResumedCall_ok {slot : Nat} {entry : Entry} {starts : PyList} (hcursor : 0 < c.cursor)
    (h : c.checkResumedCall slot entry starts = .ok ()) :
    (entry = .range ∨ entry = .route) ∧ resumedStart starts = some (c.cursor : Int) := by
  unfold checkResumedCall at h
  split_ifs at h with hroute hfirst hzero hbad hmoved
  · rw [raiseIf_ok, not_not] at h
    exact ⟨Or.inr hroute, h⟩
  · omega
  · simp only [not_or, ne_eq, not_not] at hbad
    exact ⟨Or.inl hbad.1, hbad.2.2⟩

/-- The calls of a segment keep the state inside it: they are the next chunks of the ledger, and at most one of them is
batched. -/
theorem events_ok (body : List (SegmentEvent ρ)) : ∀ {c : Capture ρ} {rs : List Ran}, Inside feature c →
    (∀ e ∈ body, e.Faithful feature) → (c.events body).result = .ok rs →
    Inside feature (c.events body).obj ∧ (c.events body).obj.toCaptureConfig = c.toCaptureConfig ∧
      (c.events body).obj.ran = c.ran ++ rs ∧
      (c.events body).obj.segmentSlot.toList = c.segmentSlot.toList ++ batchedSlots body := by
  induction body with
  | nil =>
    intro c rs h _ hr
    obtain rfl := Except.ok.inj hr
    exact ⟨h, rfl, by simp [events], by simp [events, batchedSlots]⟩
  | cons e es ih =>
    intro c rs h hf hr
    obtain ⟨rs₁, he, hc⟩ := Call.of_bind hr
    have hevents : c.events (e :: es) = _ := hc
    rw [hevents] at hr ⊢
    obtain ⟨rs₂, hes, rfl⟩ : ∃ rs₂, ((c.event e).obj.events es).result = .ok rs₂ ∧ rs = rs₁ ++ rs₂ := by
      cases hx : ((c.event e).obj.events es).result with
      | error x => simp [Call.map, hx, Except.map] at hr
      | ok rs₂ =>
        simp only [Call.map, hx, Except.map, Except.ok.injEq] at hr
        exact ⟨rs₂, rfl, hr.symm⟩
    have hstep : Inside feature (c.event e).obj ∧ (c.event e).obj.toCaptureConfig = c.toCaptureConfig ∧
        (c.event e).obj.ran = c.ran ++ rs₁ ∧
        (c.event e).obj.segmentSlot.toList = c.segmentSlot.toList ++ batchedSlots [e] := by
      cases e with
      | chunk validLen chunkStart bucket forward =>
        cases hx : (c.chunk validLen chunkStart bucket forward).result with
        | error x => simp [event, Call.map, hx, Except.map] at he
        | ok r =>
          simp only [event, Call.map, hx, Except.map, Except.ok.injEq] at he
          obtain ⟨h1, h2, h3, h4⟩ := chunk_ok h (hf _ List.mem_cons_self) hx
          refine ⟨h1, h2, ?_, ?_⟩
          · rw [← he]; exact h3
          · show Option.toList (c.chunk validLen chunkStart bucket forward).obj.segmentSlot = _
            rw [h4]
            simp [batchedSlots]
      | batched entry slots args starts =>
        cases hx : (c.batched entry slots args starts).result with
        | error x => simp [event, Call.map, hx, Except.map] at he
        | ok u =>
          simp only [event, Call.map, hx, Except.map, Except.ok.injEq] at he
          obtain ⟨slot, -, hslot, -, -, hcalls, hobj⟩ := batched_ok hx
          have hnone := h.calls.mp hcalls
          have hevent : (c.event (.batched entry slots args starts)).obj = _ := hobj
          rw [hevent, ← he, List.append_nil]
          refine ⟨⟨⟨h.ledger.spans, h.ledger.within, h.ledger.snapshots⟩, h.active, h.opened, h.incomplete,
            by simp, fun s hs => hs⟩, rfl, rfl, ?_⟩
          simp [batchedSlots, hslot, hnone, Except.toOption]
      | raised x => cases he
    obtain ⟨h1, h2, h3, h4⟩ := hstep
    obtain ⟨k1, k2, k3, k4⟩ := ih h1 (fun e' he' => hf e' (List.mem_cons_of_mem _ he')) hes
    refine ⟨k1, k2.trans h2, ?_, ?_⟩
    · show Capture.ran ((c.event e).obj.events es).obj = _
      rw [k3, h3, List.append_assoc]
    · show Option.toList ((c.event e).obj.events es).obj.segmentSlot = _
      rw [k4, h4, List.append_assoc]
      congr 1
      simp only [batchedSlots, ← List.filterMap_append, List.singleton_append]

/-- `c'` is complete, and closed, exactly if `c` is. -/
def SameFlags (c c' : Capture ρ) : Prop := c'.complete = c.complete ∧ c'.closed = c.closed

/-- A call of a segment never completes or closes the capture by itself, whether it returns or raises. -/
theorem event_flags (c : Capture ρ) (e : SegmentEvent ρ) : SameFlags c (c.event e).obj := by
  cases e with
  | chunk validLen chunkStart bucket forward =>
    refine Call.attempt_obj (P := SameFlags c) ⟨rfl, rfl⟩ fun piece _ => ?_
    split
    · exact Call.attempt_obj (P := SameFlags c) ⟨rfl, rfl⟩ fun _ _ => ⟨rfl, rfl⟩
    · refine Call.attempt_obj (P := SameFlags c) ⟨rfl, rfl⟩ fun _ _ => ?_
      exact Call.attempt_obj (P := SameFlags c) ⟨rfl, rfl⟩ fun _ _ => ⟨rfl, rfl⟩
  | batched entry slots args starts =>
    refine Call.attempt_obj (P := SameFlags c) ⟨rfl, rfl⟩ fun _ _ => ?_
    exact Call.attempt_obj (P := SameFlags c) ⟨rfl, rfl⟩ fun _ _ => ⟨rfl, rfl⟩
  | raised x => exact ⟨rfl, rfl⟩

/-- Nor do all of them. -/
theorem events_flags (body : List (SegmentEvent ρ)) : ∀ c : Capture ρ, SameFlags c (c.events body).obj := by
  induction body with
  | nil => exact fun c => ⟨rfl, rfl⟩
  | cons e es ih =>
    intro c
    have hevent := c.event_flags e
    refine Call.bind_obj (P := SameFlags c) hevent fun _ _ => ?_
    exact ⟨(ih _).1.trans hevent.1, (ih _).2.trans hevent.2⟩

/-! ## Segments -/

/-- A capture that was closed before it covered its prompt. -/
def Dead (c : Capture ρ) : Prop := c.closed = true ∧ c.complete = false

/-- Releasing an incomplete capture leaves it dead. -/
theorem release_dead (h : c.complete = false) : Dead c.release := by
  unfold release
  split_ifs with hclosed
  · exact ⟨hclosed, h⟩
  · exact ⟨rfl, h⟩

/-- The end of a segment raises, leaves the capture as it is short of its position, or completes it. -/
theorem finish_cases (c : Capture ρ) : (∃ e, c.finish = Call.throw c e) ∨
    (c.cursor < c.position ∧ c.finish = Call.ret c ()) ∨
    (c.position ≤ c.cursor ∧ (c.prefillSlot ≠ none → c.segmentSlot ≠ none) ∧
      c.finish = Call.ret { c with complete := true } ()) := by
  unfold finish
  split_ifs with hlt
  · exact Or.inr (Or.inl ⟨hlt, rfl⟩)
  rcases Call.attempt_cases (do
      let _ ← validatePrefillChunks c.maxPosition c.position c.chunks c.start
      raiseIf (c.prefillSlot ≠ none ∧ c.segmentSlot = none)
        (.valueError "The final prefill segment made no batched call")) c
      (fun _ => Call.ret { c with complete := true } ()) with ⟨e, -, hc⟩ | ⟨⟨⟩, hok, hc⟩ <;> rw [hc]
  · exact Or.inl ⟨e, rfl⟩
  · obtain ⟨_, -, hfinal⟩ := bind_ok hok
    rw [raiseIf_ok, not_and] at hfinal
    exact Or.inr (Or.inr ⟨Nat.le_of_not_lt hlt, hfinal, rfl⟩)

/-- A segment that raises leaves the capture incomplete: the last thing a segment does is to complete it. -/
theorem segmentBody_raised (hincomplete : c.complete = false) {bindings : Except PyError Unit}
    {body : List (SegmentEvent ρ)} {e : PyError} (h : (c.entered.segmentBody bindings body).result = .error e) :
    (c.entered.segmentBody bindings body).obj.complete = false := by
  unfold segmentBody at h ⊢
  rcases Call.attempt_cases bindings c.entered _ with ⟨x, -, hc⟩ | ⟨⟨⟩, -, hc⟩ <;> rw [hc] at h ⊢
  · exact hincomplete
  have hflags : (c.entered.events body).obj.complete = false := (events_flags body _).1.trans hincomplete
  rcases Call.bind_cases (c.entered.events body) _ with ⟨x, -, hc⟩ | ⟨rs, -, hc⟩ <;> rw [hc] at h ⊢
  · exact hflags
  rcases (c.entered.events body).obj.finish_cases with ⟨x, hc⟩ | ⟨-, hc⟩ | ⟨-, -, hc⟩ <;> rw [hc] at h ⊢
  · exact hflags
  · exact hflags
  · cases h

/-- What a returned segment has done: it ran the chunks `rs`, and where it completed the capture its one batched call
wrote the slot. -/
structure Done (feature : Nat → Nat → ρ) (c : Capture ρ) (body : List (SegmentEvent ρ)) (rs : List Ran)
    (c' : Capture ρ) : Prop where
  config : c'.toCaptureConfig = c.toCaptureConfig
  ledger : Ledger feature c'
  inactive : c'.active = false
  opened : c'.closed = false
  ran : c'.ran = c.ran ++ rs
  covered : c'.complete = true → c'.cursor = c'.position ∧ ∀ s, c'.prefillSlot = some s → batchedSlots body = [s]

/-- The body of a segment that returned is done. -/
theorem segmentBody_ok (hl : Ledger feature c) (hopen : c.closed = false) (hincomplete : c.complete = false)
    {bindings : Except PyError Unit} {body : List (SegmentEvent ρ)} {rs : List Ran}
    (hf : ∀ e ∈ body, e.Faithful feature) (h : (c.entered.segmentBody bindings body).result = .ok rs) :
    Done feature c body rs { (c.entered.segmentBody bindings body).obj with active := false } := by
  have hinside : Inside feature c.entered :=
    ⟨⟨hl.spans, hl.within, hl.snapshots⟩, rfl, hopen, hincomplete, by simp [entered], fun s hs => (by cases hs)⟩
  obtain ⟨⟨⟩, -, hc⟩ := Call.of_attempt h
  have hbody : c.entered.segmentBody bindings body = _ := hc
  rw [hbody] at h ⊢
  obtain ⟨rs', hrs, hc⟩ := Call.of_bind h
  rw [hc] at h ⊢
  obtain ⟨⟨hledger, -, hopened, hinc, -, hslot⟩, hconfig, hran, hslots⟩ := events_ok body hinside hf hrs
  have hslots' : (c.entered.events body).obj.segmentSlot.toList = batchedSlots body := hslots
  rcases (c.entered.events body).obj.finish_cases with ⟨x, hc⟩ | ⟨hlt, hc⟩ | ⟨hge, hfinal, hc⟩ <;> rw [hc] at h ⊢
  · cases h
  · obtain rfl := Except.ok.inj h
    refine ⟨hconfig, ⟨hledger.spans, hledger.within, hledger.snapshots⟩, rfl, hopened, hran, fun h => ?_⟩
    exact absurd (hinc.symm.trans h) (by simp)
  · obtain rfl := Except.ok.inj h
    refine ⟨hconfig, ⟨hledger.spans, hledger.within, hledger.snapshots⟩, rfl, hopened, hran, fun _ => ?_⟩
    refine ⟨Nat.le_antisymm hledger.within hge, fun s hs => ?_⟩
    have hs' : (c.entered.events body).obj.prefillSlot = some s := hs
    cases hseg : (c.entered.events body).obj.segmentSlot with
    | none => exact absurd hseg (hfinal (by simp [hs']))
    | some s' =>
      have := hslot s' hseg
      rw [← hslots', hseg, Option.toList_some]
      rw [hs'] at this
      rw [Option.some.inj this]

/-- The segment's own checks passed. -/
theorem segmentGuard_ok {nested : Bool} (h : c.segmentGuard nested = .ok ()) :
    c.closed = false ∧ c.complete = false ∧ nested = false := by
  obtain ⟨⟨⟩, h1, h⟩ := bind_ok h
  obtain ⟨⟨⟩, h2, h⟩ := bind_ok h
  simp only [raiseIf_ok, Bool.not_eq_true] at h1 h2 h
  exact ⟨h1, h2, h⟩

/-- A segment that has been entered and raises leaves the capture dead. -/
theorem segment_raised {nested : Bool} {bindings : Except PyError Unit} {body : List (SegmentEvent ρ)} {e : PyError}
    (hg : c.segmentGuard nested = .ok ()) (h : (c.segment nested bindings body).result = .error e) :
    Dead (c.segment nested bindings body).obj := by
  obtain ⟨-, hinc, -⟩ := segmentGuard_ok hg
  unfold segment at h ⊢
  rw [hg, Call.attempt_ok] at h ⊢
  cases hr : (c.entered.segmentBody bindings body).result with
  | ok rs => simp [hr] at h
  | error e' => exact release_dead (segmentBody_raised hinc hr)

/-- A segment that has been entered and returns is done. -/
theorem segment_ok (hl : Ledger feature c) {nested : Bool} {bindings : Except PyError Unit}
    {body : List (SegmentEvent ρ)} {rs : List Ran} (hf : ∀ e ∈ body, e.Faithful feature)
    (h : (c.segment nested bindings body).result = .ok rs) :
    c.segmentGuard nested = .ok () ∧ Done feature c body rs (c.segment nested bindings body).obj := by
  obtain ⟨⟨⟩, hg, hc⟩ := Call.of_attempt h
  obtain ⟨hopen, hinc, -⟩ := segmentGuard_ok hg
  refine ⟨hg, ?_⟩
  unfold segment at h ⊢
  rw [hg, Call.attempt_ok] at h ⊢
  cases hr : (c.entered.segmentBody bindings body).result with
  | ok rs' =>
    simp only [hr, Call.ret_result, Except.ok.injEq] at h
    rw [← h]
    exact segmentBody_ok hl hopen hinc hf hr
  | error e' => simp [hr] at h

/-- A segment that is not entered changes nothing. -/
theorem segment_refused {nested : Bool} {e : PyError} (hg : c.segmentGuard nested = .error e)
    (bindings : Except PyError Unit) (body : List (SegmentEvent ρ)) :
    c.segment nested bindings body = Call.throw c e := by
  rw [segment, hg, Call.attempt_error]

end Capture

/-- A call on a capture, between which other requests' steps may run. -/
inductive CaptureCall (ρ : Type)
  | segment (nested : Bool) (bindings : Except PyError Unit) (body : List (SegmentEvent ρ))
  | capture (nested : Bool) (bindings : Except PyError Unit) (body : List (SegmentEvent ρ))
  | close

/-- The calls that arrive inside. -/
def CaptureCall.body {ρ : Type} : CaptureCall ρ → List (SegmentEvent ρ)
  | .segment _ _ body => body
  | .capture _ _ body => body
  | .close => []

namespace Capture

variable {ρ : Type} {feature : Nat → Nat → ρ} {c : Capture ρ}

/-- Perform a call; its value is the list of the chunks the model ran. -/
def after (c : Capture ρ) : CaptureCall ρ → Call (Capture ρ) (List Ran)
  | .segment nested bindings body => c.segment nested bindings body
  | .capture nested bindings body => c.capture nested bindings body
  | .close => c.close.map fun _ => []

/-- The call gets past its own checks into a segment. -/
def Enters (c : Capture ρ) : CaptureCall ρ → Prop
  | .segment nested _ _ => c.segmentGuard nested = .ok ()
  | .capture nested _ _ => c.started = false ∧ c.segmentGuard nested = .ok ()
  | .close => False

/-- A call with its outcome. -/
abbrev Label (ρ : Type) := CaptureCall ρ × Except PyError (List Ran)

/-- One call of a run. -/
def Step (c : Capture ρ) (l : Label ρ) (c' : Capture ρ) : Prop := c' = (c.after l.1).obj ∧ l.2 = (c.after l.1).result

theorem step_after (c : Capture ρ) (call : CaptureCall ρ) : Step c (call, (c.after call).result) (c.after call).obj :=
  ⟨rfl, rfl⟩

/-- The chunks the model ran in the returned calls. -/
def executed (ls : List (Label ρ)) : List Ran := ls.flatMap fun l => l.2.toOption.getD []

/-- **A call that raises inside a segment leaves the capture dead.** -/
theorem after_raised {call : CaptureCall ρ} {e : PyError} (henters : c.Enters call)
    (h : (c.after call).result = .error e) : Dead (c.after call).obj := by
  cases call with
  | close => exact henters.elim
  | segment nested bindings body => exact segment_raised henters h
  | capture nested bindings body =>
    rw [after, capture, show raiseIf (c.started = true) _ = .ok () from raiseIf_ok.mpr (by simp [henters.1]),
      Call.attempt_ok] at h ⊢
    rcases Call.bind_cases (c.segment nested bindings body) _ with ⟨x, hx, hc⟩ | ⟨rs, -, hc⟩ <;> rw [hc] at h ⊢
    · exact segment_raised henters.2 hx
    split_ifs at h ⊢ with hcomplete
    · cases h
    rcases Call.attempt_cases (validatePrefillChunks (c.segment nested bindings body).obj.maxPosition
      (c.segment nested bindings body).obj.position (c.segment nested bindings body).obj.chunks
      (c.segment nested bindings body).obj.start) (c.segment nested bindings body).obj.release
      (fun _ => Call.ret (c.segment nested bindings body).obj rs) with ⟨x, -, hc⟩ | ⟨_, -, hc⟩ <;> rw [hc] at h ⊢
    · exact release_dead (by simpa using hcomplete)
    · cases h

/-- **A call that returns from a segment is done.** -/
theorem after_ok (hl : Ledger feature c) {call : CaptureCall ρ} {rs : List Ran}
    (hf : ∀ e ∈ call.body, e.Faithful feature) (henters : c.Enters call) (h : (c.after call).result = .ok rs) :
    Done feature c call.body rs (c.after call).obj := by
  cases call with
  | close => exact henters.elim
  | segment nested bindings body => exact (segment_ok hl hf h).2
  | capture nested bindings body =>
    have hbody : ∀ e ∈ body, e.Faithful feature := hf
    rw [after, capture, show raiseIf (c.started = true) _ = .ok () from raiseIf_ok.mpr (by simp [henters.1]),
      Call.attempt_ok] at h ⊢
    obtain ⟨rs', hrs, hc⟩ := Call.of_bind h
    rw [hc] at h ⊢
    have hdone := (segment_ok hl hbody hrs).2
    split_ifs at h ⊢ with hcomplete
    · obtain rfl := Except.ok.inj h
      exact hdone
    · obtain ⟨_, -, hc⟩ := Call.of_attempt h
      rw [hc] at h ⊢
      obtain rfl := Except.ok.inj h
      exact hdone

/-- A call that enters no segment changes nothing but, for a close, the snapshots. -/
theorem after_refused (hinactive : c.active = false) {call : CaptureCall ρ} (h : ¬c.Enters call) :
    ((c.after call).obj = c ∨ (c.after call).obj = c.release) ∧ (c.after call).result.toOption.getD [] = [] := by
  have hsegment : ∀ nested bindings body, c.segmentGuard nested ≠ .ok () →
      ∃ e, c.segment nested bindings body = Call.throw c e := by
    intro nested bindings body hne
    cases hg : c.segmentGuard nested with
    | ok u => exact absurd hg hne
    | error e => exact ⟨e, segment_refused hg bindings body⟩
  cases call with
  | close =>
    refine ⟨Or.inr ?_, ?_⟩ <;> simp [after, close, hinactive, raiseIf, Call.map, Call.ret, Except.map, Except.toOption]
  | segment nested bindings body =>
    obtain ⟨e, he⟩ := hsegment nested bindings body h
    rw [after, he]
    exact ⟨Or.inl rfl, rfl⟩
  | capture nested bindings body =>
    rw [after, capture]
    rcases Call.attempt_cases (raiseIf (c.started = true)
      (.valueError "One non-nested native prefill capture required")) c _ with ⟨e, -, hc⟩ | ⟨⟨⟩, hstarted, hc⟩ <;>
      rw [hc]
    · exact ⟨Or.inl rfl, rfl⟩
    · rw [raiseIf_ok, Bool.not_eq_true] at hstarted
      obtain ⟨e, he⟩ := hsegment nested bindings body fun hg => h ⟨hstarted, hg⟩
      rw [he]
      exact ⟨Or.inl rfl, rfl⟩

/-- A dead capture stays as it is. -/
theorem Dead.after (h : Dead c) (call : CaptureCall ρ) : (c.after call).obj = c := by
  have hrefused : ∀ nested bindings body, c.segment nested bindings body =
      Call.throw c (.valueError "Chunked prefill capture is closed") := by
    intro nested bindings body
    simp [segment, segmentGuard, raiseIf, h.1, bind, Except.bind]
  cases call with
  | segment nested bindings body => rw [Capture.after, hrefused]; rfl
  | capture nested bindings body =>
    refine Call.attempt_obj (P := fun c' => c' = c) rfl fun _ _ => ?_
    rw [hrefused]
    rfl
  | close =>
    show c.close.obj = c
    refine Call.attempt_obj (P := fun c' => c' = c) rfl fun _ _ => ?_
    simp [release, h.1]

/-! ## Runs -/

/-- What holds between the calls of a run that started with `c₀`, as long as the capture is not dead. -/
structure Good (feature : Nat → Nat → ρ) (c₀ : Capture ρ) (ls : List (Label ρ)) (c : Capture ρ) : Prop where
  config : c.toCaptureConfig = c₀.toCaptureConfig
  ledger : Ledger feature c
  inactive : c.active = false
  runs : c.ran = Capture.executed ls
  /-- A complete capture was completed by one segment, whose batched call, if any, wrote its slot. -/
  covered : c.complete = true → c.cursor = c.position ∧
    ∃ before l after c₁, ls = before ++ l :: after ∧ Run Step c₀ before c₁ ∧ c₁.complete = false ∧ c₁.Enters l.1 ∧
      (c₁.after l.1).obj.complete = true ∧ ∀ s, c.prefillSlot = some s → batchedSlots l.1.body = [s]

theorem executed_append (ls ls' : List (Label ρ)) : executed (ls ++ ls') = executed ls ++ executed ls' :=
  List.flatMap_append

/-- A new capture starts at `0`, or at least a window before its position. -/
theorem init_start {maxPosition position : Nat} {taps : List Nat} {layers : Nat} {start : Int}
    {prefixRoute native hasRoute : Bool}
    (h : init maxPosition position taps layers start prefixRoute native hasRoute = .ok c) :
    c.start = 0 ∨ c.start + 2048 ≤ c.position := by
  obtain ⟨_, -, h⟩ := bind_ok h
  obtain ⟨⟨⟩, -, h⟩ := bind_ok h
  obtain ⟨s, hs, h⟩ := bind_ok h
  obtain ⟨⟨⟩, -, h⟩ := bind_ok h
  obtain rfl := Except.ok.inj h
  obtain ⟨⟨⟩, hstart, hs⟩ := bind_ok hs
  obtain rfl := Except.ok.inj hs
  rw [raiseIf_ok] at hstart
  show start.toNat = 0 ∨ start.toNat + 2048 ≤ position
  simp only [not_or, not_and] at hstart
  have hchunk : (RESUME_CHUNK : Int) = 2048 := rfl
  omega

/-- A new capture. -/
theorem init_good {maxPosition position : Nat} {taps : List Nat} {layers : Nat} {start : Int}
    {prefixRoute native hasRoute : Bool} (feature : Nat → Nat → ρ)
    (hinit : init maxPosition position taps layers start prefixRoute native hasRoute = .ok c) :
    Good feature c [] c := by
  obtain ⟨_, -, h⟩ := bind_ok hinit
  obtain ⟨⟨⟩, -, h⟩ := bind_ok h
  obtain ⟨s, hs, h⟩ := bind_ok h
  obtain ⟨⟨⟩, -, h⟩ := bind_ok h
  obtain rfl := Except.ok.inj h
  have hle : s ≤ position := by
    have hlegal := init_start hinit
    have : s = 0 ∨ s + 2048 ≤ position := hlegal
    omega
  exact ⟨rfl, ⟨.nil _, hle, fun _ _ _ => rfl⟩, rfl, rfl, fun h => (by cases h)⟩

/-- One call of a run keeps the invariant. -/
theorem Good.step {c₀ : Capture ρ} {ls : List (Label ρ)} (hrun : Run Step c₀ ls c)
    (h : Dead c ∨ Good feature c₀ ls c) {l : Label ρ} {c' : Capture ρ} (hf : ∀ e ∈ l.1.body, e.Faithful feature)
    (hstep : c.Step l c') : Dead c' ∨ Good feature c₀ (ls ++ [l]) c' := by
  obtain ⟨call, r⟩ := l
  obtain ⟨hobj, hresult⟩ := hstep
  simp only at hobj hresult
  subst hobj hresult
  rcases h with h | h
  · exact Or.inl (by rw [h.after]; exact h)
  by_cases henters : c.Enters call
  case neg =>
    obtain ⟨hobj, hnone⟩ := after_refused h.inactive henters
    have hexec : Capture.executed (ls ++ [(call, (c.after call).result)]) = Capture.executed ls := by
      rw [executed_append]
      simp [Capture.executed, hnone]
    have hcovered : c.complete = true → c.cursor = c.position ∧
        ∃ before l after c₁, ls ++ [(call, (c.after call).result)] = before ++ l :: after ∧ Run Step c₀ before c₁ ∧
          c₁.complete = false ∧ c₁.Enters l.1 ∧ (c₁.after l.1).obj.complete = true ∧
          ∀ s, c.prefillSlot = some s → batchedSlots l.1.body = [s] := by
      intro hc
      obtain ⟨hcur, before, l, after, c₁, rfl, hrest⟩ := h.covered hc
      exact ⟨hcur, before, l, after ++ [(call, (c.after call).result)], c₁, by simp, hrest⟩
    rcases hobj with hobj | hobj <;> rw [hobj]
    · exact Or.inr ⟨h.config, h.ledger, h.inactive, h.runs.trans hexec.symm, hcovered⟩
    · unfold release
      split_ifs with hclosed
      · exact Or.inr ⟨h.config, h.ledger, h.inactive, h.runs.trans hexec.symm, hcovered⟩
      · exact Or.inr ⟨h.config, ⟨h.ledger.spans, h.ledger.within, fun h => (by cases h)⟩, h.inactive,
          h.runs.trans hexec.symm, hcovered⟩
  case pos =>
    cases hrs : (c.after call).result with
    | error e => exact Or.inl (after_raised henters hrs)
    | ok rs =>
      have hdone := after_ok h.ledger hf henters hrs
      refine Or.inr ⟨hdone.config.trans h.config, hdone.ledger, hdone.inactive, ?_, fun hc => ?_⟩
      · rw [hdone.ran, h.runs, executed_append]
        simp [Capture.executed, Except.toOption]
      obtain ⟨hcur, hslot⟩ := hdone.covered hc
      have hinc : c.complete = false := by
        cases call with
        | segment nested bindings body => exact (segmentGuard_ok henters).2.1
        | capture nested bindings body => exact (segmentGuard_ok henters.2).2.1
        | close => exact henters.elim
      exact ⟨hcur, ls, _, [], c, rfl, hrun, hinc, henters, hc, hslot⟩

/-- Children that all hold a tap. -/
theorem mapM_tapRows {tap : Nat} {children : List (LayerOutputs ρ)} {ws : List Window} {f : Window → List ρ}
    (h : children.map (fun child => child.get? tap) = ws.map fun w => some (f w)) :
    children.mapM (tapRows tap) = .ok (ws.map f) := by
  induction children generalizing ws with
  | nil =>
    rw [List.map_nil, eq_comm, List.map_eq_nil_iff] at h
    subst h
    rfl
  | cons child children ih =>
    cases ws with
    | nil => simp at h
    | cons w ws =>
      simp only [List.map_cons, List.cons.injEq] at h
      have hchild : tapRows tap child = .ok (f w) := by simp only [tapRows, h.1]
      rw [List.mapM_cons, hchild, ih h.2]
      rfl

/-- **The snapshots of a covered prompt** are the feature rows of the window. -/
theorem outputs_eq (hl : Ledger feature c) (hstart : c.start = 0 ∨ c.start + 2048 ≤ c.position)
    (hcursor : c.cursor = c.position) (hcomplete : c.complete = true) (hinactive : c.active = false)
    (hopen : c.closed = false) :
    c.outputs = .ok (c.taps.map fun t => (List.range' (c.position - 2048) (min c.position 2048)).map (feature t)) := by
  have hflat : ∀ t, (c.pieces.map fun w => (List.range' w.start w.rows).map (feature t)).flatten =
      (List.range' (c.position - 2048) (min c.position 2048)).map (feature t) := by
    intro t
    have hfilter : ∀ l : List Window, ((l.filter fun w => w.rows ≠ 0).map fun w =>
        (List.range' w.start w.rows).map (feature t)).flatten =
        (l.flatMap fun w => List.range' w.start w.rows).map (feature t) := by
      intro l
      induction l with
      | nil => rfl
      | cons w l ih =>
        by_cases hw : w.rows = 0
        · simp only [ne_eq, decide_not] at ih
          simp [hw, ih]
        · simp only [ne_eq, decide_not] at ih
          simp [hw, ih]
    have habove := hl.spans.flatMap_range_above (c.position - 2048)
    rw [pieces, hfilter, List.flatMap_map]
    have hpiece : (c.chunks.flatMap fun r => List.range' (c.pieceOf r).start (c.pieceOf r).rows) =
        c.chunks.flatMap fun r => List.range' (max (c.position - 2048) r.chunkStart)
          (r.chunkStart + r.validRows - max (c.position - 2048) r.chunkStart) := by
      refine List.flatMap_congr fun r hr => ?_
      have := (hl.spans.bounds hr).2
      have hwithin := hl.within
      simp only [pieceOf, tailOf]
      rw [Nat.min_eq_right (by omega)]
    have h1 : max (c.position - 2048) c.start = c.position - 2048 := by omega
    have h2 : c.position - (c.position - 2048) = min c.position 2048 := by omega
    rw [hpiece, habove, hcursor, h1, h2]
  unfold outputs
  rw [show raiseIf (c.complete = false ∨ c.active = true ∨ c.closed = true) _ = .ok () from
    raiseIf_ok.mpr (by simp [hcomplete, hinactive, hopen])]
  refine mapM_eq_ok fun t ht => ?_
  unfold stitched
  rw [mapM_tapRows (hl.snapshots hopen t ht)]
  have hlen := congrArg List.length (hflat t)
  rw [List.length_map, List.length_range'] at hlen
  show (do
    raiseIf ((c.pieces.map fun w : Window => (List.range' w.start w.rows).map (feature t)).flatten.length ≠
      min c.position 2048) (.assertionError "Stitched prefill features must contain exactly the valid tail")
    return (c.pieces.map fun w : Window => (List.range' w.start w.rows).map (feature t)).flatten) = _
  rw [(raiseIf_ok (u := ())).mpr (not_not.mpr hlen), hflat]
  rfl

/-- **The capture ledger.** A capture that is complete after a run was given each row of its prompt by one chunk, in
order; its snapshots are the feature rows of the draft window; and the slot it holds is the one its last segment's only
batched call wrote. A later batched call that does not resume at the cursor is refused, and a call that raises inside a
segment leaves the capture closed, and incomplete for ever. -/
theorem capture_ledger {maxPosition position : Nat} {taps : List Nat} {layers : Nat} {start : Int}
    {prefixRoute native hasRoute : Bool} {c₀ : Capture ρ} {ls : List (Label ρ)}
    (hinit : init maxPosition position taps layers start prefixRoute native hasRoute = .ok c₀)
    (hfaithful : ∀ l ∈ ls, ∀ e ∈ l.1.body, e.Faithful feature) (hrun : Run Step c₀ ls c) :
    (c.complete = true →
      Spans ChunkRecord.chunkStart ChunkRecord.validRows c₀.start c.chunks c₀.position ∧
      c.chunks.map (fun r => (r.chunkStart, r.validRows)) = executed ls ∧
      (c.closed = false → c.outputs = .ok (c₀.taps.map fun t =>
        (List.range' (c₀.position - 2048) (min c₀.position 2048)).map (feature t))) ∧
      ∃ before l after c₁, ls = before ++ l :: after ∧ Run Step c₀ before c₁ ∧ c₁.complete = false ∧ c₁.Enters l.1 ∧
        (c₁.after l.1).obj.complete = true ∧ ∀ s, c.prefillSlot = some s → batchedSlots l.1.body = [s]) ∧
    (∀ (c' : Capture ρ) entry slots args starts, 0 < c'.cursor →
      (∀ starts', callStarts entry args starts = .ok starts' →
        ¬((entry = .range ∨ entry = .route) ∧ resumedStart starts' = some (c'.cursor : Int))) →
      (c'.batched entry slots args starts).Refused c') ∧
    ∀ call e, c.Enters call → (c.after call).result = .error e →
      ∀ ls' c', Run Step (c.after call).obj ls' c' → c'.closed = true ∧ c'.complete = false := by
  have hgood : Dead c ∨ Good feature c₀ ls c := by
    induction hrun with
    | nil => exact Or.inr (init_good feature hinit)
    | snoc hr hs ih =>
      refine (Good.step hr (ih fun l hl => hfaithful l ?_) (hfaithful _ ?_) hs)
      · exact List.mem_append_left _ hl
      · exact List.mem_append_right _ (by simp)
  refine ⟨fun hcomplete => ?_, fun c' entry slots args starts hcursor hbad => ?_,
    fun call e henters he ls' c' hrun' => ?_⟩
  · rcases hgood with hdead | h
    · exact absurd (hdead.2.symm.trans hcomplete) (by simp)
    obtain ⟨hcur, hlast⟩ := h.covered hcomplete
    have hlegal := init_start hinit
    rw [← h.config] at hlegal ⊢
    refine ⟨hcur ▸ h.ledger.spans, h.runs, fun hopen => ?_, hlast⟩
    exact outputs_eq h.ledger hlegal hcur hcomplete h.inactive hopen
  · cases hr : (c'.batched entry slots args starts).result with
    | error e => exact ⟨batched_error hr, e, hr⟩
    | ok u =>
      obtain ⟨slot, starts', -, hstarts, hcheck, -⟩ := batched_ok hr
      exact absurd (checkResumedCall_ok hcursor hcheck) (hbad starts' hstarts)
  · exact Run.invariant_state (P := Dead) (after_raised henters he) (fun h hs => by rw [hs.1, h.after]; exact h) hrun'

/-- A new capture of a prompt of 2050 tokens, whose window leaves out the first two. -/
def sampleCapture : Capture (Nat × Nat) :=
  ⟨⟨2050, [0], 0, false, 1, 4096⟩, [], [], 0, false, false, false, false, 0, none, none, 0⟩

/-- Its first step, in slot 5: a whole chunk. -/
def firstSegment : CaptureCall (Nat × Nat) :=
  .segment false (.ok ()) [.batched .slots (some [.int 5]) [] none,
    .chunk 2048 0 2048 (.ok [(0, (List.range 2048).map (Prod.mk 0))])]

/-- Its second, moved to slot 6 and resumed at the cursor: two tokens in a padded chunk. -/
def secondSegment : CaptureCall (Nat × Nat) :=
  .segment false (.ok ()) [.batched .range (some [.int 6]) [some [.int 2048]] none,
    .chunk 2 2048 32 (.ok [(0, [(0, 2048), (0, 2049)] ++ List.replicate 30 (9, 9))])]

/-- The capture after both. -/
def sampleCaptured : Capture (Nat × Nat) := ((sampleCapture.after firstSegment).obj.after secondSegment).obj

theorem firstSegment_faithful : ∀ e ∈ firstSegment.body, e.Faithful fun t r => (t, r) := by
  intro e he
  simp only [firstSegment, CaptureCall.body, List.mem_cons, List.not_mem_nil, or_false] at he
  rcases he with rfl | rfl
  · exact trivial
  · intro outputs h p hp i hi
    obtain rfl := Except.ok.inj h
    obtain rfl := List.mem_singleton.mp hp
    have hi : i < 2048 := hi
    simp [hi]

theorem secondSegment_faithful : ∀ e ∈ secondSegment.body, e.Faithful fun t r => (t, r) := by
  intro e he
  simp only [secondSegment, CaptureCall.body, List.mem_cons, List.not_mem_nil, or_false] at he
  rcases he with rfl | rfl
  · exact trivial
  · intro outputs h p hp i hi
    obtain rfl := Except.ok.inj h
    obtain rfl := List.mem_singleton.mp hp
    have hi : i < 2 := hi
    obtain rfl | rfl : i = 0 ∨ i = 1 := by omega
    · rfl
    · rfl

/-- The capture covers its prompt in the slot it moved to; its window straddles the chunks and has no padding row. -/
theorem capture_ledger_sample : sampleCaptured.complete = true ∧ sampleCaptured.prefillSlot = some 6 ∧
    sampleCaptured.children.length = 2 ∧ sampleCaptured.outputs = .ok [(List.range' 2 2048).map (Prod.mk 0)] := by
  have hinit : (init 4096 2050 [0] 1 0 false true false : Except PyError (Capture (Nat × Nat))) = .ok sampleCapture :=
    rfl
  have hfirst : Run Step sampleCapture [(firstSegment, (sampleCapture.after firstSegment).result)]
      (sampleCapture.after firstSegment).obj := .single (step_after _ _)
  have hsecond : Step (sampleCapture.after firstSegment).obj
      (secondSegment, ((sampleCapture.after firstSegment).obj.after secondSegment).result) sampleCaptured :=
    step_after _ _
  have hfaithful : ∀ l ∈ [(firstSegment, (sampleCapture.after firstSegment).result),
      (secondSegment, ((sampleCapture.after firstSegment).obj.after secondSegment).result)],
      ∀ e ∈ l.1.body, e.Faithful fun t r => (t, r) := by
    intro l hl
    rcases List.mem_cons.mp hl with rfl | hl
    · exact firstSegment_faithful
    · obtain rfl := List.mem_singleton.mp hl
      exact secondSegment_faithful
  have hcomplete : sampleCaptured.complete = true := by decide +kernel
  have hopen : sampleCaptured.closed = false := by decide +kernel
  have h := capture_ledger hinit hfaithful (hfirst.snoc hsecond)
  have houtputs := (h.1 hcomplete).2.2.1 hopen
  simp only [sampleCapture, List.map_cons, List.map_nil, Nat.reduceSub, Nat.reduceLeDiff, min_eq_right] at houtputs
  exact ⟨hcomplete, by decide +kernel, by decide +kernel, houtputs⟩

end Capture

end BlackholeQwen.Prefill
