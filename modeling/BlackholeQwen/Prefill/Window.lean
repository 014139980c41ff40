import BlackholeQwen.Lib.Call
import BlackholeQwen.Lib.Dict
import BlackholeQwen.Lib.Spans
import Mathlib.Algebra.GroupWithZero.Nat

/-!
# The draft window of a chunked prefill

`dflash_prefill_window.py`: a prompt is prefilled up to `position` in chunks, and the drafter needs the layer outputs of
its last 2048 rows. `chunkWindow` is the part of a chunk in that window, `snapshotPrefillTail` copies it out of a
layer's output, `LayerOutputs` are the snapshots of one chunk. `snapshot_ok` says what is copied: the feature rows of
the window, without padding.
-/

namespace BlackholeQwen.Prefill

open Lib

/-- `RESUME_CHUNK`. -/
abbrev RESUME_CHUNK : Nat := 2048

/-- A range of absolute rows, `end` being `stop`. -/
structure Window where
  start : Nat
  stop : Nat
  rows : Nat
  deriving DecidableEq, Repr

/-- `prefill_window`; `maxPosition` is `MAX_POSITION`. -/
def prefillWindow (maxPosition position : Nat) : Except PyError Window := do
  raiseIf (¬(1 ≤ position ∧ position ≤ maxPosition))
    (.valueError "Absolute prefill position within the target allocation and verification headroom required")
  return ⟨position - 2048, position, min position 2048⟩

/-- The rows of a chunk `[chunkStart, chunkStart + validRows)` in the window of `position`. -/
def tailOf (position chunkStart validRows : Nat) : Window :=
  let start := max (position - 2048) chunkStart
  let stop := min position (chunkStart + validRows)
  ⟨start, max start stop, stop - start⟩

/-- `chunk_window`. -/
def chunkWindow (maxPosition position : Nat) (chunkStart validRows : Int) : Except PyError Window := do
  let _ ← prefillWindow maxPosition position
  raiseIf (chunkStart < 0 ∨ validRows < 1 ∨ position < chunkStart + validRows)
    (.valueError "Explicit in-bounds absolute chunk coordinates required")
  return tailOf position chunkStart.toNat validRows.toNat

/-- `resume_start`. -/
def resumeStart (position : Nat) (start : Int) : Except PyError Nat := do
  raiseIf (start < 0 ∨ start % RESUME_CHUNK ≠ 0 ∨ (start ≠ 0 ∧ (position : Int) - RESUME_CHUNK < start))
    (.valueError ("A resumed prefill must start at 0 or at a 2048-token boundary at or below the draft window " ++
      "(position - 2048): start=" ++ toString start ++ " position=" ++ toString position))
  return start.toNat

/-- A recorded chunk. -/
structure ChunkRecord where
  chunkStart : Nat
  validRows : Nat
  bucket : Nat
  retainedRows : Nat
  deriving DecidableEq, Repr

/-- The loop of `validate_prefill_chunks`: where the chunks end, and their rows in the window. -/
def validateLoop (maxPosition position : Nat) : Nat → List ChunkRecord → Except PyError (Nat × List Window)
  | cursor, [] => .ok (cursor, [])
  | cursor, chunk :: chunks => do
    raiseIf (chunk.chunkStart ≠ cursor ∨ ¬(32 ≤ chunk.bucket ∧ chunk.bucket ≤ 2048) ∨ chunk.bucket % 32 ≠ 0 ∨
        ¬(1 ≤ chunk.validRows ∧ chunk.validRows ≤ chunk.bucket))
      (.valueError "Complete ordered native prefill chunks and explicit valid lengths required")
    let piece ← chunkWindow maxPosition position chunk.chunkStart chunk.validRows
    raiseIf (chunk.retainedRows ≠ piece.rows)
      (.valueError "Recorded retained rows must equal the valid tail intersection")
    let (stop, pieces) ← validateLoop maxPosition position (cursor + chunk.validRows) chunks
    return (stop, if piece.rows = 0 then pieces else piece :: pieces)

/-- `validate_prefill_chunks`. -/
def validatePrefillChunks (maxPosition position : Nat) (chunks : List ChunkRecord) (start : Nat) :
    Except PyError (List Window) := do
  let start ← resumeStart position start
  let covered ← validateLoop maxPosition position start chunks
  let window ← prefillWindow maxPosition position
  raiseIf (covered.1 ≠ position ∨ (covered.2.map Window.rows).sum ≠ window.rows)
    (.valueError "Prefill chunks must cover the full prompt and the exact draft tail")
  return covered.2

variable {ρ : Type}

/-- `snapshot_prefill_tail` of a layer's output rows. -/
def snapshotPrefillTail (maxPosition position : Nat) (chunkStart validRows : Int) (value : List ρ) :
    Except PyError (List ρ) := do
  let window ← chunkWindow maxPosition position chunkStart validRows
  raiseIf (window.rows = 0 ∨ (value.length : Int) < validRows)
    (.valueError ("Complete TP2 BF16 prefill feature output required; chunks cannot stand in for the full " ++
      "context"))
  return (value.drop (window.start - chunkStart.toNat)).take (window.stop - window.start)

/-- The snapshots of one chunk, by layer: `LayerOutputCapture.records`. -/
abbrev LayerOutputs (ρ : Type) := Dict Nat (List ρ)

/-- The checks of `LayerOutputCapture.__init__`. -/
def checkTaps (layers : Nat) (taps : List Nat) : Except PyError Unit := do
  raiseIf (taps = [] ∨ ¬taps.Nodup) (.valueError "A nonempty, unique ordered tap list is required")
  raiseIf (taps.any (fun index => layers ≤ index) = true)
    (.valueError "Tap IDs must index decoder layers directly")

/-- The tapped layers of one forward, in the order they ran: each runs once and is snapshotted. -/
def recordLayers (taps : List Nat) (snapshot : List ρ → Except PyError (List ρ)) :
    LayerOutputs ρ → List (Nat × List ρ) → Except PyError (LayerOutputs ρ)
  | records, [] => .ok records
  | records, (index, value) :: outputs =>
    if index ∈ taps then do
      raiseIf (index ∈ records.keys)
        (.runtimeError "Each selected layer must execute once inside its capture scope")
      let owned ← snapshot value
      recordLayers taps snapshot (records.set index owned) outputs
    else recordLayers taps snapshot records outputs

/-- `LayerOutputCapture.capture` around one forward with these layer outputs. -/
def captureLayers (taps : List Nat) (snapshot : List ρ → Except PyError (List ρ)) (outputs : List (Nat × List ρ)) :
    Except PyError (LayerOutputs ρ) := do
  let records ← recordLayers taps snapshot Dict.empty outputs
  raiseIf (¬∀ index ∈ taps, index ∈ records.keys)
    (.assertionError "Target forward did not produce every selected layer output")
  return records

/-! ## What is copied -/

/-- A chunk window lies in its chunk and in the window of the position. -/
theorem chunkWindow_ok {maxPosition position : Nat} {chunkStart validRows : Int} {w : Window}
    (h : chunkWindow maxPosition position chunkStart validRows = .ok w) :
    0 ≤ chunkStart ∧ 1 ≤ validRows ∧ chunkStart + validRows ≤ position ∧
      w = tailOf position chunkStart.toNat validRows.toNat := by
  obtain ⟨_, -, h⟩ := bind_ok h
  obtain ⟨⟨⟩, hbounds, h⟩ := bind_ok h
  rw [raiseIf_ok] at hbounds
  refine ⟨by omega, by omega, by omega, (Except.ok.inj h).symm⟩

/-- **A snapshot holds the feature rows of the window**, where the layer's output holds a feature row for each token of
the chunk. -/
theorem snapshot_ok {maxPosition position : Nat} {chunkStart validRows : Int} {value owned : List ρ}
    {feature : Nat → ρ} (h : snapshotPrefillTail maxPosition position chunkStart validRows value = .ok owned)
    (hvalue : ∀ i < validRows.toNat, value[i]? = some (feature (chunkStart.toNat + i))) :
    owned = (List.range' (tailOf position chunkStart.toNat validRows.toNat).start
      (tailOf position chunkStart.toNat validRows.toNat).rows).map feature := by
  obtain ⟨w, hw, h⟩ := bind_ok h
  obtain ⟨⟨⟩, hrows, h⟩ := bind_ok h
  obtain ⟨h0, h1, h2, rfl⟩ := chunkWindow_ok hw
  rw [raiseIf_ok, not_or] at hrows
  obtain rfl := Except.ok.inj h
  -- the window starts in the chunk and ends with its valid rows at the latest
  obtain ⟨k, hk⟩ : ∃ k, (tailOf position chunkStart.toNat validRows.toNat).start = chunkStart.toNat + k :=
    ⟨_, (Nat.add_sub_cancel' (Nat.le_max_right _ _)).symm⟩
  obtain ⟨hlen, hend⟩ : (tailOf position chunkStart.toNat validRows.toNat).stop
        - (tailOf position chunkStart.toNat validRows.toNat).start
        = (tailOf position chunkStart.toNat validRows.toNat).rows ∧
      k + (tailOf position chunkStart.toNat validRows.toNat).rows ≤ validRows.toNat := by
    have hne := hrows.1
    simp only [tailOf] at hk hne ⊢
    omega
  rw [hlen, hk, Nat.add_sub_cancel_left]
  refine List.ext_getElem? fun i => ?_
  rw [List.getElem?_map]
  by_cases hi : i < (tailOf position chunkStart.toNat validRows.toNat).rows
  · rw [List.getElem?_take_of_lt hi, List.getElem?_drop, hvalue (k + i) (by omega), List.getElem?_range' hi,
      Option.map_some, Nat.one_mul, Nat.add_assoc]
  · have hout : (List.range' (chunkStart.toNat + k) (tailOf position chunkStart.toNat validRows.toNat).rows)[i]?
        = none := List.getElem?_eq_none (by rw [List.length_range']; omega)
    rw [hout, List.getElem?_take_eq_none (by omega)]
    rfl

/-- The records after a forward: what was there, and the snapshots of the tapped layers that ran. -/
theorem recordLayers_ok {taps : List Nat} {snapshot : List ρ → Except PyError (List ρ)} {Q : Nat → List ρ → Prop}
    (outputs : List (Nat × List ρ)) : ∀ {records records' : LayerOutputs ρ},
      recordLayers taps snapshot records outputs = .ok records' →
      (∀ p ∈ outputs, ∀ owned, snapshot p.2 = .ok owned → Q p.1 owned) →
      (∀ p ∈ records.items, Q p.1 p.2) → ∀ p ∈ records'.items, Q p.1 p.2 := by
  induction outputs with
  | nil =>
    intro records records' h _ hr
    rwa [← Except.ok.inj h]
  | cons p outputs ih =>
    intro records records' h hq hr
    obtain ⟨index, value⟩ := p
    unfold recordLayers at h
    split_ifs at h
    · obtain ⟨⟨⟩, -, h⟩ := bind_ok h
      obtain ⟨owned, howned, h⟩ := bind_ok h
      refine ih h (fun p hp => hq p (List.mem_cons_of_mem _ hp)) fun p hp => ?_
      rcases Dict.mem_set.mp hp with ⟨hp, -⟩ | rfl
      · exact hr p hp
      · exact hq (index, value) List.mem_cons_self owned howned
    · exact ih h (fun p hp => hq p (List.mem_cons_of_mem _ hp)) hr

/-- **The records of a returned forward**: every tap holds the feature rows of the window. -/
theorem captureLayers_ok {maxPosition position : Nat} {chunkStart validRows : Int} {taps : List Nat}
    {outputs : List (Nat × List ρ)} {records : LayerOutputs ρ} {feature : Nat → Nat → ρ}
    (h : captureLayers taps (snapshotPrefillTail maxPosition position chunkStart validRows) outputs = .ok records)
    (hout : ∀ p ∈ outputs, ∀ i < validRows.toNat, p.2[i]? = some (feature p.1 (chunkStart.toNat + i))) {t : Nat}
    (ht : t ∈ taps) :
    records.get? t = some ((List.range' (tailOf position chunkStart.toNat validRows.toNat).start
      (tailOf position chunkStart.toNat validRows.toNat).rows).map (feature t)) := by
  obtain ⟨records', hrec, h⟩ := bind_ok h
  obtain ⟨⟨⟩, hall, h⟩ := bind_ok h
  obtain rfl := Except.ok.inj h
  rw [raiseIf_ok, not_not] at hall
  have hitems := recordLayers_ok (Q := fun t owned => owned =
    (List.range' (tailOf position chunkStart.toNat validRows.toNat).start
      (tailOf position chunkStart.toNat validRows.toNat).rows).map (feature t)) outputs hrec
    (fun p hp owned howned => snapshot_ok howned (hout p hp)) (fun p hp => by cases hp)
  obtain ⟨v, hv⟩ := Dict.mem_keys.mp (hall t ht)
  rw [Dict.get?_eq_some_iff.mpr hv]
  exact congrArg some (hitems (t, v) hv)

end BlackholeQwen.Prefill
