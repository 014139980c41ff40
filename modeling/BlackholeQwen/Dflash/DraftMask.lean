import BlackholeQwen.Lib.Call
import BlackholeQwen.Lib.Spans
import Mathlib.Algebra.GroupWithZero.Nat

/-!
# The draft masks (`draft_attention.py`, `dflash_batched_mask.py`, `dflash_proposal_inputs.py`)

A mask admits the keys of each row of the 32-row draft block. `draftAttentionMask` is the mask of a user alone, over its
history and its own block. `batchedAttentionMask` packs several users into the block: each has a span of the key axis
for its history and its block (`segments`), which `keyValuePlan` assembles. `proposalInputs` puts a user alone into a
bucket, with a hole between its history and its block.

A RoPE table is the list of the absolute positions that its rows encode; `none` is a row of zeros.
-/

namespace BlackholeQwen.Dflash

open Lib

/-! ## Masks -/

/-- A mask value, as far as the validation tells them apart. -/
inductive MaskValue
  | zero
  | negInf
  | other
  deriving DecidableEq, Repr

/-- A mask of one head. -/
structure Mask where
  rows : Nat
  keys : Nat
  value : Nat → Nat → MaskValue

namespace Mask

/-- `torch.full((1, 1, rows, keys), -inf)`. -/
def full (rows keys : Nat) : Mask := ⟨rows, keys, fun _ _ => .negInf⟩

/-- An assignment to a slice; `f` has the slice's own coordinates. -/
def put (m : Mask) (rows keys : Nat × Nat) (f : Nat → Nat → MaskValue) : Mask :=
  { m with value := fun row key =>
      if rows.1 ≤ row ∧ row < rows.2 ∧ keys.1 ≤ key ∧ key < keys.2 then f (row - rows.1) (key - keys.1)
      else m.value row key }

/-- `m[..., :keys]`. -/
def cut (m : Mask) (keys : Nat) : Mask := { m with keys := min keys m.keys }

/-- A row sees a key. -/
def Visible (m : Mask) (row key : Nat) : Prop := row < m.rows ∧ key < m.keys ∧ m.value row key = .zero

instance (m : Mask) (row key : Nat) : Decidable (m.Visible row key) := by unfold Visible; infer_instance

/-- The keys that a row sees. -/
def seen (m : Mask) (row : Nat) : List Nat := (List.range m.keys).filter (m.Visible row)

end Mask

/-- `torch.where(allowed, 0, -inf)`. -/
def admitWhere (allowed : Prop) [Decidable allowed] : MaskValue := if allowed then .zero else .negInf

/-- The rule of a user alone: a query sees its history within the window, and its own block. -/
def Allowed (context blockRows window query key : Nat) : Prop :=
  key < context ∧ query < window + key ∨ context ≤ key ∧ key < context + blockRows

instance (context blockRows window query key : Nat) : Decidable (Allowed context blockRows window query key) := by
  unfold Allowed; infer_instance

/-- A history and its block, rounded up. -/
def alignedRows (context blockRows keyMultiple : Nat) : Nat :=
  (context + blockRows + keyMultiple - 1) / keyMultiple * keyMultiple

/-- `draft_attention.draft_attention_mask`. -/
def originalMask (contextRows blockRows keyMultiple : Nat) : Except PyError Mask := do
  raiseIf (262144 < contextRows ∨ blockRows ∉ [1, 8, 32] ∨ keyMultiple ∉ [32, 128])
    (.valueError "Bounded context and configured DFlash2 attention geometry required")
  let keyRows := alignedRows contextRows blockRows keyMultiple
  return ((Mask.full 32 keyRows).put (0, blockRows) (0, keyRows)
      fun row key => admitWhere (Allowed contextRows blockRows 2048 (contextRows + row) key)).put
    (blockRows, 32) (contextRows, contextRows + 1) fun _ _ => .zero

/-- `dflash_attention_mask.draft_attention_mask`. -/
def draftAttentionMask (contextRows blockRows keyMultiple : Nat) : Except PyError Mask :=
  if blockRows ≠ 16 then originalMask contextRows blockRows keyMultiple else do
    let mask ← originalMask contextRows 32 keyMultiple
    let keyRows := alignedRows contextRows blockRows keyMultiple
    return (((mask.cut keyRows).put (0, 16) (contextRows + 16, keyRows) fun _ _ => .negInf).put
      (16, 32) (0, keyRows) fun _ _ => .negInf).put (16, 32) (contextRows, contextRows + 1) fun _ _ => .zero

/-! ## RoPE tables -/

/-- The positions that the rows of a table encode. -/
abbrev RopeTable := List (Option Nat)

/-- `rope_tables`. -/
def ropeTables (start rows : Nat) : Except PyError RopeTable := do
  raiseIf (rows < 1 ∨ 262144 < start + rows) (.valueError "Bounded absolute RoPE positions required")
  return (List.range' start rows).map some

/-- `table[:, :, start:start + rows]`. -/
def sliceRows (table : RopeTable) (start rows : Nat) : RopeTable := (table.drop start).take rows

/-! ## Packed users -/

/-- A user's span of the key axis. -/
structure Span where
  user : Nat
  context : Nat
  offset : Nat
  span : Nat
  deriving DecidableEq, Repr

namespace Span

/-- `span['rows']`. -/
def rows (s : Span) (blockRows : Nat) : Nat × Nat := (s.user * blockRows, (s.user + 1) * blockRows)

/-- `span['keys']`. -/
def keys (s : Span) : Nat × Nat := (s.offset, s.offset + s.span)

end Span

/-- The spans from one user on, and the end of the last. -/
def spansFrom (blockRows keyMultiple : Nat) : Nat → Nat → List Nat → List Span × Nat
  | _, offset, [] => ([], offset)
  | index, offset, context :: contexts =>
    let span := alignedRows context blockRows keyMultiple
    let rest := spansFrom blockRows keyMultiple (index + 1) (offset + span) contexts
    (⟨index, context, offset, span⟩ :: rest.1, rest.2)

/-- `segments`. -/
def segments (contexts : List Nat) (blockRows keyMultiple : Nat) : Except PyError (List Span × Nat) := do
  raiseIf (blockRows ∉ [1, 8, 16, 32] ∨ keyMultiple ∉ [32, 128])
    (.valueError "Configured DFlash2 draft block geometry required")
  raiseIf (contexts = [] ∨ 32 < contexts.length * blockRows ∨ ∃ context ∈ contexts, 262144 < context)
    (.valueError "At least one user and block rows totalling at most the 32-row draft block required")
  return spansFrom blockRows keyMultiple 0 0 contexts

/-- The rows of one user in the packed mask. -/
def putSpan (blockRows : Nat) (mask : Mask) (s : Span) : Mask :=
  mask.put (s.rows blockRows) s.keys
    fun row key => admitWhere (Allowed s.context blockRows 2048 (s.context + row) key)

/-- `batched_attention_mask`. -/
def batchedAttentionMask (contexts : List Nat) (blockRows keyMultiple : Nat) : Except PyError Mask := do
  let (spans, keyRows) ← segments contexts blockRows keyMultiple
  let mask := spans.foldl (putSpan blockRows) (Mask.full 32 keyRows)
  let used := spans.length * blockRows
  let first := (spans.head?.map Span.context).getD 0
  return if used < 32 then
    (mask.put (used, 32) (0, keyRows) fun _ _ => .negInf).put (used, 32) (first, first + 1) fun _ _ => .zero
  else mask

/-- `validate_batched_mask`. -/
def validateBatchedMask (mask : Mask) (contexts : List Nat) (blockRows : Nat) :
    Except PyError (List Span × Nat) := do
  let (spans, keyRows) ← segments contexts blockRows 32
  raiseIf (mask.rows ≠ 32 ∨ mask.keys ≠ keyRows ∨ mask.keys % 32 ≠ 0)
    (.valueError "Host tiled BF16 packed draft mask matching the declared users required")
  raiseIf (∃ row ∈ List.range mask.rows, ∃ key ∈ List.range mask.keys, mask.value row key = .other)
    (.valueError "Only zero and negative infinity mask values supported")
  let _ ← spans.mapM fun s => do
    let rows := List.range' (s.rows blockRows).1 ((s.rows blockRows).2 - (s.rows blockRows).1)
    raiseIf (∃ row ∈ rows, mask.seen row = []) (.valueError "Every live draft query needs a visible key")
    raiseIf (∃ row ∈ rows, ∃ key ∈ mask.seen row, ¬(s.keys.1 ≤ key ∧ key < s.keys.2))
      (.valueError "A draft query can see another user: the pack is not block diagonal")
  let used := spans.length * blockRows
  raiseIf (used < 32 ∧ ∃ row ∈ List.range' used (mask.rows - used), (mask.seen row).length ≠ 1)
    (.valueError "Every padded query must have exactly one visible key")
  return (spans, keyRows)

/-- A packed user. -/
structure User where
  position : Nat
  historyRows : Nat
  deriving DecidableEq, Repr

/-- A user's history is bounded and ends at its position. -/
def User.Valid (user : User) : Prop := 1 ≤ user.historyRows ∧ user.historyRows ≤ 2048 ∧ user.historyRows ≤ user.position

instance (user : User) : Decidable user.Valid := by unfold User.Valid; infer_instance

/-- `user_contexts`. -/
def userContexts (users : List User) : Except PyError (List Nat) := do
  raiseIf (∃ user ∈ users, ¬user.Valid)
    (.valueError "Each packed user needs an absolute position and its bounded history length")
  return users.map User.historyRows

/-- The tables of the queries and of the keys. -/
structure Rope where
  q : RopeTable
  k : RopeTable
  deriving DecidableEq, Repr

/-- The tables of one user: its block's queries, and the keys of its span. -/
def userTables (blockRows : Nat) (p : User × Span) : Except PyError Rope := do
  let q ← ropeTables p.1.position blockRows
  let k ← ropeTables (p.1.position - p.1.historyRows) p.2.span
  return ⟨q, k⟩

/-- The positions of the padded queries, past the last user's block. -/
def queryFiller (users : List User) (blockRows used : Nat) : Except PyError RopeTable :=
  if used < 32 then ropeTables ((users.getLast?.map User.position).getD 0 + blockRows) (32 - used) else .ok []

/-- `packed_rope_tables`. -/
def packedRopeTables (users : List User) (blockRows keyMultiple : Nat) : Except PyError Rope := do
  let contexts ← userContexts users
  let (spans, keyRows) ← segments contexts blockRows keyMultiple
  let parts ← (users.zip spans).mapM (userTables blockRows)
  let filler ← queryFiller users blockRows (spans.length * blockRows)
  let query := parts.flatMap Rope.q ++ filler
  let key := parts.flatMap Rope.k
  raiseIf (query.length ≠ 32) (.assertionError "Packed query RoPE must cover the whole 32-row block")
  raiseIf (key.length ≠ keyRows) (.assertionError "Packed key RoPE must cover every key segment")
  return ⟨query, key⟩

/-- A piece of the packed key axis. -/
inductive Piece
  | cached (user rows : Nat)
  | live (user rows source : Nat)
  | pad (user rows : Nat)
  deriving DecidableEq, Repr

/-- `piece['rows']`. -/
def Piece.rows : Piece → Nat
  | .cached _ rows | .live _ rows _ | .pad _ rows => rows

/-- The pieces of one span. -/
def spanPieces (blockRows : Nat) (s : Span) : Except PyError (List Piece) := do
  raiseIf (s.span < s.context + blockRows) (.valueError "A user history leaves no room for its own proposal block")
  let pad := s.span - s.context - blockRows
  return [.cached s.user s.context, .live s.user blockRows (s.user * blockRows)] ++
    if pad = 0 then [] else [.pad s.user pad]

/-- `key_value_plan`. -/
def keyValuePlan (contexts : List Nat) (blockRows keyMultiple : Nat) :
    Except PyError (List Piece × List Span × Nat) := do
  let (spans, keyRows) ← segments contexts blockRows keyMultiple
  let plan ← spans.mapM (spanPieces blockRows)
  raiseIf ((plan.flatten.map Piece.rows).sum ≠ keyRows)
    (.assertionError "The assembly plan must cover the packed key axis exactly")
  return (plan.flatten, spans, keyRows)

/-- A row of the packed key axis: a user's cached row, a row of the block, or padding. -/
inductive KeyRow
  | cached (user row : Nat)
  | live (row : Nat)
  | pad
  deriving DecidableEq, Repr

/-- The rows of a piece. -/
def Piece.assemble : Piece → List KeyRow
  | .cached user rows => (List.range rows).map (.cached user)
  | .live _ rows source => (List.range' source rows).map .live
  | .pad _ rows => List.replicate rows .pad

/-- The key axis that a plan assembles. -/
def assemble (plan : List Piece) : List KeyRow := plan.flatMap Piece.assemble

/-- The rows of the live block in a key table. -/
def liveRows (table : RopeTable) (spans : List Span) (blockRows : Nat) : Except PyError RopeTable := do
  let used := spans.length * blockRows
  let filler := match spans.getLast? with
    | some last => if used < 32 then sliceRows table (last.offset + last.context + blockRows) (32 - used) else []
    | none => []
  let packed := spans.flatMap (fun s => sliceRows table (s.offset + s.context) blockRows) ++ filler
  raiseIf (packed.length ≠ 32) (.assertionError "The live key RoPE must cover the whole 32-row proposal block")
  return packed

/-- `live_key_rope`. -/
def liveKeyRope (users : List User) (blockRows keyMultiple : Nat) : Except PyError RopeTable := do
  let contexts ← userContexts users
  let (spans, _) ← segments contexts blockRows keyMultiple
  let tables ← packedRopeTables users blockRows keyMultiple
  liveRows tables.k spans blockRows

/-- `live_key_rope_from`. -/
def liveKeyRopeFrom (table : RopeTable) (users : List User) (blockRows keyMultiple : Nat) :
    Except PyError RopeTable := do
  let contexts ← userContexts users
  let (spans, keyRows) ← segments contexts blockRows keyMultiple
  raiseIf (table.length ≠ keyRows) (.valueError "The packed key RoPE tables of these users required")
  liveRows table spans blockRows

/-! ## Buckets -/

/-- An assignment to `rows.length` rows of a table. -/
def putRows (table : RopeTable) (start : Nat) (rows : RopeTable) : RopeTable :=
  table.take start ++ rows ++ table.drop (start + rows.length)

/-- What `proposal_inputs` returns. -/
structure ProposalInputs where
  identifiers : List Nat
  mask : Mask
  rope : Rope

/-- `proposal_inputs`. -/
def proposalInputs (seed position historyRows blockRows contextRows : Nat) : Except PyError ProposalInputs := do
  raiseIf (¬seed < 248320 ∨ ¬(1 ≤ position ∧ position ≤ 262112) ∨
      ¬(1 ≤ historyRows ∧ historyRows ≤ min position 2048) ∨ blockRows ∉ [8, 16, 32] ∨
      contextRows ∉ [256, 512, 1024, 2048] ∨ contextRows < historyRows)
    (.valueError "Committed history, anchor and explicit fixed draft bucket required")
  let keyRows := contextRows + 32
  let original ← draftAttentionMask historyRows blockRows 32
  let mask := ((Mask.full 32 keyRows).put (0, 32) (0, historyRows) original.value).put
    (0, 32) (contextRows, contextRows + blockRows) fun row key => original.value row (historyRows + key)
  let queryRope ← ropeTables position 32
  let historyRope ← ropeTables (position - historyRows) historyRows
  let keyRope := putRows (putRows (List.replicate keyRows none) 0 historyRope) contextRows (queryRope.take blockRows)
  return ⟨seed :: List.replicate (blockRows - 1) 248070, mask, queryRope, keyRope⟩

end BlackholeQwen.Dflash
