import BlackholeQwen.Lib.Call
import Mathlib.Data.List.Dedup
import Mathlib.Data.List.Sort

/-!
# The packed selection (`draft_selector.py`, `dflash_packed_proposal.py`)

The learned head chooses a user's drafts greedily: at each position the first candidate of greatest score, given the
token chosen before. `selectActiveCandidates` does so for a batch of users at once: it renumbers the ids of the batch,
gathers their codes, and runs `greedySelectorReference` on blocks of at most 8 positions, with the last choices of a
block as the anchors of the next. `selectPacked` calls it once for each user, `selectPackedBatched` once for all.

Scores are values of an ordered type with addition; `Scoring` has what the operands give: the edge of a predecessor's
code, a hidden row and a successor's code, and which values are finite.
-/

namespace BlackholeQwen.Dflash.Selection

open Lib

/-- How operands are scored. -/
structure Scoring (Hidden Code S : Type) where
  edge : Code → Hidden → Code → S
  finiteHidden : Hidden → Bool
  finiteCode : Code → Bool
  finite : S → Bool

/-- A user's rows: for each position the hidden row, the candidates and their unary scores. -/
structure Part (Hidden S : Type) where
  hidden : List Hidden
  candidates : List (List Nat)
  unary : List (List S)

/-- The codebooks: a code for each id, as predecessor and as successor. -/
structure Codebooks (Code : Type) where
  predecessors : List Code
  successors : List Code

section Model

variable {Hidden Code S : Type}

namespace Part

/-- The part's tensors have this shape. -/
def Shaped (part : Part Hidden S) (positions width : Nat) : Prop :=
  part.hidden.length = positions ∧ part.candidates.length = positions ∧ part.unary.length = positions ∧
    (∀ row ∈ part.candidates, row.length = width) ∧ ∀ row ∈ part.unary, row.length = width

instance (part : Part Hidden S) (positions width : Nat) : Decidable (part.Shaped positions width) := by
  unfold Shaped; infer_instance

/-- The candidates of a position. -/
def width (part : Part Hidden S) : Nat := (part.candidates.head?.map List.length).getD 0

/-- Positions `start:start + 8`. -/
def slice (part : Part Hidden S) (start : Nat) : Part Hidden S :=
  ⟨(part.hidden.drop start).take 8, (part.candidates.drop start).take 8, (part.unary.drop start).take 8⟩

/-- The part with its candidates renumbered. -/
def renumber (f : Nat → Nat) (part : Part Hidden S) : Part Hidden S :=
  { part with candidates := part.candidates.map (·.map f) }

end Part

/-- The positions of a batch. -/
def positionsOf (batch : List (Part Hidden S)) : Nat := (batch.head?.map fun part => part.hidden.length).getD 0

/-- The candidates a position of a batch has. -/
def widthOf (batch : List (Part Hidden S)) : Nat := (batch.head?.map Part.width).getD 0

variable [Inhabited Hidden] [Inhabited Code] [Add S] [LinearOrder S]

/-! ## The greedy search -/

/-- The scores of a user's candidates at a position, given the token chosen before. -/
def scoresAt (sc : Scoring Hidden Code S) (books : Codebooks Code) (part : Part Hidden S) (position predecessor : Nat) :
    List S :=
  List.zipWith (fun candidate unary => unary + sc.edge (books.predecessors.getD predecessor default)
    (part.hidden.getD position default) (books.successors.getD candidate default))
    (part.candidates.getD position []) (part.unary.getD position [])

/-- `scores.argmax`: the first index of the greatest. -/
def argmax (scores : List S) : Nat := scores.findIdx fun x => scores.all fun y => decide (y ≤ x)

/-- The token chosen at a position, and the scores of its candidates. -/
def choose (sc : Scoring Hidden Code S) (books : Codebooks Code) (part : Part Hidden S) (position predecessor : Nat) :
    Nat × List S :=
  ((part.candidates.getD position []).getD (argmax (scoresAt sc books part position predecessor)) 0,
    scoresAt sc books part position predecessor)

/-- The choices of a batch at a position. -/
def chooseAll (sc : Scoring Hidden Code S) (books : Codebooks Code) (batch : List (Part Hidden S)) (position : Nat)
    (predecessors : List Nat) : List (Nat × List S) :=
  List.zipWith (fun part predecessor => choose sc books part position predecessor) batch predecessors

/-- The loop of `greedy_selector_reference` over positions: for each, the choice and the scores of every user. -/
def searchPositions (sc : Scoring Hidden Code S) (books : Codebooks Code) (batch : List (Part Hidden S)) :
    List Nat → List Nat → Except PyError (List (List (Nat × List S)))
  | [], _ => .ok []
  | position :: positions, predecessors => do
    let rows := chooseAll sc books batch position predecessors
    raiseIf (∃ row ∈ rows, ∃ s ∈ row.2, sc.finite s = false) (.valueError "Selector score arithmetic overflowed")
    let rest ← searchPositions sc books batch positions (rows.map Prod.fst)
    return rows :: rest

/-- `validate_selector_operands`. -/
def validateSelectorOperands (sc : Scoring Hidden Code S) (books : Codebooks Code) (batch : List (Part Hidden S))
    (anchors : List Nat) : Except PyError Unit := do
  let vocabulary := books.predecessors.length
  raiseIf (batch = [] ∨ ¬(1 ≤ positionsOf batch ∧ positionsOf batch ≤ 8) ∨ vocabulary < 1 ∨
      books.successors.length ≠ vocabulary ∨ ¬(1 ≤ widthOf batch ∧ widthOf batch ≤ min 16 vocabulary) ∨
      (∃ part ∈ batch, ¬part.Shaped (positionsOf batch) (widthOf batch)) ∨ anchors.length ≠ batch.length)
    (.valueError "Matching bounded selector geometry required")
  raiseIf ((∃ part ∈ batch, ∃ h ∈ part.hidden, sc.finiteHidden h = false) ∨
      (∃ part ∈ batch, ∃ row ∈ part.unary, ∃ s ∈ row, sc.finite s = false) ∨
      (∃ c ∈ books.predecessors, sc.finiteCode c = false) ∨ ∃ c ∈ books.successors, sc.finiteCode c = false)
    (.valueError "Finite floating selector operands required")
  raiseIf ((∃ part ∈ batch, ∃ row ∈ part.candidates, ∃ t ∈ row, vocabulary ≤ t) ∨ ∃ t ∈ anchors, vocabulary ≤ t)
    (.valueError "Selector token IDs outside vocabulary")
  raiseIf (∃ part ∈ batch, ∃ row ∈ part.candidates, ¬row.Nodup) (.valueError "Unique candidates per position required")

/-- `greedy_selector_reference`: the rows of each position, for every user. -/
def greedySelectorReference (sc : Scoring Hidden Code S) (books : Codebooks Code) (batch : List (Part Hidden S))
    (anchors : List Nat) : Except PyError (List (List (Nat × List S))) := do
  validateSelectorOperands sc books batch anchors
  searchPositions sc books batch (List.range (positionsOf batch)) anchors

/-! ## Renumbering -/

/-- `torch.unique(..., sorted=True)` of the ids that a batch mentions. -/
def uniqueIds (batch : List (Part Hidden S)) (anchors : List Nat) : List Nat :=
  (anchors ++ batch.flatMap fun part => part.candidates.flatten).dedup.mergeSort (· ≤ ·)

/-- The codes of some ids. -/
def gather (codes : List Code) (ids : List Nat) : List Code := ids.map fun i => codes.getD i default

/-- The blocks of `select_active_candidates`, from one start on. -/
def searchBlocks (sc : Scoring Hidden Code S) (books : Codebooks Code) (batch : List (Part Hidden S)) :
    List Nat → List Nat → Except PyError (List (List (Nat × List S)))
  | [], _ => .ok []
  | start :: starts, anchors => do
    let rows ← greedySelectorReference sc books (batch.map (Part.slice · start)) anchors
    let rest ← searchBlocks sc books batch starts ((rows.getLast?.getD []).map Prod.fst)
    return rows ++ rest

/-- `select_active_candidates`: for each user the tokens and their scores. -/
def selectActiveCandidates (sc : Scoring Hidden Code S) (books : Codebooks Code) (batch : List (Part Hidden S))
    (anchors : List Nat) : Except PyError (List (List (Nat × List S))) := do
  let vocabulary := books.predecessors.length
  raiseIf (¬(1 ≤ positionsOf batch ∧ positionsOf batch ≤ 31) ∨
      (∃ part ∈ batch, ¬part.Shaped (positionsOf batch) (widthOf batch)) ∨ anchors.length ≠ batch.length ∨
      books.successors.length ≠ vocabulary)
    (.valueError "CPU global candidate IDs and matching full codebooks required")
  raiseIf ((∃ part ∈ batch, ∃ row ∈ part.candidates, ∃ t ∈ row, vocabulary ≤ t) ∨ ∃ t ∈ anchors, vocabulary ≤ t)
    (.valueError "Selector token IDs outside vocabulary")
  let ids := uniqueIds batch anchors
  let rows ← searchBlocks sc ⟨gather books.predecessors ids, gather books.successors ids⟩
    (batch.map (Part.renumber ids.idxOf))
    ((List.range ((positionsOf batch + 7) / 8)).map (· * 8)) (anchors.map ids.idxOf)
  return (List.range batch.length).map fun user =>
    rows.map fun row => (ids.getD (row.getD user default).1 0, (row.getD user default).2)

/-! ## Packed users -/

/-- The count check of a user. -/
def countCheck (part : Part Hidden S) (count : Nat) : Except PyError Unit :=
  raiseIf (¬(1 ≤ count ∧ count ≤ part.candidates.length))
    (.valueError "Bounded proposal count within this user block required")

/-- One user of `select_packed`. -/
def selectUser (sc : Scoring Hidden Code S) (books : Codebooks Code) (p : Part Hidden S × Nat × Nat) :
    Except PyError (List Nat) := do
  countCheck p.1 p.2.2
  let rows ← selectActiveCandidates sc books [p.1] [p.2.1]
  return ((rows.getD 0 []).map Prod.fst).take p.2.2

/-- `select_packed`. -/
def selectPacked (sc : Scoring Hidden Code S) (books : Codebooks Code) (parts : List (Part Hidden S))
    (seeds counts : List Nat) : Except PyError (List (List Nat)) := do
  raiseIf (parts.length ≠ seeds.length ∨ parts.length ≠ counts.length)
    (.valueError "One anchor and one proposal count per packed user required")
  (parts.zip (seeds.zip counts)).mapM (selectUser sc books)

/-- `select_packed_batched`. -/
def selectPackedBatched (sc : Scoring Hidden Code S) (books : Codebooks Code) (parts : List (Part Hidden S))
    (seeds counts : List Nat) : Except PyError (List (List Nat)) := do
  raiseIf (parts = [] ∨ parts.length ≠ seeds.length ∨ parts.length ≠ counts.length)
    (.valueError "One anchor and one proposal count per packed user required")
  let _ ← (parts.zip counts).mapM fun p => countCheck p.1 p.2
  -- `torch.cat` of the parts
  raiseIf (∃ part ∈ parts, ¬part.Shaped (positionsOf parts) (widthOf parts))
    (.runtimeError "Sizes of tensors must match except in dimension 0")
  let rows ← selectActiveCandidates sc books parts seeds
  return (rows.zip counts).map fun p => (p.1.map Prod.fst).take p.2

end Model

/-! ## The block -/

section Block

variable {Hidden S : Type}

/-- `BLOCK_WIDTHS`. -/
def BLOCK_WIDTHS : List Nat := [32, 64]

/-- `split_selection`, with `user_slices`: the features of a user's rows past its anchor, with their candidates. -/
def splitSelection (hidden : List Hidden) (candidates : List (List Nat)) (unary : List (List S))
    (users blockRows blockWidth : Nat) : Except PyError (List (Part Hidden S)) := do
  raiseIf (blockWidth ∉ BLOCK_WIDTHS) (.valueError "A 32 or 64-row proposal block width required")
  raiseIf (hidden.length ≠ blockWidth ∨ candidates.length ≠ blockWidth - 1 ∨ unary.length ≠ candidates.length ∨
      unary.map List.length ≠ candidates.map List.length)
    (.valueError ("Whole-block selector features and merged " ++ toString blockWidth ++ "-row candidates required"))
  raiseIf (¬(1 ≤ users ∧ users * blockRows ≤ blockWidth)) (.valueError "A fitting number of packed users required")
  (List.range users).mapM fun user => do
    let part : Part Hidden S := ⟨(hidden.drop (user * blockRows + 1)).take (blockRows - 1),
      (candidates.drop (user * blockRows)).take (blockRows - 1), (unary.drop (user * blockRows)).take (blockRows - 1)⟩
    raiseIf (part.hidden.length + 1 ≠ blockRows) (.assertionError "Each user contributes block_rows - 1 drafts")
    raiseIf (part.candidates.length + 1 ≠ blockRows)
      (.assertionError "Each user owns block_rows - 1 merged candidate rows")
    return part

end Block

end BlackholeQwen.Dflash.Selection
