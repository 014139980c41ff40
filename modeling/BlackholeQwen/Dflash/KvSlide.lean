import BlackholeQwen.Lib.Call
import BlackholeQwen.Lib.Pages
import BlackholeQwen.Lib.Tiles

/-!
# The draft cache's slide (`draft_kv_slide.cpp`, `draft_kv_slide.py`, `fused_commit.py`)

A bank of the draft cache holds the K or V rows of at most 2048 positions, four heads of 128 columns, in tiles. The
slide drops the oldest rows, adds the accepted rows of a delta and zeroes the rest: sixteen workers for each bank, one
for each head and column of tiles, each going through its 64 tiles in order. The fused commit slides in place.
-/

namespace BlackholeQwen.Dflash.KvSlide

open Lib Lib.Movers Lib.Pages Lib.Tiles

/-! ## The geometry -/

/-- Rows of a bank. -/
abbrev CAPACITY : Nat := 2048

/-- Workers of a bank. -/
abbrev WORKERS : Nat := 16

/-- Half-words of a page. -/
abbrev PAGE : Nat := 1024

/-- What a slide keeps and drops. -/
structure Geometry where
  historyRows : Nat
  accepted : Nat
  rows : Nat
  drop : Nat
  deriving DecidableEq, Repr

/-- `geometry`. -/
def geometry (historyRows accepted : Nat) : Except PyError Geometry := do
  raiseIf (¬(1 ≤ historyRows ∧ historyRows ≤ CAPACITY) ∨ ¬(1 ≤ accepted ∧ accepted ≤ 32))
    (.valueError "One committed history and bounded accepted prefix required")
  let rows := min CAPACITY (historyRows + accepted)
  pure ⟨historyRows, accepted, rows, historyRows + accepted - rows⟩

/-- Where a row comes from. -/
inductive RowKind
  | zero
  | active
  | delta
  deriving DecidableEq, Repr

/-- `row_source`. -/
def rowSource (historyRows accepted outputRow : Nat) : Except PyError (RowKind × Nat) := do
  let shape ← geometry historyRows accepted
  raiseIf (¬outputRow < CAPACITY) (.valueError "Output row outside fixed history capacity")
  if shape.rows ≤ outputRow then pure (.zero, 0)
  else
    let source := outputRow + shape.drop
    if source < historyRows then pure (.active, source) else pure (.delta, source - historyRows)

/-! ## The kernel -/

/-- The three addresses of a bank: what is read, what is added, and what is written. -/
structure Bank where
  active : Nat
  delta : Nat
  output : Nat
  deriving DecidableEq, Repr

/-- A row of an output tile, on both faces. -/
def slideRow (shape : Geometry) (tile : Nat) (slots : Slots UInt16) (page : Nat → UInt16) (row : Nat) : Nat → UInt16 :=
  let sourceTile := (tile * 32 + shape.drop) / 32
  let destinationRow := tile * 32 + row
  let sourceRow := destinationRow + shape.drop
  (List.range 2).foldl (fun page face =>
    if destinationRow < shape.rows ∧ sourceRow < shape.historyRows then
      splice page (slots (sourceRow / 32 - sourceTile)) (faceStart row face) (faceStart (sourceRow % 32) face) 16
    else if destinationRow < shape.rows ∧ sourceRow - shape.historyRows < shape.accepted then
      splice page (slots 2) (faceStart row face) (faceStart (sourceRow - shape.historyRows) face) 16
    else splice page (fun _ => 0) (faceStart row face) 0 16) page

/-- The page of a tile of a bank. -/
def pageOf (head column tile : Nat) : Nat := (head * 64 + tile) * 4 + column

/-- A tile: slots 0 and 1 are the source's, slot 2 is the delta's, and slot 3 is built and written. -/
def slideTile (bank : Bank) (shape : Geometry) (head column tile : Nat) : PageTask UInt16 where
  reads :=
    let sourceStart := tile * 32 + shape.drop
    let sourceTile := sourceStart / 32
    if sourceStart < shape.historyRows then
      ⟨bank.active, pageOf head column sourceTile, 0, 0, PAGE⟩ ::
        if sourceStart % 32 ≠ 0 ∧ (sourceTile + 1) * 32 < shape.historyRows then
          [⟨bank.active, pageOf head column (sourceTile + 1), 1, 0, PAGE⟩]
        else []
    else []
  builds := [⟨3, fun slots => (List.range 32).foldl (slideRow shape tile slots) (slots 3)⟩]
  writes := [⟨3, bank.output, pageOf head column tile, 0, PAGE⟩]

/-- The tasks of a worker: the delta's tile, and then the tiles in order. -/
def slideTasks (bank : Bank) (shape : Geometry) (worker : Nat) : List (PageTask UInt16) :=
  ⟨[⟨bank.delta, worker / 4 * 4 + worker % 4, 2, 0, PAGE⟩], [], []⟩ ::
    (List.range 64).map (slideTile bank shape (worker / 4) (worker % 4))

/-! ## A tile -/

section

variable {shape : Geometry} {tile row i : Nat} {slots : Slots UInt16} {page : Nat → UInt16}

/-- What a half-word of an output tile is built from. -/
def slideValue (shape : Geometry) (tile : Nat) (slots : Slots UInt16) (i : Nat) : UInt16 :=
  let destinationRow := tile * 32 + rowAt i
  let sourceRow := destinationRow + shape.drop
  if destinationRow < shape.rows ∧ sourceRow < shape.historyRows then
    slots (sourceRow / 32 - (tile * 32 + shape.drop) / 32) (moveTo (sourceRow % 32) i)
  else if destinationRow < shape.rows ∧ sourceRow - shape.historyRows < shape.accepted then
    slots 2 (moveTo (sourceRow - shape.historyRows) i)
  else 0

/-- A row of an output tile. -/
theorem slideRow_eq : slideRow shape tile slots page row i =
    if rowAt i = row then slideValue shape tile slots i else page i := by
  unfold slideRow
  by_cases h : tile * 32 + row < shape.rows ∧ tile * 32 + row + shape.drop < shape.historyRows
  · simp only [if_pos h]
    rw [faces_eq]
    by_cases hat : rowAt i = row
    · subst hat
      rw [if_pos rfl, if_pos rfl, slideValue, if_pos h, moveTo]
    · rw [if_neg hat, if_neg hat]
  · simp only [if_neg h]
    by_cases h' : tile * 32 + row < shape.rows ∧ tile * 32 + row + shape.drop - shape.historyRows < shape.accepted
    · simp only [if_pos h']
      rw [faces_eq]
      by_cases hat : rowAt i = row
      · subst hat
        rw [if_pos rfl, if_pos rfl, slideValue, if_neg h, if_pos h', moveTo]
      · rw [if_neg hat, if_neg hat]
    · simp only [if_neg h']
      rw [faces_eq]
      by_cases hat : rowAt i = row
      · subst hat
        rw [if_pos rfl, if_pos rfl, slideValue, if_neg h, if_neg h']
      · rw [if_neg hat, if_neg hat]

/-- **An output tile**, half-word by half-word. -/
theorem slideBuild_eq (hi : i < PAGE) : (List.range 32).foldl (slideRow shape tile slots) page i =
    slideValue shape tile slots i := by
  have hrow : rowAt i < 32 := by
    simp only [rowAt, PAGE] at *
    omega
  refine foldl_written (List.mem_range.mpr hrow) (fun page => ?_) (fun row _ page => ?_) _
  · rw [slideRow_eq, if_pos rfl]
  · rw [slideRow_eq]
    split_ifs
    · exact Or.inr rfl
    · exact Or.inl rfl

end

/-! ## A worker -/

section

variable {bank : Bank} {shape : Geometry} {head column tile row i n : Nat} {b b₀ : Buffers UInt16}

/-- What is left of a bank's column of tiles, from the buffers before: row `row` of what remains of the history and the
delta, and zero after it. -/
def slidAt (bank : Bank) (shape : Geometry) (head column : Nat) (b : Buffers UInt16) (row i : Nat) : UInt16 :=
  let sourceRow := row + shape.drop
  if row < shape.rows ∧ sourceRow < shape.historyRows then
    b bank.active (pageOf head column (sourceRow / 32)) (moveTo (sourceRow % 32) i)
  else if row < shape.rows ∧ sourceRow - shape.historyRows < shape.accepted then
    b bank.delta (head * 4 + column) (moveTo (sourceRow - shape.historyRows) i)
  else 0

/-- The first `n` tiles of a column are slid, and nothing else is changed; slot 2 has the delta's tile. -/
structure Slid (bank : Bank) (shape : Geometry) (head column : Nat) (b₀ : Buffers UInt16) (n : Nat)
    (s : Buffers UInt16 × Slots UInt16) : Prop where
  slid : ∀ tile < n, ∀ i < PAGE, s.1 bank.output (pageOf head column tile) i =
    slidAt bank shape head column b₀ (tile * 32 + rowAt i) i
  kept : ∀ address page i, (∀ tile < n, ¬(address = bank.output ∧ page = pageOf head column tile)) →
    s.1 address page i = b₀ address page i
  added : ∀ i < PAGE, s.2 2 i = b₀ bank.delta (head * 4 + column) i

theorem pageOf_inj {head head' column column' tile tile' : Nat} (hcolumn : column < 4) (hcolumn' : column' < 4)
    (htile : tile < 64) (htile' : tile' < 64) (h : pageOf head column tile = pageOf head' column' tile') :
    head = head' ∧ column = column' ∧ tile = tile' := by
  simp only [pageOf] at h
  omega

/-- The slots that a tile is built from. -/
theorem slideTile_slots (bank : Bank) (shape : Geometry) (head column tile : Nat) (s : Buffers UInt16 × Slots UInt16) :
    (∀ i < PAGE, ((slideTile bank shape head column tile).reads.foldl (Read.run s.1) s.2) 2 i = s.2 2 i) ∧
    (∀ row, row < 32 → tile * 32 + row + shape.drop < shape.historyRows → ∀ i < PAGE,
      ((slideTile bank shape head column tile).reads.foldl (Read.run s.1) s.2)
        ((tile * 32 + row + shape.drop) / 32 - (tile * 32 + shape.drop) / 32) i =
        s.1 bank.active (pageOf head column ((tile * 32 + row + shape.drop) / 32)) i) := by
  simp only [slideTile]
  constructor
  · intro i hi
    split_ifs <;> simp [Read.run]
  · intro row hrow hlt i hi
    rw [if_pos (show tile * 32 + shape.drop < shape.historyRows by omega)]
    by_cases hsame : (tile * 32 + row + shape.drop) / 32 = (tile * 32 + shape.drop) / 32
    · rw [hsame, Nat.sub_self]
      split_ifs <;> simp [Read.run, hi]
    · have hnext : (tile * 32 + row + shape.drop) / 32 = (tile * 32 + shape.drop) / 32 + 1 := by omega
      rw [hnext, Nat.add_sub_cancel_left, if_pos ⟨by omega, by omega⟩]
      simp [Read.run, hi]

/-- **One tile more**: the source's tiles that are yet to be read are those that are yet to be written, or later
ones. -/
theorem Slid.next {s : Buffers UInt16 × Slots UInt16} (h : Slid bank shape head column b₀ n s) (hn : n < 64)
    (hcolumn : column < 4) (hbound : shape.accepted ≤ 32) (hcapacity : shape.historyRows ≤ CAPACITY) :
    Slid bank shape head column b₀ (n + 1) ((slideTile bank shape head column n).run PAGE s) := by
  have hslots : (slideTile bank shape head column n).slots PAGE s = Build.run PAGE
      ((slideTile bank shape head column n).reads.foldl (Read.run s.1) s.2)
      ⟨3, fun slots => (List.range 32).foldl (slideRow shape n slots) (slots 3)⟩ := rfl
  obtain ⟨hadded, hread⟩ := slideTile_slots bank shape head column n s
  have hrun : ∀ address page i, ((slideTile bank shape head column n).run PAGE s).1 address page i =
      if address = bank.output ∧ page = pageOf head column n ∧ 0 ≤ i ∧ i < 0 + PAGE then
        (slideTile bank shape head column n).slots PAGE s 3 i else s.1 address page i := fun _ _ _ => rfl
  refine ⟨fun tile htile i hi => ?_, fun address page i hpage => ?_, fun i hi => ?_⟩
  · rw [hrun]
    by_cases heq : tile = n
    · subst heq
      rw [if_pos ⟨rfl, rfl, Nat.zero_le _, by omega⟩, hslots, Build.run, if_pos ⟨rfl, hi⟩]
      dsimp only
      rw [slideBuild_eq hi, slideValue, slidAt]
      have hrow : rowAt i < 32 := by
        simp only [rowAt, PAGE] at *
        omega
      split_ifs with hactive hnew
      · rw [hread _ hrow hactive.2 _ (moveTo_lt (Nat.mod_lt _ (by decide)) i)]
        refine h.kept _ _ _ fun tile' htile' hpage => ?_
        have hcap : shape.historyRows ≤ 2048 := hcapacity
        have := (pageOf_inj hcolumn hcolumn (by omega) (by omega) hpage.2).2.2
        omega
      · rw [hadded _ (moveTo_lt (by omega) i), h.added _ (moveTo_lt (by omega) i)]
      · rfl
    · rw [if_neg fun hpage => heq ((pageOf_inj hcolumn hcolumn (by omega) hn hpage.2.1).2.2)]
      exact h.slid tile (by omega) i hi
  · rw [hrun, if_neg fun hin => hpage n (Nat.lt_succ_self n) ⟨hin.1, hin.2.1⟩]
    exact h.kept address page i fun tile htile => hpage tile (Nat.lt_succ_of_lt htile)
  · show (slideTile bank shape head column n).slots PAGE s 2 i = _
    rw [hslots, Build.run, if_neg (by simp), hadded i hi, h.added i hi]

/-- **A worker slides its column**, also in place. -/
theorem slideTasks_slid (worker : Nat) (s : Buffers UInt16 × Slots UInt16) (hbound : shape.accepted ≤ 32)
    (hcapacity : shape.historyRows ≤ CAPACITY) :
    Slid bank shape (worker / 4) (worker % 4) s.1 64 ((slideTasks bank shape worker).foldl (PageTask.run PAGE) s) := by
  have htiles : ∀ n ≤ 64, Slid bank shape (worker / 4) (worker % 4) s.1 n
      (((List.range n).map (slideTile bank shape (worker / 4) (worker % 4))).foldl (PageTask.run PAGE)
        (PageTask.run PAGE s ⟨[⟨bank.delta, worker / 4 * 4 + worker % 4, 2, 0, PAGE⟩], [], []⟩)) := by
    intro n
    induction n with
    | zero =>
      refine fun _ => ⟨fun tile htile => absurd htile (Nat.not_lt_zero _), fun _ _ _ _ => rfl, fun i hi => ?_⟩
      exact if_pos ⟨rfl, Nat.zero_le _, by simpa using hi⟩
    | succ n ih =>
      intro hn
      rw [List.range_succ, List.map_append, List.foldl_append]
      exact (ih (by omega)).next (by omega) (Nat.mod_lt _ (by decide)) hbound hcapacity
  rw [slideTasks, List.foldl_cons]
  exact htiles 64 (Nat.le_refl _)

end

/-! ## The launch -/

/-- What `slide_program` checks of the addresses of a bank. -/
def checkAddresses (inPlace : Bool) (bank : Bank) : Except PyError Unit :=
  if inPlace then
    raiseIf (bank.output ≠ bank.active ∨ bank.delta = bank.active)
      (.valueError "In place: the output is the bank, and the delta is not")
  else raiseIf (¬[bank.active, bank.delta, bank.output].Nodup)
    (.valueError "Active, delta and spare storage must not alias")

/-- `slide_program`: the checks, and the geometry that every worker is given. -/
def slideProgram (grid historyRows accepted : Nat) (inPlace : Bool) (banks : List Bank) : Except PyError Geometry := do
  let shape ← geometry historyRows accepted
  raiseIf (banks = [] ∨ grid < WORKERS * banks.length)
    (.valueError (toString banks.length ++ " banks need " ++ toString (WORKERS * banks.length) ++
      " transport workers; the grid has " ++ toString grid ++ " cores"))
  banks.forM (checkAddresses inPlace)
  pure shape

/-- A launch that passed the checks, on buffers of different banks that are allocated apart. -/
structure SlideLaunch where
  grid : Nat
  historyRows : Nat
  accepted : Nat
  inPlace : Bool
  banks : List Bank
  shape : Geometry
  made : slideProgram grid historyRows accepted inPlace banks = .ok shape
  outputs : (banks.map Bank.output).Nodup
  deltas : ∀ bank ∈ banks, ∀ bank' ∈ banks, bank.delta ≠ bank'.output
  actives : ∀ bank ∈ banks, ∀ bank' ∈ banks, bank.active = bank'.output → bank = bank'

/-- The geometry of a history that is within bounds. -/
theorem geometry_ok {historyRows accepted : Nat} {shape : Geometry} (h : geometry historyRows accepted = .ok shape) :
    1 ≤ historyRows ∧ historyRows ≤ CAPACITY ∧ 1 ≤ accepted ∧ accepted ≤ 32 ∧
      shape = ⟨historyRows, accepted, min CAPACITY (historyRows + accepted),
        historyRows + accepted - min CAPACITY (historyRows + accepted)⟩ := by
  obtain ⟨_, hcheck, heq⟩ := bind_ok h
  have hbounds := raiseIf_ok.mp hcheck
  simp only [not_or, not_not] at hbounds
  exact ⟨hbounds.1.1, hbounds.1.2, hbounds.2.1, hbounds.2.2, (Except.ok.inj heq).symm⟩

namespace SlideLaunch

variable (launch : SlideLaunch)

theorem shape_eq : 1 ≤ launch.historyRows ∧ launch.historyRows ≤ CAPACITY ∧ 1 ≤ launch.accepted ∧ launch.accepted ≤ 32 ∧
    launch.shape = ⟨launch.historyRows, launch.accepted, min CAPACITY (launch.historyRows + launch.accepted),
      launch.historyRows + launch.accepted - min CAPACITY (launch.historyRows + launch.accepted)⟩ := by
  obtain ⟨shape, hshape, h⟩ := bind_ok launch.made
  obtain ⟨_, -, h⟩ := bind_ok h
  obtain ⟨_, -, h⟩ := bind_ok h
  cases h
  exact geometry_ok hshape

/-- The bank of a worker. -/
def bankOf (core : Nat) : Option Bank := launch.banks[core / WORKERS]?

/-- The pages that a worker writes. -/
def Own (core address page : Nat) : Prop := ∃ bank, launch.bankOf core = some bank ∧ address = bank.output ∧
  ∃ tile < 64, page = pageOf (core % WORKERS / 4) (core % WORKERS % 4) tile

/-- The buffers that are only read. -/
def Input (address : Nat) : Prop :=
  ∃ bank ∈ launch.banks, address = bank.delta ∨ address = bank.active ∧ address ≠ bank.output

/-- A worker's tasks keep to its column of tiles. -/
theorem fits {core : Nat} {bank : Bank} (hbank : launch.bankOf core = some bank) :
    ∀ t ∈ slideTasks bank launch.shape (core % WORKERS),
      t.Fits (launch.Own core) fun address _ => launch.Input address := by
  have hmem : bank ∈ launch.banks := List.mem_of_getElem? hbank
  have hactive : ∀ tile, tile * 32 < launch.shape.historyRows →
      launch.Own core bank.active (pageOf (core % WORKERS / 4) (core % WORKERS % 4) tile) ∨
        launch.Input bank.active := by
    intro tile htile
    obtain ⟨-, hcapacity, -, -, hshape⟩ := launch.shape_eq
    rw [hshape] at htile
    have hcap : launch.historyRows ≤ 2048 := hcapacity
    dsimp only at htile
    by_cases hsame : bank.active = bank.output
    · exact Or.inl ⟨bank, hbank, hsame, tile, by omega, rfl⟩
    · exact Or.inr ⟨bank, hmem, Or.inr ⟨rfl, hsame⟩⟩
  intro t ht
  rcases List.mem_cons.mp ht with rfl | ht
  · refine ⟨fun r hr => ?_, List.pairwise_singleton _ _, by simp, .nil⟩
    obtain rfl := List.mem_singleton.mp hr
    exact Or.inr ⟨bank, hmem, Or.inl rfl⟩
  · obtain ⟨tile, htile, rfl⟩ := List.mem_map.mp ht
    refine ⟨fun r hr => ?_, ?_, fun w hw => ?_, List.pairwise_singleton _ _⟩
    · simp only [slideTile] at hr
      split_ifs at hr with hfirst hsecond
      · rcases List.mem_cons.mp hr with rfl | hr
        · exact hactive _ (by omega)
        · obtain rfl := List.mem_singleton.mp hr
          exact hactive _ hsecond.2
      · obtain rfl := List.mem_singleton.mp hr
        exact hactive _ (by omega)
      · cases hr
    · simp only [slideTile]
      split_ifs <;> simp [Read.Apart]
    · obtain rfl := List.mem_singleton.mp hw
      exact ⟨bank, hbank, rfl, tile, List.mem_range.mp htile, rfl⟩

/-- The launch, as pages that are moved. -/
def pages : Launch UInt16 where
  size := PAGE
  cores := WORKERS * launch.banks.length
  prelude := fun _ => []
  tasks := fun core => (launch.bankOf core).elim [] fun bank => slideTasks bank launch.shape (core % WORKERS)
  own := launch.Own
  input := fun address _ => launch.Input address
  fits := fun core _ t ht => by
    cases hbank : launch.bankOf core with
    | none =>
      rw [hbank] at ht
      cases ht
    | some bank =>
      rw [hbank] at ht
      exact launch.fits hbank t ht
  apart := fun core _ core' _ address page => by
    rintro ⟨bank, hbank, rfl, tile, htile, rfl⟩ ⟨bank', hbank', heq, tile', htile', hpage⟩
    have hget : ∀ {core bank}, launch.bankOf core = some bank →
        (launch.banks.map Bank.output)[core / WORKERS]? = some bank.output := fun h => by
      rw [List.getElem?_map, show launch.banks[_]? = _ from h]
      rfl
    have hlt := (List.getElem?_eq_some_iff.mp (hget hbank)).1
    have hindex := (List.getElem?_inj hlt launch.outputs).mp ((hget hbank).trans (heq ▸ (hget hbank').symm))
    obtain ⟨hhead, hcolumn, -⟩ := pageOf_inj (Nat.mod_lt _ (by decide)) (Nat.mod_lt _ (by decide)) htile htile' hpage
    simp only [WORKERS] at *
    omega
  inputs := fun core _ address page => by
    rintro ⟨bank, hbank, rfl, -⟩ ⟨bank', hmem', hinput⟩
    have hmem : bank ∈ launch.banks := List.mem_of_getElem? hbank
    rcases hinput with heq | ⟨heq, hne⟩
    · exact launch.deltas bank' hmem' bank hmem heq.symm
    · exact hne (launch.actives bank' hmem' bank hmem heq.symm ▸ rfl)

end SlideLaunch

/-! ## What a slide leaves -/

/-- Row `row` of a bank, of 64 tiles of rows for each head, at a head and a column. -/
def bankAt (b : Buffers UInt16) (address head column row : Nat) : UInt16 :=
  b address (pageOf head (column / 32) (row / 32)) (place (row % 32) (column % 32))

/-- Row `row` of a delta, of one tile of rows for each head. -/
def deltaAt (b : Buffers UInt16) (address head column row : Nat) : UInt16 :=
  b address (head * 4 + column / 32) (place row (column % 32))

/-- The rows of a bank at a head and a column. -/
def bankRows (b : Buffers UInt16) (address head column : Nat) : List UInt16 :=
  (List.range CAPACITY).map (bankAt b address head column)

/-- The rows of a delta at a head and a column. -/
def deltaRows (b : Buffers UInt16) (address head column : Nat) : List UInt16 :=
  (List.range 32).map (deltaAt b address head column)

/-- `DraftKVHistory.prepare`: the slices, the concatenation, the tail and the padding, row by row. -/
def eagerRows {α : Type} (zero : α) (historyRows accepted : Nat) (active delta : List α) : List α :=
  let rows := min CAPACITY (historyRows + accepted)
  let historical := active.take historyRows
  let combined := historical ++ delta.take accepted
  let tail := (combined.take (historyRows + accepted)).drop (historyRows + accepted - rows)
  tail ++ List.replicate (CAPACITY - rows) zero

theorem eagerRows_length {α : Type} {zero : α} {historyRows accepted : Nat} {active delta : List α}
    (hactive : active.length = CAPACITY) (hdelta : delta.length = 32) (hhistory : historyRows ≤ CAPACITY)
    (haccepted : accepted ≤ 32) : (eagerRows zero historyRows accepted active delta).length = CAPACITY := by
  simp only [eagerRows, List.length_append, List.length_drop, List.length_take, List.length_replicate, hactive, hdelta]
  omega

/-- A row of the eager tail. -/
theorem eagerRows_get {α : Type} {zero : α} {historyRows accepted row : Nat} {active delta : List α}
    (hactive : active.length = CAPACITY) (hdelta : delta.length = 32) (hhistory : historyRows ≤ CAPACITY)
    (haccepted : accepted ≤ 32) (hrow : row < CAPACITY) :
    (eagerRows zero historyRows accepted active delta)[row]? =
      if row < min CAPACITY (historyRows + accepted) then
        if row + (historyRows + accepted - min CAPACITY (historyRows + accepted)) < historyRows then
          active[row + (historyRows + accepted - min CAPACITY (historyRows + accepted))]?
        else delta[row + (historyRows + accepted - min CAPACITY (historyRows + accepted)) - historyRows]?
      else some zero := by
  have hle : min CAPACITY (historyRows + accepted) ≤ historyRows + accepted := Nat.min_le_right _ _
  have hlength : (active.take historyRows ++ delta.take accepted).length = historyRows + accepted := by
    rw [List.length_append, List.length_take, List.length_take, hactive, hdelta, Nat.min_eq_left hhistory,
      Nat.min_eq_left haccepted]
  have hhistorical : (active.take historyRows).length = historyRows := by
    rw [List.length_take, hactive, Nat.min_eq_left hhistory]
  unfold eagerRows
  dsimp only
  rw [List.take_of_length_le (Nat.le_of_eq hlength)]
  have htail : ((active.take historyRows ++ delta.take accepted).drop
      (historyRows + accepted - min CAPACITY (historyRows + accepted))).length =
      min CAPACITY (historyRows + accepted) := by
    rw [List.length_drop, hlength]
    omega
  split_ifs with hkept hold
  · rw [List.getElem?_append_left (by rw [htail]; exact hkept), List.getElem?_drop, Nat.add_comm _ row,
      List.getElem?_append_left (by rw [hhistorical]; exact hold), List.getElem?_take_of_lt hold]
  · rw [List.getElem?_append_left (by rw [htail]; exact hkept), List.getElem?_drop, Nat.add_comm _ row,
      List.getElem?_append_right (by rw [hhistorical]; exact Nat.le_of_not_lt hold), hhistorical,
      List.getElem?_take_of_lt (by omega)]
  · rw [List.getElem?_append_right (by rw [htail]; exact Nat.le_of_not_lt hkept), htail, List.getElem?_replicate,
      if_pos (by omega)]

/-- **What is left of a column of tiles is the eager publication**, row by row. -/
theorem slidAt_eager {bank : Bank} {historyRows accepted head column row : Nat} {b : Buffers UInt16}
    (hhistory : historyRows ≤ CAPACITY) (haccepted : accepted ≤ 32) (hrow : row < CAPACITY) :
    (eagerRows 0 historyRows accepted (bankRows b bank.active head column) (deltaRows b bank.delta head column))[row]? =
      some (slidAt bank ⟨historyRows, accepted, min CAPACITY (historyRows + accepted),
        historyRows + accepted - min CAPACITY (historyRows + accepted)⟩ head (column / 32) b row
          (place (row % 32) (column % 32))) := by
  have hcolumn : column % 32 < 32 := Nat.mod_lt _ (by decide)
  have hplace : row % 32 < 32 := Nat.mod_lt _ (by decide)
  rw [eagerRows_get (by rw [bankRows, List.length_map, List.length_range])
    (by rw [deltaRows, List.length_map, List.length_range]) hhistory haccepted hrow, slidAt]
  dsimp only
  have hsum : row < min CAPACITY (historyRows + accepted) →
      row + (historyRows + accepted - min CAPACITY (historyRows + accepted)) < historyRows + accepted := by
    omega
  by_cases hkept : row < min CAPACITY (historyRows + accepted)
  · by_cases hold : row + (historyRows + accepted - min CAPACITY (historyRows + accepted)) < historyRows
    · rw [if_pos hkept, if_pos hold, if_pos ⟨hkept, hold⟩, bankRows, List.getElem?_map, List.getElem?_range (by omega),
        moveTo_place hcolumn]
      rfl
    · rw [if_pos hkept, if_neg hold, if_neg fun h => hold h.2, if_pos ⟨hkept, by have := hsum hkept; omega⟩, deltaRows,
        List.getElem?_map, List.getElem?_range (by have := hsum hkept; omega), moveTo_place hcolumn]
      rfl
  · rw [if_neg hkept, if_neg fun h => hkept h.1, if_neg fun h => hkept h.1]

/-- What `row_source` names. -/
def sourceRow {α : Type} (zero : α) (active delta : List α) : RowKind × Nat → Option α
  | (.zero, _) => some zero
  | (.active, row) => active[row]?
  | (.delta, row) => delta[row]?

/-- **The eager publication is what `row_source` says.** -/
theorem rowSource_eager {α : Type} {zero : α} {historyRows accepted row : Nat} {active delta : List α}
    {source : RowKind × Nat} (hactive : active.length = CAPACITY) (hdelta : delta.length = 32)
    (h : rowSource historyRows accepted row = .ok source) :
    (eagerRows zero historyRows accepted active delta)[row]? = sourceRow zero active delta source := by
  obtain ⟨shape, hshape, h⟩ := bind_ok h
  obtain ⟨-, hhistory, -, haccepted, rfl⟩ := geometry_ok hshape
  obtain ⟨_, hrow, h⟩ := bind_ok h
  have hlt : row < CAPACITY := not_not.mp (raiseIf_ok.mp hrow)
  rw [eagerRows_get hactive hdelta hhistory haccepted hlt]
  dsimp only at h
  by_cases hkept : row < min CAPACITY (historyRows + accepted)
  · rw [if_neg (Nat.not_le.mpr hkept)] at h
    rw [if_pos hkept]
    split_ifs at h ⊢ with hold
    · cases h
      rfl
    · cases h
      rfl
  · rw [if_pos (Nat.not_lt.mp hkept)] at h
    cases h
    rw [if_neg hkept]
    rfl

namespace SlideLaunch

variable {launch : SlideLaunch} {m : Cell → UInt16} {s : State Nat Cell UInt16 Empty Empty} {ls : List (Act Nat Cell)}

/-- The pages of a bank have their workers. -/
theorem own_page {index head column tile : Nat} {bank : Bank} (hbank : launch.banks[index]? = some bank)
    (hhead : head < 4)
    (hcolumn : column < 4) (htile : tile < 64) :
    launch.Own (index * WORKERS + (head * 4 + column)) bank.output (pageOf head column tile) := by
  have hindex : (index * WORKERS + (head * 4 + column)) / WORKERS = index := by
    simp only [WORKERS]
    omega
  have hhead' : (index * WORKERS + (head * 4 + column)) % WORKERS / 4 = head := by
    simp only [WORKERS]
    omega
  have hcolumn' : (index * WORKERS + (head * 4 + column)) % WORKERS % 4 = column := by
    simp only [WORKERS]
    omega
  refine ⟨bank, by rw [bankOf, hindex, hbank], rfl, tile, htile, ?_⟩
  rw [hhead', hcolumn']

/-- **What a launch that has ended leaves in a bank.** -/
theorem ended_rows (hrun : Run (Steps step) (initial launch.pages.programs (fun _ => []) m) ls s) (hend : s.Ended)
    {bank : Bank} (hbank : bank ∈ launch.banks) {head column : Nat} (hhead : head < 4) (hcolumn : column < 128) :
    bankRows (buffersOf s.mem) bank.output head column = eagerRows 0 launch.historyRows launch.accepted
      (bankRows (buffersOf m) bank.active head column) (deltaRows (buffersOf m) bank.delta head column) := by
  obtain ⟨-, hhistory, -, haccepted, hshape⟩ := launch.shape_eq
  obtain ⟨index, hindex⟩ := List.mem_iff_getElem?.mp hbank
  have hlt : index < launch.banks.length := (List.getElem?_eq_some_iff.mp hindex).1
  have hcolumn' : column / 32 < 4 := by omega
  refine List.ext_getElem? fun row => ?_
  by_cases hrow : row < CAPACITY
  · rw [slidAt_eager hhistory haccepted hrow, bankRows, List.getElem?_map, List.getElem?_range hrow, ← hshape]
    have htile : row / 32 < 64 := Nat.div_lt_of_lt_mul hrow
    have hplace : place (row % 32) (column % 32) < PAGE := place_lt (Nat.mod_lt _ (by decide))
      (Nat.mod_lt _ (by decide))
    have hown := own_page hindex hhead hcolumn' htile
    have hcore : index * WORKERS + (head * 4 + column / 32) < launch.pages.cores := by
      show _ < WORKERS * launch.banks.length
      simp only [WORKERS]
      omega
    have hbankOf : launch.bankOf (index * WORKERS + (head * 4 + column / 32)) = some bank := by
      rw [bankOf, ← hindex]
      congr 1
      simp only [WORKERS]
      omega
    have hworker : (index * WORKERS + (head * 4 + column / 32)) % WORKERS = head * 4 + column / 32 := by
      simp only [WORKERS]
      omega
    have hleft := (launch.pages.finished hrun hend).1 _ hcore _ _ hown (place (row % 32) (column % 32))
    have hbound : launch.shape.accepted ≤ 32 := by
      rw [hshape]
      exact haccepted
    have hcapacity : launch.shape.historyRows ≤ CAPACITY := by
      rw [hshape]
      exact hhistory
    have hslid : Slid bank launch.shape ((head * 4 + column / 32) / 4) ((head * 4 + column / 32) % 4)
        (buffersOf m) 64 _ :=
      slideTasks_slid _ (buffersOf m, slotsOf (index * WORKERS + (head * 4 + column / 32)) m) hbound hcapacity
    have htasks : launch.pages.left (index * WORKERS + (head * 4 + column / 32)) m =
        (slideTasks bank launch.shape (head * 4 + column / 32)).foldl (PageTask.run PAGE)
          (buffersOf m, slotsOf (index * WORKERS + (head * 4 + column / 32)) m) := by
      simp only [Launch.left, pages, hbankOf, hworker, Option.elim_some, List.foldl_nil]
    have hvalue := hslid.slid (row / 32) htile _ hplace
    have hhead4 : (head * 4 + column / 32) / 4 = head := by omega
    have hcolumn4 : (head * 4 + column / 32) % 4 = column / 32 := by omega
    rw [hhead4, hcolumn4, rowAt_place (Nat.mod_lt _ (by decide)), Nat.div_add_mod'] at hvalue
    rw [htasks] at hleft
    exact congrArg some (hleft.trans hvalue)
  · have hlength : (eagerRows 0 launch.historyRows launch.accepted (bankRows (buffersOf m) bank.active head column)
        (deltaRows (buffersOf m) bank.delta head column)).length = CAPACITY :=
      eagerRows_length (by simp [bankRows]) (by simp [deltaRows]) hhistory haccepted
    rw [bankRows, List.getElem?_map, List.getElem?_eq_none (by rw [List.length_range]; exact Nat.not_lt.mp hrow)]
    rw [List.getElem?_eq_none (by rw [hlength]; exact Nat.not_lt.mp hrow)]
    rfl

/-- **Main result: the slide is exact under every schedule**, in place and out of place. No run of a launch is stuck
before all workers have ended, and one that has ended has left in every bank what the eager publication of its history
and its delta would be, and every other page of the buffers as it was. -/
theorem slide_exact (launch : SlideLaunch) {m : Cell → UInt16} {s : State Nat Cell UInt16 Empty Empty}
    {ls : List (Act Nat Cell)} (hrun : Run (Steps step) (initial launch.pages.programs (fun _ => []) m) ls s) :
    (¬s.Ended → ∃ l s', step s l = some s') ∧
    (s.Ended → (∀ bank ∈ launch.banks, ∀ head < 4, ∀ column < 128,
        bankRows (buffersOf s.mem) bank.output head column = eagerRows 0 launch.historyRows launch.accepted
          (bankRows (buffersOf m) bank.active head column) (deltaRows (buffersOf m) bank.delta head column)) ∧
      ∀ address page, (∀ bank ∈ launch.banks, address = bank.output → 1024 ≤ page) →
        ∀ i, s.mem (.dram address page i) = m (.dram address page i)) := by
  refine ⟨launch.pages.live hrun, fun hend => ⟨fun bank hbank head hhead column hcolumn =>
    ended_rows hrun hend hbank hhead hcolumn, fun address page hout =>
      (launch.pages.finished hrun hend).2 address page fun core _ hown => ?_⟩⟩
  obtain ⟨bank, hbank, rfl, tile, htile, rfl⟩ := hown
  have hpage := hout bank (List.mem_of_getElem? hbank) rfl
  have hmod : core % WORKERS < 16 := Nat.mod_lt _ (by decide)
  simp only [pageOf, WORKERS] at *
  omega

end SlideLaunch

/-- Two banks in place. -/
def sampleLaunch : SlideLaunch where
  grid := 130
  historyRows := 2048
  accepted := 3
  inPlace := true
  banks := [⟨1, 2, 1⟩, ⟨3, 4, 3⟩]
  shape := ⟨2048, 3, 2048, 3⟩
  made := rfl
  outputs := by decide
  deltas := by decide
  actives := by decide

/-- The second bank, slid in place. -/
theorem sampleLaunch_slides :
    ∃ s ls, Run (Steps step) (initial sampleLaunch.pages.programs (fun _ => []) fun _ => 5) ls s ∧
    s.Ended ∧ bankRows (buffersOf s.mem) 3 0 7 = eagerRows 0 2048 3 (List.replicate 2048 5) (List.replicate 32 5) := by
  obtain ⟨s, ls, hrun, hend⟩ := sampleLaunch.pages.exists_run fun _ => 5
  have hrows := ((sampleLaunch.slide_exact hrun).2 hend).1 ⟨3, 4, 3⟩ (by decide) 0 (by decide) 7 (by decide)
  refine ⟨s, ls, hrun, hend, hrows.trans ?_⟩
  have hactive : bankRows (buffersOf fun _ : Cell => (5 : UInt16)) 3 0 7 = List.replicate 2048 5 := by
    refine (List.map_const' : (List.range CAPACITY).map (fun _ => (5 : UInt16)) = _).trans ?_
    rw [List.length_range]
  have hdelta : deltaRows (buffersOf fun _ : Cell => (5 : UInt16)) 4 0 7 = List.replicate 32 5 := by
    refine (List.map_const' : (List.range 32).map (fun _ => (5 : UInt16)) = _).trans ?_
    rw [List.length_range]
  rw [hactive, hdelta]
  rfl

/-! ## The window -/

/-- The last rows of a stream that a bank has room for, and zeros. -/
def window {α : Type} (zero : α) (stream : List α) : List α :=
  stream.drop (stream.length - CAPACITY) ++ List.replicate (CAPACITY - stream.length) zero

theorem window_length {α : Type} (zero : α) (stream : List α) : (window zero stream).length = CAPACITY := by
  simp only [window, List.length_append, List.length_drop, List.length_replicate]
  omega

/-- **A publication onto a window** is the window of what was accepted too. -/
theorem eagerRows_window {α : Type} (zero : α) {stream delta : List α} {accepted : Nat}
    (hdelta : accepted ≤ delta.length) :
    eagerRows zero (min CAPACITY stream.length) accepted (window zero stream) delta =
      window zero (stream ++ delta.take accepted) := by
  have htake : (window zero stream).take (min CAPACITY stream.length) = stream.drop (stream.length - CAPACITY) := by
    rw [window, List.take_append_of_le_length (by rw [List.length_drop]; omega)]
    exact List.take_of_length_le (by rw [List.length_drop]; omega)
  have haccepted : (delta.take accepted).length = accepted := by
    rw [List.length_take, Nat.min_eq_left hdelta]
  have hlength : (stream.drop (stream.length - CAPACITY) ++ delta.take accepted).length =
      min CAPACITY stream.length + accepted := by
    rw [List.length_append, List.length_drop, haccepted]
    omega
  unfold eagerRows
  dsimp only
  rw [htake, List.take_of_length_le (Nat.le_of_eq hlength), window, List.length_append, haccepted]
  refine congrArg₂ (· ++ ·) ?_ (congrArg (fun n => List.replicate n zero) (by omega))
  rw [← List.drop_append_of_le_length (Nat.sub_le _ _), List.drop_drop]
  exact congrArg (fun n => (stream ++ delta.take accepted).drop n) (by omega)

end BlackholeQwen.Dflash.KvSlide
