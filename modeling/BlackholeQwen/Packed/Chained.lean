import BlackholeQwen.Lib.Chains
import BlackholeQwen.Lib.Spans
import BlackholeQwen.Packed.TileRows

/-!
# The chained key and value write (`scripts/ci/packed_ordered_cache.py`)

- `chainArgs`, `tileSpans`: which rows of a launch wait, which signal, and the spans of one 32-row tile.
- `ChainedOrderedCacheWriter`: one chained launch of the block, or one a tile; `SegmentedOrderedCacheWriter`: one single
  chain a tile.

Under the conflict guard every launch is `Lib.Chains.Chained`, so that a block's write cannot deadlock and leaves what
its rows leave one at a time (`chained_write_exact`).
-/

namespace BlackholeQwen.Packed

open Lib Lib.Chains

/-! ## The planners -/

abbrev TILE_ROWS : Nat := 32
def LAUNCH_ROWS : List Nat := [64, 32]
def GRID_WIDTH : Nat := 8

/-- A contiguous run of rows, first and past the last. -/
abbrev Rows : Type := Nat × Nat

/-- The loop of `validate_spans`: the end of the last span. -/
def spansEnd : Nat → List Rows → Except PyError Nat
  | cursor, [] => .ok cursor
  | cursor, (first, last) :: spans => do
    raiseIf (first ≠ cursor ∨ last ≤ first)
      (.valueError "Chains need contiguous non-empty segments covering the block from row 0")
    spansEnd last spans

/-- `validate_spans`. -/
def validateSpans (rows : Nat) (spans : List Rows) : Except PyError (List Rows) := do
  let cursor ← spansEnd 0 spans
  raiseIf (cursor ≠ rows ∨ spans = [])
    (.valueError ("Chains must cover exactly the " ++ toString rows ++ " launch rows"))
  return spans

/-- `chain_args`: whether each row waits, whether it signals, and its successor. -/
def chainArgs (rows : Nat) (spans : List Rows) : Except PyError (List (Bool × Bool × Nat)) := do
  let spans ← validateSpans rows spans
  let starts := spans.map Prod.fst
  let tails := spans.map fun span => span.2 - 1
  return (List.range rows).map fun row =>
    (decide (row ∉ starts), decide (row ∉ tails), if row ∈ tails then row else row + 1)

/-- `tile_spans`: the spans inside the rows of a tile, in the tile's own row numbers. -/
def tileSpans (spans : List Rows) (first last : Nat) : List Rows :=
  spans.filterMap fun span =>
    let start := max span.1 first
    let stop := min span.2 last
    if start < stop then some (start - first, stop - first) else none

/-- `grid_problem`. -/
def gridProblem (grid : Nat × Nat) (rows : Nat) : Option String :=
  if grid.1 < GRID_WIDTH ∨ grid.2 < rows / GRID_WIDTH then
    some ("a " ++ toString rows ++ "-row chained launch needs an " ++ toString GRID_WIDTH ++ "x" ++
      toString (rows / GRID_WIDTH) ++ " worker grid; this one is " ++ toString grid.1 ++ "x" ++ toString grid.2)
  else none

/-- `if problem is not None: raise Unsupported(problem)`. -/
def raiseProblem : Option String → Except PyError Unit
  | some problem => .error (.valueError problem)
  | none => .ok ()

/-! ## Launches -/

/-- A page table: its width, and a row of it for each row of the block. -/
structure Pages where
  width : Nat
  rows : List (List Int)
  deriving DecidableEq, Repr

/-- The pair that a row's reader and writer address. What they address for a position that its page-table row does not
map is left open; the guard excludes it. -/
def rowKey (positions : List Nat) (pages : Pages) (row : Nat) : Key :=
  match tileRow (pages.rows[row]?.getD []) (positions[row]?.getD 0) with
  | .ok key => key
  | .error _ => (0, 0)

/-- What a launch is given besides its rows: the admitted page widths, the worker grid, and the pages of the cache. -/
structure Device where
  admitted : Nat → Bool
  grid : Nat × Nat
  cachePages : Nat

variable {ν : Type}

/-- `update_chained`: the launch of `positions.length` rows; `modify` is what each row makes of the tile row it
reads. -/
def updateChained (device : Device) (positions : List Nat) (pages : Pages) (spans : List Rows) (modify : Nat → ν → ν) :
    Except PyError (Launch Key ν) := do
  let rows := positions.length
  raiseIf (rows ∉ LAUNCH_ROWS) (.valueError "Chained K/V writes take (1, 64 or 32, 32, 256) prepared tiles")
  raiseIf (pages.rows.length ≠ rows ∨ device.admitted pages.width = false ∨ device.cachePages < pages.width)
    (.valueError "Paired position vector and page-table rows required")
  let chains ← chainArgs rows spans
  raiseProblem (gridProblem device.grid rows)
  return {
    rows
    wait := fun row => (chains[row]?.map fun args => args.1).getD false
    signal := fun row => (chains[row]?.map fun args => args.2.1).getD false
    next := fun row => (chains[row]?.map fun args => args.2.2).getD row
    key := rowKey positions pages
    modify }

/-- `ordered_cache.update`: every row but the first waits, every row but the last signals. -/
def update (positions : List Nat) (pages : Pages) (modify : Nat → ν → ν) : Launch Key ν where
  rows := positions.length
  wait := fun row => decide (0 < row)
  signal := fun row => decide (row < positions.length - 1)
  next := fun row => min (row + 1) (positions.length - 1)
  key := rowKey positions pages
  modify := modify

/-! ## The writers -/

/-- A tile's rows and its staged metadata. -/
structure Tile where
  rows : Rows
  positions : List Nat
  pages : Pages
  deriving DecidableEq, Repr

/-- `tile_rows`. -/
def tileRows (rows : Nat) : Except PyError (List Rows) :=
  if rows ≤ TILE_ROWS ∨ rows % TILE_ROWS ≠ 0 then
    .error (.valueError "Segmented ordered cache writes serve blocks of whole 32-row tiles beyond one tile")
  else .ok ((List.range (rows / TILE_ROWS)).map fun tile => (tile * TILE_ROWS, tile * TILE_ROWS + TILE_ROWS))

/-- The loop of `validate_tiles`: the rows that the tiles cover. -/
def tilesEnd : Nat → List Tile → Except PyError Nat
  | cursor, [] => .ok cursor
  | cursor, entry :: tiles => do
    raiseIf (entry.rows ≠ (cursor, cursor + TILE_ROWS))
      (.valueError ("Cache tiles must cover the block from row 0 in 32-row tiles, each with its own positions and " ++
        "page-table rows"))
    raiseIf (entry.positions.length ≠ TILE_ROWS)
      (.valueError "A cache tile stages a row-major int32 (32,) positions word")
    raiseIf (entry.pages.rows.length ≠ TILE_ROWS)
      (.valueError "A cache tile stages row-major int32 (32, page_width) page-table rows")
    tilesEnd (cursor + TILE_ROWS) tiles

/-- `validate_tiles`: the rows of the block, and the width of its page tables. -/
def validateTiles (tiles : List Tile) : Except PyError (Nat × Nat) := do
  let cursor ← tilesEnd 0 tiles
  let whole ← tileRows cursor
  raiseIf (whole ≠ tiles.map Tile.rows ∨ (tiles.map fun entry => entry.pages.width).dedup.length ≠ 1)
    (.valueError "Cache tiles must number more than one, over one page-table width")
  return (cursor, (tiles.map fun entry => entry.pages.width).headD 0)

/-- `ChainedOrderedCacheWriter`. -/
structure ChainedOrderedCacheWriter where
  spans : List Rows
  tiles : List Tile
  positions : List Nat
  pages : Pages
  launchRows : Nat

/-- `ChainedOrderedCacheWriter.__init__`. -/
def ChainedOrderedCacheWriter.init (device : Device) (positions : List Nat) (pages : Pages) (spans : List Rows)
    (tiles : List Tile) (launchRows : Nat) : Except PyError ChainedOrderedCacheWriter := do
  raiseIf (launchRows ∉ LAUNCH_ROWS) (.valueError ("launch rows " ++ toString launchRows ++ " is not 64 or 32"))
  let rows := positions.length
  raiseIf (rows ≠ 64 ∨ pages.rows.length ≠ rows)
    (.valueError "the chained writer serves the 64-row block staged as row-major int32 metadata")
  raiseIf (device.admitted pages.width = false)
    (.valueError ("page width " ++ toString pages.width ++ " is not admitted"))
  let spans ← validateSpans rows spans
  let (blockRows, width) ← validateTiles tiles
  raiseIf (blockRows ≠ rows ∨ width ≠ pages.width)
    (.valueError "the tile metadata must cover the same block at the same page width")
  raiseProblem (gridProblem device.grid launchRows)
  return ⟨spans, tiles, positions, pages, launchRows⟩

/-- `ChainedOrderedCacheWriter.__call__`: its launches, in order. -/
def ChainedOrderedCacheWriter.call (w : ChainedOrderedCacheWriter) (device : Device) (modify : Nat → ν → ν) :
    Except PyError (List (Launch Key ν)) :=
  if w.launchRows = w.positions.length then
    (updateChained device w.positions w.pages w.spans modify).map fun launch => [launch]
  else w.tiles.mapM fun entry =>
    updateChained device entry.positions entry.pages (tileSpans w.spans entry.rows.1 entry.rows.2) fun row =>
      modify (entry.rows.1 + row)

/-- `SegmentedOrderedCacheWriter.__call__`: its launches, in order. -/
def segmentedCall (tiles : List Tile) (modify : Nat → ν → ν) : List (Launch Key ν) :=
  tiles.map fun entry => update entry.positions entry.pages fun row => modify (entry.rows.1 + row)

/-! ## Row by row -/

/-- One row's read-modify-write. -/
def writeRow (positions : List Nat) (pages : Pages) (modify : Nat → ν → ν) (cache : Key → ν) (row : Nat) : Key → ν :=
  Function.update cache (rowKey positions pages row) (modify row (cache (rowKey positions pages row)))

/-- The rows of the block one at a time, in row order. -/
def rowByRow (positions : List Nat) (pages : Pages) (modify : Nat → ν → ν) (cache : Key → ν) : Key → ν :=
  (List.range positions.length).foldl (writeRow positions pages modify) cache

/-- The positions and the page-table row of each span's user. -/
def spanUsers (positions : List Nat) (pages : Pages) (spans : List Rows) : List (List Nat × List Int) :=
  spans.map fun span => ((positions.drop span.1).take (span.2 - span.1), pages.rows[span.1]?.getD [])

/-- A block's metadata as it is staged: the rows of a span have one page-table row, and each tile has its own slice. -/
structure StagedRows (positions : List Nat) (pages : Pages) (spans : List Rows) (tiles : List Tile) : Prop where
  table : ∀ span ∈ spans, ∀ row, span.1 ≤ row → row < span.2 → pages.rows[row]? = pages.rows[span.1]?
  slices : ∀ entry ∈ tiles, entry.positions = (positions.drop entry.rows.1).take (entry.rows.2 - entry.rows.1) ∧
    entry.pages.rows = (pages.rows.drop entry.rows.1).take (entry.rows.2 - entry.rows.1)

/-! ## Spans -/

/-- Spans that cover the rows from `lo` to `hi`. -/
abbrev Cover (lo : Nat) (spans : List Rows) (hi : Nat) : Prop :=
  Spans Prod.fst (fun span => span.2 - span.1) lo spans hi

theorem spansEnd_ok : ∀ {spans : List Rows} {cursor hi : Nat}, spansEnd cursor spans = .ok hi ↔ Cover cursor spans hi
  | [], cursor, hi => by
    constructor
    · intro h
      cases h
      exact .nil _
    · intro h
      cases h
      rfl
  | (first, last) :: spans, cursor, hi => by
    rw [spansEnd]
    constructor
    · intro h
      obtain ⟨_, hbad, h⟩ := bind_ok h
      rw [raiseIf_ok] at hbad
      refine .cons (by simp only; omega) (by simp only; omega) ?_
      simp only
      rw [show cursor + (last - first) = last by omega]
      exact spansEnd_ok.mp h
    · intro h
      cases h with
      | cons hstart hpos h =>
        simp only at hstart hpos h
        subst hstart
        rw [show first + (last - first) = last by omega] at h
        have hok : raiseIf (first ≠ first ∨ last ≤ first)
            (.valueError "Chains need contiguous non-empty segments covering the block from row 0") = .ok () := by
          rw [raiseIf_ok]
          omega
        rw [hok]
        exact spansEnd_ok.mpr h

theorem validateSpans_ok {rows : Nat} {spans spans' : List Rows} :
    validateSpans rows spans = .ok spans' ↔ spans' = spans ∧ Cover 0 spans rows ∧ spans ≠ [] := by
  unfold validateSpans
  constructor
  · intro h
    obtain ⟨cursor, hend, h⟩ := bind_ok h
    obtain ⟨_, hbad, h⟩ := bind_ok h
    rw [raiseIf_ok, not_or, not_not] at hbad
    cases h
    exact ⟨rfl, hbad.1 ▸ spansEnd_ok.mp hend, hbad.2⟩
  · rintro ⟨rfl, hcover, hne⟩
    rw [spansEnd_ok.mpr hcover]
    simp [raiseIf, hne, bind, Except.bind, pure, Except.pure]

/-- No span is empty, and each lies between the ends. -/
theorem Cover.bounds {lo hi : Nat} {spans : List Rows} (h : Cover lo spans hi) {s : Rows} (hs : s ∈ spans) :
    lo ≤ s.1 ∧ s.1 < s.2 ∧ s.2 ≤ hi := by
  have hpos : 0 < s.2 - s.1 := by
    induction h with
    | nil => cases hs
    | cons _ hpos _ ih =>
      rcases List.mem_cons.mp hs with rfl | hs
      · exact hpos
      · exact ih hs
  have hb : lo ≤ s.1 ∧ s.1 + (s.2 - s.1) ≤ hi := Spans.bounds h hs
  omega

/-- A row is in one span. -/
theorem Cover.exists {lo hi : Nat} {spans : List Rows} (h : Cover lo spans hi) (row : Nat) (hlo : lo ≤ row)
    (hhi : row < hi) : ∃ s ∈ spans, s.1 ≤ row ∧ row < s.2 := by
  obtain ⟨⟨i, t⟩, ⟨s, hs, ht, hsum⟩, -⟩ := h.find hlo hhi
  simp only at hs ht hsum
  exact ⟨s, List.mem_of_getElem? hs, by omega, by omega⟩

theorem Cover.index {lo hi : Nat} {spans : List Rows} (h : Cover lo spans hi) {i j : Nat} {s t : Rows}
    (hs : spans[i]? = some s) (ht : spans[j]? = some t) {row : Nat} (hrs : s.1 ≤ row ∧ row < s.2)
    (hrt : t.1 ≤ row ∧ row < t.2) : i = j := by
  have hb := h.bounds (List.mem_of_getElem? hs)
  obtain ⟨p, -, huniq⟩ := h.find (r := row) (by omega) (by omega)
  have h1 := huniq (i, row - s.1)
    ⟨s, hs, (show row - s.1 < s.2 - s.1 by omega), (show s.1 + (row - s.1) = row by omega)⟩
  have h2 := huniq (j, row - t.1)
    ⟨t, ht, (show row - t.1 < t.2 - t.1 by omega), (show t.1 + (row - t.1) = row by omega)⟩
  exact (Prod.mk.inj (h1.trans h2.symm)).1

theorem Cover.unique {lo hi : Nat} {spans : List Rows} (h : Cover lo spans hi) {s t : Rows} (hs : s ∈ spans)
    (ht : t ∈ spans) (row : Nat) (hrs : s.1 ≤ row ∧ row < s.2) (hrt : t.1 ≤ row ∧ row < t.2) : s = t := by
  obtain ⟨i, hi⟩ := List.mem_iff_getElem?.mp hs
  obtain ⟨j, hj⟩ := List.mem_iff_getElem?.mp ht
  rw [h.index hi hj hrs hrt] at hi
  exact Option.some.inj (hi.symm.trans hj)

/-- The row after a tail is a start. -/
theorem Cover.start_after_tail {lo hi : Nat} {spans : List Rows} (h : Cover lo spans hi) {row : Nat}
    (hhi : row + 1 < hi)
    (htail : row ∈ spans.map fun span => span.2 - 1) : row + 1 ∈ spans.map Prod.fst := by
  obtain ⟨t, ht, rfl⟩ := List.mem_map.mp htail
  have hbt := h.bounds ht
  obtain ⟨u, hu, h1, h2⟩ := h.exists (t.2 - 1 + 1) (by omega) hhi
  refine List.mem_map.mpr ⟨u, hu, Nat.le_antisymm h1 ?_⟩
  by_contra hlt
  rw [h.unique hu ht (t.2 - 1) (by omega) (by omega)] at h2
  omega

/-- The first row is a start. -/
theorem Cover.first {hi : Nat} {spans : List Rows} (h : Cover 0 spans hi) (hhi : 0 < hi) : 0 ∈ spans.map Prod.fst := by
  obtain ⟨u, hu, h1, -⟩ := h.exists 0 le_rfl hhi
  exact List.mem_map.mpr ⟨u, hu, Nat.le_zero.mp h1⟩

/-- A start of a tile past its first row is a start of the block. -/
theorem start_of_tile {spans : List Rows} {first last row : Nat} (hpos : 0 < row)
    (h : row ∈ (tileSpans spans first last).map Prod.fst) : first + row ∈ spans.map Prod.fst := by
  obtain ⟨t, ht, rfl⟩ := List.mem_map.mp h
  obtain ⟨s, hs, ht⟩ := List.mem_filterMap.mp ht
  refine List.mem_map.mpr ⟨s, hs, ?_⟩
  simp only at ht
  split at ht
  · cases ht
    simp only at hpos ⊢
    omega
  · cases ht

/-! ## The launches are chained -/

theorem chainArgs_ok {rows : Nat} {spans : List Rows} {chains : List (Bool × Bool × Nat)}
    (h : chainArgs rows spans = .ok chains) : Cover 0 spans rows ∧ chains = (List.range rows).map fun row =>
      (decide (row ∉ spans.map Prod.fst), decide (row ∉ spans.map fun span => span.2 - 1),
        if row ∈ spans.map fun span => span.2 - 1 then row else row + 1) := by
  unfold chainArgs at h
  obtain ⟨spans', hvalid, hret⟩ := bind_ok h
  obtain ⟨rfl, hcover, -⟩ := validateSpans_ok.mp hvalid
  exact ⟨hcover, (Except.ok.inj hret).symm⟩

/-- The launch that `update_chained` starts. -/
theorem updateChained_ok {device : Device} {positions : List Nat} {pages : Pages} {spans : List Rows}
    {modify : Nat → ν → ν} {l : Launch Key ν} (h : updateChained device positions pages spans modify = .ok l) :
    Cover 0 spans positions.length ∧ pages.rows.length = positions.length ∧ l.rows = positions.length ∧
      l.key = rowKey positions pages ∧ l.modify = modify ∧
      (∀ row < positions.length, (l.wait row = true ↔ row ∉ spans.map Prod.fst) ∧
        (l.signal row = true ↔ row ∉ spans.map fun span => span.2 - 1)) ∧
      ∀ row, l.signal row = true → row < positions.length ∧ l.next row = row + 1 := by
  unfold updateChained at h
  obtain ⟨_, -, h⟩ := bind_ok h
  obtain ⟨_, hpages, h⟩ := bind_ok h
  obtain ⟨chains, hchains, h⟩ := bind_ok h
  obtain ⟨_, -, h⟩ := bind_ok h
  rw [raiseIf_ok, not_or, not_not] at hpages
  obtain ⟨hcover, rfl⟩ := chainArgs_ok hchains
  cases h
  refine ⟨hcover, hpages.1, rfl, rfl, rfl, fun row hrow => ?_, fun row hsignal => ?_⟩
  · simp only [List.getElem?_map, List.getElem?_range hrow, Option.map_some, Option.getD_some, decide_eq_true_eq,
      and_self]
  · by_cases hrow : row < positions.length
    · simp only [List.getElem?_map, List.getElem?_range hrow, Option.map_some, Option.getD_some,
        decide_eq_true_eq] at hsignal ⊢
      exact ⟨hrow, if_neg hsignal⟩
    · simp only [List.getElem?_map, List.getElem?_eq_none (show (List.range positions.length).length ≤ row by
        simpa using hrow), Option.map_none, Option.getD_none] at hsignal
      cases hsignal

/-- A chained launch whose rows of one key are in one span. -/
theorem updateChained_chained {device : Device} {positions : List Nat} {pages : Pages} {spans : List Rows}
    {modify : Nat → ν → ν} {l : Launch Key ν} (h : updateChained device positions pages spans modify = .ok l)
    (hkeys : ∀ i j, i < j → j < positions.length → rowKey positions pages i = rowKey positions pages j →
      ∀ k, i < k → k ≤ j → k ∉ spans.map Prod.fst) : Chained l := by
  obtain ⟨hcover, -, hrows, hkey, -, hflags, hnext⟩ := updateChained_ok h
  refine ⟨fun p hp => (hnext p hp).2, fun q hq hw => ?_, fun i j hij hj hsame k hik hkj => ?_⟩
  · rw [hrows] at hq
    have hstart := (hflags q hq).1.mp hw
    obtain ⟨p, rfl⟩ : ∃ p, q = p + 1 := by
      refine ⟨q - 1, ?_⟩
      rcases Nat.eq_zero_or_pos q with rfl | hpos
      · exact absurd (hcover.first hq) hstart
      · omega
    exact ⟨p, rfl, (hflags p (by omega)).2.mpr fun htail => hstart (hcover.start_after_tail hq htail)⟩
  · rw [hrows] at hj
    rw [hkey] at hsame
    exact (hflags k (by omega)).1.mpr (hkeys i j hij hj hsame k hik hkj)

/-- A single chain is chained, whatever its keys. -/
theorem update_chained (positions : List Nat) (pages : Pages) (modify : Nat → ν → ν) :
    Chained (update positions pages modify) := by
  refine ⟨fun p hp => ?_, fun q hq hw => ?_, fun i j _ _ _ k hik _ => ?_⟩ <;>
    simp only [update, decide_eq_true_eq] at *
  · omega
  · exact ⟨q - 1, by omega, by omega⟩
  · omega

/-! ## Rows of one key -/

section Block

variable {positions : List Nat} {pages : Pages} {spans : List Rows} {tiles : List Tile} {modify : Nat → ν → ν}

/-- A row of a span writes a pair that the span's user writes. -/
theorem span_key (hstaged : StagedRows positions pages spans tiles) {s : Rows} (hs : s ∈ spans) {row : Nat}
    (hrow : s.1 ≤ row ∧ row < s.2) (hlen : row < positions.length)
    (hmapped : Mapped ((positions.drop s.1).take (s.2 - s.1), pages.rows[s.1]?.getD [])) :
    ∃ p ∈ (positions.drop s.1).take (s.2 - s.1),
      tileRow (pages.rows[s.1]?.getD []) p = .ok (rowKey positions pages row) := by
  have hp : positions[row]? = some positions[row] := List.getElem?_eq_getElem hlen
  have hmem : positions[row] ∈ (positions.drop s.1).take (s.2 - s.1) := by
    rw [List.mem_iff_getElem?]
    refine ⟨row - s.1, ?_⟩
    rw [List.getElem?_take_of_lt (by omega), List.getElem?_drop, show s.1 + (row - s.1) = row by omega, hp]
  obtain ⟨key, hkey⟩ := hmapped _ hmem
  refine ⟨_, hmem, ?_⟩
  unfold rowKey
  simp only at hkey
  rw [hstaged.table s hs row hrow.1 hrow.2, hp, Option.getD_some, hkey]

/-- **Rows of one pair are in one span**, where no two users write one pair. -/
theorem same_span (hstaged : StagedRows positions pages spans tiles) (hcover : Cover 0 spans positions.length)
    (hguard : kvConflict (spanUsers positions pages spans) = .ok none) {i j : Nat} (hi : i < positions.length)
    (hj : j < positions.length) (hkey : rowKey positions pages i = rowKey positions pages j) :
    ∃ s ∈ spans, (s.1 ≤ i ∧ i < s.2) ∧ s.1 ≤ j ∧ j < s.2 := by
  obtain ⟨hmapped, hseparate⟩ := kvConflict_none_iff.mp hguard
  obtain ⟨s, hs, hsi⟩ := hcover.exists i (Nat.zero_le i) hi
  obtain ⟨t, ht, htj⟩ := hcover.exists j (Nat.zero_le j) hj
  obtain ⟨a, ha⟩ := List.mem_iff_getElem?.mp hs
  obtain ⟨b, hb⟩ := List.mem_iff_getElem?.mp ht
  have huser : ∀ {c : Nat} {u : Rows}, spans[c]? = some u → (spanUsers positions pages spans)[c]? =
      some ((positions.drop u.1).take (u.2 - u.1), pages.rows[u.1]?.getD []) := fun h => by
    rw [spanUsers, List.getElem?_map, h, Option.map_some]
  obtain ⟨p, hp, hkp⟩ := span_key hstaged hs hsi hi (hmapped _ (List.mem_of_getElem? (huser ha)))
  obtain ⟨q, hq, hkq⟩ := span_key hstaged ht htj hj (hmapped _ (List.mem_of_getElem? (huser hb)))
  by_cases hab : a = b
  · subst hab
    obtain rfl := Option.some.inj (ha.symm.trans hb)
    exact ⟨s, hs, hsi, htj⟩
  · exact absurd (hkp.trans ((congrArg Except.ok hkey).trans hkq.symm))
      (hseparate a b _ _ hab (huser ha) (huser hb) p hp q hq)

/-- No span starts between two rows of one pair. -/
theorem no_start (hstaged : StagedRows positions pages spans tiles) (hcover : Cover 0 spans positions.length)
    (hguard : kvConflict (spanUsers positions pages spans) = .ok none) {i j : Nat} (hij : i < j)
    (hj : j < positions.length) (hkey : rowKey positions pages i = rowKey positions pages j) {k : Nat} (hik : i < k)
    (hkj : k ≤ j) : k ∉ spans.map Prod.fst := by
  intro hk
  obtain ⟨u, hu, rfl⟩ := List.mem_map.mp hk
  obtain ⟨s, hs, hsi, hsj⟩ := same_span hstaged hcover hguard (hij.trans hj) hj hkey
  have hb := hcover.bounds hu
  rw [hcover.unique hu hs u.1 (by omega) (by omega)] at hik
  omega

/-! ## The tiles of a block -/

/-- The rows of a tile write what they do in the block. -/
theorem tile_key (hstaged : StagedRows positions pages spans tiles) {entry : Tile} (hentry : entry ∈ tiles)
    {row : Nat} (hrow : row < entry.rows.2 - entry.rows.1) :
    rowKey entry.positions entry.pages row = rowKey positions pages (entry.rows.1 + row) := by
  obtain ⟨hpositions, hpages⟩ := hstaged.slices entry hentry
  unfold rowKey
  rw [hpositions, hpages, List.getElem?_take_of_lt hrow, List.getElem?_take_of_lt hrow, List.getElem?_drop,
    List.getElem?_drop]

theorem tilesEnd_ok : ∀ {tiles : List Tile} {cursor hi : Nat}, tilesEnd cursor tiles = .ok hi →
    Cover cursor (tiles.map Tile.rows) hi ∧
      ∀ entry ∈ tiles, entry.rows.2 = entry.rows.1 + TILE_ROWS ∧ entry.positions.length = TILE_ROWS
  | [], cursor, hi, h => by cases h; exact ⟨.nil _, by simp⟩
  | entry :: tiles, cursor, hi, h => by
    rw [tilesEnd] at h
    obtain ⟨_, hrows, h⟩ := bind_ok h
    obtain ⟨_, hpositions, h⟩ := bind_ok h
    obtain ⟨_, -, h⟩ := bind_ok h
    rw [raiseIf_ok, not_not] at hrows hpositions
    obtain ⟨hcover, hall⟩ := tilesEnd_ok h
    refine ⟨?_, fun e he => ?_⟩
    · rw [List.map_cons, hrows]
      refine .cons rfl (by simp) ?_
      rw [show cursor + ((cursor, cursor + TILE_ROWS).2 - (cursor, cursor + TILE_ROWS).1) = cursor + TILE_ROWS by
        simp]
      exact hcover
    · rcases List.mem_cons.mp he with rfl | he
      · exact ⟨by rw [hrows], hpositions⟩
      · exact hall e he

theorem validateTiles_ok {rows width : Nat} (h : validateTiles tiles = .ok (rows, width)) :
    Cover 0 (tiles.map Tile.rows) rows ∧
      ∀ entry ∈ tiles, entry.rows.2 = entry.rows.1 + TILE_ROWS ∧ entry.positions.length = TILE_ROWS := by
  unfold validateTiles at h
  obtain ⟨cursor, hend, h⟩ := bind_ok h
  obtain ⟨_, -, h⟩ := bind_ok h
  obtain ⟨_, -, h⟩ := bind_ok h
  cases h
  exact tilesEnd_ok hend

/-- A launch of some rows of the block, one at a time. -/
theorem sequential_rows {l : Launch Key ν} {first : Nat}
    (hkey : ∀ row < l.rows, l.key row = rowKey positions pages (first + row))
    (hmodify : ∀ row < l.rows, l.modify row = modify (first + row)) (cache : Key → ν) :
    l.sequential cache = (List.range' first l.rows).foldl (writeRow positions pages modify) cache := by
  have hgo : ∀ n ≤ l.rows, (List.range n).foldl l.apply cache =
      (List.range' first n).foldl (writeRow positions pages modify) cache := by
    intro n
    induction n with
    | zero => exact fun _ => rfl
    | succ n ih =>
      intro hn
      rw [List.range_succ, List.range'_concat, List.foldl_append, List.foldl_append, ih (by omega)]
      simp only [List.foldl_cons, List.foldl_nil, Launch.apply, writeRow, Nat.one_mul, hkey n hn, hmodify n hn]
  exact hgo l.rows le_rfl

/-- The launches of the tiles, one after the other, are the rows of the block. -/
theorem sequential_tiles {launches : List (Launch Key ν)} {part : List Tile} {lo hi : Nat}
    (hcover : Cover lo (part.map Tile.rows) hi)
    (h : List.Forall₂ (fun entry l => l.rows = entry.rows.2 - entry.rows.1 ∧
      (∀ row < l.rows, l.key row = rowKey positions pages (entry.rows.1 + row)) ∧
      ∀ row < l.rows, l.modify row = modify (entry.rows.1 + row)) part launches) (cache : Key → ν) :
    launches.foldl (fun cache l => l.sequential cache) cache =
      (List.range' lo (hi - lo)).foldl (writeRow positions pages modify) cache := by
  induction h generalizing lo cache with
  | nil =>
    cases hcover
    simp
  | @cons entry l part launches hl _ ih =>
    cases hcover with
    | cons hstart hpos hrest =>
      have hle := hrest.le
      rw [List.foldl_cons, ih hrest, sequential_rows hl.2.1 hl.2.2, hl.1, ← List.foldl_append, hstart]
      congr 1
      rw [show entry.rows.2 - lo = entry.rows.2 - entry.rows.1 by rw [hstart], List.range'_append_1]
      congr 1
      omega

/-- The launch of a tile. -/
theorem tile_launch (hstaged : StagedRows positions pages spans tiles) (hcover : Cover 0 spans positions.length)
    (hguard : kvConflict (spanUsers positions pages spans) = .ok none) {entry : Tile} (hentry : entry ∈ tiles)
    (hrows : entry.rows.2 = entry.rows.1 + TILE_ROWS ∧ entry.positions.length = TILE_ROWS)
    (hlast : entry.rows.2 ≤ positions.length) {device : Device} {l : Launch Key ν}
    (h : updateChained device entry.positions entry.pages (tileSpans spans entry.rows.1 entry.rows.2)
      (fun row => modify (entry.rows.1 + row)) = .ok l) :
    Chained l ∧ l.rows = entry.rows.2 - entry.rows.1 ∧
      (∀ row < l.rows, l.key row = rowKey positions pages (entry.rows.1 + row)) ∧
      ∀ row < l.rows, l.modify row = modify (entry.rows.1 + row) := by
  obtain ⟨-, -, hlen, hkey, hmodify, -, -⟩ := updateChained_ok h
  have hcount : entry.positions.length = entry.rows.2 - entry.rows.1 := by omega
  have htile : ∀ row, row < entry.positions.length →
      rowKey entry.positions entry.pages row = rowKey positions pages (entry.rows.1 + row) :=
    fun row hrow => tile_key hstaged hentry (by omega)
  refine ⟨updateChained_chained h fun i j hij hj hsame k hik hkj hk => ?_, hlen.trans hcount,
    fun row hrow => ?_, fun row _ => by rw [hmodify]⟩
  · rw [htile i (by omega), htile j hj] at hsame
    exact no_start hstaged hcover hguard (show entry.rows.1 + i < entry.rows.1 + j by omega) (by omega) hsame
      (show entry.rows.1 + i < entry.rows.1 + k by omega) (by omega) (start_of_tile (by omega) hk)
  · rw [hkey]
    exact htile row (by omega)

/-- The writer that is built. -/
theorem ChainedOrderedCacheWriter.init_ok {device : Device} {launchRows : Nat} {w : ChainedOrderedCacheWriter}
    (h : ChainedOrderedCacheWriter.init device positions pages spans tiles launchRows = .ok w) :
    Cover 0 spans positions.length ∧ (∃ width, validateTiles tiles = .ok (positions.length, width)) ∧
      w = ⟨spans, tiles, positions, pages, launchRows⟩ := by
  unfold ChainedOrderedCacheWriter.init at h
  obtain ⟨_, -, h⟩ := bind_ok h
  obtain ⟨_, -, h⟩ := bind_ok h
  obtain ⟨_, -, h⟩ := bind_ok h
  obtain ⟨spans', hspans, h⟩ := bind_ok h
  obtain ⟨⟨blockRows, width⟩, htiles, h⟩ := bind_ok h
  obtain ⟨_, hsame, h⟩ := bind_ok h
  obtain ⟨_, -, h⟩ := bind_ok h
  rw [raiseIf_ok, not_or, not_not] at hsame
  obtain ⟨heq, hcover, -⟩ := validateSpans_ok.mp hspans
  refine ⟨hcover, ⟨width, hsame.1 ▸ htiles⟩, ?_⟩
  rw [← Except.ok.inj h, heq]

/-- The launches that a writer's call starts: each is chained, and together they are the rows of the block. -/
theorem call_launches {device : Device} {launchRows width : Nat} (hcover : Cover 0 spans positions.length)
    (htiles : validateTiles tiles = .ok (positions.length, width)) (hstaged : StagedRows positions pages spans tiles)
    (hguard : kvConflict (spanUsers positions pages spans) = .ok none) {launches : List (Launch Key ν)}
    (hcall : ChainedOrderedCacheWriter.call ⟨spans, tiles, positions, pages, launchRows⟩ device modify = .ok launches)
    (cache : Key → ν) :
    (∀ l ∈ launches, Chained l) ∧
      launches.foldl (fun cache l => l.sequential cache) cache = rowByRow positions pages modify cache := by
  unfold ChainedOrderedCacheWriter.call at hcall
  simp only at hcall
  split at hcall
  · cases hu : updateChained device positions pages spans modify with
    | error e => rw [hu] at hcall; cases hcall
    | ok l =>
      rw [hu] at hcall
      cases hcall
      obtain ⟨-, -, hlen, hkey, hmodify, -, -⟩ := updateChained_ok hu
      refine ⟨fun l' hl' => ?_, ?_⟩
      · obtain rfl := List.mem_singleton.mp hl'
        exact updateChained_chained hu fun i j hij hj hsame k hik hkj =>
          no_start hstaged hcover hguard hij hj hsame hik hkj
      · have hrows : l.sequential cache = (List.range' 0 l.rows).foldl (writeRow positions pages modify) cache :=
          sequential_rows (fun row _ => by rw [hkey, Nat.zero_add]) (fun row _ => by rw [hmodify, Nat.zero_add]) cache
        rw [List.foldl_cons, List.foldl_nil, hrows, hlen, rowByRow, List.range_eq_range']
  · obtain ⟨htcover, hrows⟩ := validateTiles_ok htiles
    have hpairs : List.Forall₂ (fun entry l => Chained l ∧ l.rows = entry.rows.2 - entry.rows.1 ∧
        (∀ row < l.rows, l.key row = rowKey positions pages (entry.rows.1 + row)) ∧
        ∀ row < l.rows, l.modify row = modify (entry.rows.1 + row)) tiles launches := by
      obtain ⟨hlen, hget⟩ := mapM_get hcall
      refine List.forall₂_iff_get.mpr ⟨hlen.symm, fun i hi hi' => ?_⟩
      obtain ⟨l, hl, hu⟩ := hget i tiles[i] (List.getElem?_eq_getElem hi)
      have hentry : tiles[i] ∈ tiles := List.getElem_mem hi
      have hb := htcover.bounds (List.mem_map_of_mem hentry)
      have hl' : launches[i] = l := by
        rw [List.getElem?_eq_getElem hi'] at hl
        exact Option.some.inj hl
      simp only [List.get_eq_getElem]
      rw [hl']
      exact tile_launch hstaged hcover hguard hentry (hrows _ hentry) hb.2.2 hu
    refine ⟨fun l hl => ?_, ?_⟩
    · obtain ⟨i, hi⟩ := List.mem_iff_getElem.mp hl
      obtain ⟨hi', rfl⟩ := hi
      exact ((List.forall₂_iff_get.mp hpairs).2 i (by rw [hpairs.length_eq]; exact hi') hi').1
    · rw [sequential_tiles htcover (hpairs.imp fun _ _ h => h.2), rowByRow, List.range_eq_range', Nat.sub_zero]

/-- The single chains of the tiles are the rows of the block, whatever the keys. -/
theorem segmented_launches (modify : Nat → ν → ν) {width : Nat}
    (htiles : validateTiles tiles = .ok (positions.length, width))
    (hstaged : StagedRows positions pages spans tiles) (cache : Key → ν) :
    (∀ l ∈ segmentedCall tiles modify, Chained l) ∧
      (segmentedCall tiles modify).foldl (fun cache l => l.sequential cache) cache =
        rowByRow positions pages modify cache := by
  obtain ⟨htcover, hrows⟩ := validateTiles_ok htiles
  refine ⟨fun l hl => ?_, ?_⟩
  · obtain ⟨entry, -, rfl⟩ := List.mem_map.mp hl
    exact update_chained _ _ _
  · have hpairs : List.Forall₂ (fun entry l => l.rows = entry.rows.2 - entry.rows.1 ∧
        (∀ row < l.rows, l.key row = rowKey positions pages (entry.rows.1 + row)) ∧
        ∀ row < l.rows, l.modify row = modify (entry.rows.1 + row)) tiles (segmentedCall tiles modify) := by
      refine List.forall₂_map_right_iff.mpr (List.forall₂_same.mpr fun entry hentry => ?_)
      obtain ⟨hlast, hlen⟩ := hrows entry hentry
      refine ⟨?_, fun row hrow => ?_, fun row _ => rfl⟩
      · show entry.positions.length = _
        omega
      · exact tile_key hstaged hentry (show row < entry.rows.2 - entry.rows.1 by
          have : row < entry.positions.length := hrow
          omega)
    rw [sequential_tiles htcover hpairs, rowByRow, List.range_eq_range', Nat.sub_zero]

/-- **The chained write is the row-by-row one, and never deadlocks.** Where no two spans' users write one tile row,
every launch of a block, whole or by tiles, is live however its workers interleave; the launches can be executed; and
whenever they have been, the cache holds what the rows leave one at a time in row order, which is also what the single
chains of the tiles leave. -/
theorem chained_write_exact {device : Device} {launchRows : Nat} {w : ChainedOrderedCacheWriter}
    (hinit : ChainedOrderedCacheWriter.init device positions pages spans tiles launchRows = .ok w)
    (hstaged : StagedRows positions pages spans tiles)
    (hguard : kvConflict (spanUsers positions pages spans) = .ok none) {launches : List (Launch Key ν)}
    (hcall : w.call device modify = .ok launches) (cache : Key → ν) :
    (∀ l ∈ launches, ∀ m acts s, Run (Step l) (State.init m) acts s → Live l m acts s) ∧
      (∃ cache', Executes launches cache cache') ∧
      (∀ cache', Executes launches cache cache' → cache' = rowByRow positions pages modify cache) ∧
      ∀ cache', Executes (segmentedCall tiles modify) cache cache' →
        cache' = rowByRow positions pages modify cache := by
  obtain ⟨hcover, ⟨width, htiles⟩, rfl⟩ := ChainedOrderedCacheWriter.init_ok hinit
  obtain ⟨hchained, hrows⟩ := call_launches hcover htiles hstaged hguard hcall cache
  obtain ⟨hsingle, hsrows⟩ := segmented_launches modify htiles hstaged cache
  refine ⟨fun l hl m acts s h => (hchained l hl).live h, executes_exists hchained cache, fun cache' h => ?_,
    fun cache' h => ?_⟩
  · rw [h.sequential hchained, hrows]
  · rw [h.sequential hsingle, hsrows]

end Block

def sampleDevice : Device := ⟨fun _ => true, (8, 8), 2⟩

/-- Sixteen rows of one user, and forty-eight of another that cross the tiles. -/
def samplePositions : List Nat := List.range 16 ++ List.range' 64 48

def samplePages (rows : Nat) : Pages := ⟨2, List.replicate rows [1, 2]⟩

def sampleSpans : List Rows := [(0, 16), (16, 64)]

def sampleTiles : List Tile :=
  [⟨(0, 32), samplePositions.take 32, samplePages 32⟩, ⟨(32, 64), samplePositions.drop 32, samplePages 32⟩]

theorem sampleStaged : StagedRows samplePositions (samplePages 64) sampleSpans sampleTiles where
  table span hspan row hlo hhi := by
    have hlast : span.2 ≤ 64 := by
      simp only [sampleSpans, List.mem_cons, List.not_mem_nil, or_false] at hspan
      rcases hspan with rfl | rfl <;> decide
    simp only [samplePages, List.getElem?_replicate]
    rw [if_pos (by omega), if_pos (by omega)]
  slices := by decide

def sampleWriter : ChainedOrderedCacheWriter := ⟨sampleSpans, sampleTiles, samplePositions, samplePages 64, 32⟩

/-- The launches of the sample block, by tiles; each row adds its number. -/
def sampleLaunches : List (Launch Key Nat) :=
  (sampleWriter.call sampleDevice fun row v => v + row).toOption.getD []

/-- The write in the sample block. -/
theorem chained_write_exact_sample :
    (∀ l ∈ sampleLaunches, ∀ m acts s, Run (Step l) (State.init m) acts s → Live l m acts s) ∧
      (∃ cache', Executes sampleLaunches (fun _ => 0) cache') ∧
      (∀ cache', Executes sampleLaunches (fun _ => 0) cache' →
        cache' = rowByRow samplePositions (samplePages 64) (fun row v => v + row) fun _ => 0) ∧
      ∀ cache', Executes (segmentedCall sampleTiles fun row v => v + row) (fun _ => 0) cache' →
        cache' = rowByRow samplePositions (samplePages 64) (fun row v => v + row) fun _ => 0 :=
  chained_write_exact (show ChainedOrderedCacheWriter.init sampleDevice samplePositions (samplePages 64) sampleSpans
    sampleTiles 32 = .ok sampleWriter by rfl) sampleStaged (by rfl) (by rfl) fun _ => 0

end BlackholeQwen.Packed
