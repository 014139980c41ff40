import BlackholeQwen.Lib.Runs
import BlackholeQwen.Packed.Binding

/-!
# The bound page tables of a verifier (`scripts/ci/serving_page_binding.py`)

The device tables that a `VerifierPageBinding` writes, beside the engine's host table: one for each buffer of the
engine's captures, of its own height and width (`BoundPages.init`). A refresh reads every buffer's addresses, uploads
the padded blocks into each table in turn, and reads the addresses again (`BoundPages.refresh`); an upload that raises
leaves the tables before it written.

- `Binds`: every table holds the blocks, and then the first of them.
- `refresh_returns`: a refresh that returns is one of `VerifierPageBinding.refresh`, and binds its blocks in every
  table.
- `page_binding_run`: over any run of refreshes, what a call that returns binds, and what one that raises leaves.
-/

namespace BlackholeQwen.Packed

open Lib

/-! ## The binding -/

/-- A bound table: the addresses of its two device buffers, its shape, and its content. -/
structure BoundTable where
  identity : List Nat
  rows : Nat
  width : Nat
  content : Nat → Nat → Int

/-- Its shape. -/
def BoundTable.shape (t : BoundTable) : Nat × Nat := (t.rows, t.width)

/-- `VerifierPageBinding`, with its tables. -/
structure BoundPages extends VerifierPageBinding where
  tables : List BoundTable

/-- A table of a captured fixture: what `addresses` answers, its shape and its content. -/
structure CapturedTable where
  addresses : Except PyError (List Nat)
  shape : List Nat
  content : Nat → Nat → Int

/-- A bucket's fixture: its page tables, the replay reader's (with whether it is instrumented), and whether the readers
and the writers are the ones that its tables serve. -/
structure PageFixture where
  pages : CapturedTable
  singletonPages : CapturedTable
  replay : Option (Bool × List CapturedTable)
  grouped : Bool
  readersBound : Bool
  writersBound : Bool

namespace BoundPages

/-- The tables of a fixture, once its readers and writers are checked. -/
def fixtureTables (f : PageFixture) : Except PyError (List CapturedTable) := do
  raiseIf (f.grouped = false) (.valueError "Unrecognized grouped attention page ownership")
  raiseIf (f.replay.any (·.1) = true) (.valueError "Instrumented attention is not a serving page-binding path")
  raiseIf (f.readersBound = false) (.valueError "Unexpected singleton attention page binding")
  raiseIf (f.writersBound = false) (.valueError "Unexpected singleton cache-writer page binding")
  return f.pages :: f.singletonPages :: (f.replay.map (·.2)).getD []

/-- `self.bindings[identity] = (tensor, shape)`: an alias of a table that is bound has its shape. -/
def bindTable (capacity : Nat) (bound : List BoundTable) (t : CapturedTable) : Except PyError (List BoundTable) := do
  let identity ← t.addresses
  raiseIf (t.shape.length ≠ 2 ∨ t.shape.headD 0 < 1 ∨ t.shape.getD 1 0 < 1 ∨ capacity < t.shape.getD 1 0 ∨
    identity.length ≠ 2) (.valueError "Bounded two-chip page metadata required")
  match bound.find? fun b => b.identity = identity with
  | some b => do
    raiseIf ([b.rows, b.width] ≠ t.shape) (.valueError "Aliased page metadata has conflicting geometry")
    return bound
  | none => return bound ++ [⟨identity, t.shape.headD 0, t.shape.getD 1 0, t.content⟩]

/-- `VerifierPageBinding(engine, initial_blocks, physical_pages=…)`; `rows` and `pages` are the engine's host table. -/
def init (idle : Bool) (rows : Nat) (pages : List Int) (fixtures : List PageFixture) (physicalPages : Nat)
    (blocks : List Int) : Except PyError BoundPages := do
  raiseIf (idle = false ∨ physicalPages < 1 ∨ rows ≠ 1)
    (.valueError "Idle verifier and one bounded host page table required")
  let v : VerifierPageBinding := ⟨physicalPages, pages.length, blocks, false, idle, pages⟩
  v.validateBlocks blocks
  raiseIf (pages.take blocks.length ≠ blocks) (.valueError "Captured initial pages differ from scheduler-owned blocks")
  let tensors ← fixtures.mapM fixtureTables
  raiseIf (tensors.flatten = []) (.valueError "Captured verifier page metadata required")
  let tables ← tensors.flatten.foldlM (bindTable pages.length) []
  return ⟨v, tables⟩

/-! ## Refreshes -/

/-- An upload into a table: it writes the table, or raises and leaves something in it (`none` for what it held). -/
inductive Upload
  | written
  | raised (e : PyError) (left : Option (Nat → Nat → Int))

/-- The device's answers to a refresh: the addresses and the shape of each table before, its upload, the fence, its
addresses after, and the copy into the host table. -/
structure PageEnv where
  before : Nat → Except PyError (List Nat × List Nat)
  uploads : Nat → Upload
  synchronized : Except PyError Unit
  after : Nat → Except PyError (List Nat)
  copied : Except PyError Unit

/-- What the first address check finds. -/
inductive AddressCheck
  | same
  | changed
  | raised (e : PyError)
  deriving DecidableEq

/-- The first address check, table by table. -/
def addressCheck (before : Nat → Except PyError (List Nat × List Nat)) : Nat → List BoundTable → AddressCheck
  | _, [] => .same
  | i, t :: ts =>
    match before i with
    | .error e => .raised e
    | .ok read => if read ≠ (t.identity, [t.rows, t.width]) then .changed else addressCheck before (i + 1) ts

/-- The host table of a refresh: an int32 tensor. -/
def hostTable (capacity : Nat) (blocks : List Int) : Except PyError (List Int) := do
  raiseIf (¬∀ block ∈ blocks, block < 2 ^ 31) (.runtimeError "value cannot be converted to type int32 without overflow")
  return padTable capacity blocks

/-- The uploads, table by table. -/
def upload (host : List Int) (uploads : Nat → Upload) : Nat → List BoundTable → Call (List BoundTable) Unit
  | _, [] => Call.ret [] ()
  | i, t :: ts =>
    match uploads i with
    | .raised e left => Call.throw ({ t with content := left.getD t.content } :: ts) e
    | .written =>
      (upload host uploads (i + 1) ts).onto fun ts => { t with content := fun _ column => host.getD column 0 } :: ts

/-- The second address check. -/
def recheck (after : Nat → Except PyError (List Nat)) : Nat → List BoundTable → Except PyError Unit
  | _, [] => .ok ()
  | i, t :: ts => do
    let identity ← after i
    raiseIf (identity ≠ t.identity) (.valueError "Page upload replaced a captured device buffer")
    recheck after (i + 1) ts

/-- The body of the `try`. -/
def uploadAll (v : BoundPages) (host : List Int) (env : PageEnv) : Call (List BoundTable) Unit :=
  (upload host env.uploads 0 v.tables).bind fun tables () =>
    Call.attempt (do env.synchronized; recheck env.after 0 tables; env.copied) tables fun () => Call.ret tables ()

/-- The binding and its engine failed. -/
def fail (v : BoundPages) : BoundPages := { v with toVerifierPageBinding := v.toVerifierPageBinding.fail }

/-- `refresh`: whether the tables changed. -/
def refresh (v : BoundPages) (blocks : List Int) (position rows : Int) (env : PageEnv) : Call BoundPages Bool :=
  Call.attempt (v.toVerifierPageBinding.refreshGuard blocks position rows) v fun () =>
  match addressCheck env.before 0 v.tables with
  | .raised e => Call.throw v e
  | .changed => Call.throw v.fail (.valueError "Captured page metadata addresses changed")
  | .same =>
    if blocks = v.blocks then Call.ret v false
    else
      Call.attempt (hostTable v.capacity blocks) v fun host =>
      match (v.uploadAll host env).result with
      | .error e => Call.throw { v with tables := (v.uploadAll host env).obj }.fail e
      | .ok () => Call.ret ⟨{ v.toVerifierPageBinding with blocks, pages := host }, (v.uploadAll host env).obj⟩ true

/-- A refresh, or a change of the engine's phase between refreshes. -/
inductive Op
  | refresh (blocks : List Int) (position rows : Int) (env : PageEnv)
  | phase (idle : Bool)

/-- The binding after an operation. -/
def after (v : BoundPages) : Op → BoundPages
  | .refresh blocks position rows env => (v.refresh blocks position rows env).obj
  | .phase idle => { v with idle }

/-- One operation. -/
def Step (v : BoundPages) (op : Op) (v' : BoundPages) : Prop := v' = v.after op

end BoundPages

/-! ## What a table holds -/

/-- A column of a bound table: its block, and past the blocks the first of them. -/
def column (blocks : List Int) (i : Nat) : Int := blocks.getD i (blocks.headD 0)

theorem column_of_lt {blocks : List Int} {i : Nat} (h : i < blocks.length) : column blocks i = blocks[i] := by
  simp [column, h]

theorem column_of_le {blocks : List Int} {i : Nat} (h : blocks.length ≤ i) : column blocks i = blocks.headD 0 := by
  simp [column, h]

/-- Blocks appended later leave the columns of the earlier ones alone. -/
theorem column_append {blocks later : List Int} {i : Nat} (h : i < blocks.length) :
    column (blocks ++ later) i = column blocks i := by
  rw [column_of_lt h, column_of_lt (by rw [List.length_append]; omega), List.getElem_append_left h]

/-- The padded table, by its columns. -/
theorem padTable_get {capacity : Nat} {blocks : List Int} {i : Nat} (hi : i < capacity) :
    (padTable capacity blocks)[i]? = some (column blocks i) := by
  rw [padTable]
  by_cases h : i < blocks.length
  · rw [List.getElem?_append_left h, column_of_lt h, List.getElem?_eq_getElem h]
  · rw [not_lt] at h
    rw [List.getElem?_append_right h, column_of_le h, List.getElem?_replicate, if_pos (by omega)]

namespace BoundPages

/-- Every table holds the blocks, padded with the first: the engine's host table and, as far as they are wide, those on
the device. -/
structure Binds (v : BoundPages) : Prop where
  padded : v.Padded
  width : ∀ t ∈ v.tables, t.width ≤ v.capacity
  tables : ∀ t ∈ v.tables, ∀ row < t.rows, ∀ i < t.width, t.content row i = column v.blocks i

/-! ## The constructor -/

theorem bindTable_spec {capacity : Nat} {bound bound' : List BoundTable} {t : CapturedTable} {P : BoundTable → Prop}
    (h : bindTable capacity bound t = .ok bound') (hbound : ∀ b ∈ bound, b.width ≤ capacity ∧ P b)
    (ht : ∀ identity, P ⟨identity, t.shape.headD 0, t.shape.getD 1 0, t.content⟩) :
    ∀ b ∈ bound', b.width ≤ capacity ∧ P b := by
  obtain ⟨identity, -, h⟩ := bind_ok h
  obtain ⟨⟨⟩, hshape, h⟩ := bind_ok h
  rw [raiseIf_ok] at hshape
  split at h
  · obtain ⟨⟨⟩, -, h⟩ := bind_ok h
    cases h
    exact hbound
  · cases h
    intro b hb
    rcases List.mem_append.mp hb with hb | hb
    · exact hbound b hb
    · cases List.mem_singleton.mp hb
      exact ⟨by dsimp only; omega, ht identity⟩

theorem foldlM_bindTable {capacity : Nat} {P : BoundTable → Prop} {ts : List CapturedTable}
    (ht : ∀ t ∈ ts, ∀ identity, P ⟨identity, t.shape.headD 0, t.shape.getD 1 0, t.content⟩)
    {bound bound' : List BoundTable} (hbound : ∀ b ∈ bound, b.width ≤ capacity ∧ P b)
    (h : ts.foldlM (bindTable capacity) bound = .ok bound') : ∀ b ∈ bound', b.width ≤ capacity ∧ P b := by
  induction ts generalizing bound with
  | nil => cases h; exact hbound
  | cons t ts ih =>
    rw [List.foldlM_cons] at h
    obtain ⟨next, hnext, h⟩ := bind_ok h
    obtain ⟨hhead, htail⟩ := List.forall_mem_cons.mp ht
    exact ih htail (bindTable_spec hnext hbound hhead) h

/-- A captured table holds the blocks, as the caller filled it. -/
def CapturedTable.Holds (t : CapturedTable) (blocks : List Int) : Prop :=
  ∀ row < t.shape.headD 0, ∀ i < t.shape.getD 1 0, t.content row i = column blocks i

/-- **A binding that is made over padded tables binds its blocks.** -/
theorem init_binds {idle : Bool} {rows : Nat} {pages : List Int} {fixtures : List PageFixture} {physicalPages : Nat}
    {blocks : List Int} {v : BoundPages} (h : init idle rows pages fixtures physicalPages blocks = .ok v)
    (hpages : pages = padTable pages.length blocks)
    (htables : ∀ f ∈ fixtures, ∀ ts, fixtureTables f = .ok ts → ∀ t ∈ ts, CapturedTable.Holds t blocks) :
    v.Binds ∧ v.failed = false ∧ v.blocks = blocks := by
  obtain ⟨⟨⟩, -, h⟩ := bind_ok h
  obtain ⟨⟨⟩, hvalid, h⟩ := bind_ok h
  obtain ⟨⟨⟩, -, h⟩ := bind_ok h
  obtain ⟨tensors, htensors, h⟩ := bind_ok h
  obtain ⟨⟨⟩, -, h⟩ := bind_ok h
  obtain ⟨tables, hbound, h⟩ := bind_ok h
  cases h
  obtain ⟨hne, hfits, hnd, hphysical⟩ := VerifierPageBinding.validateBlocks_ok hvalid
  have hholds : ∀ t ∈ tensors.flatten, ∀ identity, ∀ row < t.shape.headD 0, ∀ i < t.shape.getD 1 0,
      (⟨identity, t.shape.headD 0, t.shape.getD 1 0, t.content⟩ : BoundTable).content row i = column blocks i := by
    intro t ht _
    obtain ⟨ts, hts, ht⟩ := List.mem_flatten.mp ht
    obtain ⟨f, hf, hok⟩ := (mem_mapM htensors).mp hts
    exact htables f hf ts hok t ht
  have hall := foldlM_bindTable (P := fun b => ∀ row < b.rows, ∀ i < b.width, b.content row i = column blocks i) hholds
    (fun b (hb : b ∈ []) => (nomatch hb)) hbound
  exact ⟨⟨⟨hpages, hne, hfits, hnd, hphysical⟩, fun t ht => (hall t ht).1, fun t ht => (hall t ht).2⟩, rfl, rfl⟩

/-! ## One refresh -/

variable {v : BoundPages} {blocks : List Int} {position rows : Int} {env : PageEnv}

/-- The ends of a refresh. -/
inductive Ends (v : BoundPages) (blocks : List Int) (position rows : Int) (env : PageEnv) : Call BoundPages Bool → Prop
  | refused {e : PyError} (hguard : v.toVerifierPageBinding.refreshGuard blocks position rows = .error e) :
      Ends v blocks position rows env (Call.throw v e)
  | unread {e : PyError} (hguard : v.toVerifierPageBinding.refreshGuard blocks position rows = .ok ())
      (hcheck : addressCheck env.before 0 v.tables = .raised e) : Ends v blocks position rows env (Call.throw v e)
  | changed {e : PyError} (hguard : v.toVerifierPageBinding.refreshGuard blocks position rows = .ok ())
      (hcheck : addressCheck env.before 0 v.tables = .changed) : Ends v blocks position rows env (Call.throw v.fail e)
  | bound (hguard : v.toVerifierPageBinding.refreshGuard blocks position rows = .ok ()) (heq : blocks = v.blocks)
      (hcheck : addressCheck env.before 0 v.tables = .same) : Ends v blocks position rows env (Call.ret v false)
  | large {e : PyError} (hguard : v.toVerifierPageBinding.refreshGuard blocks position rows = .ok ())
      (hcheck : addressCheck env.before 0 v.tables = .same) (hhost : hostTable v.capacity blocks = .error e) :
      Ends v blocks position rows env (Call.throw v e)
  | torn {e : PyError} {host : List Int}
      (hguard : v.toVerifierPageBinding.refreshGuard blocks position rows = .ok ())
      (hcheck : addressCheck env.before 0 v.tables = .same) (hhost : hostTable v.capacity blocks = .ok host)
      (hup : (v.uploadAll host env).result = .error e) :
      Ends v blocks position rows env (Call.throw { v with tables := (v.uploadAll host env).obj }.fail e)
  | written {host : List Int} (hguard : v.toVerifierPageBinding.refreshGuard blocks position rows = .ok ())
      (heq : blocks ≠ v.blocks) (hcheck : addressCheck env.before 0 v.tables = .same)
      (hhost : hostTable v.capacity blocks = .ok host) (hup : (v.uploadAll host env).result = .ok ()) :
      Ends v blocks position rows env
        (Call.ret ⟨{ v.toVerifierPageBinding with blocks, pages := host }, (v.uploadAll host env).obj⟩ true)

theorem refresh_ends (v : BoundPages) (blocks : List Int) (position rows : Int) (env : PageEnv) :
    Ends v blocks position rows env (v.refresh blocks position rows env) := by
  unfold refresh
  cases hguard : v.toVerifierPageBinding.refreshGuard blocks position rows with
  | error e => exact .refused hguard
  | ok u =>
    rw [Call.attempt_ok]
    cases hcheck : addressCheck env.before 0 v.tables with
    | raised e => exact .unread hguard hcheck
    | changed => exact .changed hguard hcheck
    | same =>
      dsimp only
      split
      · exact .bound hguard ‹_› hcheck
      rename_i heq
      cases hhost : hostTable v.capacity blocks with
      | error e => exact .large hguard hcheck hhost
      | ok host =>
        rw [Call.attempt_ok]
        cases hup : (v.uploadAll host env).result with
        | error e => exact .torn hguard hcheck hhost hup
        | ok u => exact .written hguard heq hcheck hhost hup

/-- The uploads that all return have written every table. -/
theorem upload_ok {host : List Int} {uploads : Nat → Upload} {i : Nat} {ts : List BoundTable}
    (h : (upload host uploads i ts).result = .ok ()) :
    (upload host uploads i ts).obj = ts.map fun t => { t with content := fun _ column => host.getD column 0 } := by
  induction ts generalizing i with
  | nil => rfl
  | cons t ts ih =>
    rw [upload] at h ⊢
    split at h
    · cases h
    · rw [Call.onto_obj, ih h]
      rfl

theorem uploadAll_ok {host : List Int} (h : (v.uploadAll host env).result = .ok ()) :
    (v.uploadAll host env).obj = v.tables.map fun t => { t with content := fun _ column => host.getD column 0 } := by
  unfold uploadAll at h ⊢
  obtain ⟨⟨⟩, hup, hc⟩ := Call.of_bind h
  rw [hc] at h ⊢
  obtain ⟨⟨⟩, -, hc'⟩ := Call.of_attempt h
  rw [hc', Call.ret_obj, upload_ok hup]

/-- The host table is the padded one. -/
theorem hostTable_ok {capacity : Nat} {host : List Int} (h : hostTable capacity blocks = .ok host) :
    host = padTable capacity blocks := by
  obtain ⟨⟨⟩, -, h⟩ := bind_ok h
  cases h
  rfl

/-- **A refresh that returns** is one of the host table's, and writes every table where the blocks are new. -/
theorem refresh_returns {changed : Bool} (h : (v.refresh blocks position rows env).result = .ok changed) :
    (v.toVerifierPageBinding.refresh blocks position rows ⟨true, none, true⟩).result = .ok changed ∧
      (v.refresh blocks position rows env).obj.toVerifierPageBinding =
        (v.toVerifierPageBinding.refresh blocks position rows ⟨true, none, true⟩).obj ∧
      ((v.refresh blocks position rows env).obj.tables = v.tables ∧ blocks = v.blocks ∨
        (v.refresh blocks position rows env).obj.tables =
          v.tables.map fun t => { t with content := fun _ column => (padTable v.capacity blocks).getD column 0 }) := by
  have hends := refresh_ends v blocks position rows env
  generalize v.refresh blocks position rows env = c at h hends ⊢
  cases hends with
  | refused => cases h
  | unread => cases h
  | changed => cases h
  | large => cases h
  | torn => cases h
  | bound hguard heq hcheck =>
    cases h
    rw [VerifierPageBinding.refresh, hguard, Call.attempt_ok, if_neg (by decide), if_pos heq]
    exact ⟨rfl, rfl, .inl ⟨rfl, heq⟩⟩
  | written hguard heq hcheck hhost hup =>
    cases h
    cases hostTable_ok hhost
    rw [VerifierPageBinding.refresh, hguard, Call.attempt_ok, if_neg (by decide), if_neg heq]
    exact ⟨rfl, rfl, .inr (uploadAll_ok hup)⟩

/-- **A refresh that returns binds its blocks**: an append to those bound before that covers the rows. -/
theorem Binds.refresh (hv : v.Binds) {changed : Bool}
    (h : (v.refresh blocks position rows env).result = .ok changed) :
    (v.refresh blocks position rows env).obj.Binds ∧ (v.refresh blocks position rows env).obj.blocks = blocks ∧
      (v.refresh blocks position rows env).obj.capacity = v.capacity ∧ (position + rows + 63) / 64 ≤ blocks.length ∧
      (∃ fresh, blocks = v.blocks ++ fresh) ∧
      (v.refresh blocks position rows env).obj.tables.map BoundTable.shape = v.tables.map BoundTable.shape := by
  obtain ⟨hok, hobj, htables⟩ := refresh_returns h
  obtain ⟨hpadded, hcapacity, hblocks, hcover, hfresh⟩ := VerifierPageBinding.refresh_ok hv.padded hok
  rw [← hobj] at hpadded hcapacity hblocks
  generalize (v.refresh blocks position rows env).obj = v' at hpadded hcapacity hblocks htables ⊢
  rcases htables with ⟨hsame, heq⟩ | hmap
  · refine ⟨⟨hpadded, ?_, ?_⟩, hblocks, hcapacity, hcover, hfresh, ?_⟩
    · rw [hsame, hcapacity]; exact hv.width
    · rw [hsame, hblocks, heq]; exact hv.tables
    · rw [hsame]
  · refine ⟨⟨hpadded, ?_, ?_⟩, hblocks, hcapacity, hcover, hfresh, ?_⟩
    · rw [hmap, hcapacity, List.forall_mem_map]
      exact hv.width
    · rw [hmap, hblocks, List.forall_mem_map]
      intro t ht row _ i hi
      have hwide : i < v.capacity := lt_of_lt_of_le hi (hv.width t ht)
      simp [List.getD, padTable_get hwide]
    · rw [hmap, List.map_map]
      rfl

/-- A refresh that returns is of a position in the table. -/
theorem refresh_position {changed : Bool} (h : (v.refresh blocks position rows env).result = .ok changed) :
    0 ≤ position := by
  obtain ⟨⟨⟩, hguard, -⟩ := Call.of_attempt h
  obtain ⟨_, -, hguard⟩ := bind_ok hguard
  obtain ⟨_, -, hguard⟩ := bind_ok hguard
  rw [raiseIf_ok] at hguard
  omega

/-- A binding that failed refuses every refresh. -/
theorem refresh_failed (h : v.failed = true) (blocks : List Int) (position rows : Int) (env : PageEnv) :
    ∃ e, v.refresh blocks position rows env = Call.throw v e := by
  have hguard : v.toVerifierPageBinding.refreshGuard blocks position rows =
      .error (.valueError "Only an idle unpoisoned verifier may bind pages") := by
    simp [VerifierPageBinding.refreshGuard, raiseIf, h]
    rfl
  rw [BoundPages.refresh, hguard]
  exact ⟨_, rfl⟩

/-! ## Runs -/

/-- **What a run keeps**: the binding failed, or it binds every table and has only appended to its blocks. -/
structure Kept (u v : BoundPages) : Prop where
  binds : v.Binds
  appended : ∃ fresh, v.blocks = u.blocks ++ fresh
  shapes : v.tables.map BoundTable.shape = u.tables.map BoundTable.shape

theorem Kept.refl (hv : v.Binds) : Kept v v :=
  ⟨hv, ⟨[], (List.append_nil _).symm⟩, rfl⟩

/-- A refresh that returns keeps on. -/
theorem Kept.refresh {u : BoundPages} (hk : Kept u v) {changed : Bool}
    (h : (v.refresh blocks position rows env).result = .ok changed) :
    Kept u (v.refresh blocks position rows env).obj := by
  obtain ⟨hbinds, hblocks, -, -, ⟨fresh, hfresh⟩, hshapes⟩ := hk.binds.refresh h
  obtain ⟨earlier, hearlier⟩ := hk.appended
  exact ⟨hbinds, ⟨earlier ++ fresh, by rw [hblocks, hfresh, hearlier, List.append_assoc]⟩, hshapes.trans hk.shapes⟩

/-- One operation. -/
theorem Kept.after {u : BoundPages} (hk : Kept u v) (op : Op) : (v.after op).failed = true ∨ Kept u (v.after op) := by
  cases op with
  | phase idle =>
    obtain ⟨⟨⟨hpages, hne, hfits, hnd, hphysical⟩, hwidth, htables⟩, happended, hshapes⟩ := hk
    exact .inr ⟨⟨⟨hpages, hne, hfits, hnd, hphysical⟩, hwidth, htables⟩, happended, hshapes⟩
  | refresh blocks position rows env =>
    have hreturned : ∀ changed, (v.refresh blocks position rows env).result = .ok changed →
        Kept u (v.refresh blocks position rows env).obj := fun _ h => hk.refresh h
    have hends := refresh_ends v blocks position rows env
    rw [BoundPages.after]
    generalize v.refresh blocks position rows env = c at hreturned hends ⊢
    cases hends with
    | refused => exact .inr hk
    | unread => exact .inr hk
    | large => exact .inr hk
    | changed => exact .inl rfl
    | torn => exact .inl rfl
    | bound => exact .inr (hreturned _ rfl)
    | written => exact .inr (hreturned _ rfl)

theorem failed_after (h : v.failed = true) (op : Op) : (v.after op).failed = true := by
  cases op with
  | phase idle => exact h
  | refresh blocks position rows env =>
    obtain ⟨e, he⟩ := refresh_failed h blocks position rows env
    rw [BoundPages.after, he]
    exact h

/-- A binding that failed stays failed. -/
theorem failed_run {ops : List Op} {v' : BoundPages} (h : v.failed = true) (hrun : Run Step v ops v') :
    v'.failed = true :=
  hrun.invariant_state (P := fun v' => v'.failed = true) h fun {_ op _} ht hs => by
    rw [hs]
    exact failed_after ht op

theorem kept_run {ops : List Op} {v' : BoundPages} (hv : v.Binds) (hrun : Run Step v ops v') :
    v'.failed = true ∨ Kept v v' :=
  hrun.invariant_state (P := fun v' => v'.failed = true ∨ Kept v v') (.inr (.refl hv)) fun {_ op _} ht hs => by
    rw [hs]
    exact ht.elim (fun hfailed => .inl (failed_after hfailed op)) fun hk => hk.after op

/-- Every page of the host table. -/
theorem Binds.page (hv : v.Binds) {i : Nat} (hi : i < v.blocks.length) : v.pages[i]? = v.blocks[i]? := by
  rw [hv.padded.pages, padTable_get (lt_of_lt_of_le hi hv.padded.fits), column_of_lt hi, List.getElem?_eq_getElem hi]

/-- **Page binding is append-only.** From a binding made over tables that its caller padded, after any refreshes and
changes of the engine's phase: a refresh that returns leaves its blocks, padded, in every table; the columns bound at an
earlier point `u` hold what they held; and each scheduled row's page is its own block in the host table. A refresh that
is refused changes nothing. One that finds an address changed, or that fails from the first upload on, leaves a binding
that refuses every refresh; one that cannot read an address, or cannot make the host table, changes nothing. -/
theorem page_binding_run {idle : Bool} {height : Nat} {pages : List Int} {fixtures : List PageFixture}
    {physicalPages : Nat} {initial : List Int} {v₀ u v : BoundPages} {ops ops' : List Op}
    (hinit : init idle height pages fixtures physicalPages initial = .ok v₀)
    (hpages : pages = padTable pages.length initial)
    (htables : ∀ f ∈ fixtures, ∀ ts, fixtureTables f = .ok ts → ∀ t ∈ ts, CapturedTable.Holds t initial)
    (hrun : Run Step v₀ ops u) (hrun' : Run Step u ops' v) (blocks : List Int) (position rows : Int) (env : PageEnv) :
    (∀ changed, (v.refresh blocks position rows env).result = .ok changed →
      (v.refresh blocks position rows env).obj.Binds ∧ (v.refresh blocks position rows env).obj.blocks = blocks ∧
      (v.refresh blocks position rows env).obj.tables.map BoundTable.shape = u.tables.map BoundTable.shape ∧
      (∀ (k : Nat) t t', u.tables[k]? = some t → (v.refresh blocks position rows env).obj.tables[k]? = some t' →
        ∀ row < t.rows, ∀ i < t.width, i < u.blocks.length → t'.content row i = t.content row i) ∧
      (∀ i < u.blocks.length, (v.refresh blocks position rows env).obj.pages[i]? = u.pages[i]?) ∧
      ∀ p, position ≤ p → p < position + rows → ∃ block, blocks[(p / 64).toNat]? = some block ∧
        (v.refresh blocks position rows env).obj.pages[(p / 64).toNat]? = some block) ∧
    (∀ e, v.toVerifierPageBinding.refreshGuard blocks position rows = .error e →
      v.refresh blocks position rows env = Call.throw v e) ∧
    ∀ e, v.toVerifierPageBinding.refreshGuard blocks position rows = .ok () →
      (v.refresh blocks position rows env).result = .error e →
      (addressCheck env.before 0 v.tables = .raised e ∨
        addressCheck env.before 0 v.tables = .same ∧ hostTable v.capacity blocks = .error e) ∧
        v.refresh blocks position rows env = Call.throw v e ∨
      (v.refresh blocks position rows env).obj.failed = true ∧ (v.refresh blocks position rows env).obj.idle = false ∧
        ∀ later v', Run Step (v.refresh blocks position rows env).obj later v' → ∀ blocks' position' rows' env',
          ∃ e', v'.refresh blocks' position' rows' env' = Call.throw v' e' := by
  refine ⟨fun changed h => ?_, fun e hguard => ?_, fun e hguard h => ?_⟩
  · obtain ⟨hbinds₀, -, -⟩ := init_binds hinit hpages htables
    have hlive : ∀ w : BoundPages, w.failed = true → Run Step w ops' v → False := fun w hw hr => by
      obtain ⟨e, he⟩ := refresh_failed (failed_run hw hr) blocks position rows env
      rw [he] at h
      cases h
    have hu : u.Binds := (kept_run hbinds₀ hrun).elim (fun hf => (hlive u hf hrun').elim) Kept.binds
    have hv : Kept u v := (kept_run hu hrun').elim
      (fun hf => by
        obtain ⟨e, he⟩ := refresh_failed hf blocks position rows env
        rw [he] at h
        cases h) id
    have hposition : 0 ≤ position := refresh_position h
    obtain ⟨-, hblocks, -, hcover, -, -⟩ := hv.binds.refresh h
    have hk := hv.refresh h
    generalize (v.refresh blocks position rows env).obj = v' at hblocks hk ⊢
    obtain ⟨fresh, hfresh⟩ := hk.appended
    refine ⟨hk.binds, hblocks, hk.shapes, fun k t t' ht ht' row hrow i hi hbound => ?_, fun i hi => ?_,
      fun p hlo hhi => ?_⟩
    · have hshape : t'.shape = t.shape := by
        have := congrArg (·[k]?) hk.shapes
        simpa [List.getElem?_map, ht, ht'] using this
      obtain ⟨hrows, hwidth⟩ := Prod.mk.inj hshape
      rw [hk.binds.tables t' (List.mem_of_getElem? ht') row (hrows ▸ hrow) i (hwidth ▸ hi),
        hu.tables t (List.mem_of_getElem? ht) row hrow i hi, hfresh, column_append hbound]
    · rw [hu.page hi, hk.binds.page (by rw [hfresh, List.length_append]; omega), hfresh,
        List.getElem?_append_left hi]
    · have hlt : (p / 64).toNat < v'.blocks.length := by rw [hblocks]; omega
      refine ⟨v'.blocks[(p / 64).toNat], ?_, ?_⟩
      · rw [← hblocks, List.getElem?_eq_getElem hlt]
      · rw [hk.binds.page hlt, List.getElem?_eq_getElem hlt]
  · rw [BoundPages.refresh, hguard]
    rfl
  · have hends := refresh_ends v blocks position rows env
    generalize v.refresh blocks position rows env = c at h hends ⊢
    have hlater : ∀ w : BoundPages, w.failed = true → ∀ later v', Run Step w later v' →
        ∀ blocks' position' rows' env', ∃ e', v'.refresh blocks' position' rows' env' = Call.throw v' e' :=
      fun w hw later v' hr blocks' position' rows' env' =>
        refresh_failed (failed_run hw hr) blocks' position' rows' env'
    cases hends with
    | refused hrefused => rw [hguard] at hrefused; cases hrefused
    | unread _ hcheck => cases h; exact .inl ⟨.inl hcheck, rfl⟩
    | large _ hcheck hhost => cases h; exact .inl ⟨.inr ⟨hcheck, hhost⟩, rfl⟩
    | changed => exact .inr ⟨rfl, rfl, hlater _ rfl⟩
    | torn => exact .inr ⟨rfl, rfl, hlater _ rfl⟩
    | bound => cases h
    | written => cases h

/-! ## A binding -/

/-- A captured table of two columns fewer than the host's. -/
def sampleCaptured (address rows : Nat) : CapturedTable :=
  ⟨.ok [address, address + 100], [rows, 4], fun _ => column [4, 5]⟩

def sampleFixture : PageFixture := ⟨sampleCaptured 1 16, sampleCaptured 2 1, none, true, true, true⟩

/-- Two blocks bound in the host table of six columns and in two device tables. -/
def sampleBinding : BoundPages :=
  ⟨⟨256, 6, [4, 5], false, true, [4, 5, 4, 4, 4, 4]⟩,
    [⟨[1, 101], 16, 4, fun _ => column [4, 5]⟩, ⟨[2, 102], 1, 4, fun _ => column [4, 5]⟩]⟩

/-- A device that answers every call. -/
def sampleEnv : PageEnv where
  before := fun i => .ok ([i + 1, i + 101], [if i = 0 then 16 else 1, 4])
  uploads := fun _ => .written
  synchronized := .ok ()
  after := fun i => .ok [i + 1, i + 101]
  copied := .ok ()

/-- A device that cannot read an address. -/
def sampleUnread : PageEnv := { sampleEnv with before := fun _ => .error (.valueError "Both chips required") }

theorem sampleBinding_init :
    init true 1 [4, 5, 4, 4, 4, 4] [sampleFixture] 256 [4, 5] = .ok sampleBinding := rfl

theorem sampleFixture_holds : ∀ f ∈ [sampleFixture], ∀ ts, fixtureTables f = .ok ts →
    ∀ t ∈ ts, CapturedTable.Holds t [4, 5] := by
  intro f hf ts hts t ht
  cases List.mem_singleton.mp hf
  cases hts
  rcases List.mem_cons.mp ht with rfl | ht
  · exact fun _ _ _ _ => rfl
  · cases List.mem_singleton.mp ht
    exact fun _ _ _ _ => rfl

/-- A third block is bound. -/
theorem page_binding_run_sample :
    (sampleBinding.refresh [4, 5, 6] 112 16 sampleEnv).result = .ok true ∧
      (sampleBinding.refresh [4, 5, 6] 112 16 sampleEnv).obj.Binds ∧
      (sampleBinding.refresh [4, 5, 6] 112 16 sampleEnv).obj.pages = [4, 5, 6, 4, 4, 4] :=
  ⟨rfl, ((page_binding_run sampleBinding_init rfl sampleFixture_holds .nil .nil [4, 5, 6] 112 16 sampleEnv).1 true
    rfl).1, rfl⟩

/-- **A failed read of an address poisons nothing**: the refresh raises, and the next one returns. -/
theorem unread_address_kept :
    init true 1 [4, 5, 4, 4, 4, 4] [sampleFixture] 256 [4, 5] = .ok sampleBinding ∧
      sampleBinding.toVerifierPageBinding.refreshGuard [4, 5, 6] 112 16 = .ok () ∧
      sampleBinding.refresh [4, 5, 6] 112 16 sampleUnread =
        Call.throw sampleBinding (.valueError "Both chips required") ∧
      sampleBinding.failed = false ∧ sampleBinding.idle = true ∧
      (sampleBinding.refresh [4, 5, 6] 112 16 sampleEnv).result = .ok true :=
  ⟨rfl, rfl, rfl, rfl, rfl, rfl⟩

end BoundPages

end BlackholeQwen.Packed
