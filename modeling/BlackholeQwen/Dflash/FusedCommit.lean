import BlackholeQwen.Dflash.Device
import BlackholeQwen.Dflash.KvSlide
import Mathlib.Algebra.GroupWithZero.Nat
import Mathlib.Data.Fintype.Basic

/-!
# The rows of the draft cache, over publications (`draft_kv_history.py`, `dflash_traced_publish.py`, `fused_commit.py`)

`DraftKVHistory` keeps two sets of banks, a bank for each layer, K or V, and chip; `KvBanks` adds to the drafter what
they hold. A publication moves the active rows and the accepted ones into the spare banks, by slices and a
concatenation (`eager`, `steady`) or by the slide kernel, and its commit lets the two sets change places. The fused
commit runs a trace of the projection and slides either into the spare banks or in place, where the commit moves the
frontier only, and a discard leaves the banks ahead of it: the cache is poisoned.

- `Round`: what the device answers to the publication of one user's round, and which path is live.
- `publish_holds`: a round that returned leaves in the active banks the window of all rows accepted so far.
-/

namespace BlackholeQwen.Dflash

open Lib KvSlide

/-! ## What the banks hold -/

section

variable {κ α : Type}

/-- The drafter, what the banks of its cache hold, and whether the segment's `poisoned` is its cache. -/
structure KvBanks (κ α : Type) where
  device : DFlashDevice
  contents : Dflash.Bank → κ → List α
  poisoned : Bool

/-- The rows of a delta: one tile of rows, for each bank. -/
structure Delta (κ α : Type) where
  rows : κ → List α
  tile : ∀ key, (rows key).length = 32

/-- How a publication moves rows into a spare bank: `DraftKVHistory.prepare`, or the steady-state overrides of
`dflash_traced_publish.py`. -/
inductive Transport
  | eager | steady | slide
  deriving DecidableEq, Repr

/-- The slide, row by row, as `row_source` names them. -/
def slideRows (zero : α) (historyRows accepted : Nat) (active delta : List α) : List α :=
  (List.range KvSlide.CAPACITY).map fun row =>
    ((rowSource historyRows accepted row).toOption.bind (sourceRow zero active delta)).getD zero

/-- `_fused_kv_history_prepare`: the tail of the history and the accepted rows, once the history is full. -/
def steadyRows (zero : α) (historyRows accepted : Nat) (active delta : List α) : List α :=
  let rows := min KvSlide.CAPACITY (historyRows + accepted)
  if rows ≠ KvSlide.CAPACITY then eagerRows zero historyRows accepted active delta
  else
    let dropped := (active.take historyRows).drop (historyRows + accepted - rows)
    dropped ++ delta.take accepted

/-- What a publication moves into a spare bank. -/
def Transport.rows (t : Transport) (zero : α) : Nat → Nat → List α → List α → List α :=
  match t with
  | .eager => eagerRows zero
  | .steady => steadyRows zero
  | .slide => slideRows zero

/-- **The slide moves the rows of the eager publication.** -/
theorem slideRows_eager {zero : α} {historyRows accepted : Nat} {active delta : List α}
    (hactive : active.length = KvSlide.CAPACITY) (hdelta : delta.length = 32)
    (hhistory : 1 ≤ historyRows ∧ historyRows ≤ KvSlide.CAPACITY) (haccepted : 1 ≤ accepted ∧ accepted ≤ 32) :
    slideRows zero historyRows accepted active delta = eagerRows zero historyRows accepted active delta := by
  have hlength : (eagerRows zero historyRows accepted active delta).length = KvSlide.CAPACITY :=
    eagerRows_length hactive hdelta hhistory.2 haccepted.2
  refine List.ext_getElem? fun row => ?_
  by_cases hrow : row < KvSlide.CAPACITY
  · obtain ⟨source, hsource⟩ : ∃ source, rowSource historyRows accepted row = .ok source := by
      have hgeometry : ¬(¬(1 ≤ historyRows ∧ historyRows ≤ KvSlide.CAPACITY) ∨ ¬(1 ≤ accepted ∧ accepted ≤ 32)) := by
        tauto
      simp only [rowSource, geometry, raiseIf_bind hgeometry, pure_bind, raiseIf_bind (not_not.mpr hrow)]
      split_ifs
      · exact ⟨_, rfl⟩
      · exact ⟨_, rfl⟩
      · exact ⟨_, rfl⟩
    have hrows : (eagerRows zero historyRows accepted active delta)[row]? = sourceRow zero active delta source :=
      rowSource_eager hactive hdelta hsource
    rw [slideRows, List.getElem?_map, List.getElem?_range hrow, hrows]
    have hsome : (sourceRow zero active delta source).isSome := by
      rw [← hrows, List.getElem?_eq_getElem (hlength ▸ hrow)]
      rfl
    obtain ⟨value, hvalue⟩ := Option.isSome_iff_exists.mp hsome
    simp [hsource, Except.toOption, hvalue]
  · rw [List.getElem?_eq_none (by simpa [slideRows] using Nat.not_lt.mp hrow),
      List.getElem?_eq_none (by rw [hlength]; exact Nat.not_lt.mp hrow)]

/-- **So does the steady-state override.** -/
theorem steadyRows_eager {zero : α} {historyRows accepted : Nat} {active delta : List α}
    (hactive : active.length = KvSlide.CAPACITY) (hdelta : delta.length = 32)
    (hhistory : historyRows ≤ KvSlide.CAPACITY) (haccepted : accepted ≤ 32) :
    steadyRows zero historyRows accepted active delta = eagerRows zero historyRows accepted active delta := by
  unfold steadyRows
  dsimp only
  split_ifs with hfull
  · rfl
  · rw [not_not] at hfull
    have hlength : (active.take historyRows ++ delta.take accepted).length = historyRows + accepted := by
      rw [List.length_append, List.length_take, List.length_take, hactive, hdelta, Nat.min_eq_left hhistory,
        Nat.min_eq_left haccepted]
    unfold eagerRows
    dsimp only
    rw [hfull, Nat.sub_self, List.replicate_zero, List.append_nil, List.take_of_length_le (Nat.le_of_eq hlength),
      List.drop_append_of_le_length]
    rw [List.length_take, hactive, Nat.min_eq_left hhistory]
    have hcapacity : KvSlide.CAPACITY = 2048 := rfl
    omega

/-- **Every transport moves the same rows.** -/
theorem Transport.rows_eager (t : Transport) {zero : α} {historyRows accepted : Nat} {active delta : List α}
    (hactive : active.length = KvSlide.CAPACITY) (hdelta : delta.length = 32)
    (hhistory : 1 ≤ historyRows ∧ historyRows ≤ KvSlide.CAPACITY) (haccepted : 1 ≤ accepted ∧ accepted ≤ 32) :
    t.rows zero historyRows accepted active delta = eagerRows zero historyRows accepted active delta := by
  cases t with
  | eager => rfl
  | steady => exact steadyRows_eager hactive hdelta hhistory.2 haccepted.2
  | slide => exact slideRows_eager hactive hdelta hhistory haccepted

end

/-! ## The fused commit -/

/-- `FusedCommit`, as a publication sees it: it is refused for more than sixteen rows a user. -/
structure FusedCommit where
  closed : Bool
  inplace : Bool
  audit : Bool
  rows : Nat
  rows_le : rows ≤ 16
  deriving DecidableEq, Repr

/-- The guards of a publication on the drafter's objects: whether each of them refuses. -/
structure Guards where
  slot : Bool
  progress : Bool
  noCapture : Bool
  projection : Bool
  weights : Bool
  parameters : Bool
  collectives : Bool
  features : Bool
  banks : Bool
  scope : Bool
  deriving DecidableEq, Repr

/-- What the device answers to a fused publication: staging the tables, the audit's reference, the two traces (or the
transports), the audit's fence and its repairs; the projected rows, and what the banks that were being written hold if a
slide raises. -/
structure FusedEnv (κ α : Type) where
  staged : Except PyError Unit
  reference : Except PyError Unit
  projected : Except PyError Unit
  slid : Except PyError Unit
  fence : Except PyError Unit
  repaired : Except PyError Unit
  delta : Delta κ α
  broken : κ → List α

/-- What the device answers to a round of one user: the features and the target's publication, the fused commit where it
is installed, the transport of today's publication and its rows, and what the spare banks hold if it raises. -/
structure Round (κ α : Type) where
  accepted : Nat
  features : Except PyError Unit
  target : Except PyError Unit
  audited : Except PyError Unit
  fused : Option FusedCommit
  guards : Guards
  transport : Transport
  prepare : PrepareEnv
  todays : Delta κ α
  broken : κ → List α
  env : FusedEnv κ α

namespace KvBanks

variable {κ α : Type}

/-- The banks of a side, after they have been written. -/
def fill (d : KvBanks κ α) (side : Dflash.Bank) (rows : κ → List α) : KvBanks κ α :=
  { d with contents := Function.update d.contents side rows }

/-- The rows that a publication moves. -/
def moved (d : KvBanks κ α) (side : Dflash.Bank) (rows : Nat → Nat → List α → List α → List α) (accepted : Nat)
    (delta : Delta κ α) : κ → List α := fun key =>
  rows d.device.kv.historyRows accepted (d.contents side key) (delta.rows key)

/-- The guards of `FusedCommit.refusal`, in order: whether each refuses, and its reason. -/
def guards (d : KvBanks κ α) (fused : FusedCommit) (g : Guards) (accepted position : Nat) : List (Bool × String) :=
  [(fused.closed, "closed"), (!decide (1 ≤ accepted ∧ accepted ≤ fused.rows), "prefix"),
    (decide (d.device.kv.historyRows ≠ HISTORY_ROWS), "ramp"), (d.poisoned, "poisoned"), (g.slot, "slot"),
    (g.progress, "progress"), (g.noCapture, "no-capture"), (g.projection, "projection"),
    (decide (d.device.pending ≠ none ∨ d.device.kv.pending ≠ none ∨ d.device.closed ∨ d.device.kv.closed ∨
      position ≠ d.device.position ∨ position ≠ d.device.kv.position), "pending"),
    (decide (CAPACITY < position + 32), "frontier"), (g.weights, "weights"), (g.parameters, "parameters"),
    (g.collectives, "collectives"), (g.features, "features"),
    (fused.inplace && decide (d.device.kv.active ≠ .active), "parity"), (!fused.inplace && g.banks, "banks"),
    (g.scope, "scope")]

/-- `FusedCommit.refusal`: the reason of the first guard that refuses. -/
def refusal (d : KvBanks κ α) (fused : FusedCommit) (g : Guards) (accepted position : Nat) : Option String :=
  ((d.guards fused g accepted position).find? Prod.fst).map Prod.snd

variable [DecidableEq α]

/-- `eager_reference`, where it slides: the active banks into the spare ones. -/
def reference (zero : α) (d : KvBanks κ α) (accepted : Nat) (todays : Delta κ α) : KvBanks κ α :=
  d.fill d.device.kv.active.other (d.moved d.device.kv.active (slideRows zero) accepted todays)

/-- The rows that the fused commit's slides move, at a full history. -/
def slid (zero : α) (d : KvBanks κ α) (side : Dflash.Bank) (accepted : Nat) (delta : Delta κ α) :
    κ → List α := fun key =>
  slideRows zero HISTORY_ROWS accepted (d.contents side key) (delta.rows key)

/-- The slides: in place over the slot's active banks, which a failure poisons, or into the spare ones. -/
def slideFused (zero : α) (d : KvBanks κ α) (fused : FusedCommit) (accepted : Nat) (env : FusedEnv κ α) :
    Call (KvBanks κ α) Unit :=
  if fused.inplace then
    match env.slid with
    | .error e => Call.throw { d.fill .active env.broken with poisoned := true } e
    | .ok () => Call.ret { d.fill .active (d.slid zero .active accepted env.delta) with poisoned := false } ()
  else
    match env.slid with
    | .error e => Call.throw (d.fill d.device.kv.active.other env.broken) e
    | .ok () => Call.ret (d.fill d.device.kv.active.other (d.slid zero d.device.kv.active accepted env.delta)) ()

/-- The banks that the audit in place finds to differ, with today's rows copied back into them. -/
def repaired (d : KvBanks κ α) : κ → List α := fun key =>
  if d.contents d.device.kv.active key ≠ d.contents d.device.kv.active.other key then
    d.contents d.device.kv.active.other key
  else d.contents d.device.kv.active key

/-- `audit_round`: the deltas' accepted rows against today's and, in place, every active bank against its spare. A
mismatch is repaired. -/
def auditRound [Fintype κ] (zero : α) (d : KvBanks κ α) (fused : FusedCommit) (accepted : Nat) (todays : Delta κ α)
    (env : FusedEnv κ α) : Call (KvBanks κ α) Unit :=
  Call.attempt env.fence d fun _ =>
  if (∀ key, (env.delta.rows key).take accepted = (todays.rows key).take accepted) ∧
      (fused.inplace → ∀ key, d.contents d.device.kv.active key = d.contents d.device.kv.active.other key) then
    Call.ret d ()
  else if fused.inplace then
    Call.attempt env.repaired (d.fill d.device.kv.active d.repaired) fun _ =>
    Call.ret (d.fill d.device.kv.active d.repaired) ()
  else
    Call.attempt env.repaired (d.fill d.device.kv.active.other env.broken) fun _ =>
    Call.ret (d.reference zero accepted todays) ()

/-- The publication that a fused `prepare` records. -/
def fusedPublication (d : KvBanks κ α) (fused : FusedCommit) (accepted : Nat) : KVPublication :=
  ⟨d.device.kv.statuses.length, d.device.kv.position, accepted, HISTORY_ROWS, fused.inplace⟩

/-- The drafter with a fused publication pending. -/
def holdFused (d : KvBanks κ α) (fused : FusedCommit) (accepted : Nat) : KvBanks κ α :=
  let kv := d.fusedPublication fused accepted
  let device := { d.device with kv := d.device.kv.hold kv }
  { d with device := device.hold ⟨d.device.statuses.length, d.device.position, accepted, HISTORY_ROWS, kv⟩ }

/-- `FusedCommit.prepare`. -/
def prepareFused [Fintype κ] (zero : α) (d : KvBanks κ α) (fused : FusedCommit) (accepted : Nat) (todays : Delta κ α)
    (env : FusedEnv κ α) : Call (KvBanks κ α) DevicePublication :=
  Call.attempt env.staged d fun _ =>
  (if fused.audit then
    Call.attempt env.reference (if fused.inplace then d.fill d.device.kv.active.other env.broken else d) fun _ =>
    Call.ret (if fused.inplace then d.reference zero accepted todays else d) ()
  else Call.ret d ()).bind fun d _ =>
  Call.attempt env.projected d fun _ =>
  (d.slideFused zero fused accepted env).bind fun d _ =>
  (if fused.audit then d.auditRound zero fused accepted todays env else Call.ret d ()).bind fun d _ =>
  Call.ret (d.holdFused fused accepted)
    ⟨d.device.statuses.length, d.device.position, accepted, HISTORY_ROWS, d.fusedPublication fused accepted⟩

/-- `DFlashDevice.prepare_publication`, with what it moves into the spare banks. -/
def prepareToday (zero : α) (d : KvBanks κ α) (r : Round κ α) (position : Nat) : Call (KvBanks κ α) DevicePublication :=
  let call := d.device.preparePublication r.accepted position r.prepare
  let rows := match call.result with
    | .ok _ => d.moved d.device.kv.active (r.transport.rows zero) r.accepted r.todays
    | .error _ => r.broken
  ⟨{ d.fill d.device.kv.active.other rows with device := call.obj }, call.result⟩

/-- `prepare_publication`, as it is installed for the round. -/
def prepare [Fintype κ] (zero : α) (d : KvBanks κ α) (r : Round κ α) (position : Nat) :
    Call (KvBanks κ α) DevicePublication :=
  match r.fused with
  | none => d.prepareToday zero r position
  | some fused =>
    match d.refusal fused r.guards r.accepted position with
    | some _ => d.prepareToday zero r position
    | none => d.prepareFused zero fused r.accepted r.todays r.env

/-- `commit_kv`. -/
def commitKv (c : DraftKVHistory) (p : KVPublication) : Call DraftKVHistory Unit :=
  if p.fusedInplace then Call.attempt (c.commitCheck p) c fun _ => Call.ret (c.advance p) ()
  else c.commit p

/-- Whether the cache's `commit` and `discard` are the fused commit's. -/
def installed (r : Round κ α) : Bool := r.fused.any (·.inplace)

/-- `commit_publication`, over the `commit` of the cache that is installed for the round. -/
def commit (d : KvBanks κ α) (r : Round κ α) (p : DevicePublication) : Call (KvBanks κ α) Unit :=
  (Call.attempt (d.device.commitCheck p) d.device fun _ =>
    (((if installed r then commitKv d.device.kv p.kv else d.device.kv.commit p.kv)).onto fun kv =>
      { d.device with kv }).bind fun device _ =>
    Call.attempt r.audited (device.advance p) fun _ => Call.ret (device.advance p)
      ()).onto fun device => { d with device }

/-- The cache's `discard` that is installed: one of a publication in place poisons the cache. -/
def discardKv (d : KvBanks κ α) (r : Round κ α) (p : KVPublication) : Call (KvBanks κ α) Unit :=
  let poisons := installed r && p.fusedInplace && decide (d.device.kv.statuses[p.number]? = some .prepared)
  (d.device.kv.discard p).onto fun kv =>
    { d with device := { d.device with kv }, poisoned := d.poisoned || poisons }

/-- `discard_publication`, over the `discard` that is installed. -/
def discard (d : KvBanks κ α) (r : Round κ α) (p : DevicePublication) : Call (KvBanks κ α) Unit :=
  if d.device.statuses[p.number]? = some .committed then Call.ret d ()
  else Call.attempt
    (raiseIf (d.device.pending ≠ some p ∨ d.device.statuses[p.number]? ≠ some .prepared)
      (.valueError "Only the current prepared feature publication may be discarded")) d fun _ =>
  (d.discardKv r p.kv).bind fun d _ => Call.ret { d with device := d.device.settle p .discarded } ()

end KvBanks

/-! ## A round -/

/-- The runtime of a request, as a publication sees it: its frontier and whether it has failed. -/
structure Publisher (κ α : Type) where
  drafter : KvBanks κ α
  position : Nat
  failed : Bool

namespace Publisher

variable {κ α : Type} [DecidableEq α] [Fintype κ]

/-- `publish_target`, `commit_history` and the last check, with the publication that has been prepared. -/
def finish (w : Publisher κ α) (r : Round κ α) (publication : Option DevicePublication) : Call (Publisher κ α) Unit :=
  Call.attempt r.target w fun _ =>
  (match publication with
    | none => Call.ret w ()
    | some p => (w.drafter.commit r p).onto fun drafter => { w with drafter }).bind fun w _ =>
  Call.attempt (raiseIf (w.drafter.device.position ≠ w.position + r.accepted)
    (.valueError "Drafter and target feature frontiers diverged")) w fun _ =>
  Call.ret { w with position := w.position + r.accepted } ()

/-- The `except` of `publish`. -/
def recover (w : Publisher κ α) (r : Round κ α) (publication : Option DevicePublication) (e : PyError) :
    Call (Publisher κ α) Unit :=
  match publication with
  | none => Call.throw { w with failed := true } e
  | some p => ((w.drafter.discard r p).onto fun drafter => { w with drafter, failed := true }).bind fun w _ =>
    Call.throw w e

/-- `publish`: a publication of the accepted rows of a round, if there are any, and its commit with the target's. -/
def publish (zero : α) (w : Publisher κ α) (r : Round κ α) : Call (Publisher κ α) Unit :=
  Call.attempt (raiseIf (w.failed = true)
    (.valueError "Feature publication requires the current verified target transaction")) w fun _ =>
  if r.accepted = 0 then
    match (w.finish r none).result with
    | .ok () => w.finish r none
    | .error e => recover (w.finish r none).obj r none e
  else
    let prepared := Call.attempt r.features w.drafter fun _ => w.drafter.prepare zero r w.position
    let w := { w with drafter := prepared.obj }
    match prepared.result with
    | .error e => recover w r none e
    | .ok p =>
      match (w.finish r (some p)).result with
      | .ok () => w.finish r (some p)
      | .error e => recover (w.finish r (some p)).obj r (some p) e

end Publisher

/-! ## What a publication moves -/

namespace KvBanks

variable {κ α : Type} {zero : α} {d : KvBanks κ α} {r : Round κ α} {stream : κ → List α} {p : DevicePublication}
  {position : Nat}

/-- The active banks hold the window of a stream, and the history counts its rows. -/
structure Holds (zero : α) (stream : κ → List α) (d : KvBanks κ α) : Prop where
  some_rows : ∀ key, 1 ≤ (stream key).length
  rows : ∀ key, d.device.kv.historyRows = min KvSlide.CAPACITY (stream key).length
  active : ∀ key, d.contents d.device.kv.active key = window zero (stream key)

/-- The rows that a publication accepts: the fused commit's where it is admitted and not audited, else today's. -/
def published (d : KvBanks κ α) (r : Round κ α) (position : Nat) : Delta κ α :=
  match r.fused with
  | none => r.todays
  | some fused =>
    if d.refusal fused r.guards r.accepted position = none ∧ fused.audit = false then r.env.delta else r.todays

/-- The stream with the rows of a publication. -/
def extended (stream : κ → List α) (d : KvBanks κ α) (r : Round κ α) (position : Nat) : κ → List α := fun key =>
  stream key ++ ((d.published r position).rows key).take r.accepted

/-- A publication is pending, and the side that its commit makes active holds the window of the stream with its rows. -/
structure Ready (zero : α) (stream : κ → List α) (r : Round κ α) (d : KvBanks κ α) (p : DevicePublication) : Prop where
  rows : ∀ key, p.kv.rows = min KvSlide.CAPACITY (stream key).length
  some_rows : ∀ key, 1 ≤ (stream key).length
  inplace : p.kv.fusedInplace = true → installed r = true
  side : ∀ key, d.contents (if p.kv.fusedInplace then d.device.kv.active else d.device.kv.active.other) key =
    window zero (stream key)

theorem other_ne (side : Dflash.Bank) : side.other ≠ side := by cases side <;> decide

theorem Delta.take_length (delta : Delta κ α) (key : κ) {accepted : Nat} (h : accepted ≤ 32) :
    ((delta.rows key).take accepted).length = accepted := by
  rw [List.length_take, delta.tile key, Nat.min_eq_left h]

/-- **Rows moved onto the window of a stream**, by any transport. -/
theorem Holds.moved (h : Holds zero stream d) {accepted : Nat} (haccepted : 1 ≤ accepted ∧ accepted ≤ 32)
    (t : Transport)
    (delta : Delta κ α) (key : κ) : t.rows zero d.device.kv.historyRows accepted (d.contents d.device.kv.active key)
      (delta.rows key) = window zero (stream key ++ (delta.rows key).take accepted) := by
  have hcapacity : KvSlide.CAPACITY = 2048 := rfl
  rw [t.rows_eager (by rw [h.active, window_length]) (delta.tile key)
    (by rw [h.rows key]; have := h.some_rows key; omega) haccepted, h.active, h.rows key]
  exact eagerRows_window zero (by rw [delta.tile key]; exact haccepted.2)

/-- The rows of a history with accepted rows. -/
theorem Holds.rows_next (h : Holds zero stream d) {accepted : Nat} (haccepted : accepted ≤ 32) (delta : Delta κ α)
    (key : κ) : min HISTORY_ROWS (d.device.kv.historyRows + accepted) =
      min KvSlide.CAPACITY (stream key ++ (delta.rows key).take accepted).length := by
  have hcapacity : KvSlide.CAPACITY = 2048 := rfl
  have hrows : HISTORY_ROWS = 2048 := rfl
  rw [List.length_append, Delta.take_length delta key haccepted, h.rows key]
  omega

/-- The end of a `prepare_publication` that returned. -/
theorem preparePending_ok {device : DFlashDevice} {accepted : Nat} {kv : KVPublication} {env : PrepareEnv}
    (h : (device.preparePending accepted kv env).result = .ok p) : p = device.prepared accepted kv ∧
      device.preparePending accepted kv env = Call.ret (device.hold (device.prepared accepted kv))
        (device.prepared accepted kv) := by
  unfold DFlashDevice.preparePending at h ⊢
  cases hfence : env.fence with
  | error e =>
    simp only [hfence] at h
    obtain ⟨_, -, hc⟩ := Call.of_bind h
    rw [hc] at h
    cases h
  | ok u =>
    simp only [hfence] at h ⊢
    obtain ⟨⟨⟩, -, hc⟩ := Call.of_attempt h
    rw [hc] at h ⊢
    cases h
    exact ⟨rfl, rfl⟩

/-- A prepared publication of the drafter. -/
theorem device_prepared {device : DFlashDevice} {accepted : Nat} {env : PrepareEnv}
    (h : (device.preparePublication accepted position env).result = .ok p) :
    (1 ≤ accepted ∧ accepted ≤ 32) ∧ p.kv = device.kv.prepared accepted ∧
      (device.preparePublication accepted position env).obj.kv = device.kv.hold (device.kv.prepared accepted) := by
  unfold DFlashDevice.preparePublication at h ⊢
  obtain ⟨⟨⟩, hcheck, hc⟩ := Call.of_attempt h
  rw [hc] at h ⊢
  obtain ⟨⟨⟩, -, hc⟩ := Call.of_attempt h
  rw [hc] at h ⊢
  obtain ⟨kv, hkv, hc⟩ := Call.of_bind h
  rw [hc] at h ⊢
  obtain ⟨hprepare, rfl, hbounds⟩ := DraftKVHistory.prepare_ok hkv
  have haccepted := raiseIf_ok.mp hcheck
  obtain ⟨rfl, hpending⟩ := preparePending_ok h
  refine ⟨by omega, rfl, ?_⟩
  rw [hpending, Call.ret_obj, Call.onto_obj, hprepare]
  rfl

/-- **Today's publication** leaves in the spare banks the window with its rows. -/
theorem Holds.prepareToday (h : Holds zero stream d) (hok : (d.prepareToday zero r position).result = .ok p) :
    Ready zero (fun key => stream key ++ (r.todays.rows key).take r.accepted) r
      (d.prepareToday zero r position).obj p := by
  have hcall : (d.device.preparePublication r.accepted position r.prepare).result = .ok p := hok
  obtain ⟨haccepted, hkv, hobj⟩ := device_prepared hcall
  refine ⟨fun key => ?_, fun key => ?_, fun hin => ?_, fun key => ?_⟩
  · rw [hkv]
    exact h.rows_next haccepted.2 r.todays key
  · have := h.some_rows key
    rw [List.length_append]
    omega
  · rw [hkv] at hin
    cases hin
  · have hside : (d.prepareToday zero r position).obj.device.kv.active = d.device.kv.active := by
      show (d.device.preparePublication r.accepted position r.prepare).obj.kv.active = _
      rw [hobj]
      rfl
    rw [if_neg (by rw [hkv]; exact Bool.false_ne_true), hside]
    have hcontents : (d.prepareToday zero r position).obj.contents = Function.update d.contents d.device.kv.active.other
        (d.moved d.device.kv.active (r.transport.rows zero) r.accepted r.todays) := by
      simp only [KvBanks.prepareToday, hcall]
      rfl
    rw [hcontents, Function.update_self]
    exact h.moved haccepted r.transport r.todays key

/-- A publication that the fused commit admits. -/
theorem refusal_none {fused : FusedCommit} {g : Guards} {accepted : Nat}
    (h : d.refusal fused g accepted position = none) :
    (1 ≤ accepted ∧ accepted ≤ 32) ∧ d.device.kv.historyRows = HISTORY_ROWS ∧
      (fused.inplace = true → d.device.kv.active = .active) ∧ d.poisoned = false := by
  have hall : ∀ guard ∈ d.guards fused g accepted position, ¬guard.1 = true :=
    List.find?_eq_none.mp (Option.map_eq_none_iff.mp h)
  simp only [guards, List.forall_mem_cons] at hall
  obtain ⟨-, hcount, hramp, hpoisoned, -, -, -, -, -, -, -, -, -, -, hparity, -, -, -⟩ := hall
  simp only [Bool.not_eq_true', decide_eq_false_iff_not, not_not, decide_eq_true_eq] at hcount hramp
  simp only [Bool.and_eq_true, decide_eq_true_eq, not_and, not_not] at hparity
  have hle := fused.rows_le
  exact ⟨⟨hcount.1, by omega⟩, hramp, hparity, by simpa using hpoisoned⟩

section

variable [DecidableEq α] {fused : FusedCommit} {accepted : Nat} {todays : Delta κ α} {env : FusedEnv κ α}

/-- The side that a fused publication writes. -/
def written (d : KvBanks κ α) (fused : FusedCommit) : Dflash.Bank :=
  if fused.inplace then d.device.kv.active else d.device.kv.active.other

omit [DecidableEq α] in
/-- **The slides** of an admitted publication. -/
theorem slideFused_ok {u : Unit} (hactive : fused.inplace = true → d.device.kv.active = .active)
    (hok : (d.slideFused zero fused accepted env).result = .ok u) :
    (d.slideFused zero fused accepted env).obj.device = d.device ∧
      (d.slideFused zero fused accepted env).obj.contents = Function.update d.contents (d.written fused)
        (d.slid zero d.device.kv.active accepted env.delta) := by
  unfold slideFused written at *
  split_ifs at hok ⊢ with hin
  · cases hslid : env.slid with
    | error e =>
      rw [hslid] at hok
      cases hok
    | ok v =>
      simp only [hactive hin]
      exact ⟨rfl, rfl⟩
  · cases hslid : env.slid with
    | error e =>
      rw [hslid] at hok
      cases hok
    | ok v => exact ⟨rfl, rfl⟩

/-- **The audit** of a publication whose slides went from an active side that held `before` leaves today's rows in the
side that was written. -/
theorem auditRound_ok [Fintype κ] {u : Unit} {before : κ → List α} (hfull : d.device.kv.historyRows = HISTORY_ROWS)
    (hlength : ∀ key, (before key).length = KvSlide.CAPACITY) (haccepted : 1 ≤ accepted ∧ accepted ≤ 32)
    (hslid : ∀ key, d.contents (d.written fused) key =
      slideRows zero HISTORY_ROWS accepted (before key) (env.delta.rows key))
    (hspare : fused.inplace = true → ∀ key, d.contents d.device.kv.active.other key =
      slideRows zero HISTORY_ROWS accepted (before key) (todays.rows key))
    (hkept : fused.inplace = false → d.contents d.device.kv.active = before)
    (hok : (d.auditRound zero fused accepted todays env).result = .ok u) :
    (d.auditRound zero fused accepted todays env).obj.device = d.device ∧
      ∀ key, (d.auditRound zero fused accepted todays env).obj.contents (d.written fused) key =
        slideRows zero HISTORY_ROWS accepted (before key) (todays.rows key) := by
  have hsame : ∀ key, (env.delta.rows key).take accepted = (todays.rows key).take accepted →
      slideRows zero HISTORY_ROWS accepted (before key) (env.delta.rows key) =
        slideRows zero HISTORY_ROWS accepted (before key) (todays.rows key) := by
    intro key heq
    have hbounds : 1 ≤ HISTORY_ROWS ∧ HISTORY_ROWS ≤ KvSlide.CAPACITY := by decide
    rw [slideRows_eager (hlength key) (env.delta.tile key) hbounds haccepted,
      slideRows_eager (hlength key) (todays.tile key) hbounds haccepted]
    unfold eagerRows
    rw [heq]
  unfold auditRound at hok ⊢
  obtain ⟨⟨⟩, -, hc⟩ := Call.of_attempt hok
  rw [hc] at hok ⊢
  split_ifs at hok ⊢ with hclean hin
  · refine ⟨rfl, fun key => ?_⟩
    rw [Call.ret_obj, hslid key]
    exact hsame key (hclean.1 key)
  · obtain ⟨⟨⟩, -, hc⟩ := Call.of_attempt hok
    rw [hc]
    refine ⟨rfl, fun key => ?_⟩
    have hwritten : d.written fused = d.device.kv.active := if_pos hin
    rw [hwritten, Call.ret_obj]
    show Function.update d.contents d.device.kv.active d.repaired d.device.kv.active key = _
    rw [Function.update_self, repaired, hspare hin key]
    split_ifs with hne
    · rfl
    · exact (not_not.mp hne)
  · obtain ⟨⟨⟩, -, hc⟩ := Call.of_attempt hok
    rw [hc]
    refine ⟨rfl, fun key => ?_⟩
    have hwritten : d.written fused = d.device.kv.active.other := if_neg hin
    rw [hwritten, Call.ret_obj]
    show Function.update d.contents d.device.kv.active.other _ d.device.kv.active.other key = _
    rw [Function.update_self, moved, hfull, hkept (by simpa using hin)]

/-- The audit's reference, where there is one. -/
def referenced (zero : α) (d : KvBanks κ α) (fused : FusedCommit) (accepted : Nat) (todays : Delta κ α) : KvBanks κ α :=
  if fused.audit ∧ fused.inplace then d.reference zero accepted todays else d

/-- A fused publication that returned: its reference, its slides, and its audit. -/
theorem prepareFused_ok [Fintype κ] (hok : (d.prepareFused zero fused accepted todays env).result = .ok p) :
    ∃ d', (let slid := (d.referenced zero fused accepted todays).slideFused zero fused accepted env
      (∃ u, slid.result = .ok u) ∧
        (fused.audit = true → ∃ u, (slid.obj.auditRound zero fused accepted todays env).result = .ok u ∧
        d' = (slid.obj.auditRound zero fused accepted todays env).obj) ∧ (fused.audit = false → d' = slid.obj)) ∧
      (d.prepareFused zero fused accepted todays env).obj = d'.holdFused fused accepted ∧
      p.kv = d'.fusedPublication fused accepted := by
  unfold prepareFused at hok ⊢
  obtain ⟨⟨⟩, -, hc⟩ := Call.of_attempt hok
  rw [hc] at hok ⊢
  obtain ⟨⟨⟩, hreference, hc⟩ := Call.of_bind hok
  rw [hc] at hok ⊢
  have hobj : (if fused.audit = true then
      Call.attempt env.reference
        (if fused.inplace = true then d.fill d.device.kv.active.other env.broken else d) fun _ =>
        Call.ret (if fused.inplace = true then d.reference zero accepted todays else d) ()
      else Call.ret d ()).obj = d.referenced zero fused accepted todays := by
    unfold referenced
    by_cases haudit : fused.audit = true
    · rw [if_pos haudit] at hreference ⊢
      obtain ⟨⟨⟩, -, hc⟩ := Call.of_attempt hreference
      rw [hc, Call.ret_obj]
      by_cases hin : fused.inplace = true
      · rw [if_pos hin, if_pos ⟨haudit, hin⟩]
      · rw [if_neg hin, if_neg fun h => hin h.2]
    · rw [if_neg haudit, if_neg fun h => haudit h.1]
      rfl
  rw [hobj] at hok ⊢
  obtain ⟨⟨⟩, -, hc⟩ := Call.of_attempt hok
  rw [hc] at hok ⊢
  obtain ⟨u, hslid, hc⟩ := Call.of_bind hok
  rw [hc] at hok ⊢
  obtain ⟨u', haudit, hc⟩ := Call.of_bind hok
  rw [hc] at hok ⊢
  cases hok
  refine ⟨_, ⟨⟨u, hslid⟩, fun hon => ?_, fun hoff => ?_⟩, rfl, rfl⟩
  · rw [if_pos hon] at haudit ⊢
    exact ⟨u', haudit, rfl⟩
  · rw [if_neg (by rw [hoff]; decide)]
    rfl

/-- **A fused publication** leaves in the side that its commit makes active the window with its rows: the deltas' or,
when it is audited, today's. -/
theorem Holds.prepareFused [Fintype κ] (h : Holds zero stream d) {g : Guards}
    (hadmitted : d.refusal fused g accepted position = none) (hinstalled : fused.inplace = true → installed r = true)
    (hok : (d.prepareFused zero fused accepted todays env).result = .ok p) :
    Ready zero (fun key => stream key ++ ((if fused.audit then todays else env.delta).rows key).take accepted) r
      (d.prepareFused zero fused accepted todays env).obj p := by
  obtain ⟨haccepted, hfull, hactive, -⟩ := refusal_none hadmitted
  obtain ⟨d', ⟨⟨u, hslid⟩, haudit, hplain⟩, hobj, hkv⟩ := prepareFused_ok hok
  have hmoved : ∀ delta : Delta κ α, ∀ key, slideRows zero HISTORY_ROWS accepted (d.contents d.device.kv.active key)
      (delta.rows key) = window zero (stream key ++ (delta.rows key).take accepted) := fun delta key => by
    rw [← hfull]
    exact h.moved haccepted .slide delta key
  have hreferenced : (d.referenced zero fused accepted todays).device = d.device ∧
      (d.referenced zero fused accepted todays).contents d.device.kv.active = d.contents d.device.kv.active := by
    unfold referenced
    split_ifs
    · exact ⟨rfl, Function.update_of_ne (Ne.symm (other_ne _)) _ _⟩
    · exact ⟨rfl, rfl⟩
  obtain ⟨hdevice, hcontents⟩ := slideFused_ok (by rw [hreferenced.1]; exact hactive) hslid
  rw [hreferenced.1] at hdevice hcontents
  have hside : (d.referenced zero fused accepted todays).written fused = d.written fused := by
    unfold written
    rw [hreferenced.1]
  have hslidRows : ∀ key,
    (d.referenced zero fused accepted todays).slid zero d.device.kv.active accepted env.delta key =
      slideRows zero HISTORY_ROWS accepted (d.contents d.device.kv.active key) (env.delta.rows key) := fun key => by
    unfold slid
    rw [hreferenced.2]
  rw [hside] at hcontents
  have hafter : d'.device = d.device ∧ ∀ key, d'.contents (d.written fused) key =
      window zero (stream key ++ ((if fused.audit then todays else env.delta).rows key).take accepted) := by
    cases hon : fused.audit with
    | false =>
      rw [hplain hon, hdevice, hcontents, Function.update_self]
      refine ⟨rfl, fun key => ?_⟩
      rw [hslidRows, hmoved, if_neg Bool.false_ne_true]
    | true =>
      obtain ⟨u', haudited, rfl⟩ := haudit hon
      have hwritten : ((d.referenced zero fused accepted todays).slideFused zero fused accepted env).obj.written fused =
          d.written fused := by
        unfold written
        rw [hdevice]
      obtain ⟨hdevice', hrows⟩ := auditRound_ok (by rw [hdevice, hfull])
        (fun key => show (d.contents d.device.kv.active key).length = _ by rw [h.active, window_length]) haccepted
        (fun key => by rw [hwritten, hcontents, Function.update_self, hslidRows])
        (fun hin key => by
          have hspare : (d.referenced zero fused accepted todays).contents d.device.kv.active.other key =
              slideRows zero HISTORY_ROWS accepted (d.contents d.device.kv.active key) (todays.rows key) := by
            rw [referenced, if_pos ⟨hon, hin⟩]
            show Function.update d.contents d.device.kv.active.other _ d.device.kv.active.other key = _
            rw [Function.update_self, KvBanks.moved, hfull]
          rw [hdevice, hcontents, written, if_pos hin, Function.update_of_ne (other_ne _), hspare])
        (fun hin => by
          rw [hdevice, hcontents, written, if_neg (by rw [hin]; decide), Function.update_of_ne (Ne.symm (other_ne _)),
            hreferenced.2]) haudited
      refine ⟨hdevice'.trans hdevice, fun key => ?_⟩
      rw [hwritten] at hrows
      rw [hrows key, hmoved, if_pos rfl]
  refine ⟨fun key => ?_, fun key => ?_, fun hin => ?_, fun key => ?_⟩
  · have hrows := h.rows_next haccepted.2 (if fused.audit then todays else env.delta) key
    rw [hfull] at hrows
    rw [hkv, ← hrows, Nat.min_eq_left (Nat.le_add_right _ _)]
    rfl
  · have := h.some_rows key
    rw [List.length_append]
    omega
  · rw [hkv] at hin
    exact hinstalled hin
  · rw [hobj, hkv, ← hafter.2 key]
    show d'.contents (if fused.inplace then d'.device.kv.active else d'.device.kv.active.other) key = _
    rw [hafter.1]
    rfl

/-- **A publication as it is installed**: whatever path it takes. -/
theorem Holds.prepare [Fintype κ] (h : Holds zero stream d) (hok : (d.prepare zero r position).result = .ok p) :
    Ready zero (d.extended stream r position) r (d.prepare zero r position).obj p := by
  have htoday : d.published r position = r.todays → d.extended stream r position =
      fun key => stream key ++ (r.todays.rows key).take r.accepted := fun heq => by
    unfold extended
    rw [heq]
  unfold KvBanks.prepare at hok ⊢
  cases hfused : r.fused with
  | none =>
    rw [htoday (by simp only [published, hfused])]
    simp only [hfused] at hok ⊢
    exact h.prepareToday hok
  | some fused =>
    simp only [hfused] at hok ⊢
    cases hrefusal : d.refusal fused r.guards r.accepted position with
    | some reason =>
      rw [htoday (by simp [published, hfused, hrefusal])]
      simp only [hrefusal] at hok ⊢
      exact h.prepareToday hok
    | none =>
      simp only [hrefusal] at hok ⊢
      have hpublished : d.published r position = if fused.audit then r.todays else r.env.delta := by
        simp only [published, hfused, hrefusal, true_and]
        cases fused.audit <;> simp
      have hready := h.prepareFused (r := r) hrefusal (fun hin => by simp [installed, hfused, hin]) hok
      unfold extended
      rw [hpublished]
      exact hready

omit [DecidableEq α] in
/-- A commit that returned. -/
theorem commit_ok {u : Unit} (hinstalled : p.kv.fusedInplace = true → installed r = true)
    (hok : (d.commit r p).result = .ok u) : (d.commit r p).obj.contents = d.contents ∧
      (d.commit r p).obj.device.kv.active =
        (if p.kv.fusedInplace then d.device.kv.active else d.device.kv.active.other) ∧
      (d.commit r p).obj.device.kv.historyRows = p.kv.rows := by
  have hkv : ∀ u', (if installed r then commitKv d.device.kv p.kv else d.device.kv.commit p.kv).result = .ok u' →
      (if installed r then commitKv d.device.kv p.kv else d.device.kv.commit p.kv).obj.active =
        (if p.kv.fusedInplace then d.device.kv.active else d.device.kv.active.other) ∧
      (if installed r then commitKv d.device.kv p.kv else d.device.kv.commit p.kv).obj.historyRows = p.kv.rows := by
    intro u' hok'
    have hcommit : ∀ u'', (d.device.kv.commit p.kv).result = .ok u'' →
        (d.device.kv.commit p.kv).obj.active = d.device.kv.active.other ∧
          (d.device.kv.commit p.kv).obj.historyRows = p.kv.rows := fun u'' h => by
      rw [DraftKVHistory.commit_ok h]
      exact ⟨rfl, rfl⟩
    by_cases hin : p.kv.fusedInplace = true
    · simp only [if_pos (hinstalled hin), commitKv, if_pos hin] at hok' ⊢
      obtain ⟨⟨⟩, -, hc⟩ := Call.of_attempt hok'
      rw [hc]
      exact ⟨rfl, rfl⟩
    · simp only [commitKv, if_neg hin, ite_self] at hok' ⊢
      exact hcommit u' hok'
  unfold KvBanks.commit at hok ⊢
  rw [Call.onto_result] at hok
  obtain ⟨⟨⟩, -, hc⟩ := Call.of_attempt hok
  rw [hc] at hok ⊢
  obtain ⟨u', hcommit, hc⟩ := Call.of_bind hok
  rw [hc] at hok ⊢
  obtain ⟨⟨⟩, -, hc⟩ := Call.of_attempt hok
  rw [hc]
  exact ⟨rfl, hkv u' hcommit⟩

omit [DecidableEq α] in
/-- **A commit makes the window with the accepted rows the active one.** -/
theorem Ready.commit {u : Unit} (h : Ready zero stream r d p) (hok : (d.commit r p).result = .ok u) :
    Holds zero stream (d.commit r p).obj := by
  obtain ⟨hcontents, hactive, hrows⟩ := commit_ok h.inplace hok
  refine ⟨h.some_rows, fun key => ?_, fun key => ?_⟩
  · rw [hrows]
    exact h.rows key
  · rw [hcontents, hactive]
    exact h.side key

end

end KvBanks

/-! ## Rounds -/

namespace Publisher

open KvBanks

variable {κ α : Type} [DecidableEq α] [Fintype κ] {zero : α} {w : Publisher κ α} {r : Round κ α} {stream : κ → List α}

/-- The rows that a round adds to the stream. -/
def added (w : Publisher κ α) (r : Round κ α) : κ → List α := fun key =>
  if r.accepted = 0 then [] else ((w.drafter.published r w.position).rows key).take r.accepted

omit [DecidableEq α] [Fintype κ] in
theorem recover_failed (p : Option DevicePublication) (e : PyError) : (w.recover r p e).obj.failed = true ∧
    ∃ e', (w.recover r p e).result = .error e' := by
  unfold recover
  cases p with
  | none => exact ⟨rfl, _, rfl⟩
  | some p =>
    dsimp only
    rcases Call.bind_cases ((w.drafter.discard r p).onto fun drafter => { w with drafter, failed := true })
      (fun w _ => (Call.throw w e : Call (Publisher κ α) Unit)) with ⟨e', -, hc⟩ | ⟨u, -, hc⟩
    · rw [hc]
      exact ⟨rfl, _, rfl⟩
    · rw [hc]
      exact ⟨rfl, _, rfl⟩

omit [DecidableEq α] [Fintype κ] in
/-- The stages after the preparation keep the flag, and return at the next frontier. -/
theorem finish_ok {u : Unit} {publication : Option DevicePublication} (hok : (w.finish r publication).result = .ok u) :
    (w.finish r publication).obj.failed = w.failed ∧ (w.finish r publication).obj.position = w.position + r.accepted ∧
      (publication = none → (w.finish r publication).obj.drafter = w.drafter) ∧
      ∀ p, publication = some p → (∃ u, (w.drafter.commit r p).result = .ok u) ∧
        (w.finish r publication).obj.drafter = (w.drafter.commit r p).obj := by
  unfold finish at hok ⊢
  obtain ⟨⟨⟩, -, hc⟩ := Call.of_attempt hok
  rw [hc] at hok ⊢
  obtain ⟨u', hcommit, hc⟩ := Call.of_bind hok
  rw [hc] at hok ⊢
  obtain ⟨⟨⟩, -, hc⟩ := Call.of_attempt hok
  rw [hc]
  cases publication with
  | none => exact ⟨rfl, rfl, fun _ => rfl, fun p hp => by cases hp⟩
  | some p => exact ⟨rfl, rfl, fun hp => (by cases hp), fun p' hp => by cases hp; exact ⟨⟨u', hcommit⟩, rfl⟩⟩

/-- **A round that returned** leaves the window of the stream with its rows active; a round that raised has failed the
request, if it had not failed before. -/
theorem publish_holds (hfailed : w.failed = false) (h : Holds zero stream w.drafter) :
    ((∃ e, (w.publish zero r).result = .error e) ∧ (w.publish zero r).obj.failed = true) ∨
    ((w.publish zero r).result = .ok () ∧ (w.publish zero r).obj.failed = false ∧
      (w.publish zero r).obj.position = w.position + r.accepted ∧
      Holds zero (fun key => stream key ++ w.added r key) (w.publish zero r).obj.drafter) := by
  have hcheck : raiseIf (w.failed = true)
      (.valueError "Feature publication requires the current verified target transaction") = .ok () :=
    raiseIf_ok.mpr (by rw [hfailed]; decide)
  unfold publish
  rw [hcheck, Call.attempt_ok]
  by_cases hnone : r.accepted = 0
  · rw [if_pos hnone]
    cases hfinish : (w.finish r none).result with
    | error e => exact Or.inl ⟨(recover_failed none e).2, (recover_failed none e).1⟩
    | ok u =>
      obtain ⟨hflag, hposition, hkept, -⟩ := finish_ok hfinish
      refine Or.inr ⟨hfinish, hflag.trans hfailed, hposition, ?_⟩
      rw [hkept rfl]
      simpa only [added, if_pos hnone, List.append_nil] using h
  · rw [if_neg hnone]
    dsimp only
    cases hprepared : (Call.attempt r.features w.drafter fun _ => w.drafter.prepare zero r w.position).result with
    | error e => exact Or.inl ⟨(recover_failed none e).2, (recover_failed none e).1⟩
    | ok p =>
      obtain ⟨⟨⟩, -, hc⟩ := Call.of_attempt hprepared
      rw [hc] at hprepared ⊢
      dsimp only
      cases hfinish : (({ w with drafter := (w.drafter.prepare zero r w.position).obj } : Publisher κ α).finish r
        (some p)).result with
      | error e => exact Or.inl ⟨(recover_failed (some p) e).2, (recover_failed (some p) e).1⟩
      | ok u =>
        obtain ⟨hflag, hposition, -, hcommitted⟩ := finish_ok hfinish
        obtain ⟨⟨u', hcommit⟩, hdrafter⟩ := hcommitted p rfl
        refine Or.inr ⟨hfinish, hflag.trans hfailed, hposition, ?_⟩
        rw [hdrafter]
        simp only [added, if_neg hnone]
        exact (h.prepare hprepared).commit hcommit

/-- Rounds one after the other. -/
def publishAll (zero : α) (w : Publisher κ α) (rounds : List (Round κ α)) : Publisher κ α :=
  rounds.foldl (fun w r => (w.publish zero r).obj) w

/-- What rounds add to the stream, each as it was published. -/
def addedAll (zero : α) (w : Publisher κ α) : List (Round κ α) → κ → List α
  | [], _ => []
  | r :: rounds, key => w.added r key ++ addedAll zero (w.publish zero r).obj rounds key

/-- A request that has failed stays so. -/
theorem publishAll_failed (rounds : List (Round κ α)) (h : w.failed = true) :
    (w.publishAll zero rounds).failed = true := by
  induction rounds generalizing w with
  | nil => exact h
  | cons r rounds ih =>
    have hkept : (w.publish zero r).obj.failed = true := by
      unfold publish
      rw [show raiseIf (w.failed = true) _ = .error _ from if_pos h]
      exact h
    exact ih hkept

/-- **Main result: the active banks hold the last 2048 accepted rows.** Over any rounds of a request that has not
failed, each published by any of the paths (in place or not, audited or not, by any transport), the active banks hold
the window of the stream with all their rows, and the frontier has moved by their number. -/
theorem publications_hold (rounds : List (Round κ α)) (h : Holds zero stream w.drafter)
    (hlive : (w.publishAll zero rounds).failed = false) :
    Holds zero (fun key => stream key ++ w.addedAll zero rounds key) (w.publishAll zero rounds).drafter ∧
      (w.publishAll zero rounds).position = w.position + (rounds.map Round.accepted).sum := by
  have hfailed : w.failed = false := by
    by_contra hf
    rw [publishAll_failed rounds (by simpa using hf)] at hlive
    cases hlive
  induction rounds generalizing w stream with
  | nil =>
    simp only [addedAll, List.append_nil]
    exact ⟨h, rfl⟩
  | cons r rounds ih =>
    rcases publish_holds (r := r) hfailed h with ⟨-, hbad⟩ | ⟨-, hgood, hposition, hnext⟩
    · exact absurd (publishAll_failed rounds hbad)
        (by rw [show (publishAll zero _ rounds).failed = false from hlive]; decide)
    · obtain ⟨hholds, hend⟩ := ih hnext hlive hgood
      simp only [List.append_assoc] at hholds
      refine ⟨hholds, ?_⟩
      rw [List.map_cons, List.sum_cons, ← Nat.add_assoc, ← hposition]
      exact hend

/-- A full history of one bank. -/
def sample : Publisher Unit Nat :=
  ⟨⟨DFlashDevice.init 2048 2048 15, fun _ _ => window 0 (List.replicate 2048 7), false⟩, 2048, false⟩

/-- A round of three rows, published in place. -/
def sampleRound : Round Unit Nat where
  accepted := 3
  features := .ok ()
  target := .ok ()
  audited := .ok ()
  fused := some ⟨false, true, false, 16, by decide⟩
  guards := ⟨false, false, false, false, false, false, false, false, false, false⟩
  transport := .slide
  prepare := ⟨.ok (), .ok (), .ok (), .ok ()⟩
  todays := ⟨fun _ => List.replicate 32 8, fun _ => List.length_replicate⟩
  broken := fun _ => []
  env := ⟨.ok (), .ok (), .ok (), .ok (), .ok (), .ok (),
    ⟨fun _ => List.replicate 32 8, fun _ => List.length_replicate⟩,
    fun _ => []⟩

/-- Two such rounds. -/
theorem sample_publications : (sample.publishAll 0 [sampleRound, sampleRound]).position = 2054 ∧
    (sample.publishAll 0 [sampleRound, sampleRound]).drafter.contents .active () =
      window 0 (List.replicate 2048 7 ++ sample.addedAll 0 [sampleRound, sampleRound] ()) := by
  have hstart : Holds 0 (fun _ => List.replicate 2048 7) sample.drafter := by
    refine ⟨fun _ => ?_, fun _ => ?_, fun _ => rfl⟩
    · rw [List.length_replicate]
      decide
    · rw [List.length_replicate]
      rfl
  obtain ⟨hholds, hposition⟩ := publications_hold [sampleRound, sampleRound] hstart rfl
  exact ⟨hposition, hholds.active ()⟩

end Publisher

end BlackholeQwen.Dflash
