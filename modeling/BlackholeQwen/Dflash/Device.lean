import BlackholeQwen.Speculative.GreedyVerify

/-!
# The learned drafter and its draft cache

`DraftKVHistory` (`draft_kv_history.py`) is the K/V cache of the learned drafter, and `DFlashDevice`
(`dflash_device.py`) the drafter that holds it. Both publish in two steps: `prepare` makes the one pending publication,
and `commit` or `discard` ends it. A publication is an object whose status its owner keeps, by the number of the object.

What the device does between the checks is an argument of the call, as an exception that it may raise. The banks are
seen through which of the two is active; their contents are another module's.
-/

namespace BlackholeQwen.Dflash

open Lib Speculative

/-- The rows of a history bank. -/
abbrev HISTORY_ROWS : Nat := 2048

/-- The positions of a request. -/
abbrev CAPACITY : Nat := 262144

/-- The tokens of the target. -/
abbrev VOCABULARY : Int := 248320

/-- `publication.status`. -/
inductive Status
  | prepared | committed | discarded
  deriving DecidableEq, Repr

/-! ## The draft cache -/

/-- The two banks of a cache, as its pool slot names them. -/
inductive Bank
  | active | spare
  deriving DecidableEq, Repr

/-- The other bank. -/
def Bank.other : Bank → Bank
  | .active => .spare
  | .spare => .active

/-- A pending publication of the cache; `accepted` is its prefix, and `fusedInplace` says that the live banks already
hold it. -/
structure KVPublication where
  number : Nat
  position : Nat
  accepted : Nat
  rows : Nat
  fusedInplace : Bool
  deriving DecidableEq, Repr

/-- `DraftKVHistory`. -/
structure DraftKVHistory where
  closed : Bool
  position : Nat
  historyRows : Nat
  active : Bank
  pending : Option KVPublication
  statuses : List Status
  deriving DecidableEq, Repr

namespace DraftKVHistory

/-- A cache of a history at a frontier. -/
def init (position historyRows : Nat) : DraftKVHistory := ⟨false, position, historyRows, .active, none, []⟩

/-- A publication becomes the pending one. -/
def hold (c : DraftKVHistory) (p : KVPublication) : DraftKVHistory :=
  { c with pending := some p, statuses := c.statuses ++ [.prepared] }

/-- The pending publication ends. -/
def settle (c : DraftKVHistory) (p : KVPublication) (status : Status) : DraftKVHistory :=
  { c with pending := none, statuses := c.statuses.set p.number status }

/-- The checks of `prepare`. -/
def prepareCheck (c : DraftKVHistory) (accepted position : Nat) : Except PyError Unit :=
  raiseIf (c.closed = true ∨ c.pending ≠ none ∨ position ≠ c.position ∨ accepted < 1 ∨ 32 < accepted ∨
      CAPACITY < position + accepted)
    (.valueError "One accepted-prefix cache update at the current committed frontier required")

/-- The publication that a `prepare` records. -/
def prepared (c : DraftKVHistory) (accepted : Nat) : KVPublication :=
  ⟨c.statuses.length, c.position, accepted, min HISTORY_ROWS (c.historyRows + accepted), false⟩

/-- `prepare`; `projected` is the projection, the slides into the spare bank and their fence. -/
def prepare (c : DraftKVHistory) (accepted position : Nat) (projected : Except PyError Unit) :
    Call DraftKVHistory KVPublication :=
  Call.attempt (c.prepareCheck accepted position) c fun _ =>
  Call.attempt projected c fun _ =>
  Call.ret (c.hold (c.prepared accepted)) (c.prepared accepted)

/-- The check of `commit`. -/
def commitCheck (c : DraftKVHistory) (p : KVPublication) : Except PyError Unit :=
  raiseIf (c.closed = true ∨ c.pending ≠ some p ∨ c.statuses[p.number]? ≠ some .prepared ∨ p.position ≠ c.position)
    (.valueError "Only the current prepared draft cache may commit")

/-- The cache at the frontier of a publication. -/
def advance (c : DraftKVHistory) (p : KVPublication) : DraftKVHistory :=
  { c with position := c.position + p.accepted, historyRows := p.rows }.settle p .committed

/-- `commit`: the banks change places. -/
def commit (c : DraftKVHistory) (p : KVPublication) : Call DraftKVHistory Unit :=
  Call.attempt (c.commitCheck p) c fun _ => Call.ret ({ c with active := c.active.other }.advance p) ()

/-- `discard`. -/
def discard (c : DraftKVHistory) (p : KVPublication) : Call DraftKVHistory Unit :=
  if c.statuses[p.number]? = some .committed then Call.ret c ()
  else Call.attempt
    (raiseIf (c.closed = true ∨ c.pending ≠ some p ∨ c.statuses[p.number]? ≠ some .prepared)
      (.valueError "Only the current prepared draft cache may be discarded")) c fun _ =>
  Call.ret (c.settle p .discarded) ()

/-- The first step of `close`: a pending publication is discarded. -/
def dropPending (c : DraftKVHistory) : Call DraftKVHistory Unit :=
  match c.pending with
  | none => Call.ret c ()
  | some p => c.discard p

/-- `close`; `released` is its fence and its releases. -/
def close (c : DraftKVHistory) (released : Except PyError Unit) : Call DraftKVHistory Unit :=
  if c.closed then Call.ret c ()
  else c.dropPending.bind fun c _ =>
  Call.attempt released c fun _ => Call.ret { c with closed := true } ()

/-- A `prepare` that returned passed its checks, and only holds its publication. -/
theorem prepare_ok {c : DraftKVHistory} {accepted position : Nat} {projected : Except PyError Unit} {p : KVPublication}
    (h : (c.prepare accepted position projected).result = .ok p) :
    c.prepare accepted position projected = Call.ret (c.hold (c.prepared accepted)) (c.prepared accepted) ∧
      p = c.prepared accepted ∧ c.prepareCheck accepted position = .ok () := by
  obtain ⟨⟨⟩, hg, hc⟩ := Call.of_attempt h
  unfold prepare
  rw [prepare, hc] at h
  obtain ⟨⟨⟩, -, hc'⟩ := Call.of_attempt h
  rw [hc, hc']
  rw [hc'] at h
  cases h
  exact ⟨rfl, rfl, hg⟩

/-- A `commit` that returned moved the frontier by the publication's rows. -/
theorem commit_ok {c : DraftKVHistory} {p : KVPublication} {u : Unit} (h : (c.commit p).result = .ok u) :
    c.commit p = Call.ret ({ c with active := c.active.other }.advance p) () := by
  obtain ⟨⟨⟩, -, hc⟩ := Call.of_attempt h
  exact hc

/-- A `prepare` leaves the frontier alone. -/
theorem prepare_position (c : DraftKVHistory) (accepted position : Nat) (projected : Except PyError Unit) :
    (c.prepare accepted position projected).obj.position = c.position :=
  Call.attempt_obj (P := fun c' : DraftKVHistory => c'.position = c.position) rfl fun _ _ =>
    Call.attempt_obj (P := fun c' : DraftKVHistory => c'.position = c.position) rfl fun _ _ => rfl

/-- A discard leaves the frontier alone. -/
theorem discard_position (c : DraftKVHistory) (p : KVPublication) : (c.discard p).obj.position = c.position := by
  unfold discard
  split
  · rfl
  · exact Call.attempt_obj (P := fun c' : DraftKVHistory => c'.position = c.position) rfl fun _ _ => rfl

/-- A close leaves the frontier alone. -/
theorem close_position (c : DraftKVHistory) (released : Except PyError Unit) :
    (c.close released).obj.position = c.position := by
  have hdrop : c.dropPending.obj.position = c.position := by
    unfold dropPending
    split
    · rfl
    · exact c.discard_position _
  unfold close
  split
  · rfl
  · refine Call.bind_obj (P := fun c' : DraftKVHistory => c'.position = c.position) hdrop fun _ _ => ?_
    exact Call.attempt_obj (P := fun c' : DraftKVHistory => c'.position = c.position) hdrop fun _ _ => hdrop

end DraftKVHistory

/-! ## The drafter -/

/-- A pending publication of the drafter, with the cache's. -/
structure DevicePublication where
  number : Nat
  position : Nat
  accepted : Nat
  rows : Nat
  kv : KVPublication
  deriving DecidableEq, Repr

/-- `DFlashDevice` with a draft cache. -/
structure DFlashDevice where
  closed : Bool
  position : Nat
  historyRows : Nat
  maxDrafts : Nat
  kv : DraftKVHistory
  pending : Option DevicePublication
  statuses : List Status
  deriving DecidableEq, Repr

/-- The device's answers to a `prepare_publication`: the projection of the features and the slide of their history, the
cache's own, the fence, and the release of the temporaries once the publication is pending. -/
structure PrepareEnv where
  features : Except PyError Unit
  projected : Except PyError Unit
  fence : Except PyError Unit
  release : Except PyError Unit

namespace DFlashDevice

/-- `__init__`: a drafter over a prefilled history. -/
def init (position historyRows maxDrafts : Nat) : DFlashDevice :=
  ⟨false, position, historyRows, maxDrafts, DraftKVHistory.init position historyRows, none, []⟩

/-- A publication becomes the pending one. -/
def hold (d : DFlashDevice) (p : DevicePublication) : DFlashDevice :=
  { d with pending := some p, statuses := d.statuses ++ [.prepared] }

/-- The pending publication ends. -/
def settle (d : DFlashDevice) (p : DevicePublication) (status : Status) : DFlashDevice :=
  { d with pending := none, statuses := d.statuses.set p.number status }

/-- The publication that a `prepare_publication` records. -/
def prepared (d : DFlashDevice) (accepted : Nat) (kv : KVPublication) : DevicePublication :=
  ⟨d.statuses.length, d.position, accepted, min HISTORY_ROWS (d.historyRows + accepted), kv⟩

/-- The check of `prepare_publication`. -/
def prepareCheck (d : DFlashDevice) (accepted position : Nat) : Except PyError Unit :=
  raiseIf (d.closed = true ∨ d.pending ≠ none ∨ position ≠ d.position ∨ accepted < 1 ∨ 32 < accepted)
    (.valueError "One live target-feature publication at the committed frontier required")

/-- `prepare_publication` once the cache has prepared: a fence that raises discards the cache's publication. -/
def preparePending (d : DFlashDevice) (accepted : Nat) (kv : KVPublication) (env : PrepareEnv) :
    Call DFlashDevice DevicePublication :=
  match env.fence with
  | .error e => ((d.kv.discard kv).onto fun kv => { d with kv }).bind fun d _ => Call.throw d e
  | .ok () =>
    Call.attempt env.release (d.hold (d.prepared accepted kv)) fun _ =>
    Call.ret (d.hold (d.prepared accepted kv)) (d.prepared accepted kv)

/-- `prepare_publication`. -/
def preparePublication (d : DFlashDevice) (accepted position : Nat) (env : PrepareEnv) :
    Call DFlashDevice DevicePublication :=
  Call.attempt (d.prepareCheck accepted position) d fun _ =>
  Call.attempt env.features d fun _ =>
  ((d.kv.prepare accepted position env.projected).onto fun kv => { d with kv }).bind fun d kv =>
  d.preparePending accepted kv env

/-- The check of `commit_publication`. -/
def commitCheck (d : DFlashDevice) (p : DevicePublication) : Except PyError Unit :=
  raiseIf (d.closed = true ∨ d.pending ≠ some p ∨ d.statuses[p.number]? ≠ some .prepared ∨ p.position ≠ d.position)
    (.valueError "Only the current prepared feature publication may commit")

/-- The drafter at the frontier of a publication. -/
def advance (d : DFlashDevice) (p : DevicePublication) : DFlashDevice :=
  { d with position := d.position + p.accepted, historyRows := p.rows }.settle p .committed

/-- `commit_publication`; `audited` is the audit of the cache, once it has committed. -/
def commitPublication (d : DFlashDevice) (p : DevicePublication) (audited : Except PyError Unit) :
    Call DFlashDevice Unit :=
  Call.attempt (d.commitCheck p) d fun _ =>
  ((d.kv.commit p.kv).onto fun kv => { d with kv }).bind fun d _ =>
  Call.attempt audited (d.advance p) fun _ => Call.ret (d.advance p) ()

/-- `discard_publication`. -/
def discardPublication (d : DFlashDevice) (p : DevicePublication) : Call DFlashDevice Unit :=
  if d.statuses[p.number]? = some .committed then Call.ret d ()
  else Call.attempt
    (raiseIf (d.pending ≠ some p ∨ d.statuses[p.number]? ≠ some .prepared)
      (.valueError "Only the current prepared feature publication may be discarded")) d fun _ =>
  ((d.kv.discard p.kv).onto fun kv => { d with kv }).bind fun d _ =>
  Call.ret (d.settle p .discarded) ()

/-- `propose`; `tokens` is what the proposal trace reads back. -/
def propose (d : DFlashDevice) (seed : Option Token) (count : Nat) (tokens : Except PyError (List Token)) :
    Except PyError (List Token) := do
  raiseIf (d.closed = true ∨ d.pending ≠ none ∨ seed.any (inVocab VOCABULARY) = false ∨ count < 1 ∨
      d.maxDrafts < count)
    (.valueError "Committed DFlash2 history and bounded anchor/proposal IDs required")
  tokens

/-- The first step of `close`: a pending publication is discarded. -/
def dropPending (d : DFlashDevice) : Call DFlashDevice Unit :=
  match d.pending with
  | none => Call.ret d ()
  | some p => d.discardPublication p

/-- `close`; `fenced` is the fence before it, and the other arguments the cache's releases and the drafter's. -/
def close (d : DFlashDevice) (fenced kvReleased released : Except PyError Unit) : Call DFlashDevice Unit :=
  if d.closed then Call.ret d ()
  else Call.attempt fenced d fun _ =>
  d.dropPending.bind fun d _ =>
  ((d.kv.close kvReleased).onto fun kv => { d with kv }).bind fun d _ =>
  Call.attempt released d fun _ => Call.ret { d with closed := true } ()

/-! ## What the calls do to the frontier -/

/-- The drafter and its cache are at a position. -/
structure At (n : Nat) (d : DFlashDevice) : Prop where
  device : d.position = n
  cache : d.kv.position = n

variable {d : DFlashDevice} {n : Nat}

/-- A change of the cache alone that leaves its frontier there. -/
theorem At.kv (h : At n d) {kv : DraftKVHistory} (hkv : kv.position = d.kv.position) : At n { d with kv } :=
  ⟨h.device, hkv.trans h.cache⟩

/-- A discard leaves the drafter where it is. -/
theorem At.discard (h : At n d) (p : DevicePublication) : At n (d.discardPublication p).obj := by
  unfold discardPublication
  split
  · exact h
  · refine Call.attempt_obj h fun _ _ => Call.bind_obj (h.kv (d.kv.discard_position p.kv)) fun _ _ => ?_
    have h' := h.kv (d.kv.discard_position p.kv)
    exact ⟨h'.device, h'.cache⟩

/-- The end of a `prepare_publication` leaves the drafter where it is. -/
theorem At.preparePending (h : At n d) (accepted : Nat) (kv : KVPublication) (env : PrepareEnv) :
    At n (d.preparePending accepted kv env).obj := by
  unfold DFlashDevice.preparePending
  split
  · exact Call.bind_obj (h.kv (d.kv.discard_position kv)) fun _ _ => h.kv (d.kv.discard_position kv)
  · exact Call.attempt_obj ⟨h.device, h.cache⟩ fun _ _ => ⟨h.device, h.cache⟩

/-- A `prepare_publication` leaves the drafter where it is. -/
theorem At.prepare (h : At n d) (accepted position : Nat) (env : PrepareEnv) :
    At n (d.preparePublication accepted position env).obj := by
  refine Call.attempt_obj h fun _ _ => Call.attempt_obj h fun _ _ => ?_
  have h' : At n { d with kv := (d.kv.prepare accepted position env.projected).obj } :=
    h.kv (d.kv.prepare_position accepted position env.projected)
  exact Call.bind_obj h' fun p _ => h'.preparePending accepted p env

/-- What a returning `prepare_publication` records. -/
theorem prepare_ok {accepted position : Nat} {env : PrepareEnv} {p : DevicePublication}
    (h : (d.preparePublication accepted position env).result = .ok p) :
    p.accepted = accepted ∧ p.kv.accepted = accepted := by
  obtain ⟨⟨⟩, -, hc⟩ := Call.of_attempt h
  rw [preparePublication, hc] at h
  obtain ⟨⟨⟩, -, hc⟩ := Call.of_attempt h
  rw [hc] at h
  obtain ⟨kv, hkv, hc⟩ := Call.of_bind h
  rw [hc] at h
  have hkv' := (DraftKVHistory.prepare_ok hkv).2.1
  unfold preparePending at h
  split at h
  · obtain ⟨⟨⟩, -, hc⟩ := Call.of_bind h
    rw [hc] at h
    cases h
  · obtain ⟨⟨⟩, -, hc⟩ := Call.of_attempt h
    rw [hc] at h
    cases h
    exact ⟨rfl, by rw [hkv']; rfl⟩

/-- A returning `commit_publication` takes the drafter to the publication's frontier. -/
theorem At.commit (h : At n d) {p : DevicePublication} {audited : Except PyError Unit} {u : Unit}
    (hp : p.kv.accepted = p.accepted) (hr : (d.commitPublication p audited).result = .ok u) :
    At (n + p.accepted) (d.commitPublication p audited).obj := by
  obtain ⟨⟨⟩, -, hc⟩ := Call.of_attempt hr
  rw [commitPublication, hc] at hr ⊢
  obtain ⟨⟨⟩, hkv, hc⟩ := Call.of_bind hr
  rw [hc] at hr ⊢
  have hkv' : d.kv.commit p.kv = Call.ret ({ d.kv with active := d.kv.active.other }.advance p.kv) () :=
    DraftKVHistory.commit_ok hkv
  obtain ⟨⟨⟩, -, hc⟩ := Call.of_attempt hr
  rw [hc, hkv']
  refine ⟨?_, ?_⟩
  · show d.position + p.accepted = n + p.accepted
    rw [h.device]
  · show d.kv.position + p.kv.accepted = n + p.accepted
    rw [h.cache, hp]

/-- A close leaves the drafter where it is. -/
theorem At.close (h : At n d) (fenced kvReleased released : Except PyError Unit) :
    At n (d.close fenced kvReleased released).obj := by
  have hdrop : At n d.dropPending.obj := by
    unfold dropPending
    split
    · exact h
    · exact h.discard _
  unfold DFlashDevice.close
  split
  · exact h
  · refine Call.attempt_obj h fun _ _ => Call.bind_obj hdrop fun _ _ => ?_
    have hkv : At n { d.dropPending.obj with kv := (d.dropPending.obj.kv.close kvReleased).obj } :=
      hdrop.kv (d.dropPending.obj.kv.close_position kvReleased)
    exact Call.bind_obj hkv fun _ _ => Call.attempt_obj hkv fun _ _ => ⟨hkv.device, hkv.cache⟩

end DFlashDevice

end BlackholeQwen.Dflash
