import BlackholeQwen.Lib.Call
import BlackholeQwen.Lib.Runs
import Mathlib.Data.Set.Function
import Mathlib.Logic.Function.Basic

/-!
# Parked engines and the pool's slots (`serving_parked_engines.py`, `serving_buffer_pool.py`)

`ServingBufferPool` lends the first slot that is not lent. `ParkedEngineSet` keeps an engine on each slot, whose device
holds the slot's loan for good: `take` gives the first free slot where it is parked, and leaves it to the pool where it
is not. A slot whose engine cannot park goes back to the pool (`unpark`), until an idle moment builds one again
(`reparkIdle`). What a request's own build and close do with a slot is what the device does: `acquire` and `release`.

The slots that the arrivals are given are those of a pool without parked engines (`parked_slots_agree`): to it, a slot
is lent while it serves a request (`Agree`).

The device work (zeroing, captures, the slot's address check) is the environment's, as are the reasons for which an
engine or a device cannot park, and the readings that stop a build.
-/

namespace BlackholeQwen.Serving

open Lib

/-! ## The pool -/

/-- `ServingBufferPool`: its loans. -/
structure ServingBufferPool where
  users : Nat
  lent : Nat → Bool
  closed : Bool

namespace ServingBufferPool

/-- A pool of which no slot is lent. -/
def start (users : Nat) : ServingBufferPool := ⟨users, fun _ => false, false⟩

/-- The refusal of a request for want of a slot. -/
def full (p : ServingBufferPool) : PyError :=
  .valueError ("All " ++ toString p.users ++ " pooled draft history slots are already lent; a " ++
    toString (p.users + 1) ++ "th request cannot be admitted")

/-- `acquire`. -/
def acquire (p : ServingBufferPool) : Call ServingBufferPool Nat :=
  if p.closed then Call.throw p (.valueError "Closed serving buffer pool cannot lend a slot")
  else
    match (List.range p.users).find? fun i => !p.lent i with
    | none => Call.throw p p.full
    | some i => Call.ret { p with lent := Function.update p.lent i true } i

/-- `release`. -/
def release (p : ServingBufferPool) (i : Nat) : Call ServingBufferPool Unit :=
  Call.attempt (do
      raiseIf (p.closed = true) (.valueError "Closed serving buffer pool cannot take a slot back")
      raiseIf (p.users ≤ i) (.valueError "Only a slot lent by this pool may be returned to it")
      raiseIf (p.lent i = false)
        (.valueError ("Pooled draft history slot " ++ toString i ++ " is not lent"))) p fun () =>
  Call.ret { p with lent := Function.update p.lent i false } ()

end ServingBufferPool

/-! ## The parked engines -/

/-- `ParkedSlot.state`. -/
inductive ParkedState
  | parked | serving | unparked | closed
  deriving DecidableEq, Repr

/-- `ParkedSlot`: `device` is the pool slot that its device holds, where it has one. -/
structure ParkedSlot where
  state : ParkedState
  device : Option Nat
  unfit : Option String
  refusal : Option String
  deriving DecidableEq, Repr

/-- `ParkedEngineSet`: one entry per pool slot. `fault` is the injected fault at the first park. -/
structure ParkedEngineSet where
  pool : ServingBufferPool
  slots : Nat → ParkedSlot
  fault : Bool
  faulted : Bool
  closed : Bool

/-- What the environment answers at a build or at an idle moment: whether the split is short, and what a build raises
once its device holds a slot. -/
structure BuildEnv where
  short : Nat → Bool
  fails : Nat → Option PyError

/-- `FAULT_REASON`. -/
def FAULT_REASON : String := "injected park fault (gate only)"

namespace ParkedEngineSet

/-- The set before its build. -/
def start (users : Nat) (fault : Bool) : ParkedEngineSet :=
  ⟨.start users, fun _ => ⟨.unparked, none, none, none⟩, fault, false, false⟩

/-- An entry changes. -/
def setSlot (s : ParkedEngineSet) (i : Nat) (e : ParkedSlot) : ParkedEngineSet :=
  { s with slots := Function.update s.slots i e }

/-- The loop of `peek`. -/
def peekScan (s : ParkedEngineSet) : List Nat → Option Nat
  | [] => none
  | i :: rest =>
    if (s.slots i).state = .parked then some i
    else if (s.slots i).state = .unparked ∧ s.pool.lent i = false then none
    else peekScan s rest

/-- `peek`. -/
def peek (s : ParkedEngineSet) : Option Nat :=
  if s.closed then none else s.peekScan (List.range s.pool.users)

/-- `take`. -/
def take (s : ParkedEngineSet) : Call ParkedEngineSet (Option Nat) :=
  if s.closed then Call.throw s (.valueError "The parked engines are closed")
  else
    match s.peek with
    | none => Call.ret s none
    | some i => Call.ret (s.setSlot i { s.slots i with state := .serving }) (some i)

/-- `device.close()`: the slot that a device holds goes back to the pool. -/
def closeDevice (s : ParkedEngineSet) : Option Nat → Call ParkedEngineSet Unit
  | none => Call.ret s ()
  | some slot => (s.pool.release slot).onto fun pool => { s with pool }

/-- `unpark`. -/
def unpark (s : ParkedEngineSet) (i : Nat) : Call ParkedEngineSet Unit :=
  (s.setSlot i { s.slots i with device := none, state := .unparked }).closeDevice (s.slots i).device

/-- `park_engine`, with what `engine.park()` answers. -/
def parkEngine (s : ParkedEngineSet) (i : Nat) (engine : Option String) : Call ParkedEngineSet Unit :=
  Call.attempt (raiseIf ((s.slots i).state ≠ .serving ∨ s.pool.users ≤ i)
    (.valueError "Only a serving slot of this set can park")) s fun () =>
  if s.fault ∧ s.faulted = false ∧ (s.slots i).unfit = none then
    Call.ret ({ s with faulted := true }.setSlot i { s.slots i with refusal := some FAULT_REASON }) ()
  else Call.ret (s.setSlot i { s.slots i with refusal := (s.slots i).unfit.or engine }) ()

/-- `park_drafter`, with what `park_device` answers. -/
def parkDrafter (s : ParkedEngineSet) (i : Nat) (device : Option String) : Call ParkedEngineSet (Option String) :=
  Call.attempt (raiseIf ((s.slots i).state ≠ .serving ∨ s.pool.users ≤ i)
    (.valueError "Only a serving slot of this set can park")) s fun () =>
  match (s.slots i).refusal.or device with
  | none => Call.ret (s.setSlot i { s.slots i with refusal := none, unfit := none, state := .parked }) none
  | some reason =>
    ((s.setSlot i { s.slots i with refusal := none, unfit := none }).unpark i).map fun () => some reason

/-- `build_slot`: the device takes the pool's first slot, and gives it back where the build fails. -/
def buildSlot (s : ParkedEngineSet) (i : Nat) (fails : Option PyError) : Call ParkedEngineSet Unit :=
  Call.attempt (raiseIf (s.pool.lent i = true ∨ (s.slots i).state ≠ .unparked)
    (.valueError ("Pool slot " ++ toString i ++ " must be free to park an engine on it"))) s fun () =>
  (s.pool.acquire.onto fun pool => { s with pool }).bind fun s slot =>
    if slot ≠ i then
      (s.closeDevice (some slot)).bind fun s () => Call.throw s (.valueError ("The synthetic device for pool slot " ++
        toString i ++ " was lent slot " ++ toString slot))
    else
      match fails with
      | some e => (s.closeDevice (some slot)).bind fun s () => Call.throw s e
      | none => Call.ret (s.setSlot i { s.slots i with device := some slot, state := .parked }) ()

/-- The loop of `build`. -/
def buildScan (env : BuildEnv) : ParkedEngineSet → List Nat → Call ParkedEngineSet Unit
  | s, [] => Call.ret s ()
  | s, i :: rest =>
    if env.short i then Call.ret s () else (s.buildSlot i (env.fails i)).bind fun s () => buildScan env s rest

/-- `build`. -/
def build (s : ParkedEngineSet) (env : BuildEnv) : Call ParkedEngineSet Unit :=
  buildScan env s (List.range s.pool.users)

/-- The loop of `repark_idle`. -/
def reparkScan (env : BuildEnv) : ParkedEngineSet → List Nat → ParkedEngineSet
  | s, [] => s
  | s, i :: rest =>
    if (s.slots i).state ≠ .unparked ∨ s.pool.lent i = true then reparkScan env s rest
    else if env.short i then s
    else
      match (s.buildSlot i (env.fails i)).result with
      | .error _ => (s.buildSlot i (env.fails i)).obj
      | .ok () => reparkScan env (s.buildSlot i (env.fails i)).obj rest

/-- `repark_idle`. -/
def reparkIdle (s : ParkedEngineSet) (env : BuildEnv) : ParkedEngineSet :=
  reparkScan env s (List.range s.pool.users)

end ParkedEngineSet

/-! ## The two servers -/

/-- What a request holds with parked engines on: a parked engine's slot, or the slot of its own build. -/
inductive Holding
  | parked (slot : Nat)
  | built (slot : Nat)
  deriving DecidableEq, Repr

/-- The slot. -/
def Holding.slot : Holding → Nat
  | .parked slot => slot
  | .built slot => slot

/-- Arrivals, in order of which they are numbered, their finishes, a page binding that fails, and idle moments. -/
inductive SlotEvent
  | arrive
  | unfit (request : Nat) (reason : String)
  | finish (request : Nat) (engine device : Option String)
  | idle (env : BuildEnv)

/-- The server with parked engines: what each arrival holds. -/
structure ParkedServer where
  set : ParkedEngineSet
  holds : Nat → Option Holding
  arrivals : Nat

/-- The server without. -/
structure PoolServer where
  pool : ServingBufferPool
  holds : Nat → Option Nat
  arrivals : Nat

namespace ParkedServer

/-- The slot of an arrival: `take`, or the `acquire` of today's build. -/
def giveSlot (s : ParkedEngineSet) : Call ParkedEngineSet Holding :=
  s.take.bind fun s entry =>
    match entry with
    | some i => Call.ret s (.parked i)
    | none => (s.pool.acquire.onto fun pool => { s with pool }).map .built

/-- The close of a request: its engine and device are parked, or closed. -/
def closeSlot (s : ParkedEngineSet) (engine device : Option String) : Holding → ParkedEngineSet
  | .parked i => ((s.parkEngine i engine).bind fun s () => s.parkDrafter i device).obj
  | .built i => (s.closeDevice (some i)).obj

/-- One event, and the slot that an arrival is given. -/
def step (w : ParkedServer) : SlotEvent → ParkedServer × Option (Except PyError Nat)
  | .arrive =>
    (⟨(giveSlot w.set).obj, Function.update w.holds w.arrivals (giveSlot w.set).result.toOption, w.arrivals + 1⟩,
      some ((giveSlot w.set).result.map Holding.slot))
  | .unfit request reason =>
    match w.holds request with
    | some (.parked i) =>
      ({ w with set := w.set.setSlot i { w.set.slots i with unfit := some reason } }, none)
    | _ => (w, none)
  | .finish request engine device =>
    match w.holds request with
    | none => (w, none)
    | some held =>
      ({ w with set := closeSlot w.set engine device held, holds := Function.update w.holds request none }, none)
  | .idle env => ({ w with set := w.set.reparkIdle env }, none)

end ParkedServer

namespace PoolServer

/-- One event, and the slot that an arrival is given. -/
def step (w : PoolServer) : SlotEvent → PoolServer × Option (Except PyError Nat)
  | .arrive =>
    (⟨w.pool.acquire.obj, Function.update w.holds w.arrivals w.pool.acquire.result.toOption, w.arrivals + 1⟩,
      some w.pool.acquire.result)
  | .unfit _ _ => (w, none)
  | .finish request _ _ =>
    match w.holds request with
    | none => (w, none)
    | some i => ({ w with pool := (w.pool.release i).obj, holds := Function.update w.holds request none }, none)
  | .idle _ => (w, none)

end PoolServer

/-! ## The free slots -/

namespace ParkedEngineSet

/-- A slot that the next arrival may be given: it is parked, or the pool's. -/
def free (s : ParkedEngineSet) (i : Nat) : Bool :=
  (s.slots i).state = .parked || (s.slots i).state = .unparked && !s.pool.lent i

/-- A slot that is parked or serving is lent to its own device. -/
structure SoundAt (s : ParkedEngineSet) (i : Nat) : Prop where
  live : (s.slots i).state ≠ .closed
  lent : (s.slots i).state ≠ .unparked → s.pool.lent i = true
  device : (s.slots i).state ≠ .unparked → (s.slots i).device = some i
  within : s.pool.lent i = true → i < s.pool.users

/-- The set and its pool are open, and its slots sound. -/
structure Sound (s : ParkedEngineSet) : Prop where
  opened : s.closed = false
  pool : s.pool.closed = false
  each : ∀ i, s.SoundAt i

/-- Nothing but a slot changes. -/
structure Touches (i : Nat) (s s' : ParkedEngineSet) : Prop where
  closed : s'.closed = s.closed
  poolClosed : s'.pool.closed = s.pool.closed
  users : s'.pool.users = s.pool.users
  slots : ∀ j, j ≠ i → s'.slots j = s.slots j
  lent : ∀ j, j ≠ i → s'.pool.lent j = s.pool.lent j

variable {s s' : ParkedEngineSet} {i : Nat}

theorem Sound.start (users : Nat) (fault : Bool) : Sound (.start users fault) :=
  ⟨rfl, rfl, fun _ => ⟨fun h => (nomatch h), fun h => absurd rfl h, fun h => absurd rfl h, fun h => (nomatch h)⟩⟩

/-- A slot that is not free is lent. -/
theorem Sound.lent_of_busy (h : s.Sound) (hbusy : s.free i = false) : s.pool.lent i = true := by
  by_cases hstate : (s.slots i).state = .unparked
  · simpa [free, hstate] using hbusy
  · exact (h.each i).lent hstate

theorem Touches.free_of_ne (ht : Touches i s s') {j : Nat} (hj : j ≠ i) : s'.free j = s.free j := by
  rw [free, free, ht.slots j hj, ht.lent j hj]

/-- A set of which one slot changed is sound where that slot is. -/
theorem Touches.sound (ht : Touches i s s') (h : s.Sound) (hi : s'.SoundAt i) : s'.Sound := by
  refine ⟨ht.closed.trans h.opened, ht.poolClosed.trans h.pool, fun j => ?_⟩
  by_cases hj : j = i
  · exact hj ▸ hi
  · obtain ⟨hlive, hlent, hdevice, hwithin⟩ := h.each j
    rw [← ht.slots j hj] at hlive hlent hdevice
    rw [← ht.lent j hj] at hlent hwithin
    exact ⟨hlive, hlent, hdevice, ht.users ▸ hwithin⟩

/-- Only the entry of a slot changes. -/
theorem touches_setSlot (s : ParkedEngineSet) (i : Nat) (e : ParkedSlot) : Touches i s (s.setSlot i e) :=
  ⟨rfl, rfl, rfl, fun _ hj => Function.update_of_ne hj .., fun _ _ => rfl⟩

@[simp] theorem setSlot_self (s : ParkedEngineSet) (i : Nat) (e : ParkedSlot) : (s.setSlot i e).slots i = e :=
  Function.update_self ..

@[simp] theorem setSlot_pool (s : ParkedEngineSet) (i : Nat) (e : ParkedSlot) : (s.setSlot i e).pool = s.pool := rfl

theorem Touches.trans {s'' : ParkedEngineSet} (ht : Touches i s s') (ht' : Touches i s' s'') : Touches i s s'' :=
  ⟨ht'.closed.trans ht.closed, ht'.poolClosed.trans ht.poolClosed, ht'.users.trans ht.users,
    fun j hj => (ht'.slots j hj).trans (ht.slots j hj), fun j hj => (ht'.lent j hj).trans (ht.lent j hj)⟩

/-- The loop of `peek` stops at the first free slot. -/
theorem Sound.peekScan_eq (h : s.Sound) (l : List Nat) :
    s.peekScan l = (l.find? s.free).filter fun i => (s.slots i).state = .parked := by
  induction l with
  | nil => rfl
  | cons i rest ih =>
    rw [peekScan, List.find?_cons]
    cases hstate : (s.slots i).state with
    | parked => simp [free, hstate, Option.filter]
    | closed => exact absurd hstate (h.each i).live
    | serving => simp [free, hstate, ih]
    | unparked => cases hlent : s.pool.lent i <;> simp [free, hstate, hlent, ih, Option.filter]

/-- Where the first free slot is not parked, the pool lends it. -/
theorem Sound.find_lent (h : s.Sound) (l : List Nat)
    (hfirst : ∀ i, l.find? s.free = some i → (s.slots i).state ≠ .parked) :
    (l.find? fun i => !s.pool.lent i) = l.find? s.free := by
  induction l with
  | nil => rfl
  | cons i rest ih =>
    rw [List.find?_cons, List.find?_cons]
    cases hfree : s.free i with
    | false =>
      rw [h.lent_of_busy hfree]
      exact ih fun j hj => hfirst j (by rw [List.find?_cons, hfree]; exact hj)
    | true =>
      have hparked := hfirst i (by rw [List.find?_cons, hfree])
      have hlent : s.pool.lent i = false := by
        simp only [free, hparked, decide_false, Bool.false_or, Bool.and_eq_true, Bool.not_eq_true'] at hfree
        exact hfree.2
      rw [hlent]
      rfl

end ParkedEngineSet

/-! ## The pool's calls -/

namespace ServingBufferPool

variable {p : ServingBufferPool} {i : Nat}

theorem acquire_none (hopen : p.closed = false) (h : (List.range p.users).find? (fun i => !p.lent i) = none) :
    p.acquire = Call.throw p p.full := by
  rw [acquire, hopen, if_neg Bool.false_ne_true, h]

theorem acquire_some (hopen : p.closed = false) (h : (List.range p.users).find? (fun i => !p.lent i) = some i) :
    p.acquire = Call.ret { p with lent := Function.update p.lent i true } i := by
  rw [acquire, if_neg (by simp [hopen]), h]

theorem release_eq (hopen : p.closed = false) (hwithin : i < p.users) (hlent : p.lent i = true) :
    p.release i = Call.ret { p with lent := Function.update p.lent i false } () := by
  simp [release, raiseIf, hopen, hlent, Nat.not_le.mpr hwithin, bind, Except.bind]

/-- A slot that is lent and given back leaves the pool as it was. -/
theorem release_acquired (hopen : p.closed = false) (hwithin : i < p.users) (hlent : p.lent i = false) :
    { p with lent := Function.update p.lent i true }.release i = Call.ret p () := by
  rw [release_eq (p := { p with lent := Function.update p.lent i true }) hopen hwithin (Function.update_self ..)]
  simp [← hlent]

end ServingBufferPool

/-! ## The set's calls -/

/-- The slot of a live request: a parked engine that serves, or a loan to its own build. -/
def Holding.Serves (s : ParkedEngineSet) : Holding → Prop
  | .parked i => (s.slots i).state = .serving
  | .built i => (s.slots i).state = .unparked ∧ s.pool.lent i = true

theorem Holding.Serves.busy {s : ParkedEngineSet} {held : Holding} (h : held.Serves s) : s.free held.slot = false := by
  cases held with
  | parked i => simp [slot, ParkedEngineSet.free, show (s.slots i).state = .serving from h]
  | built i => simp [slot, ParkedEngineSet.free, h.1, h.2]

/-- A change that keeps its state and its loan leaves it serving. -/
theorem Holding.Serves.of_eq {s s' : ParkedEngineSet} {held : Holding} (h : held.Serves s)
    (hstate : (s'.slots held.slot).state = (s.slots held.slot).state)
    (hlent : s'.pool.lent held.slot = s.pool.lent held.slot) : held.Serves s' := by
  cases held with
  | parked i => exact hstate.trans h
  | built i => exact ⟨hstate.trans h.1, hlent.trans h.2⟩

namespace ParkedEngineSet

variable {s : ParkedEngineSet} {i : Nat}

/-- The next arrival's slot, with parked engines: the first that is free, where there is one. -/
theorem Sound.giveSlot_none (h : s.Sound) (hfirst : (List.range s.pool.users).find? s.free = none) :
    ParkedServer.giveSlot s = Call.throw s s.pool.full := by
  have hpeek : s.peek = none := by rw [peek, if_neg (by simp [h.opened]), h.peekScan_eq, hfirst]; rfl
  have hpool := ServingBufferPool.acquire_none h.pool ((h.find_lent _ fun i hi => by
    rw [hfirst] at hi; cases hi).trans hfirst)
  rw [ParkedServer.giveSlot, take, if_neg (by simp [h.opened]), hpeek]
  simp only [Call.bind_ret, hpool]
  rfl

theorem Sound.giveSlot_parked (h : s.Sound) (hfirst : (List.range s.pool.users).find? s.free = some i)
    (hstate : (s.slots i).state = .parked) :
    ParkedServer.giveSlot s = Call.ret (s.setSlot i { s.slots i with state := .serving }) (.parked i) := by
  have hpeek : s.peek = some i := by
    rw [peek, if_neg (by simp [h.opened]), h.peekScan_eq, hfirst]
    simp [Option.filter, hstate]
  rw [ParkedServer.giveSlot, take, if_neg (by simp [h.opened]), hpeek]
  rfl

theorem Sound.giveSlot_built (h : s.Sound) (hfirst : (List.range s.pool.users).find? s.free = some i)
    (hstate : (s.slots i).state ≠ .parked) :
    ParkedServer.giveSlot s =
      Call.ret { s with pool := { s.pool with lent := Function.update s.pool.lent i true } } (.built i) := by
  have hpeek : s.peek = none := by
    rw [peek, if_neg (by simp [h.opened]), h.peekScan_eq, hfirst]
    simp [Option.filter, hstate]
  have hpool := ServingBufferPool.acquire_some h.pool ((h.find_lent _ fun j hj => by
    rw [hfirst] at hj; cases hj; exact hstate).trans hfirst)
  rw [ParkedServer.giveSlot, take, if_neg (by simp [h.opened]), hpeek]
  simp only [Call.bind_ret, hpool]
  rfl

/-- Either way, the slot serves from now on, and nothing else changes. -/
theorem Sound.giveSlot_some (h : s.Sound) (hfirst : (List.range s.pool.users).find? s.free = some i) :
    ∃ s' held, ParkedServer.giveSlot s = Call.ret s' held ∧ held.slot = i ∧ Touches i s s' ∧ s'.SoundAt i ∧
      held.Serves s' := by
  have hi : i < s.pool.users := List.mem_range.mp (List.mem_of_find?_eq_some hfirst)
  have hfree : s.free i = true := List.find?_some hfirst
  by_cases hstate : (s.slots i).state = .parked
  · have hbusy : (s.slots i).state ≠ .unparked := by rw [hstate]; decide
    refine ⟨_, _, h.giveSlot_parked hfirst hstate, rfl, touches_setSlot .., ⟨?_, fun _ => (h.each i).lent hbusy,
      fun _ => ?_, fun _ => hi⟩, ?_⟩
    · simp
    · simpa using (h.each i).device hbusy
    · simp [Holding.Serves]
  · have hunparked : (s.slots i).state = .unparked := by
      simp only [free, hstate, decide_false, Bool.false_or, Bool.and_eq_true, decide_eq_true_eq] at hfree
      exact hfree.1
    exact ⟨_, _, h.giveSlot_built hfirst hstate, rfl,
      ⟨rfl, rfl, rfl, fun _ _ => rfl, fun j hj => Function.update_of_ne hj ..⟩,
      ⟨by simp [hunparked], fun hn => absurd hunparked hn, fun hn => absurd hunparked hn, fun _ => hi⟩,
      hunparked, Function.update_self ..⟩

/-- A build on a free, unparked slot parks an engine there, or leaves everything as it was. -/
theorem Sound.buildSlot_cases (h : s.Sound) (fails : Option PyError) (hstate : (s.slots i).state = .unparked)
    (hlent : s.pool.lent i = false) :
    (s.buildSlot i fails).obj = s ∨ i < s.pool.users ∧
      (s.buildSlot i fails).obj =
        { s with pool := { s.pool with lent := Function.update s.pool.lent i true } }.setSlot i
          { s.slots i with device := some i, state := .parked } := by
  have hguard : raiseIf (s.pool.lent i = true ∨ (s.slots i).state ≠ .unparked)
      (.valueError ("Pool slot " ++ toString i ++ " must be free to park an engine on it")) = .ok () := by
    rw [raiseIf_ok, hlent, hstate]; simp
  rw [buildSlot, hguard, Call.attempt_ok]
  cases hfirst : (List.range s.pool.users).find? fun i => !s.pool.lent i with
  | none =>
    rw [ServingBufferPool.acquire_none h.pool hfirst]
    exact .inl rfl
  | some j =>
    have hj : j < s.pool.users := List.mem_range.mp (List.mem_of_find?_eq_some hfirst)
    have hjlent : s.pool.lent j = false := by simpa using List.find?_some hfirst
    have hback := ServingBufferPool.release_acquired h.pool hj hjlent
    rw [ServingBufferPool.acquire_some h.pool hfirst]
    dsimp only [Call.onto, Call.ret, Call.bind]
    by_cases hsame : j = i
    · subst hsame
      rw [if_neg (by simp)]
      cases fails with
      | none => exact .inr ⟨hj, rfl⟩
      | some e =>
        left
        dsimp only [closeDevice]
        rw [hback]
        rfl
    · left
      rw [if_pos hsame]
      dsimp only [closeDevice]
      rw [hback]
      rfl

/-- A close of a request on a parked engine frees its slot: parked again, or back to the pool. -/
theorem Sound.closeSlot_parked (h : s.Sound) (hstate : (s.slots i).state = .serving) (engine device : Option String) :
    Touches i s (ParkedServer.closeSlot s engine device (.parked i)) ∧
      (ParkedServer.closeSlot s engine device (.parked i)).SoundAt i ∧
      (ParkedServer.closeSlot s engine device (.parked i)).free i = true := by
  have hbusy : (s.slots i).state ≠ .unparked := by rw [hstate]; decide
  have hlent := (h.each i).lent hbusy
  have hdevice := (h.each i).device hbusy
  have hwithin := (h.each i).within hlent
  -- the engine's half changes the refusal alone
  have hengine : ∃ (s₁ : ParkedEngineSet) (refusal : Option String), s.parkEngine i engine =
      Call.ret (s₁.setSlot i { s.slots i with refusal }) () ∧ s₁.pool = s.pool ∧ s₁.slots = s.slots ∧
        s₁.closed = s.closed := by
    rw [parkEngine, raiseIf, if_neg (by simp [hstate, hwithin]), Call.attempt_ok]
    split
    · exact ⟨{ s with faulted := true }, _, rfl, rfl, rfl, rfl⟩
    · exact ⟨s, _, rfl, rfl, rfl, rfl⟩
  obtain ⟨s₁, refusal, heq, hpool, hslots, hclosed⟩ := hengine
  have ht₁ : Touches i s (s₁.setSlot i { s.slots i with refusal }) :=
    ⟨hclosed, by simp [hpool], by simp [hpool], fun j hj => by simp [setSlot, hj, hslots],
      fun j _ => by simp [hpool]⟩
  rw [ParkedServer.closeSlot, heq, Call.bind_ret, parkDrafter, raiseIf, if_neg (by simp [hstate, hwithin, hpool]),
    Call.attempt_ok]
  split
  · refine ⟨ht₁.trans (touches_setSlot ..), ⟨?_, fun _ => ?_, fun _ => ?_, fun _ => ?_⟩, ?_⟩
    · simp
    · simpa [hpool] using hlent
    · simpa using hdevice
    · simpa [hpool] using hwithin
    · simp [free]
  · -- the device gives the slot back
    have hrelease := ServingBufferPool.release_eq (p := s.pool) h.pool hwithin hlent
    simp only [Call.map, unpark, setSlot_self, setSlot_pool, hdevice, closeDevice, hpool, hrelease, Call.onto,
      Call.ret]
    refine ⟨⟨hclosed, rfl, rfl, fun j hj => ?_, fun j hj => ?_⟩, ⟨?_, fun hn => ?_, fun hn => ?_, fun hn => ?_⟩, ?_⟩
    · simp [setSlot, hj, hslots]
    · simp [hj]
    · simp [setSlot]
    · simp [setSlot] at hn
    · simp [setSlot] at hn
    · simp at hn
    · simp [free, setSlot]

/-- A close of a request with its own build gives the slot back. -/
theorem Sound.closeSlot_built (h : s.Sound) (hstate : (s.slots i).state = .unparked) (hlent : s.pool.lent i = true)
    (engine device : Option String) :
    Touches i s (ParkedServer.closeSlot s engine device (.built i)) ∧
      (ParkedServer.closeSlot s engine device (.built i)).SoundAt i ∧
      (ParkedServer.closeSlot s engine device (.built i)).free i = true := by
  have hrelease := ServingBufferPool.release_eq (p := s.pool) h.pool ((h.each i).within hlent) hlent
  rw [ParkedServer.closeSlot, closeDevice, hrelease]
  refine ⟨⟨rfl, rfl, rfl, fun _ _ => rfl, fun j hj => Function.update_of_ne hj ..⟩,
    ⟨by simp [Call.onto, Call.ret, hstate], fun hn => absurd hstate hn, fun hn => absurd hstate hn, fun hn => ?_⟩, ?_⟩
  · simp [Call.onto, Call.ret] at hn
  · simp [free, Call.onto, Call.ret, hstate]

/-! ## The idle moments -/

/-- The free slots are the same, and the others are in the same state and lent as before. -/
structure Keeps (s s' : ParkedEngineSet) : Prop where
  sound : s'.Sound
  users : s'.pool.users = s.pool.users
  free : ∀ i, s'.free i = s.free i
  busy : ∀ i, s.free i = false → (s'.slots i).state = (s.slots i).state ∧ s'.pool.lent i = s.pool.lent i

theorem Keeps.refl (h : s.Sound) : Keeps s s := ⟨h, rfl, fun _ => rfl, fun _ _ => ⟨rfl, rfl⟩⟩

theorem Keeps.trans {s'' : ParkedEngineSet} (h : Keeps s s') (h' : Keeps s' s'') : Keeps s s'' := by
  refine ⟨h'.sound, h'.users.trans h.users, fun i => (h'.free i).trans (h.free i), fun i hi => ?_⟩
  obtain ⟨hstate, hlent⟩ := h.busy i hi
  obtain ⟨hstate', hlent'⟩ := h'.busy i ((h.free i).trans hi)
  exact ⟨hstate'.trans hstate, hlent'.trans hlent⟩

/-- A build keeps the free slots: the slot that it parks was the pool's. -/
theorem Sound.keeps_buildSlot (h : s.Sound) (i : Nat) (fails : Option PyError) :
    Keeps s (s.buildSlot i fails).obj := by
  by_cases hguard : s.pool.lent i = true ∨ (s.slots i).state ≠ .unparked
  · rw [buildSlot, raiseIf, if_pos hguard]
    exact .refl h
  rw [not_or, not_not, Bool.not_eq_true] at hguard
  obtain ⟨hlent, hstate⟩ := hguard
  rcases h.buildSlot_cases fails hstate hlent with heq | ⟨hi, heq⟩ <;> rw [heq]
  · exact .refl h
  have ht : Touches i s ({ s with pool := { s.pool with lent := Function.update s.pool.lent i true } }.setSlot i
      { s.slots i with device := some i, state := .parked }) :=
    ⟨rfl, rfl, rfl, fun j hj => by simp [setSlot, hj], fun j hj => by simp [hj]⟩
  have hfree : s.free i = true := by simp [ParkedEngineSet.free, hstate, hlent]
  refine ⟨ht.sound h ⟨by simp, fun _ => by simp, fun _ => by simp, fun _ => hi⟩, rfl, fun j => ?_, fun j hj => ?_⟩
  · by_cases hj : j = i
    · subst hj; simp [ParkedEngineSet.free, hstate, hlent]
    · exact ht.free_of_ne hj
  · have hne : j ≠ i := fun heq => by rw [heq, hfree] at hj; cases hj
    exact ⟨congrArg _ (ht.slots j hne), ht.lent j hne⟩

/-- **An idle moment keeps the free slots.** -/
theorem Sound.keeps_reparkScan (env : BuildEnv) (l : List Nat) (h : s.Sound) : Keeps s (reparkScan env s l) := by
  induction l generalizing s with
  | nil => exact .refl h
  | cons i rest ih =>
    unfold reparkScan
    split
    · exact ih h
    split
    · exact .refl h
    have hkeeps := h.keeps_buildSlot i (env.fails i)
    split
    · exact hkeeps
    · exact hkeeps.trans (ih hkeeps.sound)

/-- A mark on a slot keeps them too. -/
theorem Sound.keeps_unfit (h : s.Sound) (i : Nat) (reason : String) :
    Keeps s (s.setSlot i { s.slots i with unfit := some reason }) := by
  have hstate : ∀ j, ((s.setSlot i { s.slots i with unfit := some reason }).slots j).state = (s.slots j).state := by
    intro j
    by_cases hj : j = i
    · subst hj; simp
    · simp [setSlot, hj]
  obtain ⟨hlive, hlent, hdevice, hwithin⟩ := h.each i
  refine ⟨(touches_setSlot ..).sound h ⟨?_, ?_, ?_, hwithin⟩, rfl, fun j => ?_, fun j _ => ⟨hstate j, rfl⟩⟩
  · simpa using hlive
  · simpa using hlent
  · simpa using hdevice
  · rw [ParkedEngineSet.free, ParkedEngineSet.free, hstate j, setSlot_pool]

/-- So does the build at the attach. -/
theorem Sound.keeps_buildScan (env : BuildEnv) (l : List Nat) (h : s.Sound) : Keeps s (buildScan env s l).obj := by
  induction l generalizing s with
  | nil => exact .refl h
  | cons i rest ih =>
    rw [buildScan]
    split
    · exact .refl h
    have hkeeps := h.keeps_buildSlot i (env.fails i)
    rcases Call.bind_cases (s.buildSlot i (env.fails i)) _ with ⟨e, -, hb⟩ | ⟨_, -, hb⟩ <;> rw [hb]
    · exact hkeeps
    · exact hkeeps.trans (ih hkeeps.sound)

end ParkedEngineSet

/-! ## The two servers agree -/

/-- To the pool without parked engines, a slot is lent while it is not free. -/
structure Agree (w : ParkedServer) (v : PoolServer) : Prop where
  sound : w.set.Sound
  opened : v.pool.closed = false
  users : v.pool.users = w.set.pool.users
  lent : ∀ i, v.pool.lent i = !w.set.free i
  arrivals : v.arrivals = w.arrivals
  holds : ∀ r, v.holds r = (w.holds r).map Holding.slot
  serves : ∀ r held, w.holds r = some held → held.Serves w.set
  distinct : ∀ r r' held held', w.holds r = some held → w.holds r' = some held' → held.slot = held'.slot → r = r'
  fresh : ∀ r, w.arrivals ≤ r → w.holds r = none

namespace Agree

variable {w : ParkedServer} {v : PoolServer}

theorem within (h : Agree w v) {i : Nat} (hbusy : w.set.free i = false) : i < w.set.pool.users :=
  (h.sound.each i).within (h.sound.lent_of_busy hbusy)

/-- A change of the set that keeps the free slots. -/
theorem set (h : Agree w v) {s : ParkedEngineSet} (hs : w.set.Keeps s) : Agree { w with set := s } v where
  sound := hs.sound
  opened := h.opened
  users := h.users.trans hs.users.symm
  lent := fun i => (h.lent i).trans (congrArg _ (hs.free i).symm)
  arrivals := h.arrivals
  holds := h.holds
  serves := fun r held hr =>
    (h.serves r held hr).of_eq (hs.busy _ (h.serves r held hr).busy).1 (hs.busy _ (h.serves r held hr).busy).2
  distinct := h.distinct
  fresh := h.fresh

/-- An arrival takes a slot that was free. -/
theorem given (h : Agree w v) {i : Nat} (hfree : w.set.free i = true) {s : ParkedEngineSet} {held : Holding}
    (hslot : held.slot = i) (ht : w.set.Touches i s) (hi : s.SoundAt i) (hserves : held.Serves s) :
    Agree ⟨s, Function.update w.holds w.arrivals (some held), w.arrivals + 1⟩
      ⟨{ v.pool with lent := Function.update v.pool.lent i true }, Function.update v.holds v.arrivals (some i),
        v.arrivals + 1⟩ := by
  have hbusy : s.free i = false := hslot ▸ hserves.busy
  -- no live request holds the slot yet
  have hother : ∀ r held', w.holds r = some held' → held'.slot ≠ i := fun r held' hr heq => by
    have := (h.serves r held' hr).busy
    rw [heq, hfree] at this
    cases this
  refine ⟨ht.sound h.sound hi, h.opened, h.users.trans ht.users.symm, fun j => ?_, congrArg (· + 1) h.arrivals,
    fun r => ?_, fun r held' hr => ?_, fun r r' held₁ held₂ hr hr' heq => ?_, fun r hr => ?_⟩
  · by_cases hj : j = i
    · subst hj; simp [hbusy]
    · dsimp only
      rw [Function.update_of_ne hj, h.lent, ht.free_of_ne hj]
  · dsimp only
    rw [h.arrivals]
    by_cases hr : r = w.arrivals
    · subst hr; simp [hslot]
    · rw [Function.update_of_ne hr, Function.update_of_ne hr, h.holds]
  · dsimp only at hr
    by_cases hnew : r = w.arrivals
    · subst hnew
      rw [Function.update_self] at hr
      cases hr
      exact hserves
    · rw [Function.update_of_ne hnew] at hr
      have hne := hother r held' hr
      exact (h.serves r held' hr).of_eq (congrArg _ (ht.slots _ hne)) (ht.lent _ hne)
  · dsimp only at hr hr'
    by_cases hnew : r = w.arrivals <;> by_cases hnew' : r' = w.arrivals
    · rw [hnew, hnew']
    · subst hnew
      rw [Function.update_self] at hr
      rw [Function.update_of_ne hnew'] at hr'
      cases hr
      exact absurd (heq.symm.trans hslot) (hother r' held₂ hr')
    · subst hnew'
      rw [Function.update_self] at hr'
      rw [Function.update_of_ne hnew] at hr
      cases hr'
      exact absurd (heq.trans hslot) (hother r held₁ hr)
    · rw [Function.update_of_ne hnew] at hr
      rw [Function.update_of_ne hnew'] at hr'
      exact h.distinct r r' held₁ held₂ hr hr' heq
  · dsimp only at hr ⊢
    rw [Function.update_of_ne (by omega)]
    exact h.fresh r (by omega)

/-- **An arrival is given the same slot**, or is refused on both sides. -/
theorem arrive (h : Agree w v) :
    (ParkedServer.step w .arrive).2 = (PoolServer.step v .arrive).2 ∧
      Agree (ParkedServer.step w .arrive).1 (PoolServer.step v .arrive).1 := by
  have hfind : (List.range v.pool.users).find? (fun i => !v.pool.lent i) =
      (List.range w.set.pool.users).find? w.set.free := by
    rw [h.users]
    congr 1
    funext i
    rw [h.lent, Bool.not_not]
  cases hfirst : (List.range w.set.pool.users).find? w.set.free with
  | none =>
    have hpool := ServingBufferPool.acquire_none h.opened (hfind.trans hfirst)
    have hgive := h.sound.giveSlot_none hfirst
    have hfull : v.pool.full = w.set.pool.full := by rw [ServingBufferPool.full, ServingBufferPool.full, h.users]
    have hnone : w.holds w.arrivals = none := h.fresh _ le_rfl
    have hnone' : v.holds v.arrivals = none := by rw [h.holds, h.arrivals, hnone]; rfl
    simp only [ParkedServer.step, PoolServer.step, hpool, hgive, Call.throw, Except.toOption, Except.map, hfull]
    have hw : Function.update w.holds w.arrivals none = w.holds := by rw [← hnone, Function.update_eq_self]
    have hv : Function.update v.holds v.arrivals none = v.holds := by rw [← hnone', Function.update_eq_self]
    rw [hw, hv]
    exact ⟨trivial, h.sound, h.opened, h.users, h.lent, congrArg (· + 1) h.arrivals, h.holds, h.serves, h.distinct,
      fun r hr => h.fresh r (Nat.le_of_succ_le hr)⟩
  | some i =>
    have hpool := ServingBufferPool.acquire_some h.opened (hfind.trans hfirst)
    have hfree : w.set.free i = true := List.find?_some hfirst
    obtain ⟨s, held, hgive, hslot, ht, hi, hserves⟩ := h.sound.giveSlot_some hfirst
    simp only [ParkedServer.step, PoolServer.step, hpool, hgive, Call.ret, Except.toOption, Except.map, hslot]
    exact ⟨trivial, h.given hfree hslot ht hi hserves⟩

/-- **A finish frees the same slot.** -/
theorem finish (h : Agree w v) (request : Nat) (engine device : Option String) :
    Agree (ParkedServer.step w (.finish request engine device)).1
      (PoolServer.step v (.finish request engine device)).1 := by
  cases hheld : w.holds request with
  | none =>
    have hnone : v.holds request = none := by rw [h.holds, hheld]; rfl
    simpa only [ParkedServer.step, PoolServer.step, hheld, hnone] using h
  | some held =>
    have hsome : v.holds request = some held.slot := by rw [h.holds, hheld]; rfl
    have hbusy := (h.serves request held hheld).busy
    obtain ⟨ht, hi, hfree⟩ : w.set.Touches held.slot (ParkedServer.closeSlot w.set engine device held) ∧
        (ParkedServer.closeSlot w.set engine device held).SoundAt held.slot ∧
        (ParkedServer.closeSlot w.set engine device held).free held.slot = true := by
      cases held with
      | parked i => exact h.sound.closeSlot_parked (h.serves request _ hheld) engine device
      | built i => exact h.sound.closeSlot_built (h.serves request _ hheld).1 (h.serves request _ hheld).2 engine device
    have hrelease := ServingBufferPool.release_eq (p := v.pool) h.opened (h.users ▸ h.within hbusy)
      (by rw [h.lent, hbusy]; rfl)
    simp only [ParkedServer.step, PoolServer.step, hheld, hsome, hrelease, Call.ret]
    -- the other live requests hold other slots
    have hother : ∀ r held', r ≠ request → w.holds r = some held' → held'.slot ≠ held.slot := fun r held' hne hr heq =>
      hne (h.distinct r request held' held hr hheld heq)
    refine ⟨ht.sound h.sound hi, h.opened, h.users.trans ht.users.symm, fun j => ?_, h.arrivals, fun r => ?_,
      fun r held' hr => ?_, fun r r' held₁ held₂ hr hr' heq => ?_, fun r hr => ?_⟩
    · by_cases hj : j = held.slot
      · subst hj; simp [hfree]
      · dsimp only
        rw [Function.update_of_ne hj, h.lent, ht.free_of_ne hj]
    · by_cases hr : r = request
      · subst hr; simp
      · dsimp only
        rw [Function.update_of_ne hr, Function.update_of_ne hr, h.holds]
    · by_cases hsame : r = request
      · subst hsame; simp at hr
      · dsimp only at hr
        rw [Function.update_of_ne hsame] at hr
        have hne := hother r held' hsame hr
        exact (h.serves r held' hr).of_eq (congrArg _ (ht.slots _ hne)) (ht.lent _ hne)
    · dsimp only at hr hr'
      by_cases hsame : r = request
      · subst hsame; simp at hr
      by_cases hsame' : r' = request
      · subst hsame'; simp at hr'
      rw [Function.update_of_ne hsame] at hr
      rw [Function.update_of_ne hsame'] at hr'
      exact h.distinct r r' held₁ held₂ hr hr' heq
    · by_cases hsame : r = request
      · subst hsame; simp
      · dsimp only
        rw [Function.update_of_ne hsame]
        exact h.fresh r hr

/-- A failed page binding marks a slot, and changes nothing else. -/
theorem unfit (h : Agree w v) (request : Nat) (reason : String) :
    Agree (ParkedServer.step w (.unfit request reason)).1 v := by
  cases hheld : w.holds request with
  | none => simpa only [ParkedServer.step, hheld] using h
  | some held =>
    cases held with
    | built i => simpa only [ParkedServer.step, hheld] using h
    | parked i =>
      simp only [ParkedServer.step, hheld]
      exact h.set (h.sound.keeps_unfit i reason)

/-- **A step on both sides.** -/
theorem step (h : Agree w v) (e : SlotEvent) :
    (ParkedServer.step w e).2 = (PoolServer.step v e).2 ∧ Agree (ParkedServer.step w e).1 (PoolServer.step v e).1 := by
  cases e with
  | arrive => exact h.arrive
  | unfit request reason =>
    refine ⟨?_, h.unfit request reason⟩
    rcases hheld : w.holds request with _ | _ | _ <;> simp [ParkedServer.step, PoolServer.step, hheld]
  | finish request engine device =>
    refine ⟨?_, h.finish request engine device⟩
    have hboth := h.holds request
    cases hheld : w.holds request <;> simp [ParkedServer.step, PoolServer.step, hheld, hboth]
  | idle env => exact ⟨rfl, h.set (h.sound.keeps_reparkScan env _)⟩

end Agree

/-- The server with parked engines once attached: a build, as far as the readings let it. -/
def ParkedServer.attached (users : Nat) (fault : Bool) (env : BuildEnv) : ParkedServer :=
  ⟨((ParkedEngineSet.start users fault).build env).obj, fun _ => none, 0⟩

/-- The server without, once attached. -/
def PoolServer.attached (users : Nat) : PoolServer := ⟨.start users, fun _ => none, 0⟩

theorem Agree.attached (users : Nat) (fault : Bool) (env : BuildEnv) :
    Agree (.attached users fault env) (.attached users) := by
  have hkeeps := (ParkedEngineSet.Sound.start users fault).keeps_buildScan env (List.range users)
  refine ⟨hkeeps.sound, rfl, hkeeps.users.symm, fun i => ?_, rfl, fun _ => rfl, fun _ _ hr => (nomatch hr),
    fun _ _ _ _ hr => (nomatch hr), fun _ _ => rfl⟩
  exact (congrArg (!·) (hkeeps.free i)).symm

/-- **Parked engines give every arrival the slot that the pool would.** From the attached servers, whatever arrives,
finishes, cannot park or is built again at an idle moment: the arrivals are given the same slots, and are refused for
want of one, on both sides alike; and no two live requests hold one slot. -/
theorem parked_slots_agree (users : Nat) (fault : Bool) (env : BuildEnv) (events : List SlotEvent) :
    (answers ParkedServer.step (.attached users fault env) events).1 =
        (answers PoolServer.step (.attached users) events).1 ∧
      ∀ r r' held held', (answers ParkedServer.step (.attached users fault env) events).2.holds r = some held →
        (answers ParkedServer.step (.attached users fault env) events).2.holds r' = some held' →
        held.slot = held'.slot → r = r' := by
  obtain ⟨hanswers, hend⟩ := answers_lockstep (R := Agree) (fun _ _ e h => h.step e) (.attached users fault env) events
  exact ⟨hanswers, hend.distinct⟩

/-- Slot 0 cannot park after its first request, serves the third with a build of its own, and is parked again at an
idle moment. -/
example : (answers ParkedServer.step (.attached 2 false ⟨fun _ => false, fun _ => none⟩)
    [.arrive, .arrive, .finish 0 (some "poisoned") none, .arrive, .arrive, .finish 2 none none,
      .idle ⟨fun _ => false, fun _ => none⟩, .arrive]).1 =
    [some (.ok 0), some (.ok 1), none, some (.ok 0), some (.error (ServingBufferPool.start 2).full), none, none,
      some (.ok 0)] := rfl

end BlackholeQwen.Serving
