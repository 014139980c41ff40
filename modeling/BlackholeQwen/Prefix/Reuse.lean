import BlackholeQwen.Lib.Runs
import BlackholeQwen.Prefix.Sound

/-!
# Prefix reuse equals a cold prefill

Whole histories of an engine: requests arrive, grow and leave; the scheduler begins steps, tries admissions under any
block hashes, caps, evicts, commits and resets; the model prefills rows.

* `World`, `Event`, `Step`: the engine's host state and what can happen to it, in any order;
* `World.Trusted`: the registry is sound for the live requests (`Step.trusted`, one case for each event);
* `prefix_reuse_exact`: in every history, the entries, the committed grants and the prefilled rows are exact.
-/

namespace BlackholeQwen.Prefix

open Lib

variable {κ τ : Type} [DecidableEq κ]

/-- The engine's host state: the scheduler's side, the request objects by handle, how many arrived, and the handles of
the live ones by id. -/
structure World (κ τ : Type) where
  scheduler : Scheduler κ τ
  requests : Nat → Request
  arrivals : Nat
  live : Dict String Nat

namespace World

/-- `request.all_token_ids`. -/
def tokensOf (w : World κ τ) (handle : Nat) : List Token := (w.requests handle).allTokenIds

/-- An engine before its first request. -/
def init (budgetBytes : Nat) (midLoopCapture : Bool) : World κ τ :=
  ⟨⟨Registry.init budgetBytes midLoopCapture, false⟩, fun _ => default, 0, Dict.empty⟩

/-- A request object changed. -/
def setRequest (w : World κ τ) (handle : Nat) (request : Request) : World κ τ :=
  { w with requests := fun i => if i = handle then request else w.requests i }

/-- A request object arrived. -/
def arrive (w : World κ τ) (request : Request) : World κ τ :=
  { w.setRequest w.arrivals request with
    arrivals := w.arrivals + 1
    live := w.live.set request.requestId w.arrivals }

end World

/-- What can happen to an engine. -/
inductive Event (κ τ : Type)
  | arrive (request : Request)
  | append (id : String) (tokens : List Token)
  | reuse (handle : Nat) (request : Request)
  | declareMidLoop
  | beginStep
  | attempt (id : String) (hashes : List κ) (group : List Nat) (h : Nat) (flag : Bool)
  | cap (newlyCached : List Nat)
  | evict (evicted : Bool) (keys : List κ) (cached : κ → Bool)
  | commit (output : SchedulerGraft.Output)
  | reset (result : Bool)
  | free (id : String)
  | prefill (reads : Nat → Nat → Option Nat) (scratch : Gdn τ) (rows : List RowInput)

/-- An event. A request arrives under an id that is not live, its tokens only grow while it is live (`reuse` is what may
happen to the object of one that is not), and a prefilled row carries its live request's tokens. Calls may raise. -/
inductive Step (d : Device τ) (g : SchedulerGraft) : World κ τ → Event κ τ → World κ τ → Prop
  | arrive {w : World κ τ} {request : Request} : w.live.get? request.requestId = none →
      Step d g w (.arrive request) (w.arrive request)
  | append {w : World κ τ} {id : String} {handle : Nat} {tokens : List Token} : w.live.get? id = some handle →
      Step d g w (.append id tokens) (w.setRequest handle
        { w.requests handle with allTokenIds := (w.requests handle).allTokenIds ++ tokens })
  | reuse {w : World κ τ} {handle : Nat} {request : Request} : (∀ p ∈ w.live.items, p.2 ≠ handle) →
      Step d g w (.reuse handle request) (w.setRequest handle request)
  | declareMidLoop {w : World κ τ} :
      Step d g w .declareMidLoop
        { w with scheduler := { w.scheduler with registry := w.scheduler.registry.enableMidLoopCapture } }
  | beginStep {w : World κ τ} :
      Step d g w .beginStep { w with scheduler := { w.scheduler with registry := w.scheduler.registry.beginStep } }
  | attempt {w : World κ τ} {id : String} {handle : Nat} {hashes : List κ} {group : List Nat} {h : Nat} {flag : Bool} :
      w.live.get? id = some handle →
      Step d g w (.attempt id hashes group h flag)
        { w with scheduler := (g.trim w.scheduler (w.requests handle) handle hashes group h flag).obj }
  | cap {w : World κ τ} {newlyCached : List Nat} :
      Step d g w (.cap newlyCached) { w with scheduler := SchedulerGraft.cap w.scheduler newlyCached }
  | evict {w : World κ τ} {evicted : Bool} {keys : List κ} {cached : κ → Bool} :
      Step d g w (.evict evicted keys cached)
        { w with scheduler := SchedulerGraft.evict w.scheduler evicted keys cached }
  | commit {w : World κ τ} {output : SchedulerGraft.Output} :
      Step d g w (.commit output) { w with scheduler := (SchedulerGraft.commit w.scheduler output w.tokensOf).obj }
  | reset {w : World κ τ} {result : Bool} :
      Step d g w (.reset result) { w with scheduler := SchedulerGraft.resetPrefixCache w.scheduler result }
  | free {w : World κ τ} {id : String} :
      Step d g w (.free id)
        { w with scheduler := SchedulerGraft.freeRequest w.scheduler id, live := w.live.erase id }
  | prefill {w : World κ τ} {reads : Nat → Nat → Option Nat} {scratch : Gdn τ} {rows : List RowInput} :
      RowsFit w.live.get? w.tokensOf rows →
      Step d g w (.prefill reads scratch rows)
        { w with scheduler :=
          { w.scheduler with registry := (d.prefillSlots reads scratch rows w.scheduler.registry).obj } }

/-- The registry may be trusted with the live requests, each under its own id. -/
structure World.Trusted (d : Device τ) (w : World κ τ) : Prop where
  sound : Sound d w.live.get? w.tokensOf w.scheduler.registry
  ids : ∀ p ∈ w.live.items, (w.requests p.2).requestId = p.1 ∧ p.2 < w.arrivals

variable {d : Device τ} {g : SchedulerGraft} {w w' : World κ τ}

omit [DecidableEq κ] in
/-- Changing one request object so that a live one only grows. -/
theorem World.Trusted.setRequest (h : World.Trusted d w) {handle : Nat} {request : Request}
    (hgrow : (∃ p ∈ w.live.items, p.2 = handle) →
      request.requestId = (w.requests handle).requestId ∧ (w.requests handle).allTokenIds <+: request.allTokenIds) :
    World.Trusted d (w.setRequest handle request) := by
  refine ⟨h.sound.transfer fun id hd hlive _ => ⟨hlive, ?_⟩, fun p hp => ?_⟩
  · simp only [World.tokensOf, World.setRequest]
    split_ifs with he
    · rw [he] at hlive ⊢
      exact (hgrow ⟨(id, handle), Dict.get?_eq_some_iff.mp hlive, rfl⟩).2
    · exact List.prefix_refl _
  · obtain ⟨h1, h2⟩ := h.ids p hp
    refine ⟨?_, h2⟩
    simp only [World.setRequest]
    split_ifs with he
    · rw [(hgrow ⟨p, hp, he⟩).1, ← he]; exact h1
    · exact h1

omit [DecidableEq κ] in
/-- A request arrives under an id the registry knows nothing of. -/
theorem World.Trusted.arrive (h : World.Trusted d w) {request : Request}
    (hfresh : w.live.get? request.requestId = none) : World.Trusted d (w.arrive request) := by
  have hold : World.Trusted d (w.setRequest w.arrivals request) := h.setRequest fun ⟨p, hp, he⟩ =>
    absurd (h.ids p hp).2 (by rw [he]; exact Nat.lt_irrefl _)
  refine ⟨hold.sound.transfer fun id hd hlive _ => ⟨?_, List.prefix_refl _⟩, fun p hp => ?_⟩
  · have hne : id ≠ request.requestId := by
      rintro rfl
      have hnone : (w.setRequest w.arrivals request).live.get? request.requestId = none := hfresh
      rw [hnone] at hlive; cases hlive
    exact (Dict.get?_set_of_ne _ _ hne).trans hlive
  · rcases Dict.mem_set.mp hp with ⟨hp, -⟩ | rfl
    · obtain ⟨h1, h2⟩ := hold.ids p hp
      exact ⟨h1, Nat.lt_succ_of_lt h2⟩
    · exact ⟨by simp [World.arrive, World.setRequest], Nat.lt_succ_self _⟩

omit [DecidableEq κ] in
/-- A request leaves, and the registry forgets it. -/
theorem World.Trusted.free (h : World.Trusted d w) (id : String) :
    World.Trusted d { w with scheduler := SchedulerGraft.freeRequest w.scheduler id, live := w.live.erase id } := by
  refine ⟨(h.sound.forgetRequest id).transfer fun id' hd hlive hknown => ⟨?_, List.prefix_refl _⟩, fun p hp => ?_⟩
  · have hne : id' ≠ id := by
      simp only [Registry.forgetRequest, Dict.mem_keys_erase] at hknown
      rcases hknown with hk | hk | hk <;> exact hk.2
    exact (Dict.get?_erase_of_ne _ hne).trans hlive
  · exact h.ids p (Dict.mem_erase.mp hp).1

/-- Every event keeps the trust. -/
theorem Step.trusted {e : Event κ τ} (hs : Step d g w e w') (h : World.Trusted d w) : World.Trusted d w' := by
  cases hs with
  | arrive hfresh => exact h.arrive hfresh
  | append hlive => exact h.setRequest fun _ => ⟨rfl, List.prefix_append _ _⟩
  | reuse hdead => exact h.setRequest fun ⟨p, hp, he⟩ => absurd he (hdead p hp)
  | declareMidLoop => exact ⟨h.sound.of_sub (fun p hp => hp) rfl rfl rfl rfl, h.ids⟩
  | beginStep => exact ⟨h.sound.beginStep, h.ids⟩
  | @attempt id handle hashes group hit flag hlive =>
    have hid := (h.ids _ (Dict.get?_eq_some_iff.mp hlive)).1
    exact ⟨h.sound.trim (by rw [hid]; exact hlive) rfl hashes group hit flag, h.ids⟩
  | cap => exact ⟨h.sound.of_sub (fun p hp => hp) rfl rfl rfl rfl, h.ids⟩
  | evict => exact ⟨h.sound.evict _ _ _, h.ids⟩
  | @commit output => exact ⟨(h.sound.commit output.admitted).1, h.ids⟩
  | @reset result =>
    refine ⟨?_, h.ids⟩
    unfold SchedulerGraft.resetPrefixCache
    split
    · exact h.sound.of_cleared rfl rfl rfl rfl
    · exact h.sound
  | free => exact h.free _
  | prefill hfit => exact ⟨(h.sound.prefillSlots hfit _ _).1, h.ids⟩

/-- Every history keeps the trust. -/
theorem Run.trusted {budgetBytes : Nat} {midLoopCapture : Bool} {events : List (Event κ τ)}
    (h : Run (Step d g) (World.init budgetBytes midLoopCapture) events w) : World.Trusted d w := by
  refine Run.invariant_state (P := World.Trusted d) ⟨?_, ?_⟩ (fun hi hs => Step.trusted hs hi) h
  · refine ⟨?_, ?_, ?_, ?_, ?_, ?_⟩ <;> simp [World.init, Registry.init]
  · simp [World.init]

/-- **Prefix reuse equals a cold prefill.** After every history, whatever the block hashes: every entry holds the state
of exactly its tokens; a commit hands out a hit only with a checkpoint at the admitted `start_pos` over the request's
own first tokens, and so is every grant the model finds; and a prefill leaves in every row, and captures, what a prefill
from token 0 does. -/
theorem prefix_reuse_exact {budgetBytes : Nat} {midLoopCapture : Bool} {events : List (Event κ τ)}
    (h : Run (Step d g) (World.init budgetBytes midLoopCapture) events w) :
    (∀ p ∈ w.scheduler.registry.entries.items, Exact d p.2) ∧
      (∀ output done, (SchedulerGraft.commit w.scheduler output w.tokensOf).result = .ok done →
        ∀ grant ∈ done, 0 < grant.q → ∃ c handle, grant.checkpoint = some c ∧ c.pos = grant.q ∧
          output.admitted.get? grant.reqId = some grant.q ∧ w.live.get? grant.reqId = some handle ∧
          c.tokenIds = (w.tokensOf handle).take grant.q ∧ Exact d c) ∧
      (∀ p ∈ w.scheduler.registry.committed.items, 0 < p.2.q → ∃ c handle, p.2.checkpoint = some c ∧ c.pos = p.2.q ∧
        w.live.get? p.1 = some handle ∧ c.tokenIds = (w.tokensOf handle).take p.2.q ∧ Exact d c) ∧
      ∀ reads scratch rows outs, RowsFit w.live.get? w.tokensOf rows →
        (d.prefillSlots reads scratch rows w.scheduler.registry).result = .ok outs →
        List.Forall₂ (fun row out => out.state = d.cold row.tokens ∧
          ∀ p ∈ out.captured, p.2 = d.foldState (row.tokens.take p.1)) rows outs := by
  have ht := Run.trusted h
  refine ⟨ht.sound.exact, fun output done hdone grant hmem hq => ?_, fun p hp hq => ?_,
    fun reads scratch rows outs hfit hres => ?_⟩
  · obtain ⟨hadm, handle, hlive, hg⟩ := (ht.sound.commit output.admitted).2 done hdone grant hmem
    obtain ⟨c, hc, ⟨hpos, htok⟩, he⟩ := hg.hit hq
    exact ⟨c, handle, hc, hpos, hadm, hlive, htok, he⟩
  · obtain ⟨-, handle, hlive, hg, -⟩ := ht.sound.committed p hp
    obtain ⟨c, hc, ⟨hpos, htok⟩, he⟩ := hg.hit hq
    exact ⟨c, handle, hc, hpos, hlive, htok, he⟩
  · exact (ht.sound.prefillSlots hfit reads scratch).2 outs hres

/-- A device with one layer whose state sums the tokens it has seen. -/
def sumDevice : Device Int where
  zero := ⟨[0], [0]⟩
  chunk := fun _ s tokens => ⟨s.recState.map (· + tokens.sum), [tokens.sum]⟩
  tail := fun _ s tokens => ⟨s.recState.map (· + tokens.sum), [tokens.sum]⟩
  view := fun _ => ⟨[1], "float32"⟩
  stateSpec := some [(⟨[1], "float32"⟩, ⟨[1], "float32"⟩)]

/-- Two requests that share their first chunk. -/
def firstRequest : Request := ⟨"a", 2050, List.replicate 2050 1, true, false⟩

def secondRequest : Request := ⟨"b", 4098, List.replicate 2048 1 ++ List.replicate 2050 2, true, false⟩

/-- Their rows: the first from token 0, the second from the hit. -/
def firstRow : RowInput := ⟨some "a", 0, firstRequest.allTokenIds, 2050⟩

def secondRow : RowInput := ⟨some "b", 2048, secondRequest.allTokenIds, 4098⟩

/-- The first request is tried without a hit and admitted cold. -/
def coldWorld : World Nat Int :=
  let w := (World.init 100 true : World Nat Int).arrive firstRequest
  let w := { w with scheduler := { w.scheduler with registry := w.scheduler.registry.beginStep } }
  let w := { w with scheduler :=
    (SchedulerGraft.trim ⟨"off", false, false⟩ w.scheduler (w.requests 0) 0 (List.range 32) [] 0 false).obj }
  { w with scheduler := (SchedulerGraft.commit w.scheduler ⟨[("a", 0)], [], []⟩ w.tokensOf).obj }

/-- Its prefill captures the state of the first chunk. -/
def warmWorld : World Nat Int :=
  { coldWorld with scheduler :=
    { coldWorld.scheduler with registry :=
      (sumDevice.prefillSlots (fun _ _ => some 8) sumDevice.zero [firstRow] coldWorld.scheduler.registry).obj } }

/-- The second request is tried with a hit of 33 blocks. -/
def triedWorld : World Nat Int :=
  let w := warmWorld.arrive secondRequest
  let w := { w with scheduler := { w.scheduler with registry := w.scheduler.registry.beginStep } }
  { w with scheduler :=
    (SchedulerGraft.trim ⟨"off", false, false⟩ w.scheduler (w.requests 1) 1 (List.range 64) (List.range 33) 2112
      false).obj }

/-- And admitted at the end of the first chunk. -/
def hitWorld : World Nat Int :=
  { triedWorld with scheduler :=
    (SchedulerGraft.commit triedWorld.scheduler ⟨[("b", 2048)], [], []⟩ triedWorld.tokensOf).obj }

theorem warm_run : Run (Step sumDevice ⟨"off", false, false⟩) (World.init 100 true)
    [.arrive firstRequest, .beginStep, .attempt "a" (List.range 32) [] 0 false, .commit ⟨[("a", 0)], [], []⟩,
      .prefill (fun _ _ => some 8) sumDevice.zero [firstRow]] warmWorld := by
  have hcold : Run (Step sumDevice ⟨"off", false, false⟩) (World.init 100 true) _ coldWorld :=
    (((Run.single (.arrive rfl)).snoc .beginStep).snoc (@Step.attempt _ _ _ _ _ _ "a" 0 _ _ _ _ rfl)).snoc .commit
  have hfit : RowsFit coldWorld.live.get? coldWorld.tokensOf [firstRow] := by
    intro x hx id handle hid hlive
    obtain rfl := List.mem_singleton.mp hx
    obtain rfl := Option.some.inj hid
    obtain rfl : 0 = handle := Option.some.inj hlive
    rfl
  exact hcold.snoc (.prefill hfit)

theorem tried_run : Run (Step sumDevice ⟨"off", false, false⟩) warmWorld
    [.arrive secondRequest, .beginStep, .attempt "b" (List.range 64) (List.range 33) 2112 false] triedWorld :=
  ((Run.single (.arrive rfl)).snoc .beginStep).snoc (@Step.attempt _ _ _ _ _ _ "b" 1 _ _ _ _ rfl)

theorem second_fits : RowsFit hitWorld.live.get? hitWorld.tokensOf [secondRow] := by
  intro x hx id handle hid hlive
  obtain rfl := List.mem_singleton.mp hx
  obtain rfl := Option.some.inj hid
  obtain rfl : 1 = handle := Option.some.inj hlive
  rfl

/-- A call that returned one element. -/
theorem returned_one {α β : Type} {result : Except PyError (List α)} {f : α → β} {b : β}
    (h : result.toOption.map (List.map f) = some [b]) : ∃ a, result = .ok [a] ∧ f a = b := by
  cases result with
  | error e => cases h
  | ok values =>
    have hvalues : values.map f = [b] := Option.some.inj h
    obtain ⟨a, rfl, hb⟩ := List.map_eq_singleton_iff.mp hvalues
    exact ⟨a, rfl, hb⟩

/-- The second request is granted the first chunk, and its resumed prefill leaves and captures what a cold one does. -/
theorem prefix_reuse_exact_sample :
    (∃ grant c, (SchedulerGraft.commit triedWorld.scheduler ⟨[("b", 2048)], [], []⟩ triedWorld.tokensOf).result =
      .ok [grant] ∧ grant.q = 2048 ∧ grant.checkpoint = some c ∧ c.pos = 2048 ∧
      c.tokenIds = secondRequest.allTokenIds.take 2048 ∧ Exact sumDevice c) ∧
    (hitWorld.scheduler.registry.entries.items.map fun p => (p.1, p.2.pos)) = [(31, 2048)] ∧
    (∀ p ∈ hitWorld.scheduler.registry.entries.items, Exact sumDevice p.2) ∧
    ∃ out, (sumDevice.prefillSlots (fun _ _ => some 8) sumDevice.zero [secondRow] hitWorld.scheduler.registry).result =
      .ok [out] ∧ out.state = sumDevice.cold secondRow.tokens ∧ out.captured.map Prod.fst = [4096] ∧
      ∀ p ∈ out.captured, p.2 = sumDevice.foldState (secondRow.tokens.take p.1) := by
  have htried := warm_run.append tried_run
  have hcommitted :
      Step sumDevice ⟨"off", false, false⟩ triedWorld (.commit ⟨[("b", 2048)], [], []⟩) hitWorld := .commit
  obtain ⟨-, hcommit, -, -⟩ := prefix_reuse_exact htried
  obtain ⟨hentries, -, -, hprefill⟩ := prefix_reuse_exact (htried.snoc hcommitted)
  refine ⟨?_, by decide +kernel, hentries, ?_⟩
  · have hreturned : (SchedulerGraft.commit triedWorld.scheduler ⟨[("b", 2048)], [], []⟩
        triedWorld.tokensOf).result.toOption.map (List.map fun grant => (grant.reqId, grant.q)) =
        some [("b", 2048)] := by decide +kernel
    obtain ⟨grant, hgrant, hkey⟩ := returned_one hreturned
    obtain ⟨hid, hq⟩ := Prod.mk.inj hkey
    obtain ⟨c, handle, hc, hpos, -, hlive, htokens, hexact⟩ :=
      hcommit _ _ hgrant grant (List.mem_singleton.mpr rfl) (by rw [hq]; decide)
    rw [hid] at hlive
    obtain rfl : 1 = handle := Option.some.inj hlive
    rw [hq] at hpos htokens
    exact ⟨grant, c, hgrant, hq, hc, hpos, htokens, hexact⟩
  · have hreturned : (sumDevice.prefillSlots (fun _ _ => some 8) sumDevice.zero [secondRow]
        hitWorld.scheduler.registry).result.toOption.map (List.map fun out => out.captured.map Prod.fst) =
        some [[4096]] := by decide +kernel
    obtain ⟨out, hout, hcaptured⟩ := returned_one hreturned
    cases hprefill _ _ _ _ second_fits hout with
    | cons hcold _ => exact ⟨out, hout, hcold.1, hcaptured, hcold.2⟩

end BlackholeQwen.Prefix
