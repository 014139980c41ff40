import BlackholeQwen.Prefix.Coupling
import BlackholeQwen.Prefix.Trim

/-!
# Remembered checks stay right

The registry remembers the verdicts of its token checks by request, boundary and the checkpoint's serial. `Recalls` says
that they are what checking again would say of the live requests; every run of the engine keeps it (`Run.recalls`),
since serials are never given twice, requests only grow, and a request that leaves is forgotten. With it the trim grants
the longest exact hit in every run (`trim_longest`).
-/

namespace BlackholeQwen.Prefix

open Lib

variable {κ τ : Type}

/-! ## The registry -/

/-- Fewer entries and checks, under the same serials. -/
structure Registry.Fewer (r r' : Registry κ τ) : Prop where
  entries : ∀ p ∈ r'.entries.items, p ∈ r.entries.items
  checks : ∀ p ∈ r'.tokenChecks.items, p ∈ r.tokenChecks.items
  serials : r'.serials = r.serials

theorem Registry.Fewer.refl (r : Registry κ τ) : Fewer r r := ⟨fun _ hp => hp, fun _ hp => hp, rfl⟩

theorem Registry.Fewer.trans {r r' r'' : Registry κ τ} (h : Fewer r r') (h' : Fewer r' r'') : Fewer r r'' :=
  ⟨fun p hp => h.entries p (h'.entries p hp), fun p hp => h.checks p (h'.checks p hp), h'.serials.trans h.serials⟩

/-- Right verdicts on a request's tokens: of serials already given, within the tokens, and what checking again would
say. -/
def Right (r : Registry κ τ) (tokens : List Token) (memo : Dict Nat (Nat × Bool)) : Prop :=
  ∀ m ∈ memo.items, m.2.1 < r.serials ∧ m.1 ≤ tokens.length ∧
    ∀ e ∈ r.entries.items, e.2.serial = m.2.1 → m.2.2 = e.2.vouches m.1 tokens

/-- Serials name entries, and the checks remembered of every request are right for the live one. -/
structure Recalls (live : String → Option Nat) (tokensOf : Nat → List Token) (r : Registry κ τ) : Prop where
  serial : ∀ p ∈ r.entries.items, p.2.serial < r.serials
  unique : ∀ p ∈ r.entries.items, ∀ p' ∈ r.entries.items, p.2.serial = p'.2.serial → p.2 = p'.2
  memo : ∀ p ∈ r.tokenChecks.items, ∃ handle, live p.1 = some handle ∧ Right r (tokensOf handle) p.2

/-- More tokens at the end change no verdict on the first. -/
theorem Checkpoint.vouches_append {entry : Checkpoint κ τ} {candidate : Nat} {tokens : List Token}
    (h : candidate ≤ tokens.length) (more : List Token) :
    entry.vouches candidate (tokens ++ more) = entry.vouches candidate tokens := by
  rw [vouches, vouches, List.take_append_of_le_length h]

theorem Right.grow {r : Registry κ τ} {tokens tokens' : List Token} {memo : Dict Nat (Nat × Bool)}
    (h : Right r tokens memo) (hpre : tokens <+: tokens') : Right r tokens' memo := by
  obtain ⟨more, rfl⟩ := hpre
  intro m hm
  obtain ⟨hserial, hinside, hverdict⟩ := h m hm
  refine ⟨hserial, hinside.trans (by simp), fun e he heq => ?_⟩
  rw [hverdict e he heq, Checkpoint.vouches_append hinside]

section Recalls

variable {live live' : String → Option Nat} {tokensOf tokensOf' : Nat → List Token} {r r' : Registry κ τ}

/-- What is recalled of a live request is remembered rightly. -/
theorem Recalls.remembers (h : Recalls live tokensOf r) {reqId : String} {handle : Nat}
    (hlive : live reqId = some handle) :
    r.Remembers reqId (tokensOf handle) ∧ Right r (tokensOf handle) (r.memo reqId) := by
  have hright : Right r (tokensOf handle) (r.memo reqId) := by
    unfold Registry.memo
    cases hmemo : r.tokenChecks.get? reqId with
    | none => simp [Right]
    | some memo =>
      obtain ⟨handle', hlive', hright⟩ := h.memo _ (Dict.get?_eq_some_iff.mp hmemo)
      obtain rfl := Option.some.inj (hlive.symm.trans hlive')
      exact hright
  exact ⟨⟨h.unique, fun m hm => (hright m hm).2.2⟩, hright⟩

theorem Recalls.of_fewer (h : Recalls live tokensOf r) (hfewer : r.Fewer r') : Recalls live tokensOf r' := by
  refine ⟨fun p hp => ?_, fun p hp p' hp' => h.unique p (hfewer.entries p hp) p' (hfewer.entries p' hp'),
    fun p hp => ?_⟩
  · rw [hfewer.serials]
    exact h.serial p (hfewer.entries p hp)
  · obtain ⟨handle, hlive, hright⟩ := h.memo p (hfewer.checks p hp)
    refine ⟨handle, hlive, fun m hm => ?_⟩
    obtain ⟨hserial, hinside, hverdict⟩ := hright m hm
    exact ⟨hfewer.serials ▸ hserial, hinside, fun e he => hverdict e (hfewer.entries e he)⟩

/-- The requests that checks are remembered of stay live and only grow. -/
theorem Recalls.transfer (h : Recalls live tokensOf r) (hmove : ∀ id handle, live id = some handle →
      id ∈ r.tokenChecks.keys → live' id = some handle ∧ tokensOf handle <+: tokensOf' handle) :
    Recalls live' tokensOf' r := by
  refine ⟨h.serial, h.unique, fun p hp => ?_⟩
  obtain ⟨handle, hlive, hright⟩ := h.memo p hp
  obtain ⟨hlive', hpre⟩ := hmove p.1 handle hlive (Dict.mem_keys.mpr ⟨p.2, hp⟩)
  exact ⟨handle, hlive', hright.grow hpre⟩

variable [DecidableEq κ]

omit [DecidableEq κ] in
theorem Registry.Frame.fewer (h : Registry.Frame r r') (hentries : ∀ p ∈ r'.entries.items, p ∈ r.entries.items) :
    r.Fewer r' :=
  ⟨hentries, by rw [h.tokenChecks]; exact fun _ hp => hp, h.serials⟩

theorem Registry.remove_fewer (r : Registry κ τ) (key : κ) : r.Fewer (r.remove key) :=
  (remove_frame r key).fewer fun p hp => by
    rw [remove_entries] at hp
    exact (Dict.mem_erase.mp hp).1

theorem Registry.enforceBudget_fewer (r : Registry κ τ) : r.Fewer r.enforceBudget :=
  (enforceBudget_frame r).fewer (enforceBudget_sub r)

omit [DecidableEq κ] in
theorem Registry.disable_fewer (r : Registry κ τ) (reason : String) : r.Fewer (r.disable reason) :=
  ⟨nofun, nofun, rfl⟩

theorem Registry.noteOrphan_fewer (r : Registry κ τ) (key : κ) : r.Fewer (r.noteOrphan key) := by
  unfold noteOrphan
  split <;> exact ⟨fun _ hp => hp, fun _ hp => hp, rfl⟩

theorem Registry.commitGrant_fewer (r : Registry κ τ) (reqId : String) (grant : Grant κ τ)
    (tokens : Option (List Token)) : r.Fewer (r.commitGrant reqId grant tokens) := by
  simp only [commitGrant, pinGrant]
  split
  · exact ⟨fun _ hp => hp, fun _ hp => hp, rfl⟩
  · refine ⟨fun p hp => ?_, fun _ hp => hp, rfl⟩
    cases hkey : grant.key with
    | none => simpa [hkey] using hp
    | some key => simpa [hkey] using hp

theorem Registry.commitLoop_fewer (admitted : Dict String Nat) (allTokenIds : Nat → List Token)
    (l : List (String × Grant κ τ)) (r : Registry κ τ) : r.Fewer (r.commitLoop admitted allTokenIds l).obj := by
  induction l generalizing r with
  | nil => exact .refl r
  | cons p l ih =>
    obtain ⟨reqId, grant⟩ := p
    rw [commitLoop]
    split_ifs
    · exact ih r
    rcases Call.attempt_cases (planTokens allTokenIds grant) r _ with ⟨e, -, hc⟩ | ⟨tokens, -, hc⟩ <;> rw [hc]
    · exact .refl r
    · exact (commitGrant_fewer r reqId grant tokens).trans (ih _)

theorem Registry.commit_fewer (r : Registry κ τ) (admitted : Dict String Nat) (allTokenIds : Nat → List Token) :
    r.Fewer (r.commit admitted allTokenIds).obj := by
  have hloop := commitLoop_fewer admitted allTokenIds r.staged.items r
  unfold commit
  rcases Call.bind_cases (r.commitLoop admitted allTokenIds r.staged.items) _ with ⟨e, -, hb⟩ | ⟨done, -, hb⟩ <;>
    rw [hb]
  · exact hloop
  · exact ⟨hloop.entries, hloop.checks, hloop.serials⟩

/-- A new entry has a serial that was never given. -/
theorem Recalls.addEntry (h : Recalls live tokensOf r) (key : κ) (pos : Nat) (tokenIds : List Token)
    (recState carry : Option (List τ)) (nbytes : Nat) :
    Recalls live tokensOf (r.addEntry key pos tokenIds recState carry nbytes) := by
  refine ⟨fun p hp => ?_, fun p hp p' hp' heq => ?_, fun p hp => ?_⟩
  · rcases Dict.mem_set.mp hp with ⟨hp, -⟩ | rfl
    · exact Nat.lt_succ_of_lt (h.serial p hp)
    · exact Nat.lt_succ_self _
  · rcases Dict.mem_set.mp hp with ⟨hp, -⟩ | rfl <;> rcases Dict.mem_set.mp hp' with ⟨hp', -⟩ | rfl
    · exact h.unique p hp p' hp' heq
    · exact absurd heq (Nat.ne_of_lt (h.serial p hp))
    · exact absurd heq.symm (Nat.ne_of_lt (h.serial p' hp'))
    · rfl
  · obtain ⟨handle, hlive, hright⟩ := h.memo p hp
    refine ⟨handle, hlive, fun m hm => ?_⟩
    obtain ⟨hserial, hinside, hverdict⟩ := hright m hm
    refine ⟨Nat.lt_succ_of_lt hserial, hinside, fun e he heq => ?_⟩
    rcases Dict.mem_set.mp he with ⟨he, -⟩ | rfl
    · exact hverdict e he heq
    · exact absurd heq (Nat.ne_of_gt hserial)

theorem Recalls.capture (h : Recalls live tokensOf r) (reqId : String) (pos : Nat) (recState carry : Option (List τ))
    (nbytes loopPos : Option Nat) :
    Recalls live tokensOf (r.capture reqId pos recState carry nbytes loopPos).1 := by
  simp only [Registry.capture, Registry.captureCall]
  split
  · exact h
  split
  · exact h
  rename_i key _
  split
  · exact h
  split
  · exact h
  rename_i tokens _
  rcases Registry.put_cases r key pos (tokens.take pos) recState carry (nbytes.getD CHECKPOINT_NBYTES) with
    hc | hc | ⟨hc, -⟩ <;> rw [hc]
  · exact h
  · exact h.of_fewer ⟨fun p hp => Dict.mem_moveToEnd.mp hp, fun _ hp => hp, rfl⟩
  · have hadded := (h.of_fewer (r.remove_fewer key)).addEntry key pos (tokens.take pos) recState carry
      (nbytes.getD CHECKPOINT_NBYTES)
    exact hadded.of_fewer (Registry.enforceBudget_fewer _)

omit [DecidableEq κ] in
/-- A check within the request's tokens. -/
theorem Recalls.tokensMatch (h : Recalls live tokensOf r) {reqId : String} {handle : Nat}
    (hlive : live reqId = some handle) {key : κ} {entry : Checkpoint κ τ} (hentry : (key, entry) ∈ r.entries.items)
    {candidate : Nat} (hinside : candidate ≤ (tokensOf handle).length) :
    Recalls live tokensOf (r.tokensMatch reqId candidate entry (tokensOf handle)).1 := by
  obtain ⟨memo, hwrites, hmemo⟩ := r.tokensMatch_writes reqId candidate entry (tokensOf handle)
  rw [hwrites]
  refine ⟨h.serial, h.unique, fun p hp => ?_⟩
  rcases Dict.mem_set.mp hp with ⟨hp, -⟩ | rfl
  · exact h.memo p hp
  refine ⟨handle, hlive, fun m hm => ?_⟩
  rcases hmemo m hm with hm | rfl
  · exact (h.remembers hlive).2 m hm
  · refine ⟨h.serial _ hentry, hinside, fun e he heq => ?_⟩
    rw [h.unique e he _ hentry heq]

end Recalls

/-! ## The scheduler graft -/

section Graft

variable [DecidableEq κ] {g : SchedulerGraft} {request : Request} {live : String → Option Nat}
  {tokensOf : Nat → List Token} {handle : Nat}

open SchedulerGraft

/-- The search checks within the request's tokens. -/
theorem Recalls.trimLoop {r : Registry κ τ} (h : Recalls live tokensOf r) (hlive : live request.requestId = some handle)
    (htokens : request.allTokenIds = tokensOf handle) {hashes : List κ}
    (hhashed : hashes.length * BLOCK ≤ request.numTokens) (first k : Nat) :
    Recalls live tokensOf (trimLoop r request hashes first k).obj := by
  induction k generalizing r with
  | zero => exact h
  | succ k ih =>
    rw [SchedulerGraft.trimLoop]
    simp only
    split_ifs
    · exact ih h
    split
    · exact h
    rename_i key hkey
    split
    · exact ih h
    rename_i entry hentry
    have hinside : (k + 1) * CHUNK ≤ (tokensOf handle).length := by
      obtain ⟨hlt, -⟩ := List.getElem?_eq_some_iff.mp hkey
      rw [← htokens]
      simp only [Request.numTokens, CHUNK, BLOCK] at hhashed hlt ⊢
      omega
    have hnext := h.tokensMatch hlive (Dict.get?_eq_some_iff.mp hentry) hinside
    rw [htokens]
    split_ifs
    · exact hnext
    · exact ih hnext

theorem noteOrphans_fewer (r : Registry κ τ) (request : Request) (hashes : List κ) (h : Nat) :
    r.Fewer (noteOrphans r request hashes h) := by
  unfold noteOrphans
  split_ifs with hempty
  · exact .refl r
  clear hempty
  induction orphanBoundaries request h generalizing r with
  | nil => exact .refl r
  | cons boundary boundaries ih =>
    rw [List.foldl_cons]
    refine .trans ?_ (ih _)
    split
    · exact r.noteOrphan_fewer _
    · exact .refl r

omit [DecidableEq κ] in
theorem stageGrant_fewer (g : SchedulerGraft) (r : Registry κ τ) (request : Request) (handle : Nat) (hashes : List κ)
    (h : Nat) (found : Option (Nat × κ × Checkpoint κ τ)) :
    r.Fewer (g.stageGrant r request handle hashes h found).1 := by
  simp only [stageGrant]
  split_ifs <;> exact ⟨fun _ hp => hp, fun _ hp => hp, rfl⟩

omit [DecidableEq κ] in
theorem killSwitchEngaged_fewer (g : SchedulerGraft) (s : Scheduler κ τ) (flag : Bool) :
    s.registry.Fewer (g.killSwitchEngaged s flag).1.registry := by
  simp only [killSwitchEngaged]
  split
  · exact s.registry.disable_fewer _
  · exact .refl _

/-- An attempt to admit a live request, with the hashes of its full blocks. -/
theorem Recalls.trim {s : Scheduler κ τ} (h : Recalls live tokensOf s.registry)
    (hlive : live request.requestId = some handle) (htokens : request.allTokenIds = tokensOf handle) {hashes : List κ}
    (hhashed : hashes.length * BLOCK ≤ request.numTokens) (group : List Nat) (hit : Nat) (flag : Bool) :
    Recalls live tokensOf (g.trim s request handle hashes group hit flag).obj.registry := by
  have hunstage : ∀ r : Registry κ τ, r.Fewer (r.unstage request.requestId) := fun r =>
    ⟨fun _ hp => hp, fun _ hp => hp, rfl⟩
  unfold SchedulerGraft.trim
  split
  · exact h.of_fewer (hunstage _)
  simp only
  have hk := h.of_fewer (killSwitchEngaged_fewer g s flag)
  split
  · exact hk.of_fewer (hunstage _)
  refine Call.attempt_obj (P := fun s : Scheduler κ τ => Recalls live tokensOf s.registry) hk fun first _ => ?_
  have hloop := hk.trimLoop hlive htokens hhashed first
    (if g.sticky = true then min (hit / CHUNK) ((request.numPromptTokens - CHUNK) / CHUNK) else hit / CHUNK)
  split
  · exact hloop
  · exact hloop.of_fewer
      ((noteOrphans_fewer _ request hashes hit).trans (stageGrant_fewer g _ request handle hashes hit _))

theorem evict_fewer (s : Scheduler κ τ) (evicted : Bool) (keys : List κ) (cached : κ → Bool) :
    s.registry.Fewer (evict s evicted keys cached).registry := by
  unfold evict
  split_ifs with hcond
  · clear hcond
    obtain ⟨r, engaged⟩ := s
    show r.Fewer ((keys.filter (fun key => !cached key)).foldl (fun r key => (r.drop key).1) r)
    induction keys.filter (fun key => !cached key) generalizing r with
    | nil => exact .refl r
    | cons key keys ih => exact (r.remove_fewer key).trans (ih _)
  · exact .refl _

end Graft

/-! ## The engine -/

section Engine

variable [DecidableEq κ] {g : SchedulerGraft} {e e' : Engine κ τ}

/-- A request has hashes of its full blocks only. -/
def Engine.Hashed (e : Engine κ τ) : Prop := ∀ handle, (e.hashes handle).length * BLOCK ≤ (e.requests handle).numTokens

/-- `request.all_token_ids`. -/
def Engine.tokensOf (e : Engine κ τ) (handle : Nat) : List Token := (e.requests handle).allTokenIds

/-- The engine's registry remembers its checks rightly. -/
abbrev Engine.Recalls (e : Engine κ τ) : Prop := Prefix.Recalls e.live.get? e.tokensOf e.scheduler.registry

omit [DecidableEq κ] in
/-- Events that keep the live requests and their tokens. -/
theorem Engine.Recalls.of_fewer (h : e.Recalls) (hlive : e'.live = e.live) (hrequests : e'.requests = e.requests)
    (hfewer : e.scheduler.registry.Fewer e'.scheduler.registry) : e'.Recalls := by
  have htokens : e'.tokensOf = e.tokensOf := by
    funext handle
    rw [tokensOf, tokensOf, hrequests]
  unfold Engine.Recalls
  rw [hlive, htokens]
  exact Prefix.Recalls.of_fewer h hfewer

/-- A request arrives under an id of which no check is remembered. -/
theorem Engine.Recalls.arrive (h : e.Recalls) (hc : Coupled e) {request : Request} (hashes : List κ)
    (hfresh : e.live.get? request.requestId = none) :
    ({ e with
        requests := fun i => if i = e.arrivals then request else e.requests i
        hashes := fun i => if i = e.arrivals then hashes else e.hashes i
        arrivals := e.arrivals + 1
        live := e.live.set request.requestId e.arrivals } : Engine κ τ).Recalls := by
  refine h.transfer fun id handle hlive _ => ⟨?_, ?_⟩
  · have hne : id ≠ request.requestId := by
      rintro rfl
      exact nomatch hfresh.symm.trans hlive
    exact (Dict.get?_set_of_ne _ _ hne).trans hlive
  · have hold := (hc.ids _ (Dict.get?_eq_some_iff.mp hlive)).2
    simp only [Engine.tokensOf, if_neg (Nat.ne_of_lt hold)]
    exact List.prefix_refl _

omit [DecidableEq κ] in
/-- A request grows. -/
theorem Engine.Recalls.append (h : e.Recalls) (handle : Nat) (tokens : List Token) (hashes : List κ) :
    ({ e with
        requests := fun i => if i = handle then
          { e.requests i with allTokenIds := (e.requests i).allTokenIds ++ tokens } else e.requests i
        hashes := fun i => if i = handle then e.hashes i ++ hashes else e.hashes i } : Engine κ τ).Recalls := by
  refine h.transfer fun id handle' hlive _ => ⟨hlive, ?_⟩
  simp only [Engine.tokensOf]
  split_ifs
  · exact List.prefix_append _ _
  · exact List.prefix_refl _

omit [DecidableEq κ] in
/-- A request leaves, and its checks are forgotten. -/
theorem Engine.Recalls.free (h : e.Recalls) (id : String) (handle : Nat) :
    ({ e.stop id handle with
        scheduler := SchedulerGraft.freeRequest e.scheduler id
        live := e.live.erase id } : Engine κ τ).Recalls := by
  have hforget : Prefix.Recalls e.live.get? e.tokensOf (e.scheduler.registry.forgetRequest id).1 :=
    Prefix.Recalls.of_fewer h ⟨fun _ hp => hp, fun p hp => (Dict.mem_erase.mp hp).1, rfl⟩
  refine hforget.transfer fun id' handle' hlive hknown => ⟨?_, List.prefix_refl _⟩
  have hne : id' ≠ id := (Dict.mem_keys_erase.mp hknown).2
  exact (Dict.get?_erase_of_ne _ hne).trans hlive

/-- Every event keeps it. -/
theorem Engine.Recalls.step (h : e.Recalls) (hc : Coupled e) (hhashed : e.Hashed) {event : EngineEvent κ τ}
    (hs : EngineStep g e event e') : e'.Recalls := by
  have hsame : e.scheduler.registry.Fewer e.scheduler.registry := .refl _
  cases hs with
  | arrive hfresh => exact h.arrive hc _ hfresh
  | append _ => exact h.append _ _ _
  | declareMidLoop => exact h.of_fewer rfl rfl ⟨fun _ hp => hp, fun _ hp => hp, rfl⟩
  | begin _ =>
    have hrelease : e.scheduler.registry.Fewer e.scheduler.registry.release := ⟨fun _ hp => hp, fun _ hp => hp, rfl⟩
    exact h.of_fewer rfl rfl (hrelease.trans (Registry.enforceBudget_fewer _))
  | @attempt id handle group hit flag _ hlive _ =>
    have hid := (hc.ids _ (Dict.get?_eq_some_iff.mp hlive)).1
    exact Recalls.trim h (hid.symm ▸ hlive) rfl (hhashed handle) group hit flag
  | allocate => exact h.of_fewer rfl rfl ⟨fun _ hp => hp, fun _ hp => hp, rfl⟩
  | publish => exact h.of_fewer rfl rfl ⟨fun _ hp => hp, fun _ hp => hp, rfl⟩
  | grow => exact h.of_fewer rfl rfl hsame
  | evict => exact h.of_fewer rfl rfl (evict_fewer _ _ _ _)
  | preempt => exact h.of_fewer rfl rfl hsame
  | commit => exact h.of_fewer rfl rfl (Registry.commit_fewer _ _ _)
  | capture => exact Recalls.capture h _ _ _ _ _ _
  | finishStep => exact h.of_fewer rfl rfl hsame
  | @reset result =>
    cases result with
    | false => exact h.of_fewer rfl rfl hsame
    | true => exact h.of_fewer rfl rfl ⟨nofun, nofun, rfl⟩
  | free => exact h.free _ _

/-- Every run whose requests have hashes of their full blocks only keeps it. -/
theorem Run.recalls {budgetBytes : Nat} {midLoopCapture : Bool} {events : List (EngineEvent κ τ)}
    (h : Run (fun e event e' => EngineStep g e event e' ∧ e'.Hashed) (Engine.init budgetBytes midLoopCapture)
      events e) : e.Recalls ∧ Coupled e ∧ e.Hashed := by
  refine h.invariant_state (P := fun e => e.Recalls ∧ Coupled e ∧ e.Hashed) ⟨?_, Coupled.init _ _, fun _ => ?_⟩ ?_
  · exact ⟨nofun, nofun, nofun⟩
  · exact Nat.zero_le _
  · rintro e event e' ⟨hr, hc, hhashed⟩ ⟨hs, hhashed'⟩
    exact ⟨hr.step hc hhashed hs, hc.step hs, hhashed'⟩

/-- **Main result.** In every run the registry remembers its checks of the live requests rightly; and where it does, a
served trim of any hit returns the longest boundary that may be granted with the blocks below it, and stages a grant of
it, or none where there is neither a hit nor anything to capture. -/
theorem trim_longest (g : SchedulerGraft) :
    (∀ (budgetBytes : Nat) (midLoopCapture : Bool) (events : List (EngineEvent κ τ)) (e : Engine κ τ),
      Run (fun e event e' => EngineStep g e event e' ∧ e'.Hashed) (Engine.init budgetBytes midLoopCapture) events e →
        ∀ id handle, e.live.get? id = some handle →
          e.scheduler.registry.Remembers (e.requests handle).requestId (e.requests handle).allTokenIds) ∧
      ∀ (s : Scheduler κ τ) (request : Request) (handle : Nat) (hashes : List κ) (group : List Nat) (h : Nat)
        (flag : Bool), excluded request = false → (g.killSwitchEngaged s flag).2 = false →
        s.registry.Remembers request.requestId request.allTokenIds → h / BLOCK ≤ hashes.length →
        h / BLOCK ≤ group.length →
        ∃ q grant, Trimmed g s.registry request handle hashes group h (g.trimmed s request handle hashes group h flag)
          q grant := by
  constructor
  · intro budgetBytes midLoopCapture events e hrun id handle hlive
    obtain ⟨hr, hc, -⟩ := Run.recalls hrun
    rw [(hc.ids _ (Dict.get?_eq_some_iff.mp hlive)).1]
    exact (hr.remembers hlive).1
  · intro s request handle hashes group h flag hserved halive hr hhashes hgroup
    exact trimmed_spec handle hserved halive hr hhashes hgroup

/-- A registry with one checkpoint, of the sample engine's request. -/
def oneEntry : Registry Nat Nat :=
  { Registry.init 100 true with
    entries := Dict.empty.set 31 ⟨0, 31, 2048, List.replicate 2048 7, some [1], some [2], 10, 1⟩
    serials := 2 }

/-- A sibling of that request is granted the checkpoint and its 32 blocks. -/
theorem trim_longest_sample :
    ((⟨"off", false, false⟩ : SchedulerGraft).trimmed ⟨oneEntry, false⟩
      ⟨"s", 2050, List.replicate 2050 7, true, false⟩ 1 (List.range 32) (List.range 32) 2048 false).result =
        .ok (List.range 32, 2048) := by
  have hremembers : oneEntry.Remembers "s" (List.replicate 2050 7) := by
    refine ⟨fun p hp p' hp' _ => ?_, nofun⟩
    rcases Dict.mem_set.mp hp with ⟨hp, -⟩ | rfl
    · exact nomatch hp
    rcases Dict.mem_set.mp hp' with ⟨hp', -⟩ | rfl
    · exact nomatch hp'
    · rfl
  obtain ⟨q, grant, htrimmed⟩ := (trim_longest ⟨"off", false, false⟩).2 ⟨oneEntry, false⟩
    ⟨"s", 2050, List.replicate 2050 7, true, false⟩ 1 (List.range 32) (List.range 32) 2048 false rfl rfl hremembers
    (by decide) (by decide)
  have hgrantable : 2048 ∈ grants ⟨"off", false, false⟩ oneEntry ⟨"s", 2050, List.replicate 2050 7, true, false⟩
      (List.range 32) (List.range 32) 2048 := by
    refine ⟨⟨1, rfl⟩, le_rfl, .inr ⟨31, _, fun block _ => ?_, rfl, Dict.get?_set_self _ _ _, rfl, ?_, ?_⟩⟩
    · exact Finset.notMem_empty block
    · rw [Request.numTokens, List.length_replicate]
      decide
    · rw [List.take_replicate, Nat.min_eq_left (by decide)]
  have hq : q = 2048 := Nat.le_antisymm htrimmed.longest.1.2.1 (htrimmed.longest.2 hgrantable)
  rw [htrimmed.result, hq]
  rfl

end Engine

end BlackholeQwen.Prefix
