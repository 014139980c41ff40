import BlackholeQwen.Packed.Growth
import BlackholeQwen.Serving.PackedRounds
import Mathlib.Data.List.Find

/-!
# What is drafted for the blocks, the blocks serve (`serving_packed_step.py`)

`proposal_rows` is asked before a round is drafted and `ineligible` at its step: two predicates, written apart.

- `Framed`: the blocks' geometry and the engines' carries and tables are as they were; a block's own round leaves them
  (`serveEligible_framed`).
- `proposalRows_some`: what a width says of each block's group of live requests.
- `Drafted`: the round that is drafted at that width, and the tables that grow before its step.
- `proposed_round_eligible`: every block's group of such a round is eligible, so that no ticket is narrowed.
-/

namespace BlackholeQwen.Serving

open Lib Speculative Packed

/-! ## The blocks' geometry -/

namespace PackedEngine

/-- A commit leaves the geometry. -/
theorem commitUser_block (e : PackedVerifierEngine) (segment rows : Int) (env : BlockCommitEnv) :
    (e.commitUser segment rows env).obj.block = e.block := by
  unfold PackedVerifierEngine.commitUser
  refine Call.attempt_obj (P := fun e' : PackedVerifierEngine => e'.block = e.block) rfl fun p _ => ?_
  split <;> rfl

theorem commitIdle_block (env : Nat → BlockCommitEnv) (segments : List Nat) (e : PackedVerifierEngine) :
    (e.commitIdle env segments).obj.block = e.block := by
  induction segments generalizing e with
  | nil => rfl
  | cons segment segments ih =>
    exact Call.bind_obj (P := fun e' : PackedVerifierEngine => e'.block = e.block) (commitUser_block ..)
      fun _ _ => (ih _).trans (commitUser_block ..)

theorem flushFirst_block (e : PackedVerifierEngine) (raised : Option (Nat × PyError)) :
    (e.flushFirst raised).obj.block = e.block := by
  unfold PackedVerifierEngine.flushFirst PackedVerifierEngine.flushCommits
  split
  · rfl
  split
  · rfl
  split <;> rfl

theorem runTrace_block (e : PackedVerifierEngine) (live : List (Nat × Nat)) (env : VerifyEnv) :
    (e.runTrace live env).obj.block = e.block := by
  unfold PackedVerifierEngine.runTrace
  split
  · refine Call.attempt_obj (P := fun e' : PackedVerifierEngine => e'.block = e.block) rfl fun _ _ => ?_
    exact Call.attempt_obj (P := fun e' : PackedVerifierEngine => e'.block = e.block) rfl fun _ _ => rfl
  · have hput : ∀ w : Gdn.World, (if w.ran.length = e.world.ran.length then { e with world := w }
        else ({ e with world := w } : PackedVerifierEngine).opened live).block = e.block := by
      intro w
      split <;> rfl
    exact Call.bind_obj (P := fun e' : PackedVerifierEngine => e'.block = e.block) (hput _) fun _ _ => hput _

/-- A verify leaves the geometry. -/
theorem verify_block (e : PackedVerifierEngine) (owners : List (Engine × Nat)) (env : VerifyEnv) :
    (e.verify owners env).obj.block = e.block := by
  have hbody : ∀ (e' : PackedVerifierEngine) (live : List (Nat × Nat)), e'.block = e.block →
      (e'.verifyBody live env).obj.block = e.block := by
    intro e' live he
    refine Call.attempt_obj (P := fun e' : PackedVerifierEngine => e'.block = e.block) he fun _ _ => ?_
    have htrace := (runTrace_block e' live env).trans he
    refine Call.bind_obj (P := fun e' : PackedVerifierEngine => e'.block = e.block) htrace fun _ _ => ?_
    refine Call.attempt_obj (P := fun e' : PackedVerifierEngine => e'.block = e.block) htrace fun _ _ => ?_
    exact (commitIdle_block ..).trans htrace
  have hflush := flushFirst_block e env.flush
  refine Call.bind_obj (P := fun e' : PackedVerifierEngine => e'.block = e.block) hflush fun _ _ => ?_
  refine Call.attempt_obj (P := fun e' : PackedVerifierEngine => e'.block = e.block) hflush fun p _ => ?_
  split
  · exact hbody _ _ hflush
  · exact hbody _ _ hflush

end PackedEngine

namespace PackedWorld

variable {env : PackedStepEnv} {w w' w'' : PackedWorld} {b : Nat} {e : PackedEntry} {entries : List PackedEntry}

/-- The blocks' geometry and the engines' carries and tables are as they were. -/
structure Framed (w w' : PackedWorld) : Prop where
  block : ∀ b, w'.block b = w.block b
  chains : ∀ b, (w'.blocks b).kvChains = (w.blocks b).kvChains
  engine : ∀ r, (w'.owners r).engine = (w.owners r).engine

theorem Framed.refl (w : PackedWorld) : Framed w w := ⟨fun _ => rfl, fun _ => rfl, fun _ => rfl⟩

theorem Framed.tick (h : Framed w w') : Framed w w'.tick := ⟨h.block, h.chains, h.engine⟩

theorem Framed.handle (h : Framed w w') (handler : Handler) (entries : List PackedEntry) :
    Framed w (w'.handle handler entries) := ⟨h.block, h.chains, h.engine⟩

theorem Framed.setRequest (h : Framed w w') (i : Nat) (r : FastRequest) : Framed w (w'.setRequest i r) := by
  refine ⟨h.block, h.chains, fun j => ?_⟩
  by_cases hj : j = i
  · subst hj
    rw [← h.engine j]
    simp [PackedWorld.setRequest]
  · rw [← h.engine j]
    simp [PackedWorld.setRequest, hj]

theorem Framed.setAdopted (h : Framed w w') (i : Nat) (held : Option (Nat × Nat)) :
    Framed w (w'.setAdopted i held) := by
  refine ⟨h.block, h.chains, fun j => ?_⟩
  by_cases hj : j = i
  · subst hj
    rw [← h.engine j]
    simp [PackedWorld.setAdopted]
  · rw [← h.engine j]
    simp [PackedWorld.setAdopted, hj]

theorem Framed.setBlock (h : Framed w w') {b : Nat} {e : PackedVerifierEngine} (he : e.block = w'.block b) :
    Framed w (w'.setBlock b e) := by
  refine ⟨fun b' => ?_, fun b' => ?_, h.engine⟩
  · by_cases hb : b' = b
    · subst hb
      rw [← h.block b', ← he]
      simp [PackedWorld.setBlock, PackedWorld.block]
    · rw [← h.block b']
      simp [PackedWorld.setBlock, PackedWorld.block, hb]
  · by_cases hb : b' = b
    · subst hb
      rw [← h.chains b']
      simp [PackedWorld.setBlock]
    · rw [← h.chains b']
      simp [PackedWorld.setBlock, hb]

theorem Framed.attempt {α β : Type} {x : Except PyError β} {k : β → Call PackedWorld α} (hw : Framed w w')
    (hk : ∀ a, Framed w (k a).obj) : Framed w (Call.attempt x w' k).obj :=
  Call.attempt_obj (P := fun w' : PackedWorld => Framed w w') hw fun a _ => hk a

theorem Framed.bind {α β : Type} {c : Call PackedWorld β} {k : PackedWorld → β → Call PackedWorld α}
    (hc : Framed w c.obj) (hk : ∀ a, Framed w (k c.obj a).obj) : Framed w (c.bind k).obj :=
  Call.bind_obj (P := fun w' : PackedWorld => Framed w w') hc fun a _ => hk a

theorem Framed.setBusy (h : Framed w w') (entries : List PackedEntry) (busy : Bool) :
    Framed w (w'.setBusy entries busy) := by
  unfold PackedWorld.setBusy
  induction entries generalizing w' with
  | nil => exact h
  | cons e entries ih => exact ih (h.setRequest _ _)

theorem Framed.publish (h : Framed w w') (i rows : Nat) (p : PackedPublication) :
    Framed w (w'.publish i rows p).obj := by
  have hcommit : Framed w (w'.commitBlock i rows p.commit).obj := by
    unfold commitBlock
    split
    · exact h
    · exact h.setBlock (PackedEngine.commitUser_block ..)
  refine Framed.attempt h fun _ => ?_
  refine Framed.bind hcommit fun _ => ?_
  exact Framed.attempt hcommit fun _ => hcommit.setAdopted i none

theorem Framed.abortEntry (h : Framed w w') (e : PackedEntry) (p : PackedPublication) :
    Framed w (w'.abortEntry e p).obj :=
  Framed.attempt h fun _ => (h.publish e.request 0 p).setRequest _ _

theorem Framed.commitRows (h : Framed w w') (e : PackedEntry) (rows : List Token) (maxRows : Option Nat)
    (p : PackedPublication) : Framed w (w'.commitRows e rows maxRows p).obj :=
  Framed.attempt h fun d => (h.publish e.request d.stateRows p).setRequest _ _

theorem Framed.failEntries (h : Framed w w') (env : PackedStepEnv) (entries : List PackedEntry) :
    Framed w (failEntries env w' entries).obj := by
  induction entries generalizing w' with
  | nil => exact h
  | cons e entries ih =>
    have hfail : Framed w (failEntry env w' e).obj := by
      unfold failEntry
      split
      · exact h
      split
      · exact (h.tick.abortEntry e _).setRequest _ _
      · exact h.setRequest _ _
    exact Framed.bind hfail fun _ => ih hfail

theorem Framed.failRound (h : Framed w w') (env : PackedStepEnv) (b : Nat) (entries : List PackedEntry) :
    Framed w (failRound env w' b entries).obj := by
  have hrelease : ∀ (segments : List Nat) (w' : PackedWorld) (answers : Nat → BlockCommitEnv), Framed w w' →
      Framed w (releaseSegments answers w' b segments) := by
    intro segments
    induction segments with
    | nil => exact fun _ _ h => h
    | cons segment segments ih =>
      exact fun w' answers h => ih _ answers (h.setBlock (PackedEngine.commitUser_block ..))
  exact Framed.bind (h.failEntries env entries) fun _ => hrelease _ _ _ (h.failEntries env entries).tick

theorem Framed.commitEntry (h : Framed w w') (env : PackedStepEnv) (b : Nat) (e : PackedEntry) (segment : Nat)
    (rows : List Token) : Framed w (commitEntry env w' b e segment rows).obj := by
  have hadopt : ∀ {w'}, Framed w w' → Framed w (w'.adoptPacked b e segment) :=
    fun h => (h.setRequest _ _).setAdopted _ _
  refine Framed.attempt h fun _ => ?_
  refine Framed.attempt (hadopt h.tick) fun limit => ?_
  refine Framed.attempt (hadopt h.tick) fun cancelled => ?_
  have hdecide : ∀ {w'}, Framed w w' → Framed w (decideEntry env w' e rows limit cancelled).obj := by
    intro w' h
    unfold decideEntry
    split
    · exact Framed.bind (h.tick.abortEntry e _) fun _ => (h.tick.abortEntry e _).setRequest _ _
    · exact Framed.bind (h.tick.commitRows e rows limit _) fun _ => h.tick.commitRows e rows limit _
  have hdecided := hdecide (hadopt h.tick.tick)
  exact Framed.bind hdecided fun _ => Framed.attempt hdecided fun _ => hdecided.tick

theorem Framed.commitEntries (h : Framed w w') (env : PackedStepEnv) (b : Nat)
    (rounds : List (PackedEntry × Nat × List Token)) : Framed w (commitEntries env w' b rounds).obj := by
  induction rounds generalizing w' with
  | nil => exact h
  | cons p rounds ih =>
    have hentry := h.commitEntry env b p.1 p.2.1 p.2.2
    exact Framed.bind hentry fun _ => ih hentry

/-- A block's own round. -/
theorem Framed.runVerifiedBlock (h : Framed w w') (env : PackedStepEnv) (b : Nat) (entries : List PackedEntry) :
    Framed w (runVerifiedBlock env w' b entries).obj := by
  have hstart := (h.handle (.verified b) entries).setBusy entries true
  have hbody : ∀ {w'}, Framed w w' → Framed w (verifiedBody env w' b entries).obj := by
    intro w' h
    have hverify := h.tick.setBlock (b := b)
      (PackedEngine.verify_block (w'.blocks b).engine (entries.map w'.ticketed) (env.verify w'.clock))
    refine Framed.bind hverify fun _ => ?_
    refine Framed.attempt hverify fun segments => ?_
    refine Framed.attempt hverify fun _ => ?_
    have hcommits := hverify.commitEntries env b (entries.zip (segments.zip (env.predictions w'.clock)))
    exact Framed.bind hcommits fun _ => Framed.attempt hcommits fun _ => hcommits.tick
  have hround : ∀ {w'}, Framed w w' → Framed w (verifiedRound env w' b entries).obj := by
    intro w' h
    unfold verifiedRound
    split
    · exact hbody h
    · exact Framed.bind ((hbody h).failRound env b entries) fun _ => (hbody h).failRound env b entries
  exact (hround hstart).setBusy entries false

/-- The round of an eligible group: the block's own, unless it is cancelled; no ticket is narrowed, and none refused. -/
def serveEligible (env : PackedStepEnv) (w : PackedWorld) (b : Nat) (entries : List PackedEntry) :
    Call PackedWorld Served :=
  Call.attempt (env.cancelled w.clock) w fun cancelled =>
  if cancelled then Call.ret w.tick (.left entries) else (runVerifiedBlock env w.tick b entries).map .outputs

/-- The blocks' rounds over groups that are all eligible. -/
def eligibleRounds (env : PackedStepEnv) (groups : Dict Nat (List PackedEntry)) : List Nat → PackedWorld → Rounds →
    Call PackedWorld Rounds
  | [], w, rounds => Call.ret w rounds
  | b :: blocks, w, rounds =>
    match groups.get? b with
    | none => eligibleRounds env groups blocks w rounds
    | some group =>
      (serveEligible env w b group).bind fun w served => eligibleRounds env groups blocks w (rounds.add served)

/-- **The round of an eligible group leaves the geometry, the carries and the tables.** -/
theorem Framed.serveEligible (h : Framed w w') (env : PackedStepEnv) (b : Nat) (entries : List PackedEntry) :
    Framed w (serveEligible env w' b entries).obj := by
  refine Framed.attempt h fun cancelled => ?_
  split
  · exact h.tick
  · exact h.tick.runVerifiedBlock env b entries

theorem serveGroup_eligible (h : ineligible env w b entries = .ok none) :
    serveGroup env w b entries = serveEligible env w b entries := by
  unfold serveGroup
  rw [h]
  rfl

/-- **Groups that are eligible in every such world are served as eligible ones**, one block after the other. -/
theorem blockRounds_eligible {groups : Dict Nat (List PackedEntry)}
    (hg : ∀ b group, groups.get? b = some group → ∀ w'', Framed w w'' → ineligible env w'' b group = .ok none)
    (blocks : List Nat) {w' : PackedWorld} (h : Framed w w') (rounds : Rounds) :
    blockRounds env groups blocks w' rounds = eligibleRounds env groups blocks w' rounds := by
  induction blocks generalizing w' rounds with
  | nil => rfl
  | cons b blocks ih =>
    unfold blockRounds eligibleRounds
    cases hb : groups.get? b with
    | none => exact ih h rounds
    | some group =>
      simp only [serveGroup_eligible (hg b group hb w' h)]
      exact Call.bind_congr fun served _ => ih (h.serveEligible env b group) (rounds.add served)

/-! ## The policy -/

/-- The live requests. -/
def live (w : PackedWorld) (requests : List Nat) : List Nat :=
  requests.filter fun r => (w.owners r).request.session.finished = false

/-- What a width says of the groups: it is each block's, and each block serves its group. -/
theorem proposalWidth_some {groups : List (Nat × List Nat)} {start : Option Nat} {width : Nat}
    (h : proposalWidth env w groups start = .ok (some width)) :
    (∀ g ∈ groups, (w.block g.1).shape.rowsPerUser = width ∧ proposalGroup env w g.1 g.2 = .ok true) ∧
      (start = none ∨ start = some width) := by
  induction groups generalizing start with
  | nil =>
    cases h
    exact ⟨by simp, Or.inr rfl⟩
  | cons g groups ih =>
    unfold proposalWidth at h
    split at h
    · cases h
    rename_i hsame
    obtain ⟨served, hserved, h⟩ := bind_ok h
    split at h
    · rename_i htrue
      subst htrue
      obtain ⟨hrest, hstart⟩ := ih h
      have hwidth : (w.block g.1).shape.rowsPerUser = width := by simpa using hstart
      refine ⟨?_, ?_⟩
      · rintro g' hg'
        rcases List.mem_cons.mp hg' with rfl | hg'
        · exact ⟨hwidth, hserved⟩
        · exact hrest g' hg'
      · cases start with
        | none => exact Or.inl rfl
        | some rows =>
          refine Or.inr ?_
          rw [← hwidth]
          simpa using hsame
    · cases h

/-- **What a width says of each block's group of live requests.** -/
theorem proposalRows_some {blocks requests : List Nat} {width : Nat}
    (h : proposalRows env w blocks requests = .ok (some width)) :
    (∀ r ∈ w.live requests, ∃ b, w.matched blocks r = some b) ∧
      ∀ b, ((w.live requests).filter fun r => w.matched blocks r = some b) ≠ [] →
        (w.block b).shape.rowsPerUser = width ∧
          proposalGroup env w b ((w.live requests).filter fun r => w.matched blocks r = some b) = .ok true := by
  have hlive : proposalLive env w blocks (w.live requests) = .ok (some width) := h
  unfold proposalLive at hlive
  split at hlive
  · cases hlive
  rename_i hmatched
  push Not at hmatched
  refine ⟨fun r hr => ?_, fun b hne => ?_⟩
  · have hnil := hmatched.2
    rw [groupBy_snd, List.filter_eq_nil_iff] at hnil
    exact Option.ne_none_iff_exists'.mp (by simpa using hnil r hr)
  · have hget := groupBy_get? (w.matched blocks) (w.live requests) b
    rw [if_neg hne, Dict.get?_eq_some_iff] at hget
    exact (proposalWidth_some hlive).1 _ hget

/-- What the policy checks of a group: its count, each frontier, and the guards. -/
theorem proposalGroup_true {group : List Nat} (h : proposalGroup env w b group = .ok true) :
    (group.length = (w.block b).shape.users ∨ (w.block b).pads group.length = true) ∧
      (∀ r ∈ group, (w.block b).admits env.ladder (w.owners r).request.session.position = true) ∧
      (group.length ≠ (w.block b).shape.users → (w.block b).roundRefusal (group.map w.frontier) = .ok none) ∧
      ((w.blocks b).kvChains = true → (w.block b).kvGuard env.sentinels (group.map w.frontier) = .ok none) := by
  unfold proposalGroup at h
  split at h
  · cases h
  rename_i hcount
  split at h
  · cases h
  rename_i hrequests
  obtain ⟨clear, hclear, h⟩ := bind_ok h
  split at h
  swap
  · cases h
  rename_i htrue
  subst htrue
  refine ⟨?_, fun r hr => ?_, fun hne => ?_, fun hchains => ?_⟩
  · by_cases hlen : group.length = (w.block b).shape.users
    · exact Or.inl hlen
    · exact Or.inr (by simpa [hlen] using hcount)
  · by_contra hc
    exact hrequests ⟨r, hr, Or.inr (by simpa using hc)⟩
  · unfold proposalPadded at hclear
    rw [if_neg hne] at hclear
    cases hr : (w.block b).roundRefusal (group.map w.frontier) with
    | error e => rw [hr] at hclear; cases hclear
    | ok refusal =>
      rw [hr] at hclear
      simpa [Except.map] using hclear
  · unfold proposalChains at h
    rw [if_pos hchains] at h
    cases hr : (w.block b).kvGuard env.sentinels (group.map w.frontier) with
    | error e => rw [hr] at h; cases h
    | ok reason =>
      rw [hr] at h
      simpa [Except.map] using h

/-! ## From the drafts to the step -/

/-- What comes between the policy's answer and the step: each live request drafts a ticket of that width at its
session's position, in entries of any order; the blocks are as they were; and each engine's table grows by fresh blocks
of no other live request, none of them page 0. -/
structure Drafted (w w' : PackedWorld) (blocks requests : List Nat) (width : Nat) (entries : List PackedEntry)
    (fresh : Nat → List Int) : Prop where
  order : (entries.map PackedEntry.request).Perm (w.live requests)
  rows : ∀ e ∈ entries, e.ticket.rows = width
  position : ∀ e ∈ entries, e.ticket.position = (w.owners e.request).request.session.position
  block : ∀ b ∈ blocks, w'.block b = w.block b
  chains : ∀ b ∈ blocks, (w'.blocks b).kvChains = (w.blocks b).kvChains
  carry : ∀ r ∈ w.live requests, (w'.owners r).engine.carry = (w.owners r).engine.carry
  grown : ∀ r ∈ w.live requests, Grown (w.owners r).engine.pages (fresh r) (w'.owners r).engine.pages
  nonzero : ∀ r ∈ w.live requests, (0 : Int) ∉ fresh r
  disjoint : ∀ r ∈ w.live requests, ∀ r' ∈ w.live requests, r' ≠ r →
    ∀ x ∈ fresh r, x ∉ tablePages (w'.owners r').engine.pages

/-- The live requests of one block are in distinct segments. -/
def DistinctSegments (w : PackedWorld) (blocks requests : List Nat) : Prop :=
  (w.live requests).Pairwise fun r r' => ∀ b ∈ blocks, w.matched blocks r = some b → w.matched blocks r' = some b →
    (w.block b).segmentOf (w.owners r).engine ≠ (w.block b).segmentOf (w.owners r').engine

variable {blocks requests : List Nat} {width : Nat} {fresh : Nat → List Int}

/-- Requests in distinct segments are distinct. -/
theorem DistinctSegments.nodup (hd : DistinctSegments w blocks requests)
    (hmatched : ∀ r ∈ w.live requests, ∃ b, w.matched blocks r = some b) : (w.live requests).Nodup := by
  refine List.Pairwise.imp_of_mem (fun {r r'} hr _ hne => ?_) hd
  rintro rfl
  obtain ⟨b, hb⟩ := hmatched r hr
  exact hne b (List.mem_of_find?_eq_some hb) hb hb rfl

theorem segmentOf_carry (p : PackedBlock) {engine engine' : Engine} (h : engine'.carry = engine.carry) :
    p.segmentOf engine' = p.segmentOf engine := by
  unfold PackedBlock.segmentOf
  rw [h]

/-- A live request stays with its block. -/
theorem Drafted.matched (h : Drafted w w' blocks requests width entries fresh) {r : Nat}
    (hr : r ∈ w.live requests) : w'.matched blocks r = w.matched blocks r := by
  unfold PackedWorld.matched
  refine List.find?_congr fun b hb => ?_
  rw [h.block b hb, segmentOf_carry _ (h.carry r hr)]

/-- An entry's request is live. -/
theorem Drafted.live (h : Drafted w w' blocks requests width entries fresh) (he : e ∈ entries) :
    e.request ∈ w.live requests := h.order.mem_iff.mp (List.mem_map_of_mem he)

/-- The entries of a block. -/
def group (w : PackedWorld) (blocks : List Nat) (entries : List PackedEntry) (b : Nat) : List PackedEntry :=
  entries.filter fun e => w.matched blocks e.request = some b

/-- The requests of a block's entries are its live requests. -/
theorem Drafted.group_perm (h : Drafted w w' blocks requests width entries fresh) (b : Nat) :
    ((w'.group blocks entries b).map PackedEntry.request).Perm
      ((w.live requests).filter fun r => w.matched blocks r = some b) := by
  have hsame : w'.group blocks entries b = entries.filter fun e => w.matched blocks e.request = some b := by
    refine List.filter_congr fun e he => ?_
    rw [h.matched (h.live he)]
  have hmap : (entries.filter fun e => w.matched blocks e.request = some b).map PackedEntry.request =
      (entries.map PackedEntry.request).filter fun r => w.matched blocks r = some b := by
    rw [List.filter_map]
    rfl
  rw [hsame, hmap]
  exact h.order.filter _

/-- The owner of an entry, as its table grows. -/
def growth (w w' : PackedWorld) (fresh : Nat → List Int) (e : PackedEntry) : Growth where
  carry := (w.owners e.request).engine.carry
  position := (w.owners e.request).request.session.position
  before := (w.owners e.request).engine.pages
  fresh := fresh e.request
  after := (w'.owners e.request).engine.pages

/-- **The tables of a block's group grow.** -/
theorem Drafted.grownRound (h : Drafted w w' blocks requests width entries fresh) (hnd : (w.live requests).Nodup)
    (b : Nat) : GrownRound ((w'.group blocks entries b).map (growth w w' fresh)) := by
  have hmem : ∀ e ∈ w'.group blocks entries b, e.request ∈ w.live requests :=
    fun e he => h.live (List.mem_filter.mp he).1
  refine ⟨fun o ho => ?_, fun o ho => ?_, ?_⟩
  · obtain ⟨e, he, rfl⟩ := List.mem_map.mp ho
    exact h.grown _ (hmem e he)
  · obtain ⟨e, he, rfl⟩ := List.mem_map.mp ho
    exact h.nonzero _ (hmem e he)
  · have hdistinct : (w'.group blocks entries b).Pairwise fun e e' => e.request ≠ e'.request :=
      List.pairwise_map.mp ((h.order.nodup_iff.mpr hnd).sublist (List.filter_sublist.map _))
    rw [List.pairwise_map]
    refine List.Pairwise.imp_of_mem (fun {e e'} he he' hne => ?_) hdistinct
    exact ⟨h.disjoint _ (hmem e he) _ (hmem e' he') hne.symm, h.disjoint _ (hmem e' he') _ (hmem e he) hne⟩

/-- **A block's group of a drafted round is eligible**, in every world with its geometry and tables. -/
theorem Drafted.eligible (h : Drafted w w' blocks requests width entries fresh)
    (hrows : proposalRows env w blocks requests = .ok (some width)) (hd : DistinctSegments w blocks requests)
    (hframed : Framed w' w'') (hne : w'.group blocks entries b ≠ []) :
    ineligible env w'' b (w'.group blocks entries b) = .ok none := by
  obtain ⟨hbound, hgroups⟩ := proposalRows_some hrows
  have hperm := h.group_perm b
  have hlen := hperm.length_eq
  rw [List.length_map] at hlen
  have hlive : ∀ e ∈ w'.group blocks entries b, e ∈ entries ∧ w.matched blocks e.request = some b := by
    intro e he
    obtain ⟨hmem, hmatched⟩ := List.mem_filter.mp he
    exact ⟨hmem, by rw [← h.matched (h.live hmem)]; simpa using hmatched⟩
  obtain ⟨hwidth, hserved⟩ := hgroups b fun hnil => by
    rw [hnil, List.length_nil, List.length_eq_zero_iff] at hlen
    exact hne hlen
  obtain ⟨hcount, hadmits, hpadded, hchains⟩ := proposalGroup_true hserved
  -- the block at the step is the policy's
  obtain ⟨e, he⟩ := List.exists_mem_of_ne_nil _ hne
  have hb : b ∈ blocks := List.mem_of_find?_eq_some (hlive e he).2
  have hblock : w''.block b = w.block b := (hframed.block b).trans (h.block b hb)
  have hkv : (w''.blocks b).kvChains = (w.blocks b).kvChains := (hframed.chains b).trans (h.chains b hb)
  -- its owners, before and after their tables grow
  have hround := h.grownRound (hd.nodup hbound) b
  have hproposed : (((w.live requests).filter fun r => w.matched blocks r = some b).map w.frontier).Perm
      (((w'.group blocks entries b).map (growth w w' fresh)).map Growth.proposed) := by
    have hmap := (hperm.map w.frontier).symm
    rwa [List.map_map] at hmap ⊢
  have hstepped : (w'.group blocks entries b).map w''.ticketed =
      ((w'.group blocks entries b).map (growth w w' fresh)).map Growth.stepped := by
    rw [List.map_map]
    refine List.map_congr_left fun e he => ?_
    have hmem := (hlive e he).1
    show ((w''.owners e.request).engine, e.ticket.position) = _
    rw [hframed.engine, h.position e hmem]
    show _ = ((⟨(w.owners e.request).engine.carry, (w'.owners e.request).engine.pages⟩ : Engine), _)
    rw [← h.carry _ (h.live hmem)]
    rfl
  have hapart : Apart (w.block b) (((w.live requests).filter fun r => w.matched blocks r = some b).map w.frontier) := by
    unfold Apart
    rw [List.pairwise_map]
    refine List.Pairwise.imp_of_mem (fun {r r'} hr hr' hne => ?_) (hd.sublist List.filter_sublist)
    exact hne b hb (by simpa using (List.mem_filter.mp hr).2) (by simpa using (List.mem_filter.mp hr').2)
  have hentries : (w'.group blocks entries b).findSome? (entryRefusal env w'' b) = none := by
    rw [List.findSome?_eq_none_iff]
    intro e he
    obtain ⟨hmem, hmatched⟩ := hlive e he
    have hr := hperm.mem_iff.mp (List.mem_map_of_mem (f := PackedEntry.request) he)
    have hsegment : ((w.block b).segmentOf (w''.owners e.request).engine).isOk = true := by
      rw [hframed.engine, segmentOf_carry _ (h.carry _ (h.live hmem))]
      unfold PackedWorld.matched at hmatched
      simpa using List.find?_some hmatched
    unfold entryRefusal
    rw [hblock, h.rows e hmem, hwidth, h.position e hmem, hsegment, hadmits e.request hr]
    simp
  unfold ineligible
  rw [hblock, hlen, hentries, if_neg (by simpa [imp_iff_not_or] using hcount)]
  have hguards : ((w'.group blocks entries b).length ≠ (w.block b).shape.users →
        (w.block b).roundRefusal ((w'.group blocks entries b).map w''.ticketed) = .ok none) ∧
      ((w.blocks b).kvChains = true →
        (w.block b).kvGuard env.sentinels ((w'.group blocks entries b).map w''.ticketed) = .ok none) := by
    rw [hstepped, hlen]
    refine ⟨fun hfewer => ?_, fun hk => kvGuard_grown hround (kvGuard_perm hproposed hapart (hchains hk))⟩
    refine roundRefusal_grown hround (hapart.perm hproposed) ?_
    rw [roundRefusal_none_iff (hapart.perm hproposed)]
    exact ((roundRefusal_none_iff hapart).mp (hpadded hfewer)).perm hproposed
  have hsteppedPadded : steppedPadded w'' b (w'.group blocks entries b) = .ok none := by
    unfold steppedPadded
    rw [hblock]
    split
    · rfl
    · rename_i hfewer
      rw [hguards.1 hfewer]
      rfl
  rw [hsteppedPadded]
  show steppedChains env w'' b (w'.group blocks entries b) = .ok none
  unfold steppedChains
  rw [hblock, hkv]
  split
  · rename_i hk
    rw [hguards.2 hk]
    rfl
  · rfl

/-- **Main result.** What the policy's width is drafted for is eligible at its step. The step finds every entry's block;
`ineligible` gives no reason for any block's group, in any world with the blocks and the tables of the step, nor over a
lone block for the entries as they are; so every group's round is the block's own, and no ticket is narrowed. -/
theorem proposed_round_eligible (env : PackedStepEnv) (w w' : PackedWorld) (blocks requests : List Nat) (width : Nat)
    (entries : List PackedEntry) (fresh : Nat → List Int)
    (hrows : proposalRows env w blocks requests = .ok (some width)) (hd : DistinctSegments w blocks requests)
    (h : Drafted w w' blocks requests width entries fresh) :
    (groupBy (fun e => w'.matched blocks e.request) entries).2 = [] ∧
      (∀ b group, (groupBy (fun e => w'.matched blocks e.request) entries).1.get? b = some group →
        ∀ w'', Framed w' w'' → ineligible env w'' b group = .ok none) ∧
      (∀ b, blocks = [b] → ineligible env w' b entries = .ok none) ∧
      ∀ rounds, blockRounds env (groupBy (fun e => w'.matched blocks e.request) entries).1 blocks w' rounds =
        eligibleRounds env (groupBy (fun e => w'.matched blocks e.request) entries).1 blocks w' rounds := by
  have hgroups : ∀ b group, (groupBy (fun e => w'.matched blocks e.request) entries).1.get? b = some group →
      ∀ w'', Framed w' w'' → ineligible env w'' b group = .ok none := by
    intro b group hget w'' hframed
    rw [groupBy_get?] at hget
    split at hget
    · cases hget
    · rename_i hne
      cases hget
      exact h.eligible hrows hd hframed hne
  have hbound : ∀ e ∈ entries, ∃ b, w'.matched blocks e.request = some b := by
    intro e he
    rw [h.matched (h.live he)]
    exact (proposalRows_some hrows).1 e.request (h.live he)
  refine ⟨?_, hgroups, ?_, blockRounds_eligible hgroups blocks (Framed.refl w')⟩
  · rw [groupBy_snd, List.filter_eq_nil_iff]
    intro e he
    obtain ⟨b, hb⟩ := hbound e he
    simp [hb]
  · rintro b rfl
    have hall : w'.group [b] entries b = entries := List.filter_eq_self.mpr fun e he => by
      obtain ⟨b', hb'⟩ := hbound e he
      obtain rfl : b' = b := by simpa using List.mem_of_find?_eq_some hb'
      simpa using hb'
    have hne : w'.group [b] entries b ≠ [] := by
      rw [hall]
      rintro rfl
      have hnil : w.live requests = [] := h.order.nil_eq.symm
      have hlive : proposalLive env w [b] (w.live requests) = .ok (some width) := hrows
      rw [hnil] at hlive
      cases hlive
    rw [← hall]
    exact h.eligible hrows hd (Framed.refl w') hne

/-! ## A round -/

/-- A live request at position 184, whose engine borrows a carry and has a table over `blocks`. -/
def policyOwner (requestId : String) (ident carry : Nat) (blocks : List Int) : PackedOwner :=
  { sampleOwner requestId ident carry with
    request := ⟨{ sampleSession requestId ident with position := 184, maxNewTokens := 100 }, .idle, "dspark", false,
      false, false⟩
    engine := ⟨some carry, some [padTable 68 blocks]⟩ }

/-- Two requests of one block under sticky sessions, over these blocks. -/
def policyWorld (blocks : Nat → List Int) : PackedWorld :=
  { sampleWorld with
    owners := fun i => if i = 0 then policyOwner "a" 0 100 (blocks 0) else policyOwner "b" 1 101 (blocks 1)
    blocks := fun _ => ⟨.start Packed.sampleBlock false false false false, true⟩ }

/-- Their blocks: the first is shared. -/
def policyBlocks (i : Nat) : List Int := if i = 0 then [5, 6, 10] else [5, 7, 11]

/-- The block that the next refresh appends to each. -/
def policyFresh (i : Nat) : List Int := if i = 0 then [8] else [9]

def policyEnv : PackedStepEnv := { sampleEnv with sentinels := true }

/-- A ticket of 16 rows at position 184. -/
def policyTicket (requestId : String) (ident : Nat) : BlockTicket :=
  { sampleTicket requestId ident with position := 184, proposals := List.replicate 15 5 }

def policyEntries : List PackedEntry := [⟨"b", 1, policyTicket "b" 1⟩, ⟨"a", 0, policyTicket "a" 0⟩]

theorem policy_padded (i : Nat) : (sampleBinding (policyBlocks i)).Padded ∧
    (sampleBinding (policyBlocks i ++ policyFresh i)).Padded := by
  by_cases hi : i = 0
  · subst hi
    exact ⟨⟨rfl, by decide, by decide, by decide, by decide⟩, ⟨rfl, by decide, by decide, by decide, by decide⟩⟩
  · have hblocks : policyBlocks i = [5, 7, 11] := if_neg hi
    have hfresh : policyFresh i = [9] := if_neg hi
    rw [hblocks, hfresh]
    exact ⟨⟨rfl, by decide, by decide, by decide, by decide⟩, ⟨rfl, by decide, by decide, by decide, by decide⟩⟩

/-- Both requests cross into a fresh block each, which the policy's guard reads as their sentinels. -/
theorem policy_drafted : Drafted (policyWorld policyBlocks) (policyWorld fun i => policyBlocks i ++ policyFresh i) [0]
    [0, 1] 16 policyEntries policyFresh := by
  have hlive : (policyWorld policyBlocks).live [0, 1] = [0, 1] := by decide
  refine ⟨by decide, by decide, by decide, fun _ _ => rfl, fun _ _ => rfl, ?_, ?_, ?_, ?_⟩ <;> rw [hlive]
  · decide
  · intro r hr
    have hgrown := fun i => Grown.append (policy_padded i).1 (policy_padded i).2 rfl rfl
    rcases List.mem_cons.mp hr with rfl | hr
    · exact hgrown 0
    · obtain rfl : r = 1 := List.mem_singleton.mp hr
      exact hgrown 1
  · decide
  · decide

/-- A round of two that is drafted at 16 rows, past the blocks of both tables, is eligible when both have grown. -/
theorem proposed_round_eligible_sample :
    (groupBy (fun e => (policyWorld fun i => policyBlocks i ++ policyFresh i).matched [0] e.request)
      policyEntries).2 = [] ∧
      ineligible policyEnv (policyWorld fun i => policyBlocks i ++ policyFresh i) 0 policyEntries = .ok none := by
  have h := proposed_round_eligible policyEnv (policyWorld policyBlocks)
    (policyWorld fun i => policyBlocks i ++ policyFresh i) [0] [0, 1] 16 policyEntries policyFresh (by decide)
    (by unfold DistinctSegments; decide) policy_drafted
  exact ⟨h.1, h.2.2.1 0 rfl⟩

end PackedWorld

end BlackholeQwen.Serving
