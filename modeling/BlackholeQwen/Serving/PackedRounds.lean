import BlackholeQwen.Packed.Rounds
import BlackholeQwen.Serving.PackedStep

/-!
# A packed round serves every request once

* `handled`: only the handlers themselves change what has been handled.
* `Served.Complete`, `serveGroup_ok`: what one block's group comes to.
* `blockRounds_ok`: the blocks' rounds hand on or handle every entry of their groups.
* `packed_rounds_once`: a round that returns has one output for each entry, in order, and each was handled once; over
  one block it is `packed_device_step`, when the entries are all bound to it.
-/

namespace BlackholeQwen.Serving

open Lib Speculative Packed

namespace PackedWorld

variable {env : PackedStepEnv} {w w' : PackedWorld} {b : Nat} {e : PackedEntry} {entries : List PackedEntry}

/-! ## What has been handled -/

@[simp] theorem handle_handled (w : PackedWorld) (handler : Handler) (entries : List PackedEntry) :
    (w.handle handler entries).handled =
      w.handled ++ entries.map fun e => ⟨e.requestId, e.request, handler⟩ := rfl

/-- Evaluating an expression hands nothing over. -/
theorem attempt_handled {α β : Type} {x : Except PyError β} {k : β → Call PackedWorld α} {l : List Handled}
    (hw : w.handled = l) (hk : ∀ a, (k a).obj.handled = l) : (Call.attempt x w k).obj.handled = l :=
  Call.attempt_obj (P := fun w' : PackedWorld => w'.handled = l) hw fun a _ => hk a

theorem bind_handled {α β : Type} {c : Call PackedWorld β} {k : PackedWorld → β → Call PackedWorld α}
    {l : List Handled} (hc : c.obj.handled = l) (hk : ∀ a, (k c.obj a).obj.handled = l) :
    (c.bind k).obj.handled = l :=
  Call.bind_obj (P := fun w' : PackedWorld => w'.handled = l) hc fun a _ => hk a

theorem setBusy_handled (w : PackedWorld) (entries : List PackedEntry) (busy : Bool) :
    (w.setBusy entries busy).handled = w.handled := by
  unfold setBusy
  induction entries generalizing w with
  | nil => rfl
  | cons e entries ih => exact ih _

theorem publish_handled (w : PackedWorld) (i rows : Nat) (p : PackedPublication) :
    (w.publish i rows p).obj.handled = w.handled := by
  have hcommit : (w.commitBlock i rows p.commit).obj.handled = w.handled := by
    unfold commitBlock
    split <;> rfl
  refine attempt_handled rfl fun _ => ?_
  refine bind_handled hcommit fun _ => ?_
  exact attempt_handled hcommit fun _ => hcommit

theorem abortEntry_handled (w : PackedWorld) (e : PackedEntry) (p : PackedPublication) :
    (w.abortEntry e p).obj.handled = w.handled :=
  attempt_handled rfl fun _ =>
    publish_handled w e.request 0 p

theorem commitRows_handled (w : PackedWorld) (e : PackedEntry) (rows : List Token) (maxRows : Option Nat)
    (p : PackedPublication) : (w.commitRows e rows maxRows p).obj.handled = w.handled :=
  attempt_handled rfl fun d =>
    publish_handled w e.request d.stateRows p

theorem failEntries_handled (env : PackedStepEnv) (w : PackedWorld) (entries : List PackedEntry) :
    (failEntries env w entries).obj.handled = w.handled := by
  induction entries generalizing w with
  | nil => rfl
  | cons e entries ih =>
    have hfail : (failEntry env w e).obj.handled = w.handled := by
      unfold failEntry
      split
      · rfl
      split
      · exact abortEntry_handled w.tick e _
      · rfl
    exact bind_handled hfail fun _ =>
      (ih _).trans hfail

theorem failRound_handled (env : PackedStepEnv) (w : PackedWorld) (b : Nat) (entries : List PackedEntry) :
    (failRound env w b entries).obj.handled = w.handled := by
  have hrelease : ∀ (segments : List Nat) (w : PackedWorld) (answers : Nat → BlockCommitEnv),
      (releaseSegments answers w b segments).handled = w.handled := by
    intro segments
    induction segments with
    | nil => exact fun _ _ => rfl
    | cons segment segments ih => exact fun w answers => ih _ answers
  exact bind_handled (failEntries_handled env w entries)
    fun _ => (hrelease _ _ _).trans (failEntries_handled env w entries)

theorem abortRefused_handled (env : PackedStepEnv) (w : PackedWorld) (entries : List PackedEntry) :
    (abortRefused env w entries).handled = w.handled := by
  unfold abortRefused
  split
  · rename_i h
    clear h
    induction entries generalizing w with
    | nil => rfl
    | cons e entries ih => exact ih _
  · rfl

theorem commitEntry_handled (env : PackedStepEnv) (w : PackedWorld) (b : Nat) (e : PackedEntry) (segment : Nat)
    (rows : List Token) : (commitEntry env w b e segment rows).obj.handled = w.handled := by
  refine attempt_handled rfl fun _ => ?_
  refine attempt_handled rfl fun limit => ?_
  refine attempt_handled rfl fun cancelled => ?_
  have hdecide : ∀ w : PackedWorld, (decideEntry env w e rows limit cancelled).obj.handled = w.handled := by
    intro w
    unfold decideEntry
    split
    · exact bind_handled (abortEntry_handled w.tick e _)
        fun _ => abortEntry_handled w.tick e _
    · exact bind_handled   (commitRows_handled w.tick e rows limit _) fun _ => commitRows_handled w.tick e rows limit _
  refine bind_handled (hdecide _) fun _ => ?_
  exact attempt_handled (hdecide _) fun _ => hdecide _

theorem commitEntries_handled (env : PackedStepEnv) (w : PackedWorld) (b : Nat)
    (rounds : List (PackedEntry × Nat × List Token)) :
    (commitEntries env w b rounds).obj.handled = w.handled := by
  induction rounds generalizing w with
  | nil => rfl
  | cons p rounds ih =>
    have hentry := commitEntry_handled env w b p.1 p.2.1 p.2.2
    exact bind_handled hentry fun _ =>
      (ih _).trans hentry

theorem verifiedRound_handled (env : PackedStepEnv) (w : PackedWorld) (b : Nat) (entries : List PackedEntry) :
    (verifiedRound env w b entries).obj.handled = w.handled := by
  have hbody : (verifiedBody env w b entries).obj.handled = w.handled := by
    refine bind_handled rfl fun _ => ?_
    refine attempt_handled rfl fun _ => ?_
    refine attempt_handled rfl fun _ => ?_
    refine bind_handled (commitEntries_handled env _ b _) fun _ => ?_
    exact attempt_handled (commitEntries_handled env _ b _) fun _ => commitEntries_handled env _ b _
  unfold verifiedRound
  split
  · exact hbody
  · have hfail := (failRound_handled env (verifiedBody env w b entries).obj b entries).trans hbody
    exact bind_handled hfail fun _ => hfail

/-- The block's round hands its entries to the block. -/
theorem runVerifiedBlock_handled (env : PackedStepEnv) (w : PackedWorld) (b : Nat) (entries : List PackedEntry) :
    (runVerifiedBlock env w b entries).obj.handled =
      w.handled ++ entries.map fun e => ⟨e.requestId, e.request, .verified b⟩ := by
  unfold runVerifiedBlock
  rw [setBusy_handled, verifiedRound_handled, setBusy_handled, handle_handled]

theorem refuseRound_handled (env : PackedStepEnv) (w : PackedWorld) (b : Nat) (entries : List PackedEntry) :
    (refuseRound env w b entries).obj.handled =
      w.handled ++ entries.map fun e => ⟨e.requestId, e.request, .refused b⟩ := by
  have hfail := failRound_handled env (w.handle (.refused b) entries) b entries
  exact bind_handled hfail fun _ =>
    (abortRefused_handled env _ entries).trans hfail

/-! ## Narrowing keeps the requests -/

theorem narrowEntries_kept (env : PackedStepEnv) (w : PackedWorld) (plan : List (PackedEntry × Option Nat)) :
    (narrowEntries env w plan).world.handled = w.handled ∧
      (narrowEntries env w plan).entries.map PackedEntry.key = plan.map fun p => p.1.key := by
  induction plan generalizing w with
  | nil => exact ⟨rfl, rfl⟩
  | cons p plan ih =>
    obtain ⟨e, width⟩ := p
    cases width with
    | none =>
      obtain ⟨hhandled, hkeys⟩ := ih w
      exact ⟨hhandled, congrArg (e.key :: ·) hkeys⟩
    | some width =>
      unfold narrowEntries
      split
      · exact ⟨rfl, by simp⟩
      · rename_i ticket _
        obtain ⟨hhandled, hkeys⟩ := ih (w.tick.setSession e (w.narrowTicket env e width).obj)
        exact ⟨hhandled, congrArg (e.key :: ·) hkeys⟩

/-- **Narrowed entries are the entries' own copies, in their order.** -/
theorem narrowRound_kept (env : PackedStepEnv) (w : PackedWorld) (entries : List PackedEntry) :
    (narrowRound env w entries).world.handled = w.handled ∧
      (narrowRound env w entries).entries.map PackedEntry.key = entries.map PackedEntry.key := by
  unfold narrowRound
  split
  · exact ⟨rfl, rfl⟩
  · rename_i widths hplan
    have hlen : widths.length = entries.length := (mapM_get hplan).1
    obtain ⟨hhandled, hkeys⟩ := narrowEntries_kept env w (entries.zip widths)
    refine ⟨hhandled, hkeys.trans ?_⟩
    calc (entries.zip widths).map (fun p => p.1.key)
        = ((entries.zip widths).map Prod.fst).map PackedEntry.key := by rw [List.map_map]; rfl
      _ = entries.map PackedEntry.key := by rw [List.map_fst_zip (by omega)]

/-! ## The outputs -/

theorem commitEntry_ok {segment : Nat} {rows : List Token} {out : CommittedOutput}
    (h : (commitEntry env w b e segment rows).result = .ok out) : out.requestId = e.requestId := by
  obtain ⟨_, _, hc⟩ := Call.of_attempt h
  rw [commitEntry, hc] at h
  obtain ⟨limit, _, hc⟩ := Call.of_attempt h
  rw [hc] at h
  obtain ⟨cancelled, _, hc⟩ := Call.of_attempt h
  rw [hc] at h
  obtain ⟨out', hdecide, hc⟩ := Call.of_bind h
  rw [hc] at h
  obtain ⟨_, _, hc⟩ := Call.of_attempt h
  rw [hc] at h
  obtain rfl := Except.ok.inj h
  unfold decideEntry at hdecide
  split at hdecide <;> obtain ⟨_, _, hc⟩ := Call.of_bind hdecide <;> rw [hc] at hdecide <;>
    exact Except.ok.inj hdecide ▸ rfl

theorem commitEntries_ok {rounds : List (PackedEntry × Nat × List Token)} {outputs : List CommittedOutput}
    (h : (commitEntries env w b rounds).result = .ok outputs) :
    outputs.map CommittedOutput.requestId = rounds.map fun p => p.1.requestId := by
  induction rounds generalizing w outputs with
  | nil => obtain rfl := Except.ok.inj h; rfl
  | cons p rounds ih =>
    obtain ⟨out, hout, hc⟩ := Call.of_bind h
    rw [commitEntries, hc] at h
    obtain ⟨outputs', hrest, rfl⟩ := Call.of_map h
    rw [List.map_cons, List.map_cons, commitEntry_ok hout, ih hrest]

/-- A block's round that returned has one output for each of its entries, in order. -/
theorem runVerifiedBlock_ok {outputs : List CommittedOutput}
    (h : (runVerifiedBlock env w b entries).result = .ok outputs) :
    outputs.map CommittedOutput.requestId = entries.map PackedEntry.requestId := by
  have h : (verifiedRound env ((w.handle (.verified b) entries).setBusy entries true) b entries).result =
    .ok outputs := h
  generalize (w.handle (.verified b) entries).setBusy entries true = w at h
  unfold verifiedRound at h
  split at h
  · obtain ⟨_, _, hc⟩ := Call.of_bind h
    rw [verifiedBody, hc] at h
    obtain ⟨segments, _, hc⟩ := Call.of_attempt h
    rw [hc] at h
    obtain ⟨⟨⟩, hlen, hc⟩ := Call.of_attempt h
    rw [raiseIf_ok, not_or, not_not, not_not] at hlen
    rw [hc] at h
    obtain ⟨outputs', hcommits, hc⟩ := Call.of_bind h
    rw [hc] at h
    obtain ⟨_, _, hc⟩ := Call.of_attempt h
    rw [hc] at h
    obtain rfl := Except.ok.inj h
    rw [commitEntries_ok hcommits]
    calc (entries.zip (segments.zip (env.predictions w.clock))).map (fun p => p.1.requestId)
        = ((entries.zip (segments.zip (env.predictions w.clock))).map Prod.fst).map PackedEntry.requestId := by
          rw [List.map_map]; rfl
      _ = entries.map PackedEntry.requestId := by
          rw [List.map_fst_zip (by rw [List.length_zip, hlen.1, hlen.2, Nat.min_self])]
  · obtain ⟨_, _, hc⟩ := Call.of_bind h
    rw [recoverRound, hc] at h
    cases h

theorem refuseRound_ok {outputs : List CommittedOutput} (h : (refuseRound env w b entries).result = .ok outputs) :
    outputs.map CommittedOutput.requestId = entries.map PackedEntry.requestId := by
  obtain ⟨_, _, hc⟩ := Call.of_bind h
  rw [refuseRound, hc] at h
  obtain rfl := Except.ok.inj h
  rw [List.map_map]
  rfl

theorem stepEntry_ok {out : CommittedOutput} (h : (stepEntry env w e).result = .ok out) :
    out.requestId = e.requestId ∧
      (stepEntry env w e).obj.handled = w.handled ++ [⟨e.requestId, e.request, .sequential⟩] := by
  obtain ⟨⟨⟩, _, hc⟩ := Call.of_attempt h
  rw [stepEntry, hc] at h ⊢
  obtain ⟨out', _, hc⟩ := Call.of_bind h
  rw [hc] at h ⊢
  obtain ⟨⟨⟩, hcheck, hc⟩ := Call.of_attempt h
  rw [hc] at h ⊢
  obtain rfl := Except.ok.inj h
  obtain ⟨⟨⟩, hid, _⟩ := bind_ok hcheck
  rw [raiseIf_ok, not_not] at hid
  exact ⟨hid, rfl⟩

/-- A sequential step that returned has stepped each of its entries, in order. -/
theorem sequentialPackedStep_ok {outputs : List CommittedOutput}
    (h : (sequentialPackedStep env w entries).result = .ok outputs) :
    outputs.map CommittedOutput.requestId = entries.map PackedEntry.requestId ∧
      (sequentialPackedStep env w entries).obj.handled =
        w.handled ++ entries.map fun e => ⟨e.requestId, e.request, .sequential⟩ := by
  have hsteps : ∀ {entries : List PackedEntry} {w : PackedWorld} {outputs : List CommittedOutput},
      (stepEntries env w entries).result = .ok outputs →
      outputs.map CommittedOutput.requestId = entries.map PackedEntry.requestId ∧
        (stepEntries env w entries).obj.handled =
          w.handled ++ entries.map fun e => ⟨e.requestId, e.request, .sequential⟩ := by
    intro entries
    induction entries with
    | nil =>
      intro w outputs h
      obtain rfl := Except.ok.inj h
      exact ⟨rfl, (List.append_nil _).symm⟩
    | cons e entries ih =>
      intro w outputs h
      obtain ⟨out, hout, hc⟩ := Call.of_bind h
      rw [stepEntries, hc] at h ⊢
      obtain ⟨outputs', hrest, rfl⟩ := Call.of_map h
      obtain ⟨hid, hhandled⟩ := stepEntry_ok hout
      obtain ⟨hids, hall⟩ := ih hrest
      refine ⟨by rw [List.map_cons, List.map_cons, hid, hids], ?_⟩
      rw [Call.map_obj, hall, hhandled, List.append_assoc]
      rfl
  obtain ⟨⟨⟩, _, hc⟩ := Call.of_attempt h
  rw [sequentialPackedStep, hc] at h ⊢
  exact hsteps h

/-! ## One block's group -/

/-- What a group that was served comes to: an output for each entry, in order, and each handled; or its entries, with
the tickets that they then have, and nothing handled. -/
def Complete (w : PackedWorld) (entries : List PackedEntry) (w' : PackedWorld) : Served → Prop
  | .outputs outputs => outputs.map CommittedOutput.requestId = entries.map PackedEntry.requestId ∧
      ∃ handled : List Handled, w'.handled = w.handled ++ handled ∧
        handled.map Handled.key = entries.map PackedEntry.key
  | .left left => left.map PackedEntry.key = entries.map PackedEntry.key ∧ w'.handled = w.handled

/-- The names of entries with the same requests. -/
theorem requestIds_of_keys {left : List PackedEntry}
    (h : left.map PackedEntry.key = entries.map PackedEntry.key) :
    left.map PackedEntry.requestId = entries.map PackedEntry.requestId := by
  have h' := congrArg (List.map Prod.fst) h
  rwa [List.map_map, List.map_map] at h'

/-- **Every entry of a group is handled once, or left with its request.** -/
theorem serveGroup_ok {served : Served} (h : (serveGroup env w b entries).result = .ok served) :
    Complete w entries (serveGroup env w b entries).obj served := by
  obtain ⟨reason, _, hc⟩ := Call.of_attempt h
  rw [serveGroup, hc] at h ⊢
  cases reason with
  | some reason =>
    simp only [serveIneligible] at h ⊢
    obtain ⟨hhandled, hkeys⟩ := narrowRound_kept env w entries
    split at h
    · rename_i hall
      rw [if_pos hall]
      obtain rfl := Except.ok.inj h
      exact ⟨rfl, rfl⟩
    · rename_i hsome
      rw [if_neg hsome]
      cases hrefused : (narrowRound env w entries).refused with
      | none =>
        simp only [hrefused] at h ⊢
        obtain rfl := Except.ok.inj h
        exact ⟨hkeys, hhandled⟩
      | some e =>
        simp only [hrefused] at h ⊢
        obtain ⟨outputs, hr, rfl⟩ := Call.of_map h
        refine ⟨(refuseRound_ok hr).trans (requestIds_of_keys hkeys), _,
          (refuseRound_handled env _ b _).trans (by rw [hhandled]), ?_⟩
        rw [List.map_map]
        exact hkeys
  | none =>
    simp only at h ⊢
    obtain ⟨cancelled, _, hc⟩ := Call.of_attempt h
    rw [hc] at h ⊢
    cases cancelled with
    | true =>
      obtain rfl := Except.ok.inj h
      exact ⟨rfl, rfl⟩
    | false =>
      simp only [Bool.false_eq_true, if_false] at h ⊢
      obtain ⟨outputs, hr, rfl⟩ := Call.of_map h
      refine ⟨runVerifiedBlock_ok hr, _, runVerifiedBlock_handled env w.tick b entries, ?_⟩
      rw [List.map_map]
      rfl

/-! ## The blocks' rounds -/

/-- The requests that the blocks' rounds have left to the sequential step, before what has been handled since. -/
def Rounds.keys (rounds : Rounds) (handled : List Handled) : List (String × Nat) :=
  rounds.sequential.map PackedEntry.key ++ handled.map Handled.key

/-- **The blocks' rounds hand on or handle every entry of their groups, once.** -/
theorem blockRounds_ok {groups : Dict Nat (List PackedEntry)} {blocks : List Nat} {rounds rounds' : Rounds}
    (h : (blockRounds env groups blocks w rounds).result = .ok rounds')
    (hnamed : Named CommittedOutput.requestId rounds.outputs) :
    Named CommittedOutput.requestId rounds'.outputs ∧
      ∃ handled : List Handled, (blockRounds env groups blocks w rounds).obj.handled = w.handled ++ handled ∧
        (Rounds.keys rounds' handled).Perm (rounds.sequential.map PackedEntry.key ++
          blocks.flatMap fun b => ((groups.get? b).getD []).map PackedEntry.key) := by
  induction blocks generalizing w rounds with
  | nil =>
    obtain rfl := Except.ok.inj h
    exact ⟨hnamed, [], (List.append_nil _).symm, List.Perm.refl _⟩
  | cons b blocks ih =>
    unfold blockRounds at h ⊢
    cases hgroup : groups.get? b with
    | none =>
      simp only [hgroup] at h ⊢
      obtain ⟨hnamed', handled, hhandled, hperm⟩ := ih h hnamed
      exact ⟨hnamed', handled, hhandled, by simpa [hgroup] using hperm⟩
    | some group =>
      simp only [hgroup] at h ⊢
      obtain ⟨served, hserved, hc⟩ := Call.of_bind h
      rw [hc] at h ⊢
      have hcomplete := serveGroup_ok hserved
      cases served with
      | outputs outputs =>
        obtain ⟨-, handled, hhandled, hkeys⟩ := hcomplete
        obtain ⟨hnamed', handled', hhandled', hperm⟩ := ih h (hnamed.record outputs)
        refine ⟨hnamed', handled ++ handled', ?_, ?_⟩
        · rw [hhandled', hhandled, List.append_assoc]
        · have hnext : (group.map PackedEntry.key ++ Rounds.keys rounds' handled').Perm
              (group.map PackedEntry.key ++ (rounds.sequential.map PackedEntry.key ++
                blocks.flatMap fun b => ((groups.get? b).getD []).map PackedEntry.key)) := hperm.append_left _
          rw [List.flatMap_cons, hgroup, Option.getD_some]
          refine List.Perm.trans ?_ (hnext.trans (List.perm_append_comm_assoc ..))
          unfold Rounds.keys
          rw [List.map_append, hkeys]
          exact List.perm_append_comm_assoc ..
      | left left =>
        obtain ⟨hkeys, hhandled⟩ := hcomplete
        obtain ⟨hnamed', handled', hhandled', hperm⟩ := ih h hnamed
        refine ⟨hnamed', handled', by rw [hhandled', hhandled], hperm.trans ?_⟩
        show ((rounds.sequential ++ left).map PackedEntry.key ++ _).Perm _
        rw [List.flatMap_cons, hgroup, Option.getD_some, List.map_append, hkeys, List.append_assoc]

/-- **A round that returns has one output for each entry, in order, and each entry was handled once.** -/
theorem packedDeviceRounds_ok {blocks : List Nat} (hblocks : blocks.Nodup) {outputs : List CommittedOutput}
    (h : (packedDeviceRounds env w entries blocks).result = .ok outputs) :
    outputs.map CommittedOutput.requestId = entries.map PackedEntry.requestId ∧
      ∃ handled : List Handled, (packedDeviceRounds env w entries blocks).obj.handled = w.handled ++ handled ∧
        (handled.map Handled.key).Perm (entries.map PackedEntry.key) := by
  obtain ⟨⟨⟩, _, hc⟩ := Call.of_attempt h
  rw [packedDeviceRounds, hc] at h ⊢
  obtain ⟨rounds, hrounds, hc⟩ := Call.of_bind h
  rw [hc] at h ⊢
  have hempty : Named CommittedOutput.requestId (Dict.empty : Dict String CommittedOutput) :=
    fun k a ha => by rw [Dict.get?_empty] at ha; cases ha
  obtain ⟨hnamed, handled, hhandled, hperm⟩ := blockRounds_ok hrounds hempty
  generalize (blockRounds env _ blocks w _).obj = w₁ at h hhandled ⊢
  -- the groups of the blocks and the unbound entries are the entries
  have hall : (Rounds.keys rounds handled).Perm (entries.map PackedEntry.key) := by
    refine hperm.trans ?_
    have hgroups := (perm_groups (fun e : PackedEntry => w.matched blocks e.request) (l := entries) hblocks
      fun e _ b hb => List.mem_of_find?_eq_some hb).map PackedEntry.key
    rw [List.map_append, List.map_flatMap] at hgroups
    rw [groupBy_snd]
    refine List.Perm.trans (List.Perm.of_eq ?_) hgroups
    congr 1
    refine List.flatMap_congr fun b _ => ?_
    rw [groupBy_get?]
    split
    · rename_i hnone
      rw [hnone]
      rfl
    · rfl
  obtain ⟨answers, hsequential, hc⟩ := Call.of_bind h
  rw [hc] at h ⊢
  have hrest : Named CommittedOutput.requestId answers ∧ ∃ stepped : List Handled,
      (sequentialRounds env w₁ (entries.map PackedEntry.requestId) rounds).obj.handled = w₁.handled ++ stepped ∧
        (stepped.map Handled.key).Perm (rounds.sequential.map PackedEntry.key) := by
    unfold sequentialRounds at hsequential ⊢
    split at hsequential
    · rename_i hnone
      rw [if_pos hnone]
      obtain rfl := Except.ok.inj hsequential
      exact ⟨hnamed, [], (List.append_nil _).symm, by rw [hnone]; exact List.Perm.refl _⟩
    · rename_i hsome
      rw [if_neg hsome]
      obtain ⟨outputs', hstep, rfl⟩ := Call.of_map hsequential
      refine ⟨hnamed.record outputs', _, (sequentialPackedStep_ok hstep).2, ?_⟩
      rw [List.map_map]
      exact (List.perm_insertionSort _ _).map PackedEntry.key
  obtain ⟨hanswers, stepped, hstepped, hkeys⟩ := hrest
  obtain ⟨outputs', hgather, hc⟩ := Call.of_attempt h
  rw [hc] at h ⊢
  obtain rfl := Except.ok.inj h
  refine ⟨hanswers.gather hgather, handled ++ stepped, ?_, ?_⟩
  · rw [Call.ret_obj, hstepped, hhandled, List.append_assoc]
  · rw [List.map_append]
    exact ((hkeys.append_left _).trans List.perm_append_comm).trans hall

/-! ## One block -/

/-- A sequential batch in the round's order stays as it is. -/
theorem inOrder_self (hnd : (entries.map PackedEntry.requestId).Nodup) {left : List PackedEntry}
    (h : left.map PackedEntry.requestId = entries.map PackedEntry.requestId) :
    inOrder (entries.map PackedEntry.requestId) left = left := by
  refine List.Pairwise.insertionSort_eq ?_
  rw [← h]
  refine List.pairwise_iff_getElem.mpr fun i j hi hj hij => ?_
  have hnd : (left.map PackedEntry.requestId).Nodup := h ▸ hnd
  have hidx : ∀ (k : Nat) (hk : k < left.length),
      (left.map PackedEntry.requestId).idxOf left[k].requestId = k := fun k hk => by
    have := hnd.idxOf_getElem k (by simpa using hk)
    simpa using this
  rw [hidx i hi, hidx j hj]
  omega

/-- A sequential batch that is the whole round, gathered. -/
theorem sequentialRounds_whole (hnd : (entries.map PackedEntry.requestId).Nodup) (hne : entries ≠ [])
    {left : List PackedEntry} (hkeys : left.map PackedEntry.key = entries.map PackedEntry.key) :
    ((sequentialRounds env w (entries.map PackedEntry.requestId) ⟨left, Dict.empty⟩).bind fun w outputs =>
      Call.attempt (gather outputs (entries.map PackedEntry.requestId)) w fun outputs => Call.ret w outputs) =
      sequentialPackedStep env w left := by
  have hids := requestIds_of_keys hkeys
  have hsome : left ≠ [] := by
    rintro rfl
    exact hne (List.map_eq_nil_iff.mp hkeys.symm)
  unfold sequentialRounds
  rw [if_neg hsome, inOrder_self hnd hids]
  cases hr : (sequentialPackedStep env w left).result with
  | error e =>
    rw [Call.map, hr]
    exact congrArg (Call.mk _) hr.symm
  | ok outputs =>
    have hout := (sequentialPackedStep_ok hr).1.trans hids
    rw [Call.map, hr]
    show Call.attempt (gather (record _ _ outputs) _) _ _ = _
    rw [← hout, gather_record _ (hout ▸ hnd)]
    exact congrArg (Call.mk _) hr.symm

/-- The checks of a round over one block are those of a lone block's round. -/
theorem checks_single (w : PackedWorld) (entries : List PackedEntry) (b : Nat) : (do
      raiseIf (entries = []) (.valueError "A packed step needs at least one admitted request")
      raiseIf ([b] = ([] : List Nat))
        (.valueError "A cancellation callback and at least one packed verify block are required")
      w.validatePackedEntries entries : Except PyError Unit) = (do
      raiseIf (entries = []) (.valueError "A packed step needs at least one admitted request")
      w.validatePackedEntries entries) := by
  have hblocks : raiseIf ([b] = ([] : List Nat))
      (.valueError "A cancellation callback and at least one packed verify block are required") = .ok () :=
    if_neg (List.cons_ne_nil _ _)
  rw [hblocks]
  rfl

/-- **Over one block to which every entry is bound, a round is `packed_device_step`.** -/
theorem packedDeviceRounds_single (hnd : (entries.map PackedEntry.requestId).Nodup)
    (hbound : ∀ e ∈ entries, w.matched [b] e.request = some b) :
    packedDeviceRounds env w entries [b] = packedDeviceStep env w entries b := by
  unfold packedDeviceRounds packedDeviceStep
  rw [checks_single]
  rcases Call.attempt_cases (do
      raiseIf (entries = []) (.valueError "A packed step needs at least one admitted request")
      w.validatePackedEntries entries) w (fun _ => (serveGroup env w b entries).bind fun w served =>
        match served with
        | .outputs outputs => Call.ret w outputs
        | .left entries => sequentialPackedStep env w entries) with ⟨err, herr, -⟩ | ⟨⟨⟩, hok, -⟩
  · rw [herr]
    rfl
  rw [hok, Call.attempt_ok, Call.attempt_ok]
  obtain ⟨⟨⟩, hne, -⟩ := bind_ok hok
  rw [raiseIf_ok] at hne
  -- the one group is the whole round
  have hall : entries.filter (fun e => w.matched [b] e.request = some b) = entries :=
    List.filter_eq_self.mpr fun e he => by simp [hbound e he]
  have hunbound : (groupBy (fun e : PackedEntry => w.matched [b] e.request) entries).2 = [] := by
    rw [groupBy_snd]
    exact List.filter_eq_nil_iff.mpr fun e he => by simp [hbound e he]
  have hgroup : (groupBy (fun e : PackedEntry => w.matched [b] e.request) entries).1.get? b = some entries := by
    rw [groupBy_get?, hall, if_neg hne]
  rw [hunbound, blockRounds, hgroup]
  simp only [blockRounds]
  rw [Call.bind_assoc]
  refine Call.bind_congr fun served hserved => ?_
  have hcomplete := serveGroup_ok hserved
  rw [Call.bind_ret]
  cases served with
  | outputs outputs =>
    show Call.attempt (gather (record _ _ outputs) _) _ _ = _
    rw [← hcomplete.1, gather_record _ (hcomplete.1 ▸ hnd)]
    rfl
  | left left => exact sequentialRounds_whole hnd hne hcomplete.1

/-- Over one block to which no entry is bound, a round whose tickets their own engines serve is `packed_device_step`. -/
theorem packedDeviceRounds_unbound (hnd : (entries.map PackedEntry.requestId).Nodup)
    (hunbound : ∀ e ∈ entries, w.matched [b] e.request = none) (hserved : ∀ e ∈ entries, w.servable e = true) :
    packedDeviceRounds env w entries [b] = packedDeviceStep env w entries b := by
  unfold packedDeviceRounds packedDeviceStep
  rw [checks_single]
  rcases Call.attempt_cases (do
      raiseIf (entries = []) (.valueError "A packed step needs at least one admitted request")
      w.validatePackedEntries entries) w (fun _ => (serveGroup env w b entries).bind fun w served =>
        match served with
        | .outputs outputs => Call.ret w outputs
        | .left entries => sequentialPackedStep env w entries) with ⟨err, herr, -⟩ | ⟨⟨⟩, hok, -⟩
  · rw [herr]
    rfl
  rw [hok, Call.attempt_ok, Call.attempt_ok]
  obtain ⟨⟨⟩, hne, -⟩ := bind_ok hok
  rw [raiseIf_ok] at hne
  have hnone : (groupBy (fun e : PackedEntry => w.matched [b] e.request) entries).2 = entries := by
    rw [groupBy_snd]
    exact List.filter_eq_self.mpr fun e he => by simp [hunbound e he]
  have hgroup : (groupBy (fun e : PackedEntry => w.matched [b] e.request) entries).1.get? b = none := by
    rw [groupBy_get?, if_pos (List.filter_eq_nil_iff.mpr fun e he => by simp [hunbound e he])]
  rw [hnone, blockRounds, hgroup]
  simp only [blockRounds]
  rw [Call.bind_ret, sequentialRounds_whole hnd hne rfl]
  -- the block refuses the round: at the count, or at its first entry
  have hreason : ∃ reason, ineligible env w b entries = .ok (some reason) := by
    unfold ineligible
    split
    · exact ⟨_, rfl⟩
    · cases hfind : entries.findSome? (entryRefusal env w b) with
      | some reason => exact ⟨reason, rfl⟩
      | none =>
        obtain ⟨e, he⟩ := List.exists_mem_of_ne_nil _ hne
        have hentry := List.findSome?_eq_none_iff.mp hfind e he
        have hfree : ((w.block b).segmentOf (w.owners e.request).engine).isOk = false := by
          simpa [matched] using hunbound e he
        unfold entryRefusal at hentry
        rw [hfree] at hentry
        split at hentry
        · cases hentry
        · simp at hentry
  obtain ⟨reason, hreason⟩ := hreason
  have hunservable : w.unservable entries = [] :=
    List.filter_eq_nil_iff.mpr fun e he => by simp [hserved e he]
  rw [serveGroup, hreason, Call.attempt_ok]
  simp only [serveIneligible, hunservable, if_true, Call.bind_ret]

end PackedWorld

/-- The blocks of a `PackedStep`: each is built for it (`serving_runtime.py`), so none is configured twice. -/
structure PackedBlocks where
  blocks : List Nat
  distinct : blocks.Nodup

namespace PackedWorld

/-- **Main result.** A round over the configured blocks that returns has one output for each entry, in the entries'
order and with its request id, and each entry was handled by exactly one of a block's verified round, the sequential
step and `refuse_round`. Over one block it is `packed_device_step`, if every entry's engine is bound to the block, or
none is and the engines serve their own tickets. -/
theorem packed_rounds_once (env : PackedStepEnv) (w : PackedWorld) (entries : List PackedEntry) (c : PackedBlocks)
    (hnd : (entries.map PackedEntry.requestId).Nodup) :
    (∀ outputs, (packedDeviceRounds env w entries c.blocks).result = .ok outputs →
      outputs.map CommittedOutput.requestId = entries.map PackedEntry.requestId ∧
      ∃ handled : List Handled, (packedDeviceRounds env w entries c.blocks).obj.handled = w.handled ++ handled ∧
        (handled.map Handled.key).Perm (entries.map PackedEntry.key) ∧
        ∀ e ∈ entries, ∃! h, h ∈ handled ∧ h.requestId = e.requestId) ∧
    ∀ b, c.blocks = [b] →
      ((∀ e ∈ entries, w.matched [b] e.request = some b) ∨
        (∀ e ∈ entries, w.matched [b] e.request = none ∧ w.servable e = true)) →
      packedDeviceRounds env w entries c.blocks = packedDeviceStep env w entries b := by
  refine ⟨fun outputs h => ?_, fun b hb hbound => ?_⟩
  · obtain ⟨hout, handled, hhandled, hperm⟩ := packedDeviceRounds_ok c.distinct h
    refine ⟨hout, handled, hhandled, hperm, fun e he => ?_⟩
    have hids : (handled.map Handled.requestId).Perm (entries.map PackedEntry.requestId) := by
      have h' := hperm.map Prod.fst
      rwa [List.map_map, List.map_map] at h'
    obtain ⟨h, hh, hid⟩ := List.mem_map.mp (hids.mem_iff.mpr (List.mem_map_of_mem he))
    refine ⟨h, ⟨hh, hid⟩, fun h' ⟨hh', hid'⟩ => ?_⟩
    exact List.inj_on_of_nodup_map (hids.nodup_iff.mpr hnd) hh' hh (hid'.trans hid.symm)
  · rw [hb]
    rcases hbound with hbound | hunbound
    · exact packedDeviceRounds_single hnd hbound
    · exact packedDeviceRounds_unbound hnd (fun e he => (hunbound e he).1) fun e he => (hunbound e he).2

/-! ## A round -/

theorem sampleBlock_carries : ([100, 101] : List Nat).length = 2 := rfl

/-- Two segments of one row. -/
def sampleBlock : PackedBlock where
  shape := ⟨2, 1, 2, 4, 256⟩
  carries := [100, 101]
  paddedMinUsers := none
  extent := true
  replayCapacity := 256
  carriesInPlace := false
  lent := fun _ => true
  carries_length := sampleBlock_carries
  family := fun _ => rfl

/-- A ticket of one row. -/
def sampleTicket (requestId : String) (ident : Nat) : BlockTicket := ⟨ident, requestId, 1, 130, some 5, [], "target", 0⟩

/-- A session whose ticket is live. -/
def sampleSession (requestId : String) (ident : Nat) : GreedySession :=
  { GreedySession.sample with
    requestId
    drafter := { GreedySession.sample.drafter with lookup := { GreedySession.sample.drafter.lookup with requestId } }
    position := 130
    phase := .pending
    epoch := 1
    pending := some (sampleTicket requestId ident) }

/-- A request that borrows a carry. -/
def sampleOwner (requestId : String) (ident carry : Nat) : PackedOwner :=
  ⟨⟨sampleSession requestId ident, .idle, "dspark", false, false, false⟩, ⟨some carry, some [[5, 6, 7, 8]]⟩,
    some fun _ rows _ => rows = 1, none⟩

/-- Two requests of the block, and one that is bound to none. -/
def sampleWorld : PackedWorld :=
  ⟨fun i => if i = 0 then sampleOwner "a" 0 100 else if i = 1 then sampleOwner "b" 1 101 else sampleOwner "c" 2 102,
    fun _ => ⟨.start sampleBlock false false false false, false⟩, [], 0, []⟩

def samplePublication : PackedPublication := ⟨.ok (), PackedVerifierEngine.sampleCommitEnv, .ok ()⟩

def sampleStep : StepEnv where
  callable := true
  first := .ok false
  proposalRows := .ok 1
  adapters := fun _ _ _ _ => .ok []
  ident := 9
  verification := .device (.ok [7])
  second := .ok false
  commitPublication := ⟨.returnsNone, .idle⟩
  abortPublication := ⟨.returnsNone, .idle⟩
  recovery := ⟨.returnsNone, .idle⟩

/-- A device that answers every call. -/
def sampleEnv : PackedStepEnv where
  sentinels := false
  ladder := none
  forcedCap := .ok none
  quarantine := false
  cancelled := fun _ => .ok false
  verify := fun _ => PackedVerifierEngine.sampleVerifyEnv
  predictions := fun _ => [[7], [8]]
  adopt := fun _ => .ok ()
  publication := fun _ => samplePublication
  recovery := fun _ => samplePublication
  release := fun _ _ => PackedVerifierEngine.sampleCommitEnv
  step := fun _ => sampleStep
  checked := fun _ => .ok ()
  reported := fun _ => .ok ()
  ident := id

/-- The round of all three. -/
def sampleEntries : List PackedEntry :=
  [⟨"c", 2, sampleTicket "c" 2⟩, ⟨"b", 1, sampleTicket "b" 1⟩, ⟨"a", 0, sampleTicket "a" 0⟩]

/-- The sample's round has its three outputs in order; the pair that is bound to the block makes a round of the block's
own. -/
theorem packed_rounds_once_sample :
    ((packedDeviceRounds sampleEnv sampleWorld sampleEntries [0]).getD []).map CommittedOutput.requestId =
      ["c", "b", "a"] ∧
      packedDeviceRounds sampleEnv sampleWorld sampleEntries.tail [0] =
        packedDeviceStep sampleEnv sampleWorld sampleEntries.tail 0 := by
  have hall := (packed_rounds_once sampleEnv sampleWorld sampleEntries ⟨[0], by decide⟩
    (by decide)).1
  have hpair := (packed_rounds_once sampleEnv sampleWorld sampleEntries.tail
    ⟨[0], by decide⟩ (by decide)).2
  refine ⟨?_, hpair 0 rfl (Or.inl (by decide))⟩
  cases hr : (packedDeviceRounds sampleEnv sampleWorld sampleEntries [0]).result with
  | error e =>
    have hok : (packedDeviceRounds sampleEnv sampleWorld sampleEntries [0]).result.isOk = true := by decide
    rw [hr] at hok
    cases hok
  | ok outputs =>
    rw [Call.getD, hr]
    exact (hall outputs hr).1

/-- **One entry bound to no block**: over one block, the round runs the block for the two entries of the block and steps
the third, where `packed_device_step` steps all three. -/
theorem unbound_entry_disagrees :
    (sampleEntries.map PackedEntry.requestId).Nodup ∧
      (packedDeviceRounds sampleEnv sampleWorld sampleEntries [0]).obj.handled.map Handled.handler =
        [.verified 0, .verified 0, .sequential] ∧
      (packedDeviceStep sampleEnv sampleWorld sampleEntries 0).obj.handled.map Handled.handler =
        [.sequential, .sequential, .sequential] ∧
      packedDeviceRounds sampleEnv sampleWorld sampleEntries [0] ≠
        packedDeviceStep sampleEnv sampleWorld sampleEntries 0 := by
  have hrounds : (packedDeviceRounds sampleEnv sampleWorld sampleEntries [0]).obj.handled.map Handled.handler =
      [.verified 0, .verified 0, .sequential] := by decide
  have hstep : (packedDeviceStep sampleEnv sampleWorld sampleEntries 0).obj.handled.map Handled.handler =
      [.sequential, .sequential, .sequential] := by decide
  refine ⟨by decide, hrounds, hstep, fun h => ?_⟩
  rw [h, hstep] at hrounds
  exact absurd hrounds (by decide)

end PackedWorld

end BlackholeQwen.Serving
