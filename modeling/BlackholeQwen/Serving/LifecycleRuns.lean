import BlackholeQwen.Lib.Runs
import BlackholeQwen.Serving.Lifecycle

/-!
# The lifecycle's bookkeeping holds over every run

The state has two sides that only a hand-over joins: the prefill (`PrefillKept`: the gate, the request and the capture)
and the decoders (`DecodersKept`: the hook and its registry).

- `releaseFinished_ok`: the releases of a step take the finished decoders from the registry, or close the hook after the
  last of them, and release the prefill if it has finished; neither touches the other side.
- `route_ok`: the rest of a step leaves the decoders alone, and the prefill too unless it admits a request.
- `sample_ok`: a seed ends the prefill, or hands it over.
- `lifecycle_bookkeeping`: both sides are kept by every run of calls that return, and no release crosses over.
-/

namespace BlackholeQwen.Serving.Lifecycle

open Lib Speculative
open Quarantine (Holder)

/-! ## Registries -/

theorem erase_eq_filter_ne {l : List String} (hnd : l.Nodup) (a : String) : l.erase a = l.filter (· ≠ a) := by
  rw [hnd.erase_eq_filter]
  refine List.filter_congr fun x _ => ?_
  by_cases hx : x = a <;> simp [hx]

/-- Erasing another element leaves the last one. -/
theorem getLast?_erase {l : List String} {a b : String} (h : l.getLast? = some b) (hne : b ≠ a) :
    (l.erase a).getLast? = some b := by
  obtain ⟨init, rfl⟩ := List.getLast?_eq_some_iff.mp h
  by_cases ha : a ∈ init
  · rw [List.erase_append_left _ ha, List.getLast?_append]
    rfl
  · rw [List.erase_append_right _ ha, List.erase_of_not_mem (by simpa using Ne.symm hne), List.getLast?_append]
    rfl

namespace FastServingLifecycle

variable {s s' : FastServingLifecycle} {env : ExecuteEnv} {h : Hook}

/-! ## The two sides -/

/-- The prefill side: the gate names the request, and a capture is open exactly while there is one. -/
structure PrefillKept (s : FastServingLifecycle) : Prop where
  gate : s.gate = s.requestId
  held : s.capture = none ↔ s.requestId = none
  opened : ∀ c, s.capture = some c → c.closed = false

/-- An open hook that serves the decoders, the last of them named. -/
structure Decodes (s : FastServingLifecycle) (h : Hook) : Prop where
  hook : s.hook = some h
  opened : h.closed = false
  keys : h.bridges.keys = s.decodingIds
  nonempty : s.decodingIds ≠ []
  last : s.decodingId = s.decodingIds.getLast?

/-- The decoders' side: no hook and no decoder, or an open hook that serves them. -/
def DecodersKept (s : FastServingLifecycle) : Prop := (s.hook = none ∧ s.decodingIds = []) ∨ ∃ h, s.Decodes h

/-- The decoders' side is as it was. -/
structure SameDecoders (s s' : FastServingLifecycle) : Prop where
  hook : s'.hook = s.hook
  decodingId : s'.decodingId = s.decodingId
  decodingIds : s'.decodingIds = s.decodingIds

/-- The prefill side is as it was, the capture's ledger apart. -/
structure SamePrefill (s s' : FastServingLifecycle) : Prop where
  requestId : s'.requestId = s.requestId
  gate : s'.gate = s.gate
  capture : s'.capture.map (fun c => (c.ident, c.closed)) = s.capture.map fun c => (c.ident, c.closed)

theorem SameDecoders.refl (s : FastServingLifecycle) : SameDecoders s s := ⟨rfl, rfl, rfl⟩

theorem SamePrefill.refl (s : FastServingLifecycle) : SamePrefill s s := ⟨rfl, rfl, rfl⟩

theorem Decodes.nodup (hd : s.Decodes h) : s.decodingIds.Nodup := hd.keys ▸ h.bridges.nodup

theorem SameDecoders.decodes (hs : SameDecoders s s') (hd : s.Decodes h) : s'.Decodes h :=
  ⟨hs.hook.trans hd.hook, hd.opened, hd.keys.trans hs.decodingIds.symm, hs.decodingIds ▸ hd.nonempty,
    by rw [hs.decodingId, hs.decodingIds]; exact hd.last⟩

theorem SameDecoders.kept (hs : SameDecoders s s') (hd : s.DecodersKept) : s'.DecodersKept := by
  rcases hd with ⟨hnone, hnil⟩ | ⟨h, hd⟩
  · exact Or.inl ⟨hs.hook.trans hnone, hs.decodingIds.trans hnil⟩
  · exact Or.inr ⟨h, hs.decodes hd⟩

theorem SamePrefill.kept (hs : SamePrefill s s') (hp : s.PrefillKept) : s'.PrefillKept := by
  refine ⟨hs.gate.trans (hp.gate.trans hs.requestId.symm), ?_, fun c hc => ?_⟩
  · rw [hs.requestId, ← hp.held]
    have hcap := hs.capture
    cases hc : s.capture <;> cases hc' : s'.capture <;> simp [hc, hc'] at hcap ⊢
  · have hcap := hs.capture
    rw [hc] at hcap
    cases hc' : s.capture with
    | none => rw [hc'] at hcap; cases hcap
    | some c' =>
      rw [hc'] at hcap
      simp only [Option.map_some, Option.some.injEq, Prod.mk.injEq] at hcap
      exact hcap.2.trans (hp.opened c' hc')

/-! ## Releases -/

/-- Only the decoders' side differs. -/
def OnlyDecoders (s s' : FastServingLifecycle) : Prop :=
  s' = { s with hook := s'.hook, decodingId := s'.decodingId, decodingIds := s'.decodingIds }

theorem OnlyDecoders.trans {s'' : FastServingLifecycle} (h : OnlyDecoders s s') (h' : OnlyDecoders s' s'') :
    OnlyDecoders s s'' := by
  unfold OnlyDecoders at *
  rw [h] at h'
  exact h'

theorem OnlyDecoders.prefill (h : OnlyDecoders s s') :
    s'.requestId = s.requestId ∧ s'.gate = s.gate ∧ s'.capture = s.capture := by
  rw [h]
  exact ⟨rfl, rfl, rfl⟩

theorem OnlyDecoders.same (h : OnlyDecoders s s') : SamePrefill s s' := by
  obtain ⟨hid, hgate, hcapture⟩ := h.prefill
  exact ⟨hid, hgate, by rw [hcapture]⟩

/-- A finished decoder leaves the hook, while others decode. -/
theorem detachDecoder_ok {id : String} (hd : s.Decodes h) (hmore : s.decodingIds.erase id ≠ [])
    (hok : (detachDecoder env { s with decodingIds := s.decodingIds.erase id } h id).result = .ok ()) :
    OnlyDecoders s (detachDecoder env { s with decodingIds := s.decodingIds.erase id } h id).obj ∧
      (∃ h', (detachDecoder env { s with decodingIds := s.decodingIds.erase id } h id).obj.Decodes h' ∧
        h'.ident = h.ident) ∧
      (detachDecoder env { s with decodingIds := s.decodingIds.erase id } h id).obj.decodingIds =
        s.decodingIds.erase id := by
  unfold detachDecoder at hok ⊢
  obtain ⟨⟨⟩, hdetach, hc⟩ := Call.of_bind hok
  rw [hc] at hok ⊢
  have hobj : (h.detach id (env.detach id)).obj = { h with bridges := h.bridges.erase id } := by
    replace hdetach : (h.detach id (env.detach id)).result = .ok () := hdetach
    unfold Hook.detach at hdetach ⊢
    obtain ⟨⟨⟩, -, hc⟩ := Call.of_attempt hdetach
    rw [hc] at hdetach ⊢
    obtain ⟨⟨⟩, -, hc'⟩ := Call.of_attempt hdetach
    rw [hc']
    rfl
  rw [Call.onto_obj, hobj] at hok ⊢
  have hkeys : (h.bridges.erase id).keys = s.decodingIds.erase id := by
    rw [Dict.keys_erase, hd.keys, erase_eq_filter_ne hd.nodup]
  obtain ⟨last, hlast⟩ := Option.ne_none_iff_exists'.mp
    (show (s.decodingIds.erase id).getLast? ≠ none from fun hc => hmore (List.getLast?_eq_none_iff.mp hc))
  simp only [hlast] at hok ⊢
  split
  · exact ⟨rfl, ⟨_, ⟨rfl, hd.opened, hkeys, hmore, hlast.symm⟩, rfl⟩, rfl⟩
  · rename_i hne
    refine ⟨rfl, ⟨_, ⟨rfl, hd.opened, hkeys, hmore, ?_⟩, rfl⟩, rfl⟩
    -- another decoder is the last, before and after
    obtain ⟨b, hb⟩ := Option.ne_none_iff_exists'.mp
      (show s.decodingIds.getLast? ≠ none from fun hc => hd.nonempty (List.getLast?_eq_none_iff.mp hc))
    have hid : s.decodingId = some b := hd.last.trans hb
    show s.decodingId = (s.decodingIds.erase id).getLast?
    rw [hid, getLast?_erase hb fun hbid => hne (hid.trans (congrArg some hbid))]

/-- **The finished decoders leave the hook in turn**, all but the last of all. -/
theorem finishDecoders_ok {ids : List String} (hd : s.Decodes h) (hnd : ids.Nodup)
    (hsub : ∀ id ∈ ids, id ∈ s.decodingIds)
    (hok : (finishDecoders env ids s).result = .ok ()) :
    OnlyDecoders s (finishDecoders env ids s).obj ∧
      (((∃ h', (finishDecoders env ids s).obj.Decodes h' ∧ h'.ident = h.ident) ∧
          (finishDecoders env ids s).obj.decodingIds = s.decodingIds.filter (· ∉ ids)) ∨
        ((∀ id ∈ s.decodingIds, id ∈ ids) ∧ (finishDecoders env ids s).obj.decodingIds = [] ∧
          ∃ id ∈ ids, (finishDecoders env ids s).obj.decodingId = some id)) := by
  induction ids generalizing s h with
  | nil => exact ⟨rfl, Or.inl ⟨⟨h, hd, rfl⟩, by simp [finishDecoders]⟩⟩
  | cons id ids ih =>
    obtain ⟨hnot, hnd⟩ := List.nodup_cons.mp hnd
    have hid := hsub id List.mem_cons_self
    have hlen : h.bridges.items.length = s.decodingIds.length := by
      rw [← hd.keys]
      exact (List.length_map _).symm
    unfold finishDecoders at hok ⊢
    obtain ⟨⟨⟩, hone, hc⟩ := Call.of_bind hok
    rw [hc] at hok ⊢
    unfold finishDecoder at hone hok ⊢
    simp only [hd.hook] at hone hok ⊢
    split at hone
    · rename_i hmany
      rw [if_pos hmany] at hok ⊢
      have hmore : s.decodingIds.erase id ≠ [] := by
        intro hnil
        have := List.length_erase_of_mem hid
        rw [hnil, List.length_nil] at this
        omega
      obtain ⟨honly, ⟨h', hd', hident⟩, hids⟩ := detachDecoder_ok hd hmore hone
      have hsub' : ∀ x ∈ ids,
          x ∈ (detachDecoder env { s with decodingIds := s.decodingIds.erase id } h id).obj.decodingIds := by
        intro x hx
        rw [hids]
        have hne : x ≠ id := fun hxid => hnot (hxid ▸ hx)
        exact (List.mem_erase_of_ne hne).mpr (hsub x (List.mem_cons_of_mem _ hx))
      obtain ⟨honly', hcases⟩ := ih hd' hnd hsub' hok
      refine ⟨honly.trans honly', hcases.imp ?_ ?_⟩
      · rintro ⟨⟨h'', hd'', hident'⟩, hrest⟩
        refine ⟨⟨h'', hd'', hident'.trans hident⟩, hrest.trans ?_⟩
        rw [hids, erase_eq_filter_ne hd.nodup, List.filter_filter]
        refine List.filter_congr fun x _ => ?_
        by_cases hxid : x = id <;> simp [hxid]
      · rintro ⟨hall, hnil, x, hx, hlast⟩
        refine ⟨fun y hy => ?_, hnil, x, List.mem_cons_of_mem _ hx, hlast⟩
        by_cases hyid : y = id
        · exact hyid ▸ List.mem_cons_self
        · exact List.mem_cons_of_mem _ (hall y (by rw [hids]; exact (List.mem_erase_of_ne hyid).mpr hy))
    · rename_i hfew
      rw [if_neg hfew] at hok ⊢
      -- the only decoder
      obtain ⟨x, hx⟩ : ∃ x, s.decodingIds = [x] := by
        have hpos := List.length_pos_iff.mpr hd.nonempty
        exact List.length_eq_one_iff.mp (by omega)
      obtain rfl : id = x := by rw [hx] at hid; exact List.mem_singleton.mp hid
      have hrest : ids = [] := by
        refine List.eq_nil_iff_forall_not_mem.mpr fun y hy => ?_
        have hmem := hsub y (List.mem_cons_of_mem _ hy)
        rw [hx, List.mem_singleton] at hmem
        exact hnot (hmem ▸ hy)
      subst hrest
      refine ⟨rfl, Or.inr ⟨fun y hy => by rw [hx] at hy; exact hy, ?_, id, List.mem_cons_self, ?_⟩⟩
      · show s.decodingIds.erase id = []
        rw [hx, List.erase_cons_head]
      · show s.decodingId = some id
        rw [hd.last, hx]
        rfl

/-- The decoders' release leaves no hook and no decoder. -/
theorem releaseDecoders_ok (hok : (releaseDecoders env s).result = .ok ()) :
    OnlyDecoders s (releaseDecoders env s).obj ∧ (releaseDecoders env s).obj.hook = none ∧
      (releaseDecoders env s).obj.decodingIds = [] := by
  unfold releaseDecoders at hok ⊢
  split
  · exact ⟨rfl, rfl, rfl⟩
  · rename_i h hhook
    simp only [hhook] at hok
    obtain ⟨⟨⟩, -, hc⟩ := Call.of_bind hok
    rw [hc]
    exact ⟨rfl, rfl, rfl⟩

/-- The prefill's release leaves no request and no capture, and the decoders alone. -/
theorem releasePrefill_ok (hok : (releasePrefill env s).result = .ok ()) :
    (releasePrefill env s).obj = s.clearPrefill := by
  unfold releasePrefill at hok ⊢
  obtain ⟨⟨⟩, -, hc⟩ := Call.of_attempt hok
  rw [hc] at hok ⊢
  split at hok
  · rfl
  · obtain ⟨⟨⟩, -, hc'⟩ := Call.of_attempt hok
    exact congrArg Call.obj hc'

theorem clearPrefill_kept (s : FastServingLifecycle) : s.clearPrefill.PrefillKept :=
  ⟨rfl, ⟨fun _ => rfl, fun _ => rfl⟩, fun _ hc => (by cases hc)⟩

/-- The decoders' side once the finished are released. -/
theorem releaseDecodersOf_ok {finished : List String} (hd : s.DecodersKept) {s' : FastServingLifecycle}
    (hloop : (finishDecoders env (s.decodingIds.filter (· ∈ finished)) s).result = .ok ())
    (hs' : (finishDecoders env (s.decodingIds.filter (· ∈ finished)) s).obj = s')
    (hok : (if isFinished s'.decodingId finished = true ∧ s'.decodingIds = [] then releaseDecoders env s'
      else Call.ret s' ()).result = .ok ()) {s'' : FastServingLifecycle}
    (hs'' : (if isFinished s'.decodingId finished = true ∧ s'.decodingIds = [] then releaseDecoders env s'
      else Call.ret s' ()).obj = s'') :
    OnlyDecoders s s'' ∧ s''.DecodersKept ∧ s''.decodingIds = s.decodingIds.filter (· ∉ finished) ∧
      ∀ h, s.Decodes h → s''.decodingIds ≠ [] → ∃ h', s''.Decodes h' ∧ h'.ident = h.ident := by
  have hnone : s.hook = none → s.decodingIds = [] → OnlyDecoders s s'' ∧ s''.hook = none ∧ s''.decodingIds = [] := by
    intro hhook hnil
    rw [hnil] at hs'
    obtain rfl : s = s' := hs'
    split at hok
    · rename_i hcond
      rw [if_pos hcond] at hs''
      exact hs'' ▸ releaseDecoders_ok hok
    · rename_i hcond
      rw [if_neg hcond] at hs''
      obtain rfl : s = s'' := hs''
      exact ⟨rfl, hhook, hnil⟩
  rcases hd with ⟨hhook, hnil⟩ | ⟨h, hd⟩
  · obtain ⟨honly, hhook', hnil'⟩ := hnone hhook hnil
    refine ⟨honly, Or.inl ⟨hhook', hnil'⟩, by rw [hnil', hnil]; rfl, fun h hd => ?_⟩
    rw [hd.hook] at hhook
    cases hhook
  have hids : ∀ x ∈ s.decodingIds, x ∉ s.decodingIds.filter (· ∈ finished) ↔ x ∉ finished := by
    intro x hx
    simp [hx]
  have hsub : ∀ x ∈ s.decodingIds.filter (· ∈ finished), x ∈ s.decodingIds := fun x hx => (List.mem_filter.mp hx).1
  obtain ⟨honly, hcases⟩ := finishDecoders_ok hd (hd.nodup.filter _) hsub hloop
  rw [hs'] at honly hcases
  rcases hcases with ⟨⟨h', hd', hident⟩, hrest⟩ | ⟨hall, hnil, x, hx, hlast⟩
  · -- some decode on
    rw [if_neg fun hcond => hd'.nonempty hcond.2] at hs''
    obtain rfl : s' = s'' := hs''
    refine ⟨honly, Or.inr ⟨h', hd'⟩, hrest.trans ?_, fun k hk _ => ⟨h', hd', ?_⟩⟩
    · exact List.filter_congr fun x hx => by rw [decide_eq_decide]; exact hids x hx
    · rw [hident, Option.some.inj (hd.hook.symm.trans hk.hook)]
  · -- all have finished
    have hcond : isFinished s'.decodingId finished = true ∧ s'.decodingIds = [] := by
      rw [hlast]
      exact ⟨by simpa [isFinished] using (List.mem_filter.mp hx).2, hnil⟩
    rw [if_pos hcond] at hok hs''
    obtain ⟨honly', hhook', hnil'⟩ := releaseDecoders_ok hok
    rw [hs''] at honly' hhook' hnil'
    refine ⟨honly.trans honly', Or.inl ⟨hhook', hnil'⟩, ?_, fun k _ hne => absurd hnil' hne⟩
    rw [hnil', eq_comm, List.filter_eq_nil_iff]
    intro y hy
    simpa using (List.mem_filter.mp (hall y hy)).2

/-- What the releases of a step do: the finished decoders leave the registry, and a finished prefill its gate; neither
side is touched for the other. -/
structure Released (finished : List String) (s s' : FastServingLifecycle) : Prop where
  prefill : s'.PrefillKept
  decoders : s'.DecodersKept
  decodingIds : s'.decodingIds = s.decodingIds.filter (· ∉ finished)
  hook : ∀ h, s.Decodes h → s'.decodingIds ≠ [] → ∃ h', s'.Decodes h' ∧ h'.ident = h.ident
  other : isFinished s.requestId finished = false →
    s'.requestId = s.requestId ∧ s'.gate = s.gate ∧ s'.capture = s.capture
  ended : isFinished s.requestId finished = true → s'.requestId = none

/-- **The releases of a step do not cross over.** -/
theorem releaseFinished_ok {finished : List String} (hp : s.PrefillKept) (hd : s.DecodersKept)
    (hok : (releaseFinished env s finished).result = .ok ()) :
    Released finished s (releaseFinished env s finished).obj := by
  unfold releaseFinished at hok ⊢
  obtain ⟨⟨⟩, hloop, hc⟩ := Call.of_bind hok
  rw [hc] at hok ⊢
  obtain ⟨⟨⟩, hrelease, hc'⟩ := Call.of_bind hok
  rw [hc'] at hok ⊢
  obtain ⟨honly, hkept, hids, hhook⟩ := releaseDecodersOf_ok hd hloop rfl hrelease rfl
  generalize (if
      isFinished (finishDecoders env (s.decodingIds.filter (· ∈ finished)) s).obj.decodingId finished = true ∧
      (finishDecoders env (s.decodingIds.filter (· ∈ finished)) s).obj.decodingIds = [] then
      releaseDecoders env (finishDecoders env (s.decodingIds.filter (· ∈ finished)) s).obj
    else Call.ret (finishDecoders env (s.decodingIds.filter (· ∈ finished)) s).obj ()).obj = t at *
  obtain ⟨hid, hgate, hcapture⟩ := honly.prefill
  split at hok
  · rename_i hend
    rw [if_pos hend, releasePrefill_ok hok]
    have hsame : SameDecoders t t.clearPrefill := ⟨rfl, rfl, rfl⟩
    refine ⟨clearPrefill_kept t, hsame.kept hkept, hids, fun h hdec hne => ?_, fun hno => ?_, fun _ => rfl⟩
    · obtain ⟨h', hd', hident⟩ := hhook h hdec hne
      exact ⟨h', hsame.decodes hd', hident⟩
    · rw [← hid, hend] at hno
      cases hno
  · rename_i hlive
    rw [if_neg hlive]
    refine ⟨honly.same.kept hp, hkept, hids, hhook, fun _ => ⟨hid, hgate, hcapture⟩, fun hend => ?_⟩
    rw [← hid] at hend
    exact absurd hend hlive

/-! ## The rest of a step -/

variable {out : Option RunnerOutput} {step : ScheduledStep}

theorem SameDecoders.trans {s'' : FastServingLifecycle} (h : SameDecoders s s') (h' : SameDecoders s' s'') :
    SameDecoders s s'' :=
  ⟨h'.hook.trans h.hook, h'.decodingId.trans h.decodingId, h'.decodingIds.trans h.decodingIds⟩

theorem SamePrefill.trans {s'' : FastServingLifecycle} (h : SamePrefill s s') (h' : SamePrefill s' s'') :
    SamePrefill s s'' :=
  ⟨h'.requestId.trans h.requestId, h'.gate.trans h.gate, h'.capture.trans h.capture⟩

/-- What follows a chunk touches neither side. -/
theorem afterPrefillChunk_same (s : FastServingLifecycle) (result : Option RunnerOutput) (whole : Bool) :
    SameDecoders s (s.afterPrefillChunk result whole).obj ∧ SamePrefill s (s.afterPrefillChunk result whole).obj := by
  unfold afterPrefillChunk
  refine Call.attempt_obj (P := fun s' => SameDecoders s s' ∧ SamePrefill s s')
    ⟨SameDecoders.refl s, SamePrefill.refl s⟩ fun _ _ => ?_
  split
  · exact ⟨⟨rfl, rfl, rfl⟩, rfl, rfl, rfl⟩
  split
  · exact ⟨⟨rfl, rfl, rfl⟩, rfl, rfl, rfl⟩
  · exact ⟨⟨rfl, rfl, rfl⟩, rfl, rfl, rfl⟩

/-- A chunk moves only the ledger of the capture. -/
theorem ranChunk_same (s : FastServingLifecycle) (ran : ChunkRan) :
    SameDecoders s (s.ranChunk ran) ∧ SamePrefill s (s.ranChunk ran) := by
  refine ⟨⟨rfl, rfl, rfl⟩, rfl, rfl, ?_⟩
  show (s.capture.map _).map _ = _
  rw [Option.map_map]
  rfl

/-- The next chunk of the prefill. -/
theorem continuePrefill_same (env : ExecuteEnv) (s : FastServingLifecycle) :
    SameDecoders s (continuePrefill env s).obj ∧ SamePrefill s (continuePrefill env s).obj := by
  unfold continuePrefill
  refine Call.attempt_obj (P := fun s' => SameDecoders s s' ∧ SamePrefill s s')
    ⟨SameDecoders.refl s, SamePrefill.refl s⟩ fun ran _ => ?_
  obtain ⟨hd, hp⟩ := ranChunk_same s ran
  have hdisplace : SameDecoders (s.ranChunk ran) (s.ranChunk ran).displaceAfterContinuation ∧
      SamePrefill (s.ranChunk ran) (s.ranChunk ran).displaceAfterContinuation := by
    unfold displaceAfterContinuation
    split
    · exact ⟨SameDecoders.refl _, SamePrefill.refl _⟩
    · exact ⟨⟨rfl, rfl, rfl⟩, rfl, rfl, rfl⟩
  obtain ⟨hd', hp'⟩ := afterPrefillChunk_same (s.ranChunk ran).displaceAfterContinuation ran.output false
  exact ⟨(hd.trans hdisplace.1).trans hd', (hp.trans hdisplace.2).trans hp'⟩

/-- What the rest of a step does: the decoders are left alone, and so is a request in its prefill. -/
structure Routed (s s' : FastServingLifecycle) : Prop where
  decoders : SameDecoders s s'
  prefill : SamePrefill s s' ∨ s.requestId = none ∧ s'.PrefillKept

/-- An admission finds no request in its prefill. -/
theorem admission_ok {a : Admitted} (h : s.admission env step = .ok a) : s.requestId = none := by
  unfold admission at h
  obtain ⟨new, hshape, -⟩ := bind_ok h
  unfold stepShape at hshape
  split at hshape
  · split at hshape
    · cases hshape
    · rename_i hfree
      by_contra hc
      exact hfree (Or.inl hc)
  · cases hshape

/-- **An admission opens a capture behind the gate**, and leaves the decoders alone. -/
theorem admit_routed (hok : (admitFresh env s step).result = .ok out) : Routed s (admitFresh env s step).obj := by
  unfold admitFresh at hok ⊢
  obtain ⟨a, hadmission, hc⟩ := Call.of_attempt hok
  rw [hc] at hok ⊢
  obtain ⟨c, -, hc⟩ := Call.of_attempt hok
  rw [hc] at hok ⊢
  obtain ⟨⟨⟩, -, hc⟩ := Call.of_attempt hok
  rw [hc] at hok ⊢
  obtain ⟨ran, -, hc⟩ := Call.of_attempt hok
  rw [hc] at hok ⊢
  have hopened : ((s.admitted a).opened c).PrefillKept := by
    refine ⟨rfl, ⟨fun hc => (by cases hc), fun hc => (by cases hc)⟩, fun c' hc' => ?_⟩
    cases hc'
    rfl
  obtain ⟨hd, hp⟩ := ranChunk_same ((s.admitted a).opened c) ran
  obtain ⟨hd', hp'⟩ := afterPrefillChunk_same (((s.admitted a).opened c).ranChunk ran) ran.output
    (a.resume + a.chunk = a.prompt)
  have hstart : SameDecoders s ((s.admitted a).opened c) := ⟨rfl, rfl, rfl⟩
  exact ⟨(hstart.trans hd).trans hd', Or.inr ⟨admission_ok hadmission, (hp.trans hp').kept hopened⟩⟩

/-- **The rest of a step** leaves the decoders alone, and a request in its prefill. -/
theorem route_routed (hok : (route env s step).result = .ok out) : Routed s (route env s step).obj := by
  have hcontinue : Routed s (continuePrefill env s).obj :=
    ⟨(continuePrefill_same env s).1, Or.inl (continuePrefill_same env s).2⟩
  have hdelegate : Routed s (delegate env s).obj := by
    unfold delegate
    exact Call.attempt_obj (P := fun s' => Routed s s') ⟨SameDecoders.refl s, Or.inl (SamePrefill.refl s)⟩
      fun _ _ => ⟨SameDecoders.refl s, Or.inl (SamePrefill.refl s)⟩
  have hadmit : ∀ {out}, (admitStep env s step).result = .ok out → Routed s (admitStep env s step).obj := by
    intro out hok
    unfold admitStep at hok ⊢
    split
    · exact hcontinue
    split
    · exact hdelegate
    · rename_i hcont hnew
      rw [if_neg hcont, if_neg hnew] at hok
      exact admit_routed hok
  unfold route at hok ⊢
  split
  · exact hcontinue
  rename_i hcont
  rw [if_neg hcont] at hok
  split
  · rename_i hhook
    rw [if_pos hhook] at hok
    split
    · exact hdelegate
    · rename_i hnew
      rw [if_neg hnew] at hok
      exact hadmit hok
  · rename_i hhook
    rw [if_neg hhook] at hok
    split
    · exact hdelegate
    · rename_i htotal
      rw [if_neg htotal] at hok
      exact hadmit hok

theorem Routed.kept (h : Routed s s') (hp : s.PrefillKept) (hd : s.DecodersKept) :
    s'.PrefillKept ∧ s'.DecodersKept := by
  refine ⟨?_, h.decoders.kept hd⟩
  rcases h.prefill with hsame | ⟨-, hkept⟩
  · exact hsame.kept hp
  · exact hkept

/-- A call that returned had its body return. -/
theorem orFail_ok {α : Type} {c : Call FastServingLifecycle α} {a : α} (h : (orFail c).result = .ok a) :
    c.result = .ok a ∧ orFail c = c := by
  unfold orFail at h ⊢
  cases hc : c.result with
  | error e => rw [hc] at h; cases h
  | ok b =>
    rw [hc] at h
    exact ⟨hc ▸ h, rfl⟩

/-- **What an `_execute` that returns does**: its releases, then the rest. -/
theorem execute_ok (hp : s.PrefillKept) (hd : s.DecodersKept) (hok : (execute env s step).result = .ok out) :
    ∃ t, Released step.finishedReqIds s t ∧ Routed t (execute env s step).obj := by
  unfold execute at hok ⊢
  obtain ⟨⟨⟩, -, hc⟩ := Call.of_attempt hok
  rw [hc] at hok ⊢
  obtain ⟨hbody, hsame⟩ := orFail_ok hok
  rw [hsame]
  clear hc hsame hok
  unfold executeBody at hbody ⊢
  obtain ⟨⟨⟩, -, hc⟩ := Call.of_attempt hbody
  rw [hc] at hbody ⊢
  obtain ⟨⟨⟩, hstranded, hc⟩ := Call.of_bind hbody
  rw [hc] at hbody ⊢
  -- the registry is read before anything is released
  have hregistry : ∃ q, (checkStranded s step).obj = { s with quarantine := q } := by
    unfold checkStranded at hstranded ⊢
    split at hstranded
    · exact ⟨s.quarantine, rfl⟩
    · obtain ⟨⟨⟩, -, hc⟩ := Call.of_attempt hstranded
      rw [hc]
      exact ⟨_, rfl⟩
  obtain ⟨q, hq⟩ := hregistry
  rw [hq] at hbody ⊢
  obtain ⟨⟨⟩, hrelease, hc⟩ := Call.of_bind hbody
  rw [hc] at hbody ⊢
  have hp' : ({ s with quarantine := q } : FastServingLifecycle).PrefillKept := ⟨hp.gate, hp.held, hp.opened⟩
  have hsame : SameDecoders s { s with quarantine := q } := ⟨rfl, rfl, rfl⟩
  have hreleased := releaseFinished_ok hp' (hsame.kept hd) hrelease
  obtain ⟨⟨⟩, hidle, hc⟩ := Call.of_bind hbody
  rw [hc] at hbody ⊢
  have hmoment : ∀ t : FastServingLifecycle, (idleMoment env t step).obj = t := by
    intro t
    unfold idleMoment
    split
    · exact Call.attempt_obj (P := fun t' => t' = t) rfl fun _ _ => rfl
    · rfl
  rw [hmoment] at hbody ⊢
  refine ⟨_, ⟨hreleased.prefill, hreleased.decoders, hreleased.decodingIds, fun h hdec hne => ?_, hreleased.other,
    hreleased.ended⟩, route_routed hbody⟩
  exact hreleased.hook h (hsame.decodes hdec) hne

/-! ## `_sample` -/

variable {senv : SampleEnv}

/-- **A hand-over gives the request to the hook**, last of the decoders, and frees the gate. -/
theorem bridgeRequest_kept {state : RequestState} {result : Option RunnerOutput} (hd : s.DecodersKept)
    (hstate : s.requestId = some state.reqId)
    (hok : ((attachBridge senv s ⟨state.reqId⟩).bind fun s _ => Call.ret s.handOver result).result = .ok out) :
    ((attachBridge senv s ⟨state.reqId⟩).bind fun s _ => Call.ret s.handOver result).obj.PrefillKept ∧
      ((attachBridge senv s ⟨state.reqId⟩).bind fun s _ => Call.ret s.handOver result).obj.DecodersKept := by
  obtain ⟨⟨⟩, hattach, hc⟩ := Call.of_bind hok
  rw [hc]
  have hprefill : ∀ t : FastServingLifecycle, t.handOver.PrefillKept := fun t =>
    ⟨rfl, ⟨fun _ => rfl, fun _ => rfl⟩, fun _ hc => (by cases hc)⟩
  refine ⟨hprefill _, Or.inr ?_⟩
  unfold attachBridge at hattach ⊢
  rcases hd with ⟨hhook, hnil⟩ | ⟨h, hd⟩
  · simp only [hhook] at hattach ⊢
    obtain ⟨⟨⟩, -, hc⟩ := Call.of_attempt hattach
    rw [hc]
    refine ⟨_, rfl, rfl, ?_, ?_, ?_⟩
    · rw [Dict.keys_set_new _ _ (by simp [Dict.mem_keys])]
      show [state.reqId] = s.decodingIds ++ s.requestId.toList
      rw [hnil, hstate]
      rfl
    · show s.decodingIds ++ s.requestId.toList ≠ []
      rw [hstate]
      simp
    · show s.requestId = (s.decodingIds ++ s.requestId.toList).getLast?
      rw [hstate]
      simp
  · simp only [hd.hook] at hattach ⊢
    have hattached : state.reqId ∉ h.bridges.keys ∧
        (h.attach ⟨state.reqId⟩).obj = { h with bridges := h.bridges.set state.reqId ⟨state.reqId⟩ } := by
      replace hattach : (h.attach ⟨state.reqId⟩).result = .ok () := hattach
      unfold Hook.attach at hattach ⊢
      obtain ⟨⟨⟩, hchecks, hc⟩ := Call.of_attempt hattach
      rw [hc]
      obtain ⟨_, -, hnew⟩ := bind_ok hchecks
      rw [raiseIf_ok] at hnew
      exact ⟨hnew, rfl⟩
    obtain ⟨hnew, hobj⟩ := hattached
    rw [Call.onto_obj, hobj]
    refine ⟨_, rfl, hd.opened, ?_, ?_, ?_⟩
    · show (h.bridges.set state.reqId ⟨state.reqId⟩).keys = s.decodingIds ++ s.requestId.toList
      rw [Dict.keys_set_new _ _ hnew, hd.keys, hstate]
      rfl
    · show s.decodingIds ++ s.requestId.toList ≠ []
      rw [hstate]
      simp
    · show s.requestId = (s.decodingIds ++ s.requestId.toList).getLast?
      rw [hstate]
      simp

/-- A request that ends at its seed frees the gate. -/
theorem endAtSeed_kept {result : Option RunnerOutput} (hd : s.DecodersKept)
    (hok : (endAtSeed senv s result).result = .ok out) :
    (endAtSeed senv s result).obj.PrefillKept ∧ (endAtSeed senv s result).obj.DecodersKept := by
  unfold endAtSeed at hok ⊢
  split at hok
  · cases hok
  · obtain ⟨⟨⟩, -, hc⟩ := Call.of_attempt hok
    rw [hc]
    have hsame : SameDecoders s { s.clearPrefill with refused := none } := ⟨rfl, rfl, rfl⟩
    exact ⟨⟨rfl, ⟨fun _ => rfl, fun _ => rfl⟩, fun _ hc => (by cases hc)⟩, hsame.kept hd⟩

theorem quarantineRequest_kept {result : Option RunnerOutput} {reason : String} (hd : s.DecodersKept)
    (hok : (quarantineRequest senv s result reason).result = .ok out) :
    (quarantineRequest senv s result reason).obj.PrefillKept ∧
      (quarantineRequest senv s result reason).obj.DecodersKept := by
  unfold quarantineRequest at hok ⊢
  split at hok
  · cases hok
  · obtain ⟨⟨⟩, -, hc⟩ := Call.of_bind hok
    rw [hc] at hok ⊢
    refine endAtSeed_kept ?_ hok
    exact SameDecoders.kept (s := s) ⟨rfl, rfl, rfl⟩ hd

/-- **What a seed comes to**: the request ends, or is handed over. -/
theorem seeded_kept {state : RequestState} {result : Option RunnerOutput} (hd : s.DecodersKept)
    (hstate : s.requestId = some state.reqId) (hok : (seeded senv s state result).result = .ok out) :
    (seeded senv s state result).obj.PrefillKept ∧ (seeded senv s state result).obj.DecodersKept := by
  unfold seeded at hok ⊢
  split
  · rename_i hterminal
    rw [if_pos hterminal] at hok
    split at hok
    · cases hok
    · obtain ⟨⟨⟩, -, hc⟩ := Call.of_attempt hok
      rw [hc]
      exact ⟨clearPrefill_kept s, SameDecoders.kept (s := s) ⟨rfl, rfl, rfl⟩ hd⟩
  rename_i hterminal
  rw [if_neg hterminal] at hok
  split
  · rename_i hend
    rw [if_pos hend] at hok
    exact endAtSeed_kept hd hok
  rename_i hend
  rw [if_neg hend] at hok
  split at hok
  · exact quarantineRequest_kept hd hok
  · unfold bridgeRequest at hok ⊢
    split at hok
    · split at hok
      · rename_i hquarantine
        rw [if_pos hquarantine]
        exact quarantineRequest_kept hd hok
      · cases hok
    · cases hok
    · exact bridgeRequest_kept hd hstate hok

/-- The runner's state of a seed is the request's own. -/
theorem checkSeed_ok {result : Option RunnerOutput} {state : RequestState}
    (h : checkSeed senv s result = .ok state) : s.requestId = some state.reqId := by
  unfold checkSeed at h
  split at h
  · rename_i out id hid
    split at h
    · split at h
      · obtain ⟨state', hstate, h⟩ := bind_ok h
        split at h
        · cases h
        · cases h
          rw [senv.keyed id state hstate]
          exact hid
      · cases h
    · cases h
  · cases h

/-- **A `_sample` that returns keeps both sides.** -/
theorem sample_ok {grammar : Bool} (hp : s.PrefillKept) (hd : s.DecodersKept)
    (hok : (sample senv s grammar).result = .ok out) :
    (sample senv s grammar).obj.PrefillKept ∧ (sample senv s grammar).obj.DecodersKept := by
  unfold sample at hok ⊢
  obtain ⟨⟨⟩, -, hc⟩ := Call.of_attempt hok
  rw [hc] at hok ⊢
  obtain ⟨hbody, hsame⟩ := orFail_ok hok
  rw [hsame]
  unfold sampleBody at hbody ⊢
  split
  · exact Call.attempt_obj (P := fun s' : FastServingLifecycle => s'.PrefillKept ∧ s'.DecodersKept) ⟨hp, hd⟩
      fun _ _ => ⟨hp, hd⟩
  rename_i hflight
  rw [if_neg hflight] at hbody
  obtain ⟨⟨⟩, -, hc⟩ := Call.of_attempt hbody
  rw [hc] at hbody ⊢
  obtain ⟨result, -, hc⟩ := Call.of_attempt hbody
  rw [hc] at hbody ⊢
  obtain ⟨state, hseed, hc⟩ := Call.of_attempt hbody
  rw [hc] at hbody ⊢
  exact seeded_kept (SameDecoders.kept (s := s) ⟨rfl, rfl, rfl⟩ hd) (checkSeed_ok hseed) hbody

/-! ## Runs -/

/-- A call of the lifecycle, or a change of the shared registry by the scheduler. -/
inductive Event
  | execute (env : ExecuteEnv) (step : ScheduledStep)
  | sample (env : SampleEnv) (grammar : Bool)
  | registry (h : Holder)

/-- A call that returns. -/
inductive Returns : FastServingLifecycle → Event → FastServingLifecycle → Prop
  | execute {s : FastServingLifecycle} {env : ExecuteEnv} {step : ScheduledStep} {out : Option RunnerOutput}
      (hok : (execute env s step).result = .ok out) : Returns s (.execute env step) (execute env s step).obj
  | sample {s : FastServingLifecycle} {env : SampleEnv} {grammar : Bool} {out : Option RunnerOutput}
      (hok : (sample env s grammar).result = .ok out) : Returns s (.sample env grammar) (sample env s grammar).obj
  | registry {s : FastServingLifecycle} {h : Holder} :
      Returns s (.registry h) { s with quarantine := s.quarantine.map fun _ => h }

/-- Both sides are kept by every call that returns. -/
theorem Returns.kept {e : Event} (h : Returns s e s') (hs : s.PrefillKept ∧ s.DecodersKept) :
    s'.PrefillKept ∧ s'.DecodersKept := by
  obtain ⟨hp, hd⟩ := hs
  cases h with
  | execute hok =>
    obtain ⟨t, hreleased, hrouted⟩ := execute_ok hp hd hok
    exact hrouted.kept hreleased.prefill hreleased.decoders
  | sample hok => exact sample_ok hp hd hok
  | registry => exact ⟨⟨hp.gate, hp.held, hp.opened⟩, SameDecoders.kept (s := s) ⟨rfl, rfl, rfl⟩ hd⟩

theorem start_kept (config : Config) : (start config).PrefillKept ∧ (start config).DecodersKept :=
  ⟨⟨rfl, ⟨fun _ => rfl, fun _ => rfl⟩, fun _ hc => (by cases hc)⟩, Or.inl ⟨rfl, rfl⟩⟩

/-- The bookkeeping of a lifecycle. The gate holds exactly the request in its prefill, and a capture is open exactly
while there is one; the hook is there exactly while some request decodes, and then serves exactly the decoders, the last
of them named. -/
structure Bookkeeping (s : FastServingLifecycle) : Prop where
  gate : s.gate = s.requestId
  capture : s.capture ≠ none ↔ s.requestId ≠ none
  opened : ∀ c, s.capture = some c → c.closed = false
  hook : s.hook = none ↔ s.decodingIds = []
  serves : ∀ h, s.hook = some h → h.closed = false ∧ h.bridges.keys = s.decodingIds
  nodup : s.decodingIds.Nodup
  last : s.hook ≠ none → s.decodingId = s.decodingIds.getLast?

theorem bookkeeping (hp : s.PrefillKept) (hd : s.DecodersKept) : Bookkeeping s := by
  rcases hd with ⟨hhook, hnil⟩ | ⟨h, hd⟩
  · refine ⟨hp.gate, not_congr hp.held, hp.opened, ⟨fun _ => hnil, fun _ => hhook⟩, fun k hk => ?_, ?_,
      fun hne => absurd hhook hne⟩
    · rw [hhook] at hk
      cases hk
    · rw [hnil]
      exact List.nodup_nil
  · refine ⟨hp.gate, not_congr hp.held, hp.opened, ⟨fun hc => ?_, fun hc => absurd hc hd.nonempty⟩, fun k hk => ?_,
      hd.nodup, fun _ => hd.last⟩
    · rw [hd.hook] at hc
      cases hc
    · rw [hd.hook, Option.some.injEq] at hk
      exact hk ▸ ⟨hd.opened, hd.keys⟩

/-- **Main result.** After every run of `_execute` and `_sample` calls that return, in any order and whatever the
plugin, the factories and the scheduler answer, the bookkeeping holds; and at every further `_execute` that returns, a
request in its prefill that has not finished keeps the gate and its capture whatever else finishes, and a request that
decodes and has not finished keeps its open hook, whether or not a prefill is aborted. -/
theorem lifecycle_bookkeeping (config : Config) {events : List Event} {s : FastServingLifecycle}
    (hrun : Run Returns (start config) events s) :
    Bookkeeping s ∧ ∀ env step out, (execute env s step).result = .ok out →
      (∀ id, s.requestId = some id → id ∉ step.finishedReqIds →
        (execute env s step).obj.requestId = some id ∧ (execute env s step).obj.gate = some id ∧
        (execute env s step).obj.capture.map Capture.ident = s.capture.map Capture.ident) ∧
      ∀ id ∈ s.decodingIds, id ∉ step.finishedReqIds → ∃ h h', s.hook = some h ∧
        (execute env s step).obj.hook = some h' ∧ h'.ident = h.ident ∧ h'.closed = false ∧
        h'.bridges.keys = s.decodingIds.filter (· ∉ step.finishedReqIds) := by
  obtain ⟨hp, hd⟩ : s.PrefillKept ∧ s.DecodersKept :=
    Run.invariant_state (P := fun s => s.PrefillKept ∧ s.DecodersKept) (start_kept config)
      (fun hs hreturns => Returns.kept hreturns hs) hrun
  refine ⟨bookkeeping hp hd, fun env step out hok => ?_⟩
  obtain ⟨t, hreleased, hrouted⟩ := execute_ok hp hd hok
  refine ⟨fun id hid hlive => ?_, fun id hid hlive => ?_⟩
  · obtain ⟨hrequest, hgate, hcapture⟩ := hreleased.other (by simpa [isFinished, hid] using hlive)
    have ht : t.requestId = some id := hrequest.trans hid
    rcases hrouted.prefill with hsame | ⟨hfree, -⟩
    · refine ⟨hsame.requestId.trans ht, hsame.gate.trans (hgate.trans (hp.gate.trans hid)), ?_⟩
      have hcap := congrArg (Option.map Prod.fst) hsame.capture
      rw [Option.map_map, Option.map_map, hcapture] at hcap
      exact hcap
    · rw [hfree] at ht
      cases ht
  · rcases hd with ⟨-, hnil⟩ | ⟨h, hd⟩
    · rw [hnil] at hid
      cases hid
    · have hne : t.decodingIds ≠ [] := by
        rw [hreleased.decodingIds]
        exact List.ne_nil_of_mem (List.mem_filter.mpr ⟨hid, by simpa using hlive⟩)
      obtain ⟨h', hd', hident⟩ := hreleased.hook h hd hne
      exact ⟨h, h', hd.hook, hrouted.decoders.hook.trans hd'.hook, hident, hd'.opened,
        hd'.keys.trans hreleased.decodingIds⟩

/-- A request is admitted whole, and its seed handed over; a second one is admitted behind it, and stays in its prefill
when the first finishes. -/
theorem lifecycle_bookkeeping_sample :
    let config : Config := ⟨[7], 16384, some 262144, true, false, true, false, none⟩
    let p : SamplingParams := ⟨1, 0, 1, 0, 0, 0, 0, 1, none, some 100, 0, false, none, none, [], [7], none, [], [], [],
      some 7⟩
    let env : ExecuteEnv := ⟨false, fun _ => .ok (), .ok (), .ok (), .ok (), fun _ => none,
      fun _ _ => .ok ⟨0, false, false, true, none⟩,
      fun whole => .ok ⟨if whole then none else some ⟨[], []⟩, whole, none⟩, .ok none⟩
    let senv : SampleEnv := ⟨.ok (some ⟨["a"], [[5]]⟩), .ok (), fun id => .ok ⟨id, [5], some 100, some 300⟩,
      fun _ => .ok (), .ok (), 1, fun _ _ h => by cases h; rfl⟩
    let admits (id : String) (chunk : Nat) : ScheduledStep := ⟨[⟨id, some 300, 0, false, false, false, p⟩], [], [],
      Dict.empty.set id chunk, chunk, Dict.empty, false, Dict.empty⟩
    let ends (id : String) : ScheduledStep := ⟨[], [], [id], Dict.empty, 0, Dict.empty, false, Dict.empty⟩
    let s :=
      (execute env (sample senv (execute env (start config) (admits "a" 300)).obj false).obj (admits "b" 100)).obj
    Bookkeeping s ∧ s.decodingIds = ["a"] ∧ s.requestId = some "b" ∧
      (execute env s (ends "a")).obj.gate = some "b" ∧ (execute env s (ends "a")).obj.decodingIds = [] := by
  intro config p env senv admits ends s
  have ha : (execute env (start config) (admits "a" 300)).result = .ok none := by decide +kernel
  have hseed : (sample senv (execute env (start config) (admits "a" 300)).obj false).result =
      .ok (some ⟨["a"], [[5]]⟩) := by
    decide +kernel
  have hb : (execute env (sample senv (execute env (start config) (admits "a" 300)).obj false).obj
      (admits "b" 100)).result = .ok (some ⟨[], []⟩) := by
    decide +kernel
  have hend : (execute env s (ends "a")).result = .ok none := by decide +kernel
  have hid : s.requestId = some "b" := by decide +kernel
  have hdecoders : s.decodingIds = ["a"] := by decide +kernel
  have hleft : (execute env s (ends "a")).obj.decodingIds = [] := by decide +kernel
  have hrun : Run Returns (start config) [.execute env (admits "a" 300), .sample senv false,
      .execute env (admits "b" 100)] s :=
    ((Run.single (Returns.execute ha)).snoc (Returns.sample hseed)).snoc (Returns.execute hb)
  clear_value s
  obtain ⟨hkept, hnext⟩ := lifecycle_bookkeeping config hrun
  obtain ⟨hprefill, -⟩ := hnext env (ends "a") none hend
  have hother : "b" ∉ (ends "a").finishedReqIds := by decide
  exact ⟨hkept, hdecoders, hid, (hprefill "b" hid hother).2.1, hleft⟩

end FastServingLifecycle

end BlackholeQwen.Serving.Lifecycle
