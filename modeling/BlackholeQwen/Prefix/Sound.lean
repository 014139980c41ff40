import BlackholeQwen.Prefix.Ledger
import BlackholeQwen.Prefix.Model
import BlackholeQwen.Prefix.Scheduler

/-!
# What the registry may be trusted with

`Sound d live tokensOf r`: every entry of `r` holds the state of exactly its tokens, and everything `r` remembers of a
request (checked tokens, a staged or committed grant) is true of the request that is live under that id, whose tokens
`tokensOf` gives and which only grow. One lemma for each function of the registry, the scheduler graft and the model
graft that touches it. The block hashes play no role: an entry found under a hash counts only once its tokens match.
-/

namespace BlackholeQwen.Prefix

open Lib

variable {κ τ : Type}

/-- The state of a prefill of whole chunks from token 0. -/
abbrev Device.foldState (d : Device τ) (tokens : List Token) : Gdn τ := Chunked.fold d.chunk CHUNK tokens d.zero

/-- A checkpoint that holds the state of exactly its tokens. -/
structure Exact (d : Device τ) (c : Checkpoint κ τ) : Prop where
  pos : 0 < c.pos
  boundary : c.pos % CHUNK = 0
  length : c.tokenIds.length = c.pos
  recState : c.recState = some (d.foldState c.tokenIds).recState
  carry : c.carry = some (d.foldState c.tokenIds).carry

/-- A checkpoint taken over the first `candidate` of these tokens. -/
def Vouched (ts : List Token) (candidate : Nat) (c : Checkpoint κ τ) : Prop :=
  c.pos = candidate ∧ c.tokenIds = ts.take candidate

/-- A grant that is right for a request with these tokens. -/
structure GrantSound (d : Device τ) (ts : List Token) (g : Grant κ τ) : Prop where
  hit : 0 < g.q → ∃ c, g.checkpoint = some c ∧ Vouched ts g.q c ∧ Exact d c
  plan : ∀ p ∈ g.plan, p.1 ≤ ts.length

/-- What a registry may be trusted with. -/
structure Sound (d : Device τ) (live : String → Option Nat) (tokensOf : Nat → List Token) (r : Registry κ τ) :
    Prop where
  exact : ∀ p ∈ r.entries.items, Exact d p.2
  serial : ∀ p ∈ r.entries.items, p.2.serial < r.serials
  unique : ∀ p ∈ r.entries.items, ∀ p' ∈ r.entries.items, p.2.serial = p'.2.serial → p.2 = p'.2
  /-- A remembered match vouches for every entry with that serial. -/
  memo : ∀ p ∈ r.tokenChecks.items, ∃ hd, live p.1 = some hd ∧ ∀ m ∈ p.2.items, m.2.1 < r.serials ∧
    (m.2.2 = true → ∀ e ∈ r.entries.items, e.2.serial = m.2.1 → Vouched (tokensOf hd) m.1 e.2)
  staged : ∀ p ∈ r.staged.items, p.2.reqId = p.1 ∧ ∃ hd, live p.1 = some hd ∧ p.2.request = some hd ∧
    GrantSound d (tokensOf hd) p.2
  committed : ∀ p ∈ r.committed.items, p.2.reqId = p.1 ∧ ∃ hd, live p.1 = some hd ∧ GrantSound d (tokensOf hd) p.2 ∧
    ∀ last, (p.2.plan.map Prod.fst).max? = some last → p.2.tokens = some ((tokensOf hd).take last)

/-! ## Growing requests -/

/-- More tokens at the end change none of the first. -/
theorem Vouched.grow {ts ts' : List Token} {candidate : Nat} {c : Checkpoint κ τ} (h : Vouched ts candidate c)
    (hlen : c.tokenIds.length = c.pos) (hpre : ts <+: ts') : Vouched ts' candidate c := by
  obtain ⟨hpos, htok⟩ := h
  refine ⟨hpos, ?_⟩
  have hle : candidate ≤ ts.length := by
    have := congrArg List.length htok
    rw [List.length_take, hlen, hpos] at this
    omega
  obtain ⟨more, rfl⟩ := hpre
  rw [htok, List.take_append_of_le_length hle]

theorem GrantSound.grow {d : Device τ} {ts ts' : List Token} {g : Grant κ τ} (h : GrantSound d ts g)
    (hpre : ts <+: ts') : GrantSound d ts' g := by
  refine ⟨fun hq => ?_, fun p hp => Nat.le_trans (h.plan p hp) hpre.length_le⟩
  obtain ⟨c, hc, hv, he⟩ := h.hit hq
  exact ⟨c, hc, hv.grow he.length hpre, he⟩

variable {d : Device τ} {live live' : String → Option Nat} {tokensOf tokensOf' : Nat → List Token}
  {r r' : Registry κ τ}

/-- The registry stays sound as long as the requests it knows stay live and only grow. -/
theorem Sound.transfer (h : Sound d live tokensOf r)
    (hmove : ∀ id hd, live id = some hd →
      id ∈ r.tokenChecks.keys ∨ id ∈ r.staged.keys ∨ id ∈ r.committed.keys →
      live' id = some hd ∧ tokensOf hd <+: tokensOf' hd) : Sound d live' tokensOf' r := by
  refine ⟨h.exact, h.serial, h.unique, fun p hp => ?_, fun p hp => ?_, fun p hp => ?_⟩
  · obtain ⟨hd, hl, hm⟩ := h.memo p hp
    obtain ⟨hl', hpre⟩ := hmove p.1 hd hl (Or.inl (Dict.mem_keys.mpr ⟨p.2, hp⟩))
    refine ⟨hd, hl', fun m hmem => ⟨(hm m hmem).1, fun hv e he hs => ?_⟩⟩
    exact ((hm m hmem).2 hv e he hs).grow (h.exact e he).length hpre
  · obtain ⟨hid, hd, hl, hreq, hg⟩ := h.staged p hp
    obtain ⟨hl', hpre⟩ := hmove p.1 hd hl (Or.inr (Or.inl (Dict.mem_keys.mpr ⟨p.2, hp⟩)))
    exact ⟨hid, hd, hl', hreq, hg.grow hpre⟩
  · obtain ⟨hid, hd, hl, hg, htok⟩ := h.committed p hp
    obtain ⟨hl', hpre⟩ := hmove p.1 hd hl (Or.inr (Or.inr (Dict.mem_keys.mpr ⟨p.2, hp⟩)))
    refine ⟨hid, hd, hl', hg.grow hpre, fun last hlast => ?_⟩
    obtain ⟨q, hq, rfl⟩ := List.mem_map.mp (List.max?_mem hlast)
    obtain ⟨more, hmore⟩ := hpre
    rw [htok _ hlast, ← hmore, List.take_append_of_le_length (hg.plan q hq)]

/-- Fewer entries, the same grants and checks. -/
theorem Sound.of_sub (h : Sound d live tokensOf r) (hentries : ∀ p ∈ r'.entries.items, p ∈ r.entries.items)
    (hserials : r'.serials = r.serials) (hchecks : r'.tokenChecks = r.tokenChecks) (hstaged : r'.staged = r.staged)
    (hcommitted : r'.committed = r.committed) : Sound d live tokensOf r' := by
  refine ⟨fun p hp => h.exact p (hentries p hp), fun p hp => ?_, fun p hp p' hp' => ?_, fun p hp => ?_, ?_, ?_⟩
  · rw [hserials]; exact h.serial p (hentries p hp)
  · exact h.unique p (hentries p hp) p' (hentries p' hp')
  · rw [hchecks] at hp
    obtain ⟨hd, hl, hm⟩ := h.memo p hp
    refine ⟨hd, hl, fun m hmem => ⟨?_, fun hv e he => (hm m hmem).2 hv e (hentries e he)⟩⟩
    rw [hserials]; exact (hm m hmem).1
  · rw [hstaged]; exact h.staged
  · rw [hcommitted]; exact h.committed

/-- Dropping every entry and every check. -/
theorem Sound.of_cleared (h : Sound d live tokensOf r) (hentries : r'.entries = Dict.empty)
    (hchecks : r'.tokenChecks = Dict.empty) (hstaged : r'.staged = r.staged) (hcommitted : r'.committed = r.committed) :
    Sound d live tokensOf r' := by
  refine ⟨?_, ?_, ?_, ?_, by rw [hstaged]; exact h.staged, by rw [hcommitted]; exact h.committed⟩ <;>
    simp [hentries, hchecks]

/-! ## The registry's functions -/

section Registry

open Registry

theorem Sound.unstage (h : Sound d live tokensOf r) (reqId : String) : Sound d live tokensOf (r.unstage reqId) :=
  { h with staged := fun p hp => h.staged p (Dict.mem_erase.mp hp).1 }

theorem Sound.stage (h : Sound d live tokensOf r) {g : Grant κ τ} {hd : Nat} (hlive : live g.reqId = some hd)
    (hreq : g.request = some hd) (hg : GrantSound d (tokensOf hd) g) : Sound d live tokensOf (r.stage g) := by
  refine { h with staged := fun p hp => ?_ }
  rcases Dict.mem_set.mp hp with ⟨hp, -⟩ | rfl
  · exact h.staged p hp
  · exact ⟨rfl, hd, hlive, hreq, hg⟩

theorem Sound.disable (h : Sound d live tokensOf r) (reason : String) : Sound d live tokensOf (r.disable reason) :=
  h.of_cleared rfl rfl rfl rfl

variable [DecidableEq κ]

theorem Sound.remove (h : Sound d live tokensOf r) (key : κ) : Sound d live tokensOf (r.remove key) := by
  have hf := remove_frame r key
  refine h.of_sub (fun p hp => ?_) hf.serials hf.tokenChecks hf.staged hf.committed
  rw [remove_entries, Dict.mem_erase] at hp
  exact hp.1

theorem Sound.enforceBudget (h : Sound d live tokensOf r) : Sound d live tokensOf r.enforceBudget := by
  have hf := enforceBudget_frame r
  exact h.of_sub (enforceBudget_sub r) hf.serials hf.tokenChecks hf.staged hf.committed

theorem Sound.noteOrphan (h : Sound d live tokensOf r) (key : κ) : Sound d live tokensOf (r.noteOrphan key) := by
  unfold Registry.noteOrphan
  split
  · exact h.of_sub (fun p hp => hp) rfl rfl rfl rfl
  · exact h

theorem Sound.beginStep (h : Sound d live tokensOf r) : Sound d live tokensOf r.beginStep := by
  refine Sound.enforceBudget ⟨h.exact, h.serial, h.unique, h.memo, fun p hp => ?_, fun p hp => ?_⟩
  · simp [release] at hp
  · simp [release] at hp

omit [DecidableEq κ] in
/-- Forgetting a request leaves nothing of it. -/
theorem Sound.forgetRequest (h : Sound d live tokensOf r) (reqId : String) :
    Sound d live tokensOf (r.forgetRequest reqId).1 :=
  { h with
    memo := fun p hp => h.memo p (Dict.mem_erase.mp hp).1
    staged := fun p hp => h.staged p (Dict.mem_erase.mp hp).1
    committed := fun p hp => h.committed p (Dict.mem_erase.mp hp).1 }

omit [DecidableEq κ] in
/-- A checkpoint that matches was taken over the request's first tokens, also where the match is only remembered. -/
theorem Sound.tokensMatch (h : Sound d live tokensOf r) {reqId : String} {hd : Nat} (hlive : live reqId = some hd)
    {entry : Checkpoint κ τ} {key : κ} (hentry : (key, entry) ∈ r.entries.items) (candidate : Nat) :
    Sound d live tokensOf (r.tokensMatch reqId candidate entry (tokensOf hd)).1 ∧
      ((r.tokensMatch reqId candidate entry (tokensOf hd)).2 = true → Vouched (tokensOf hd) candidate entry) ∧
      (r.tokensMatch reqId candidate entry (tokensOf hd)).1.entries = r.entries := by
  set memo := (r.tokenChecks.get? reqId).getD Dict.empty with hmemo
  have hknown : ∀ m ∈ memo.items, m.2.1 < r.serials ∧
      (m.2.2 = true → ∀ e ∈ r.entries.items, e.2.serial = m.2.1 → Vouched (tokensOf hd) m.1 e.2) := by
    cases hget : r.tokenChecks.get? reqId with
    | none => simp [hmemo, hget]
    | some found =>
      obtain ⟨hd', hl', hm⟩ := h.memo _ (Dict.get?_eq_some_iff.mp hget)
      obtain rfl : hd' = hd := by rw [hlive] at hl'; exact (Option.some.inj hl').symm
      simpa [hmemo, hget] using hm
  have hupdate : ∀ memo' : Dict Nat (Nat × Bool), (∀ m ∈ memo'.items, m.2.1 < r.serials ∧
      (m.2.2 = true → ∀ e ∈ r.entries.items, e.2.serial = m.2.1 → Vouched (tokensOf hd) m.1 e.2)) →
      Sound d live tokensOf { r with tokenChecks := r.tokenChecks.set reqId memo' } := fun memo' hm' => by
    refine { h with memo := fun p hp => ?_ }
    rcases Dict.mem_set.mp hp with ⟨hp, -⟩ | rfl
    · exact h.memo p hp
    · exact ⟨hd, hlive, hm'⟩
  unfold Registry.tokensMatch
  simp only [← hmemo]
  split
  · rename_i seen hseen
    rw [Option.filter_eq_some_iff, decide_eq_true_eq] at hseen
    refine ⟨hupdate memo hknown, fun hv => ?_, rfl⟩
    exact (hknown _ (Dict.get?_eq_some_iff.mp hseen.1)).2 hv _ hentry hseen.2.symm
  · have hverdict : (decide (entry.pos = candidate) && entry.isMatch ((tokensOf hd).take candidate)) = true →
        Vouched (tokensOf hd) candidate entry := fun hv => by
      simp only [Checkpoint.isMatch, Bool.and_eq_true, decide_eq_true_eq] at hv
      exact ⟨hv.1, hv.2.2⟩
    refine ⟨hupdate _ fun m hm => ?_, hverdict, rfl⟩
    rcases Dict.mem_set.mp hm with ⟨hm, -⟩ | rfl
    · exact hknown m hm
    · refine ⟨h.serial _ hentry, fun hv e he hs => ?_⟩
      rw [h.unique e he _ hentry hs]
      exact hverdict hv

omit [DecidableEq κ] in
/-- The tokens `commit` writes into a sound grant. -/
theorem planTokens_ok {hd : Nat} {g : Grant κ τ} {tokens : Option (List Token)} (hreq : g.request = some hd)
    (h : planTokens tokensOf g = .ok tokens) :
    ∀ last, (g.plan.map Prod.fst).max? = some last → tokens = some ((tokensOf hd).take last) := by
  intro last hlast
  simp only [planTokens, hlast, hreq] at h
  exact (Except.ok.inj h).symm

/-- What is known of a grant that has just been committed. -/
structure Committed (d : Device τ) (live : String → Option Nat) (tokensOf : Nat → List Token)
    (admitted : Dict String Nat) (g : Grant κ τ) : Prop where
  admitted : admitted.get? g.reqId = some g.q
  sound : ∃ hd, live g.reqId = some hd ∧ GrantSound d (tokensOf hd) g

/-- The commit of one staged grant. -/
theorem Sound.commitGrant (h : Sound d live tokensOf r) {reqId : String} {g : Grant κ τ} {tokens : Option (List Token)}
    {hd : Nat} (hid : g.reqId = reqId) (hlive : live reqId = some hd) (hg : GrantSound d (tokensOf hd) g)
    (htok : ∀ last, (g.plan.map Prod.fst).max? = some last → tokens = some ((tokensOf hd).take last)) :
    Sound d live tokensOf (r.commitGrant reqId g tokens) := by
  have hsub : ∀ p ∈ (r.commitGrant reqId g tokens).entries.items, p ∈ r.entries.items := by
    simp only [Registry.commitGrant, pinGrant]
    split
    · exact fun p hp => hp
    · cases g.key with
      | none => exact fun p hp => hp
      | some key => exact fun p hp => Dict.mem_moveToEnd.mp hp
  have hrest : (r.commitGrant reqId g tokens).serials = r.serials ∧
      (r.commitGrant reqId g tokens).tokenChecks = r.tokenChecks ∧
      (r.commitGrant reqId g tokens).staged = r.staged := by
    simp only [Registry.commitGrant, pinGrant]
    split <;> exact ⟨rfl, rfl, rfl⟩
  have hbase : Sound d live tokensOf { r.commitGrant reqId g tokens with committed := r.committed } :=
    h.of_sub hsub hrest.1 hrest.2.1 hrest.2.2 rfl
  refine { hbase with committed := fun p hp => ?_ }
  rw [commitGrant_committed] at hp
  rcases Dict.mem_set.mp hp with ⟨hp, -⟩ | rfl
  · exact h.committed p hp
  · exact ⟨hid, hd, hlive, ⟨hg.hit, hg.plan⟩, htok⟩

/-- The loop of `commit` over sound staged grants. -/
theorem Sound.commitLoop (admitted : Dict String Nat) : ∀ (l : List (String × Grant κ τ)) {r : Registry κ τ},
    Sound d live tokensOf r →
    (∀ p ∈ l, p.2.reqId = p.1 ∧ ∃ hd, live p.1 = some hd ∧ p.2.request = some hd ∧ GrantSound d (tokensOf hd) p.2) →
    Sound d live tokensOf (r.commitLoop admitted tokensOf l).obj ∧
      ∀ done, (r.commitLoop admitted tokensOf l).result = .ok done →
        ∀ g ∈ done, Committed d live tokensOf admitted g
  | [], r, h, _ => ⟨h, fun done hd g hg => by cases hd; cases hg⟩
  | (reqId, grant) :: l, r, h, hl => by
    have htail := fun p hp => hl p (List.mem_cons_of_mem _ hp)
    rw [Registry.commitLoop]
    split_ifs with hadm
    · exact Sound.commitLoop admitted l h htail
    obtain ⟨hid, hd, hlive, hreq, hg⟩ := hl _ List.mem_cons_self
    have hadm : admitted.get? reqId = some grant.q := not_not.mp hadm
    rcases Call.attempt_cases (planTokens tokensOf grant) r _ with ⟨e, -, hc⟩ | ⟨tokens, ht, hc⟩ <;> rw [hc]
    · exact ⟨h, fun done hd => by cases hd⟩
    obtain ⟨h1, h2⟩ := Sound.commitLoop admitted l (h.commitGrant hid hlive hg (planTokens_ok hreq ht)) htail
    refine ⟨h1, fun done hdone g hmem => ?_⟩
    cases hres : ((r.commitGrant reqId grant tokens).commitLoop admitted tokensOf l).result with
    | error e => simp only [Call.map, hres] at hdone; cases hdone
    | ok rest =>
      simp only [Call.map, hres] at hdone
      cases hdone
      rcases List.mem_cons.mp hmem with rfl | hmem
      · refine ⟨?_, hd, ?_, hg.hit, hg.plan⟩
        · show admitted.get? grant.reqId = some grant.q
          rw [hid]; exact hadm
        · show live grant.reqId = some hd
          rw [hid]; exact hlive
      · exact h2 rest hres g hmem

theorem Sound.commit (h : Sound d live tokensOf r) (admitted : Dict String Nat) :
    Sound d live tokensOf (r.commit admitted tokensOf).obj ∧
      ∀ done, (r.commit admitted tokensOf).result = .ok done → ∀ g ∈ done, Committed d live tokensOf admitted g := by
  obtain ⟨h1, h2⟩ := Sound.commitLoop admitted r.staged.items h h.staged
  unfold Registry.commit
  rcases Call.bind_cases (r.commitLoop admitted tokensOf r.staged.items) _ with ⟨e, -, hb⟩ | ⟨done, hd, hb⟩ <;> rw [hb]
  · exact ⟨h1, fun done hd => by cases hd⟩
  · refine ⟨{ h1 with staged := fun p hp => by simp at hp }, fun done' hd' => ?_⟩
    cases hd'
    exact h2 done hd

/-- A capture of the state after the first `pos` tokens of the request files an exact checkpoint. -/
theorem Sound.capture (h : Sound d live tokensOf r) {reqId : String} {pos : Nat} {s : Gdn τ}
    {nbytes loopPos : Option Nat}
    (hs : ∀ hd, live reqId = some hd → s = d.foldState ((tokensOf hd).take pos)) :
    Sound d live tokensOf (r.capture reqId pos (some s.recState) (some s.carry) nbytes loopPos).1 := by
  simp only [Registry.capture, captureCall]
  split
  · exact h
  rename_i grant hgrant
  split
  · exact h
  rename_i key hkey
  split
  · exact h
  split
  · exact h
  rename_i tokens htokens
  obtain ⟨-, hd, hlive, hg, htok⟩ := h.committed _ (Dict.get?_eq_some_iff.mp hgrant)
  have hplan : pos ∈ grant.plan.map Prod.fst :=
    List.mem_map.mpr ⟨(pos, key), Dict.mem_ofList (Dict.get?_eq_some_iff.mp hkey), rfl⟩
  obtain ⟨last, hlast⟩ : ∃ last, (grant.plan.map Prod.fst).max? = some last := by
    cases hmax : (grant.plan.map Prod.fst).max? with
    | some last => exact ⟨last, rfl⟩
    | none => rw [List.max?_eq_none_iff] at hmax; rw [hmax] at hplan; cases hplan
  have hle : pos ≤ last := (List.max?_eq_some_iff.mp hlast).2 pos hplan
  have htake : tokens.take pos = (tokensOf hd).take pos := by
    have := htok last hlast
    rw [htokens, Option.some.injEq] at this
    rw [this, List.take_take, Nat.min_eq_left hle]
  rw [htake]
  rcases put_cases r key pos ((tokensOf hd).take pos) (some s.recState) (some s.carry)
    (nbytes.getD CHECKPOINT_NBYTES) with hc | hc | ⟨hc, hpos, hchunk, hlen, -⟩ <;> rw [hc]
  · exact h
  · exact h.of_sub (fun p hp => Dict.mem_moveToEnd.mp hp) rfl rfl rfl rfl
  · have hr := h.remove key
    have hser := (remove_frame r key).serials
    obtain rfl := hs hd hlive
    refine Sound.enforceBudget ⟨fun p hp => ?_, fun p hp => ?_, fun p hp p' hp' he => ?_, fun p hp => ?_, hr.staged,
      hr.committed⟩
    · rcases Dict.mem_set.mp hp with ⟨hp, -⟩ | rfl
      · exact hr.exact p hp
      · exact ⟨Nat.pos_of_ne_zero hpos, hchunk, hlen, rfl, rfl⟩
    · rcases Dict.mem_set.mp hp with ⟨hp, -⟩ | rfl
      · exact Nat.lt_succ_of_lt (hr.serial p hp)
      · exact Nat.lt_succ_self _
    · rcases Dict.mem_set.mp hp with ⟨hp, -⟩ | rfl <;> rcases Dict.mem_set.mp hp' with ⟨hp', -⟩ | rfl
      · exact hr.unique p hp p' hp' he
      · exact absurd he (Nat.ne_of_lt (hr.serial p hp))
      · exact absurd he.symm (Nat.ne_of_lt (hr.serial p' hp'))
      · rfl
    · obtain ⟨hd', hl', hm⟩ := hr.memo p hp
      refine ⟨hd', hl', fun m hmem => ⟨Nat.lt_succ_of_lt (hm m hmem).1, fun hv e he hse => ?_⟩⟩
      rcases Dict.mem_set.mp he with ⟨he, -⟩ | rfl
      · exact (hm m hmem).2 hv e he hse
      · exact absurd hse (Nat.ne_of_gt (hm m hmem).1)

end Registry

/-! ## The scheduler graft -/

section Graft

open SchedulerGraft

variable {g : SchedulerGraft} {request : Request} {hd : Nat}

/-- A planned capture lies within the request. -/
theorem plan_le {hashes : List κ} {h q : Nat} {p : Nat × κ} (hp : p ∈ (g.plan r request hashes h q).1) :
    p.1 ≤ request.numTokens := by
  simp only [SchedulerGraft.plan, List.mem_filterMap, List.mem_filter] at hp
  obtain ⟨pos, ⟨⟨-, hpos⟩, -⟩, hmap⟩ := hp
  simp only [plannable, Bool.and_eq_true, decide_eq_true_eq] at hpos
  cases hk : hashes[pos / BLOCK - 1]? with
  | none => rw [hk] at hmap; cases hmap
  | some key =>
    rw [hk] at hmap
    cases hmap
    exact Nat.le_trans hpos.1.2 (Nat.div_mul_le_self _ _)

variable [DecidableEq κ]

/-- The search for a checkpoint finds an entry taken over the request's first tokens. -/
theorem Sound.trimLoop (hlive : live request.requestId = some hd) (htok : request.allTokenIds = tokensOf hd)
    (hashes : List κ) (first : Nat) : ∀ (k : Nat) {r : Registry κ τ}, Sound d live tokensOf r →
    Sound d live tokensOf (trimLoop r request hashes first k).obj ∧
      ∀ q key c, (trimLoop r request hashes first k).result = .ok (some (q, key, c)) →
        Vouched (tokensOf hd) q c ∧ Exact d c
  | 0, r, h => ⟨h, fun q key c hr => by cases hr⟩
  | k + 1, r, h => by
    rw [SchedulerGraft.trimLoop]
    simp only
    split
    · exact Sound.trimLoop hlive htok hashes first k h
    split
    · exact ⟨h, fun q key c hr => by cases hr⟩
    split
    · exact Sound.trimLoop hlive htok hashes first k h
    rename_i key _ entry hentry
    have hmem := Dict.get?_eq_some_iff.mp hentry
    obtain ⟨h1, h2, -⟩ := h.tokensMatch hlive hmem ((k + 1) * CHUNK)
    rw [htok]
    split
    · rename_i hv
      refine ⟨h1, fun q key c hr => ?_⟩
      cases hr
      exact ⟨h2 hv, h.exact _ hmem⟩
    · exact Sound.trimLoop hlive htok hashes first k h1

theorem Sound.noteOrphans (h : Sound d live tokensOf r) (hashes : List κ) (hit : Nat) :
    Sound d live tokensOf (noteOrphans r request hashes hit) := by
  unfold SchedulerGraft.noteOrphans
  split
  · exact h
  · rename_i hentries
    clear hentries
    generalize orphanBoundaries request hit = l
    induction l generalizing r with
    | nil => exact h
    | cons b l ih =>
      rw [List.foldl_cons]
      refine ih ?_
      split
      · exact h.noteOrphan _
      · exact h

omit [DecidableEq κ] in
/-- What a trim stages is right for its request. -/
theorem Sound.stageGrant (h : Sound d live tokensOf r) (hlive : live request.requestId = some hd)
    (htok : request.allTokenIds = tokensOf hd) {hashes : List κ} {hit : Nat}
    {found : Option (Nat × κ × Checkpoint κ τ)}
    (hfound : ∀ q key c, found = some (q, key, c) → Vouched (tokensOf hd) q c ∧ Exact d c) :
    Sound d live tokensOf (g.stageGrant r request hd hashes hit found).1 := by
  unfold SchedulerGraft.stageGrant
  simp only
  split_ifs
  · refine h.stage hlive rfl ⟨fun hq => ?_, fun p hp => ?_⟩
    · cases found with
      | none => exact absurd hq (Nat.lt_irrefl 0)
      | some f =>
        obtain ⟨q, key, c⟩ := f
        exact ⟨c, rfl, hfound q key c rfl⟩
    · rw [← htok]; exact plan_le hp
  · exact h.unstage _

omit [DecidableEq κ] in
theorem Sound.killSwitchEngaged {s : Scheduler κ τ} (h : Sound d live tokensOf s.registry) (flag : Bool) :
    Sound d live tokensOf (g.killSwitchEngaged s flag).1.registry := by
  unfold SchedulerGraft.killSwitchEngaged
  simp only
  split
  · exact h.disable _
  · exact h

/-- An admission attempt. -/
theorem Sound.trim {s : Scheduler κ τ} (h : Sound d live tokensOf s.registry)
    (hlive : live request.requestId = some hd) (htok : request.allTokenIds = tokensOf hd) (hashes : List κ)
    (group : List Nat) (hit : Nat) (flag : Bool) :
    Sound d live tokensOf (g.trim s request hd hashes group hit flag).obj.registry := by
  unfold SchedulerGraft.trim
  split
  · exact h.unstage _
  simp only
  have hk := Sound.killSwitchEngaged (g := g) h flag
  split
  · exact hk.unstage _
  refine Call.attempt_obj (P := fun s : Scheduler κ τ => Sound d live tokensOf s.registry) hk fun first _ => ?_
  obtain ⟨h1, h2⟩ := Sound.trimLoop hlive htok hashes first
    (if g.sticky = true then min (hit / CHUNK) ((request.numPromptTokens - CHUNK) / CHUNK) else hit / CHUNK) hk
  split
  · exact h1
  · rename_i found hres
    exact (h1.noteOrphans hashes hit).stageGrant hlive htok fun q key c hf => h2 q key c (by rw [hres, hf])

theorem Sound.evict {s : Scheduler κ τ} (h : Sound d live tokensOf s.registry) (evicted : Bool) (keys : List κ)
    (cached : κ → Bool) : Sound d live tokensOf (evict s evicted keys cached).registry := by
  unfold SchedulerGraft.evict
  split
  · generalize keys.filter (fun key => !cached key) = l
    generalize hr : s.registry = r at h ⊢
    clear hr
    induction l generalizing r with
    | nil => exact h
    | cons key l ih => exact ih _ (h.remove key)
  · exact h

end Graft

/-! ## The model graft -/

section Rows

variable [DecidableEq κ]

/-- A checked row is ready: if it resumes, what it restores is the cold state of its first tokens. -/
structure RowReady (d : Device τ) (x : RowInput) (row : Row τ) : Prop where
  reqId : row.reqId = x.reqId
  actual : row.actual = x.actual
  restore : row.start ≠ 0 → ∃ s, Device.restore row.recState row.carry = .ok s ∧
    s = d.coldRun x.tokens (row.start / CHUNK)

omit [DecidableEq κ] in
/-- A row that passes its check against a sound registry is ready. -/
theorem Sound.rowReady (h : Sound d live tokensOf r) {x : RowInput} {row : Row τ} (hrow : Device.RowFits r x row) :
    RowReady d x row := by
  refine ⟨hrow.reqId, hrow.actual, fun hne => ?_⟩
  rw [hrow.start] at hne ⊢
  obtain ⟨reqId, grant, c, recState, carry, -, hgrant, hq, hcheck, hpos, htok, hrec, hcarry, hrow1, hrow2⟩ :=
    hrow.resumed hne
  obtain ⟨-, hd, -, hg, -⟩ := h.committed _ (Dict.get?_eq_some_iff.mp hgrant)
  obtain ⟨c', hc', -, he⟩ := hg.hit (by rw [hq]; exact Nat.pos_of_ne_zero hne)
  obtain rfl : c' = c := by rw [hcheck] at hc'; exact (Option.some.inj hc').symm
  have htake : c'.tokenIds = x.tokens.take x.start := by
    rw [htok, RowInput.tokens, List.take_take, Nat.min_eq_left (Nat.le_of_lt hrow.inside)]
  have hlen : x.start ≤ x.tokens.length := by
    have := he.length
    rw [htake, hpos, List.length_take] at this
    omega
  have hmul : x.start / CHUNK * CHUNK = x.start := by
    rw [← hpos]; exact Nat.div_mul_cancel (Nat.dvd_of_mod_eq_zero he.boundary)
  have hfold : d.foldState c'.tokenIds = d.coldRun x.tokens (x.start / CHUNK) := by
    have := Chunked.fold_take d.chunk CHUNK x.tokens (m := x.start / CHUNK) (by decide)
      (by rw [hmul]; exact hlen) d.zero
    rw [hmul] at this
    rw [Device.foldState, htake, this]
  refine ⟨⟨recState, carry⟩, by rw [hrow1, hrow2]; rfl, ?_⟩
  rw [← hfold]
  have h1 := he.recState
  have h2 := he.carry
  rw [hrec, Option.some.injEq] at h1
  rw [hcarry, Option.some.injEq] at h2
  rw [h1, h2]

/-- The rows of a prefill call carry their live requests' tokens. -/
def RowsFit (live : String → Option Nat) (tokensOf : Nat → List Token) (xs : List RowInput) : Prop :=
  ∀ x ∈ xs, ∀ id hd, x.reqId = some id → live id = some hd → x.tokens = (tokensOf hd).take x.actual

/-- A row captures exact checkpoints only. -/
theorem Sound.prefixCapture (h : Sound d live tokensOf r) {x : RowInput} {row : Row τ} (hrow : RowReady d x row)
    (hfit : ∀ id hd, x.reqId = some id → live id = some hd → x.tokens = (tokensOf hd).take x.actual)
    {reading : Option Nat} {i : Nat} (hi : i < x.actual / CHUNK) (hlen : x.actual ≤ x.tokens.length) :
    Sound d live tokensOf
      (Device.prefixCapture row.reqId reading ((i + 1) * CHUNK) (d.coldRun x.tokens (i + 1)) r) := by
  rcases hreq : row.reqId with _ | reqId
  · exact h
  rcases reading with _ | nbytes
  · exact h
  refine h.capture fun hd hlive => ?_
  have hle : (i + 1) * CHUNK ≤ x.actual :=
    Nat.le_trans (Nat.mul_le_mul_right CHUNK hi) (Nat.div_mul_le_self _ _)
  have htake : (tokensOf hd).take ((i + 1) * CHUNK) = x.tokens.take ((i + 1) * CHUNK) := by
    rw [hfit reqId hd (hrow.reqId.symm.trans hreq) hlive, List.take_take, Nat.min_eq_left hle]
  rw [htake]
  exact (Chunked.fold_take d.chunk CHUNK x.tokens (by decide) (Nat.le_trans hle hlen) d.zero).symm

/-- What a row leaves is what a cold prefill of its tokens leaves, and so is everything it captured. -/
def ColdRun (d : Device τ) (x : RowInput) (out : Device.RowRun τ) : Prop :=
  out.state = d.cold x.tokens ∧ ∀ p ∈ out.captured, p.2 = d.foldState (x.tokens.take p.1)

/-- One row. -/
theorem Sound.runRow (h : Sound d live tokensOf r) {x : RowInput} {row : Row τ} (hrow : RowReady d x row)
    (hfit : ∀ id hd, x.reqId = some id → live id = some hd → x.tokens = (tokensOf hd).take x.actual)
    (reads : Nat → Option Nat) (scratch : Gdn τ) :
    Sound d live tokensOf (d.runRow reads scratch row x.tokens r).obj ∧
      ∀ out, (d.runRow reads scratch row x.tokens r).result = .ok out → ColdRun d x out := by
  unfold Device.runRow
  rcases Call.attempt_cases (if row.start = 0 then .ok scratch else Device.restore row.recState row.carry) r _ with
    ⟨e, -, hc⟩ | ⟨s, hs, hc⟩ <;> rw [hc]
  · exact ⟨h, fun out ho => by cases ho⟩
  have hscratch : row.start ≠ 0 → s = d.coldRun x.tokens (row.start / CHUNK) := fun hne => by
    rw [if_neg hne] at hs
    obtain ⟨s', hs', rfl⟩ := hrow.restore hne
    rw [hs'] at hs
    exact (Except.ok.inj hs).symm
  have hlen : x.tokens.length ≤ row.actual := by rw [hrow.actual]; exact List.length_take_le _ _
  obtain ⟨h1, h2⟩ := Device.prefill_spec (P := Sound d live tokensOf) row.plan
    (fun pos s r => Device.prefixCapture row.reqId (reads pos) pos s r) hlen hscratch
    (fun i r hi hle _ hr => hr.prefixCapture hrow hfit (by rw [← hrow.actual]; exact hi)
      (by rw [← hrow.actual]; exact hle)) h
  refine ⟨h1, fun out ho => ?_⟩
  cases hres : (d.prefillTracedChunked x.tokens row.actual row.start row.plan
      (fun pos s r => Device.prefixCapture row.reqId (reads pos) pos s r) s r).result with
  | error e => simp only [Call.map, hres] at ho; cases ho
  | ok out' =>
    simp only [Call.map, hres] at ho
    cases ho
    obtain ⟨hstate, hcap⟩ := h2 out' hres
    refine ⟨hstate, fun p hp => ?_⟩
    obtain ⟨i, hi, rfl⟩ := hcap p hp
    exact (Chunked.fold_take d.chunk CHUNK x.tokens (by decide)
      (Nat.le_trans (Nat.mul_le_mul_right CHUNK hi) (Nat.div_mul_le_self _ _)) d.zero).symm

/-- The rows of a call, in order. -/
theorem Sound.runRows (reads : Nat → Nat → Option Nat) : ∀ {xs : List RowInput} {rows : List (Row τ)},
    List.Forall₂ (RowReady d) xs rows → RowsFit live tokensOf xs → ∀ (scratch : Gdn τ) {r : Registry κ τ},
    Sound d live tokensOf r →
    Sound d live tokensOf (d.runRows reads scratch (rows.zip (xs.map RowInput.tokens)) r).obj ∧
      ∀ outs, (d.runRows reads scratch (rows.zip (xs.map RowInput.tokens)) r).result = .ok outs →
        List.Forall₂ (ColdRun d) xs outs := by
  intro xs rows hready hfit scratch r h
  induction hready generalizing scratch r with
  | nil => exact ⟨h, fun outs ho => by cases ho; exact List.Forall₂.nil⟩
  | @cons x row xs rows hrow _ ih =>
    have hfit' : RowsFit live tokensOf xs := fun x' hx' => hfit x' (List.mem_cons_of_mem _ hx')
    obtain ⟨h1, h2⟩ := h.runRow hrow (hfit x List.mem_cons_self) (reads row.index) scratch
    simp only [List.map_cons, List.zip_cons_cons, Device.runRows]
    rcases Call.bind_cases (d.runRow (reads row.index) scratch row x.tokens r) _ with
      ⟨e, -, hb⟩ | ⟨out, hout, hb⟩ <;> rw [hb]
    · exact ⟨h1, fun outs ho => by cases ho⟩
    obtain ⟨h3, h4⟩ := ih hfit' out.state h1
    refine ⟨h3, fun outs ho => ?_⟩
    cases hres : (d.runRows reads out.state (rows.zip (xs.map RowInput.tokens))
        (d.runRow (reads row.index) scratch row x.tokens r).obj).result with
    | error e => simp only [Call.map, hres] at ho; cases ho
    | ok outs' =>
      simp only [Call.map, hres] at ho
      cases ho
      exact List.Forall₂.cons (h2 out hout) (h4 outs' hres)

omit [DecidableEq κ] in
/-- Checked rows are ready. -/
theorem Sound.prefixRows (h : Sound d live tokensOf r) : ∀ {xs : List RowInput} {index : Nat} {rows : List (Row τ)},
    d.prefixRows r index xs = .ok rows → List.Forall₂ (RowReady d) xs rows
  | [], _, rows, hr => by cases hr; exact List.Forall₂.nil
  | x :: xs, index, rows, hr => by
    rw [Device.prefixRows] at hr
    obtain ⟨⟨⟩, -, hr⟩ := bind_ok hr
    obtain ⟨row, hrow, hr⟩ := bind_ok hr
    obtain ⟨rest, hrest, hr⟩ := bind_ok hr
    cases hr
    exact List.Forall₂.cons (h.rowReady (Device.prefixRow_ok hrow)) (h.prefixRows hrest)

/-- A prefill call. -/
theorem Sound.prefillSlots (h : Sound d live tokensOf r) {xs : List RowInput} (hfit : RowsFit live tokensOf xs)
    (reads : Nat → Nat → Option Nat) (scratch : Gdn τ) :
    Sound d live tokensOf (d.prefillSlots reads scratch xs r).obj ∧
      ∀ outs, (d.prefillSlots reads scratch xs r).result = .ok outs → List.Forall₂ (ColdRun d) xs outs := by
  unfold Device.prefillSlots
  rcases Call.attempt_cases (d.prefixRows r 0 xs) r _ with ⟨e, -, hc⟩ | ⟨rows, hrows, hc⟩ <;> rw [hc]
  · exact ⟨h, fun outs ho => by cases ho⟩
  · exact Sound.runRows reads (h.prefixRows hrows) hfit scratch h

end Rows

end BlackholeQwen.Prefix
