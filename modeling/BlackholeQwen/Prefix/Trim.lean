import Mathlib.Order.Bounds.Basic
import BlackholeQwen.Prefix.Scheduler

/-!
# The trim grants the longest exact hit

`SchedulerGraft.trim` searches downwards from the raw hit for a boundary that it may grant (`Grantable`): no block below
it was cached in this step, and the registry holds a checkpoint there over the request's first tokens. The verdicts on
the tokens are remembered; `Remembers` says that each is what a new check would say. `trimmed_spec` is the trim's
specification: the longest boundary that may be granted, and what is staged for it.
-/

namespace BlackholeQwen.Prefix

open Lib

variable {κ τ : Type}

/-! ## What a check remembers -/

/-- The verdict of `tokens_match`, not remembered. -/
def Checkpoint.vouches (entry : Checkpoint κ τ) (candidate : Nat) (tokens : List Token) : Bool :=
  decide (entry.pos = candidate) && entry.isMatch (tokens.take candidate)

theorem Checkpoint.vouches_iff {entry : Checkpoint κ τ} {candidate : Nat} {tokens : List Token} :
    entry.vouches candidate tokens = true ↔
      candidate ≤ tokens.length ∧ entry.pos = candidate ∧ entry.tokenIds = tokens.take candidate := by
  simp only [vouches, isMatch, Bool.and_eq_true, decide_eq_true_eq, List.length_take]
  constructor
  · rintro ⟨rfl, hlength, htokens⟩
    exact ⟨by omega, rfl, htokens⟩
  · rintro ⟨hle, rfl, htokens⟩
    exact ⟨rfl, by omega, htokens⟩

namespace Registry

/-- The checks remembered of a request. -/
def memo (r : Registry κ τ) (reqId : String) : Dict Nat (Nat × Bool) := (r.tokenChecks.get? reqId).getD Dict.empty

/-- Serials name entries, and each verdict remembered of a request is what checking again would say. -/
structure Remembers (r : Registry κ τ) (reqId : String) (tokens : List Token) : Prop where
  unique : ∀ p ∈ r.entries.items, ∀ p' ∈ r.entries.items, p.2.serial = p'.2.serial → p.2 = p'.2
  memo : ∀ m ∈ (r.memo reqId).items, ∀ e ∈ r.entries.items, e.2.serial = m.2.1 → m.2.2 = e.2.vouches m.1 tokens

/-- What `tokens_match` writes: the checks it found, and at most the one it made. -/
theorem tokensMatch_writes (r : Registry κ τ) (reqId : String) (candidate : Nat) (entry : Checkpoint κ τ)
    (tokens : List Token) :
    ∃ memo, (r.tokensMatch reqId candidate entry tokens).1 =
        { r with tokenChecks := r.tokenChecks.set reqId memo } ∧
      ∀ m ∈ memo.items, m ∈ (r.memo reqId).items ∨
        m = (candidate, entry.serial, entry.vouches candidate tokens) := by
  unfold tokensMatch
  simp only
  split
  · exact ⟨_, rfl, fun m hm => Or.inl hm⟩
  · refine ⟨_, rfl, fun m hm => ?_⟩
    rcases Dict.mem_set.mp hm with ⟨hm, -⟩ | rfl
    · exact Or.inl hm
    · exact Or.inr rfl

/-- A check says what the tokens say, remembered or not, and what it leaves remembered is right. -/
theorem Remembers.tokensMatch {r : Registry κ τ} {reqId : String} {tokens : List Token} (h : r.Remembers reqId tokens)
    {key : κ} {entry : Checkpoint κ τ} (hentry : (key, entry) ∈ r.entries.items) (candidate : Nat) :
    (r.tokensMatch reqId candidate entry tokens).2 = entry.vouches candidate tokens ∧
      (r.tokensMatch reqId candidate entry tokens).1.entries = r.entries ∧
      (r.tokensMatch reqId candidate entry tokens).1.Remembers reqId tokens := by
  obtain ⟨memo, hwrites, hmemo⟩ := r.tokensMatch_writes reqId candidate entry tokens
  refine ⟨?_, by rw [hwrites], ?_⟩
  · unfold Registry.tokensMatch
    simp only
    split
    · rename_i seen hseen
      rw [Option.filter_eq_some_iff, decide_eq_true_eq] at hseen
      exact h.memo _ (Dict.get?_eq_some_iff.mp hseen.1) _ hentry hseen.2.symm
    · rfl
  · rw [hwrites]
    refine ⟨h.unique, fun m hm e he hserial => ?_⟩
    rw [Registry.memo, Dict.get?_set_self, Option.getD_some] at hm
    rcases hmemo m hm with hm | rfl
    · exact h.memo m hm e he hserial
    · rw [h.unique e he _ hentry hserial]

end Registry

/-! ## The search -/

/-- A checkpoint that the trim may grant at `q`: filed under the hash of the last block below `q`, at `q` and over the
request's first tokens, with no block below `q` past the first that was cached in this step. -/
structure Fits [DecidableEq κ] (entries : Dict κ (Checkpoint κ τ)) (tokens : List Token) (hashes : List κ)
    (first q : Nat) (key : κ) (entry : Checkpoint κ τ) : Prop where
  first : q / BLOCK ≤ first
  hash : hashes[q / BLOCK - 1]? = some key
  filed : entries.get? key = some entry
  vouches : entry.vouches q tokens = true

/-- What a search from `k` chunks down finds: the first fit, or that there is none. -/
inductive Searched [DecidableEq κ] (entries : Dict κ (Checkpoint κ τ)) (tokens : List Token) (hashes : List κ)
    (first k : Nat) : Option (Nat × κ × Checkpoint κ τ) → Prop
  | miss : (∀ j key entry, 0 < j → j ≤ k → ¬Fits entries tokens hashes first (j * CHUNK) key entry) →
      Searched entries tokens hashes first k none
  | hit {i : Nat} {key : κ} {entry : Checkpoint κ τ} : 0 < i → i ≤ k →
      Fits entries tokens hashes first (i * CHUNK) key entry →
      (∀ j key' entry', i < j → j ≤ k → ¬Fits entries tokens hashes first (j * CHUNK) key' entry') →
      Searched entries tokens hashes first k (some (i * CHUNK, key, entry))

section Search

variable [DecidableEq κ] {entries : Dict κ (Checkpoint κ τ)} {tokens : List Token} {hashes : List κ} {first k : Nat}

/-- A boundary that does not fit is passed over. -/
theorem Searched.skip {found : Option (Nat × κ × Checkpoint κ τ)}
    (h : Searched entries tokens hashes first k found)
    (hskip : ∀ key entry, ¬Fits entries tokens hashes first ((k + 1) * CHUNK) key entry) :
    Searched entries tokens hashes first (k + 1) found := by
  cases h with
  | miss hnone =>
    refine .miss fun j key entry hpos hle => ?_
    rcases Nat.lt_or_eq_of_le hle with hlt | rfl
    · exact hnone j key entry hpos (by omega)
    · exact hskip key entry
  | hit hpos hle hfits hmax =>
    refine .hit hpos (by omega) hfits fun j key entry hlt hle' => ?_
    rcases Nat.lt_or_eq_of_le hle' with hlt' | rfl
    · exact hmax j key entry hlt (by omega)
    · exact hskip key entry

open SchedulerGraft

/-- **The search returns the longest fit**, and leaves the entries and the right memory of its checks. -/
theorem trimLoop_searched (first : Nat) {request : Request} {r : Registry κ τ}
    (hr : r.Remembers request.requestId request.allTokenIds) (hlen : k * CHUNK / BLOCK ≤ hashes.length) :
    ∃ found, (trimLoop r request hashes first k).result = .ok found ∧
      Searched r.entries request.allTokenIds hashes first k found := by
  induction k generalizing r with
  | zero => exact ⟨none, rfl, .miss fun j key entry hpos hle => absurd hle (by omega)⟩
  | succ k ih =>
    have hbelow : k * CHUNK / BLOCK ≤ hashes.length :=
      le_trans (Nat.div_le_div_right (Nat.mul_le_mul_right CHUNK (Nat.le_succ k))) hlen
    rw [trimLoop]
    simp only
    split_ifs with hsame
    · obtain ⟨found, hfound, hsearched⟩ := ih hr hbelow
      exact ⟨found, hfound, hsearched.skip fun key entry hfits => absurd hfits.first (by omega)⟩
    have hinside : (k + 1) * CHUNK / BLOCK - 1 < hashes.length := by
      simp only [CHUNK, BLOCK] at hlen ⊢
      omega
    rw [List.getElem?_eq_getElem hinside]
    simp only
    cases hget : r.get hashes[(k + 1) * CHUNK / BLOCK - 1] with
    | none =>
      obtain ⟨found, hfound, hsearched⟩ := ih hr hbelow
      refine ⟨found, hfound, hsearched.skip fun key entry hfits => ?_⟩
      have hkey := hfits.hash
      rw [List.getElem?_eq_getElem hinside] at hkey
      cases hkey
      exact nomatch hget.symm.trans hfits.filed
    | some entry =>
      obtain ⟨hverdict, hentries, hremembers⟩ :=
        hr.tokensMatch (Dict.get?_eq_some_iff.mp hget) ((k + 1) * CHUNK)
      simp only [hverdict]
      split_ifs with hvouches
      · refine ⟨_, rfl, .hit (Nat.succ_pos k) le_rfl ⟨by omega, List.getElem?_eq_getElem hinside, hget, hvouches⟩ ?_⟩
        exact fun j _ _ hlt hle => absurd hle (by omega)
      · obtain ⟨found, hfound, hsearched⟩ := ih hremembers hbelow
        rw [hentries] at hsearched
        refine ⟨found, hfound, hsearched.skip fun key entry' hfits => hvouches ?_⟩
        have hkey := hfits.hash
        rw [List.getElem?_eq_getElem hinside] at hkey
        cases hkey
        obtain rfl := Option.some.inj (hget.symm.trans hfits.filed)
        exact hfits.vouches

/-- What a search leaves of the registry: all but the checks it remembers. -/
theorem trimLoop_writes (request : Request) (hashes : List κ) (first k : Nat) (r : Registry κ τ) :
    (trimLoop r request hashes first k).obj.staged = r.staged ∧
      (trimLoop r request hashes first k).obj.midLoopCapture = r.midLoopCapture := by
  induction k generalizing r with
  | zero => exact ⟨rfl, rfl⟩
  | succ k ih =>
    rw [trimLoop]
    simp only
    split_ifs
    · exact ih r
    split
    · exact ⟨rfl, rfl⟩
    split
    · exact ih r
    rename_i entry _
    obtain ⟨memo, hwrites, -⟩ :=
      r.tokensMatch_writes request.requestId ((k + 1) * CHUNK) entry request.allTokenIds
    split_ifs
    · rw [hwrites]
      exact ⟨rfl, rfl⟩
    · rw [hwrites]
      exact ih _

theorem noteOrphans_writes (request : Request) (r : Registry κ τ) (hashes : List κ) (h : Nat) :
    (noteOrphans r request hashes h).staged = r.staged ∧
      (noteOrphans r request hashes h).midLoopCapture = r.midLoopCapture := by
  unfold noteOrphans
  split_ifs with hempty
  · exact ⟨rfl, rfl⟩
  clear hempty
  induction orphanBoundaries request h generalizing r with
  | nil => exact ⟨rfl, rfl⟩
  | cons boundary boundaries ih =>
    rw [List.foldl_cons, (ih _).1, (ih _).2]
    split
    · unfold Registry.noteOrphan
      split <;> exact ⟨rfl, rfl⟩
    · exact ⟨rfl, rfl⟩

end Search

/-! ## The blocks of the hit -/

/-- A boundary is below the first block cached in this step iff none of its blocks was. -/
theorem firstSame_ok (sameStep : Finset Nat) {group : List Nat} {limit : Nat} (hgroup : limit ≤ group.length) :
    ∃ first, SchedulerGraft.firstSame sameStep group limit = .ok first ∧
      ∀ n ≤ limit, n ≤ first ↔ ∀ block ∈ group.take n, block ∉ sameStep := by
  unfold SchedulerGraft.firstSame
  by_cases hempty : sameStep = ∅
  · rw [if_pos hempty]
    exact ⟨limit, rfl, fun n hn => ⟨fun _ block _ => by simp [hempty], fun _ => hn⟩⟩
  rw [if_neg hempty]
  cases hfind : (group.take limit).findIdx? (fun block => decide (block ∈ sameStep)) with
  | none =>
    rw [List.findIdx?_eq_none_iff] at hfind
    simp only [if_neg (Nat.not_lt.mpr hgroup)]
    refine ⟨limit, rfl, fun n hn => ⟨fun _ block hblock => ?_, fun _ => hn⟩⟩
    exact of_decide_eq_false (hfind block (List.take_subset_take_left group hn hblock))
  | some index =>
    obtain ⟨hlt, hsame, hbefore⟩ := List.findIdx?_eq_some_iff_getElem.mp hfind
    rw [List.length_take] at hlt
    simp only [List.getElem_take, decide_eq_true_eq] at hsame hbefore
    refine ⟨index, rfl, fun n hn => ⟨fun hle block hblock => ?_, fun hall => ?_⟩⟩
    · obtain ⟨j, hj, rfl⟩ := List.mem_take_iff_getElem.mp hblock
      exact hbefore j (by omega)
    · by_contra hcontra
      exact hall _ (List.mem_take_iff_getElem.mpr ⟨index, by omega, rfl⟩) hsame

/-! ## The trim -/

namespace SchedulerGraft

/-- Where the search starts: the raw hit, and under sticky sessions the drafter's window within this prefill's own
chunks. -/
def ceiling (g : SchedulerGraft) (request : Request) (h : Nat) : Nat :=
  if g.sticky then min h (floorChunk (request.numPromptTokens - CHUNK)) else h

/-- A boundary of whole chunks below the ceiling. -/
theorem le_ceiling {g : SchedulerGraft} {request : Request} {h j : Nat} :
    j * CHUNK ≤ g.ceiling request h ↔
      j ≤ if g.sticky then min (h / CHUNK) ((request.numPromptTokens - CHUNK) / CHUNK) else h / CHUNK := by
  have hchunk : 0 < CHUNK := by decide
  unfold ceiling floorChunk
  split_ifs
  · rw [le_min_iff, le_min_iff, Nat.le_div_iff_mul_le hchunk, Nat.mul_le_mul_right_iff hchunk]
  · rw [Nat.le_div_iff_mul_le hchunk]

variable [DecidableEq κ]

/-- `trim` with the blocks of the hit it leaves. -/
def trimmed (g : SchedulerGraft) (s : Scheduler κ τ) (request : Request) (handle : Nat) (hashes : List κ)
    (group : List Nat) (h : Nat) (flag : Bool) : Call (Scheduler κ τ) (List Nat × Nat) :=
  (g.trim s request handle hashes group h flag).map fun q => (group.take (q / BLOCK), q)

end SchedulerGraft

section Trim

variable [DecidableEq κ]

/-- A boundary that may be granted: none of its blocks was cached in this step, and the registry holds a checkpoint
there, over the request's first tokens, under the hash of its last block. -/
structure Grantable (r : Registry κ τ) (request : Request) (hashes : List κ) (group : List Nat) (q : Nat) (key : κ)
    (entry : Checkpoint κ τ) : Prop where
  settled : ∀ block ∈ group.take (q / BLOCK), block ∉ r.sameStepBlocks
  hash : hashes[q / BLOCK - 1]? = some key
  filed : r.get key = some entry
  pos : entry.pos = q
  inside : q ≤ request.numTokens
  tokens : entry.tokenIds = request.allTokenIds.take q

/-- What a trim is to grant: whole chunks below the ceiling that may be granted, or nothing. -/
def grants (g : SchedulerGraft) (r : Registry κ τ) (request : Request) (hashes : List κ) (group : List Nat) (h : Nat) :
    Set Nat :=
  {q | CHUNK ∣ q ∧ q ≤ g.ceiling request h ∧ (q = 0 ∨ ∃ key entry, Grantable r request hashes group q key entry)}

/-- What a trim returns and stages. -/
structure Trimmed (g : SchedulerGraft) (r : Registry κ τ) (request : Request) (handle : Nat) (hashes : List κ)
    (group : List Nat) (h : Nat) (c : Call (Scheduler κ τ) (List Nat × Nat)) (q : Nat) (grant : Grant κ τ) : Prop where
  result : c.result = .ok (group.take (q / BLOCK), q)
  longest : IsGreatest (grants g r request hashes group h) q
  /-- Nothing stays staged where there is neither a hit nor anything to capture. -/
  staged : c.obj.registry.staged.get? request.requestId =
    if q = 0 ∧ (g.plan r request hashes h q).1 = [] ∧ (g.plan r request hashes h q).2.1 = [] then none else some grant
  hit : grant.q = q ∧ grant.h = h ∧ grant.reqId = request.requestId ∧ grant.request = some handle
  plan : (grant.plan, grant.unplanned, grant.drain) = g.plan r request hashes h q
  checkpoint : 0 < q → ∃ key entry, Grantable r request hashes group q key entry ∧ grant.key = some key ∧
    grant.checkpoint = some entry
  miss : q = 0 → grant.key = none ∧ grant.checkpoint = none

variable {g : SchedulerGraft} {r : Registry κ τ} {request : Request} {hashes : List κ} {group : List Nat} {h : Nat}

/-- Below the ceiling, what fits the search may be granted. -/
theorem fits_iff_grantable {first j : Nat} (hsettled : ∀ n ≤ h / BLOCK, n ≤ first ↔
      ∀ block ∈ group.take n, block ∉ r.sameStepBlocks) (hj : j * CHUNK ≤ h) {key : κ} {entry : Checkpoint κ τ} :
    Fits r.entries request.allTokenIds hashes first (j * CHUNK) key entry ↔
      Grantable r request hashes group (j * CHUNK) key entry := by
  have hblocks := hsettled _ (Nat.div_le_div_right hj)
  constructor
  · rintro ⟨hfirst, hhash, hfiled, hvouches⟩
    obtain ⟨hinside, hpos, htokens⟩ := Checkpoint.vouches_iff.mp hvouches
    exact ⟨hblocks.mp hfirst, hhash, hfiled, hpos, hinside, htokens⟩
  · rintro ⟨hsame, hhash, hfiled, hpos, hinside, htokens⟩
    exact ⟨hblocks.mpr hsame, hhash, hfiled, Checkpoint.vouches_iff.mpr ⟨hinside, hpos, htokens⟩⟩

theorem ceiling_le (g : SchedulerGraft) (request : Request) (h : Nat) : g.ceiling request h ≤ h := by
  unfold SchedulerGraft.ceiling
  split_ifs
  · exact min_le_left _ _
  · exact le_rfl

/-- What the search finds is the longest grant. -/
theorem Searched.longest {first k : Nat} {found : Option (Nat × κ × Checkpoint κ τ)}
    (hfound : Searched r.entries request.allTokenIds hashes first k found)
    (hk : ∀ j, j * CHUNK ≤ g.ceiling request h ↔ j ≤ k)
    (hsettled : ∀ n ≤ h / BLOCK, n ≤ first ↔ ∀ block ∈ group.take n, block ∉ r.sameStepBlocks) :
    IsGreatest (grants g r request hashes group h) (found.elim 0 (·.1)) := by
  have hhit : ∀ {j}, j ≤ k → j * CHUNK ≤ h := fun hj => ((hk _).mpr hj).trans (ceiling_le g request h)
  cases hfound with
  | miss hnone =>
    refine ⟨⟨Nat.dvd_zero _, Nat.zero_le _, .inl rfl⟩, ?_⟩
    rintro q ⟨⟨j, rfl⟩, hle, hzero | ⟨key, entry, hgrantable⟩⟩
    · exact hzero.le
    rw [Nat.mul_comm] at hle hgrantable ⊢
    rcases Nat.eq_zero_or_pos j with rfl | hpos
    · simp
    · have hjk := (hk j).mp hle
      exact absurd ((fits_iff_grantable hsettled (hhit hjk)).mpr hgrantable) (hnone j key entry hpos hjk)
  | @hit i key entry hpos hik hfits hmax =>
    refine ⟨⟨Nat.dvd_mul_left _ _, (hk i).mpr hik, .inr ⟨key, entry, ?_⟩⟩, ?_⟩
    · exact (fits_iff_grantable hsettled (hhit hik)).mp hfits
    rintro q ⟨⟨j, rfl⟩, hle, hzero | ⟨key', entry', hgrantable⟩⟩
    · exact hzero.le.trans (Nat.zero_le _)
    rw [Nat.mul_comm] at hle hgrantable ⊢
    refine Nat.mul_le_mul_right CHUNK (Nat.le_of_not_lt fun hlt => ?_)
    have hjk := (hk j).mp hle
    exact hmax j key' entry' hlt hjk ((fits_iff_grantable hsettled (hhit hjk)).mpr hgrantable)

omit [DecidableEq κ] in
/-- A trim that polls no kill switch leaves the scheduler as it was. -/
theorem killSwitchEngaged_served {s : Scheduler κ τ} {flag : Bool} (h : (g.killSwitchEngaged s flag).2 = false) :
    (g.killSwitchEngaged s flag).1 = s := by
  unfold SchedulerGraft.killSwitchEngaged at h ⊢
  simp only at h ⊢
  split_ifs at h ⊢
  · simp at h
  · rfl

omit [DecidableEq κ] in
/-- A plan reads of the registry only whether the model takes mid-loop captures. -/
theorem plan_congr {r' : Registry κ τ} (h' : r'.midLoopCapture = r.midLoopCapture) (hit q : Nat) :
    g.plan r' request hashes hit q = g.plan r request hashes hit q := by
  have hwithheld : SchedulerGraft.withheld r' request = SchedulerGraft.withheld r request := by
    funext pos
    rw [SchedulerGraft.withheld, SchedulerGraft.withheld, h']
  simp only [SchedulerGraft.plan, hwithheld]

/-- A served trim whose search ends stages what it found. -/
theorem trimmed_eq {s : Scheduler κ τ} {flag : Bool} {first k : Nat} {found : Option (Nat × κ × Checkpoint κ τ)}
    (handle : Nat) (hserved : excluded request = false) (halive : (g.killSwitchEngaged s flag).2 = false)
    (hfirst : SchedulerGraft.firstSame s.registry.sameStepBlocks group (h / BLOCK) = .ok first)
    (hk : k = if g.sticky then min (h / CHUNK) ((request.numPromptTokens - CHUNK) / CHUNK) else h / CHUNK)
    (hfound : (SchedulerGraft.trimLoop s.registry request hashes first k).result = .ok found) :
    g.trimmed s request handle hashes group h flag =
      Call.ret { s with registry := (g.stageGrant
          (SchedulerGraft.noteOrphans (SchedulerGraft.trimLoop s.registry request hashes first k).obj request hashes h)
          request handle hashes h found).1 }
        (group.take (found.elim 0 (·.1) / BLOCK), found.elim 0 (·.1)) := by
  subst hk
  simp only [SchedulerGraft.trimmed, SchedulerGraft.trim, hserved, halive, killSwitchEngaged_served halive,
    Bool.false_eq_true, if_false, hfirst, Call.attempt_ok, hfound]
  rfl

omit [DecidableEq κ] in
/-- A grant is staged iff there is a hit or something to capture. -/
theorem stageGrant_staged {found : Option (Nat × κ × Checkpoint κ τ)} {planned : List (Nat × κ) × List Nat × Nat}
    (handle : Nat) (hplan : g.plan r request hashes h (found.elim 0 (·.1)) = planned) :
    (g.stageGrant r request handle hashes h found).1.staged.get? request.requestId =
      if found.elim 0 (·.1) = 0 ∧ planned.1 = [] ∧ planned.2.1 = [] then none
      else some ⟨request.requestId, found.elim 0 (·.1), h, found.map (·.2.1), found.map (·.2.2), planned.1, some handle,
        none, planned.2.2, planned.2.1⟩ := by
  simp only [SchedulerGraft.stageGrant, hplan]
  by_cases hnone : found.elim 0 (·.1) = 0 ∧ planned.1 = [] ∧ planned.2.1 = []
  · rw [if_pos hnone, if_neg (by simp [hnone])]
    exact Dict.get?_erase_self _ _
  · rw [if_neg hnone, if_pos (by tauto)]
    exact Dict.get?_set_self _ _ _

/-- **A served trim grants the longest exact hit**, if the registry remembers its checks of the request rightly. -/
theorem trimmed_spec {s : Scheduler κ τ} {flag : Bool} (handle : Nat) (hserved : excluded request = false)
    (halive : (g.killSwitchEngaged s flag).2 = false)
    (hr : s.registry.Remembers request.requestId request.allTokenIds) (hhashes : h / BLOCK ≤ hashes.length)
    (hgroup : h / BLOCK ≤ group.length) :
    ∃ q grant, Trimmed g s.registry request handle hashes group h
      (g.trimmed s request handle hashes group h flag) q grant := by
  obtain ⟨first, hfirst, hsettled⟩ := firstSame_ok s.registry.sameStepBlocks hgroup
  obtain ⟨k, hk⟩ : ∃ k, k = if g.sticky then min (h / CHUNK) ((request.numPromptTokens - CHUNK) / CHUNK)
      else h / CHUNK := ⟨_, rfl⟩
  have hceiling : ∀ j, j * CHUNK ≤ g.ceiling request h ↔ j ≤ k := fun j => hk ▸ SchedulerGraft.le_ceiling
  have hbelow : k * CHUNK ≤ h := ((hceiling k).mpr le_rfl).trans (ceiling_le g request h)
  obtain ⟨found, hfound, hsearched⟩ := trimLoop_searched first hr
    ((Nat.div_le_div_right hbelow).trans hhashes)
  obtain ⟨hstaged, hmid⟩ := trimLoop_writes request hashes first k s.registry
  rw [trimmed_eq handle hserved halive hfirst hk hfound]
  generalize (SchedulerGraft.trimLoop s.registry request hashes first k).obj = r at hstaged hmid ⊢
  obtain ⟨hstaged', hmid'⟩ := noteOrphans_writes request r hashes h
  generalize SchedulerGraft.noteOrphans r request hashes h = r' at hstaged' hmid' ⊢
  have hplan : ∀ q, g.plan r' request hashes h q = g.plan s.registry request hashes h q :=
    plan_congr (hmid'.trans hmid) h
  refine ⟨found.elim 0 (·.1), ⟨request.requestId, found.elim 0 (·.1), h, found.map (·.2.1), found.map (·.2.2),
    (g.plan s.registry request hashes h (found.elim 0 (·.1))).1, some handle, none,
    (g.plan s.registry request hashes h (found.elim 0 (·.1))).2.2,
    (g.plan s.registry request hashes h (found.elim 0 (·.1))).2.1⟩, ?_⟩
  constructor
  · rfl
  · exact hsearched.longest hceiling hsettled
  · exact stageGrant_staged handle (hplan _)
  · exact ⟨rfl, rfl, rfl, rfl⟩
  · rfl
  · intro hpos
    cases hsearched with
    | miss => cases hpos
    | @hit i key entry hi hik hfits =>
      exact ⟨key, entry, (fits_iff_grantable hsettled (((hceiling i).mpr hik).trans (ceiling_le g request h))).mp hfits,
        rfl, rfl⟩
  · intro hzero
    cases hsearched with
    | miss => exact ⟨rfl, rfl⟩
    | hit hi => exact absurd hzero (Nat.mul_ne_zero (by omega) (by decide))

end Trim

end BlackholeQwen.Prefix
