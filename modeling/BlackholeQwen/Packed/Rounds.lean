import BlackholeQwen.Gdn.Replay
import BlackholeQwen.Packed.Disjoint
import BlackholeQwen.Packed.Protocol
import Mathlib.Data.Finset.Card
import Mathlib.Data.Finset.Range

/-!
# What a round of a packed verifier keeps

- `Round.Open`: a round under way. The pending segments are those not decided, the idle ones decided so far are at
  prefix 0, the live ones within their caps, and what the queue was given since the verify trace, with what is put off,
  is what the decisions ask for.
- `Kept`: what every reachable engine keeps. Every past round is complete (open with nothing pending and nothing put
  off), and while the engine has not failed its current one is open.
- `round_protocol`: every round between two verify traces is complete, so the queue was given each commit trace once and
  in decision order; a commit that returns enqueues its trace or puts it off and synchronises exactly when it empties
  the pending segments, and one that may not be made is refused.
-/

namespace BlackholeQwen.Packed

open Lib Gdn

/-! ## A round under way -/

namespace Round

/-- A decision within its segment's bounds: idle at prefix 0, live on an extent block within the cap of its start. -/
structure Bounded (b : PackedBlock) (live : List (Nat × Nat)) (d : Decision) : Prop where
  range : d.segment < b.shape.users
  rows : d.rows ≤ b.shape.rowsPerUser
  idle : d.segment ∉ live.map Prod.fst → d.rows = 0
  capped : b.extent = true → ∀ position, (d.segment, position) ∈ live → d.rows = 0 ∨
    ∃ limit, Attention.acceptLimit position b.shape.rowsPerUser = .ok limit ∧ d.rows ≤ limit

/-- A round with these segments pending and these commits put off, on a queue that has been given `sent`. -/
structure Open (b : PackedBlock) (pending : Finset Nat) (deferred sent : List Publication) (r : Round) : Prop where
  live_nodup : (r.live.map Prod.fst).Nodup
  live_range : ∀ p ∈ r.live, p.1 < b.shape.users
  once : (r.decisions.map Decision.segment).Nodup
  undecided : ∀ s, s ∈ pending ↔ s < b.shape.users ∧ s ∉ r.decisions.map Decision.segment
  left : pending.card + r.decisions.length = b.shape.users
  bounded : ∀ d ∈ r.decisions, Bounded b r.live d
  last : ∀ i d, r.decisions[i]? = some d → (d.synchronize = true ↔ i + 1 = b.shape.users)
  first : r.first ≤ sent.length
  traces : r.traces sent ++ deferred = r.publications

/-- A round between two verify traces, between which the queue was given these commit traces. -/
structure Complete (b : PackedBlock) (traces : List Publication) (r : Round) : Prop where
  once : ∀ s < b.shape.users, (r.decisions.map Decision.segment).count s = 1
  bounded : ∀ d ∈ r.decisions, Bounded b r.live d
  last : ∀ i d, r.decisions[i]? = some d → (d.synchronize = true ↔ i + 1 = r.decisions.length)
  traces : traces = r.publications

variable {b : PackedBlock} {pending : Finset Nat} {deferred sent : List Publication} {r : Round}

/-- With nothing pending and nothing put off, a round is complete. -/
theorem Open.complete (h : r.Open b ∅ [] sent) : r.Complete b (r.traces sent) := by
  have hall : ∀ s < b.shape.users, s ∈ r.decisions.map Decision.segment := by
    intro s hs
    by_contra hnot
    have := (h.undecided s).mpr ⟨hs, hnot⟩
    simp at this
  have hleft := h.left
  rw [Finset.card_empty, Nat.zero_add] at hleft
  refine ⟨fun s hs => List.count_eq_one_of_mem h.once (hall s hs), h.bounded, fun i d hd => ?_, ?_⟩
  · rw [hleft]; exact h.last i d hd
  · simpa using h.traces

/-- A round that has just been verified: every segment is pending, live or idle. -/
theorem open_verified {live : List (Nat × Nat)} (hnd : (live.map Prod.fst).Nodup)
    (hrange : ∀ p ∈ live, p.1 < b.shape.users) :
    (⟨live, [], sent.length⟩ : Round).Open b
      ((live.map Prod.fst).toFinset ∪ (b.idleSegments (live.map Prod.fst)).toFinset) [] sent := by
  have hmem : ∀ s, s ∈ (live.map Prod.fst).toFinset ∪ (b.idleSegments (live.map Prod.fst)).toFinset ↔
      s < b.shape.users := by
    intro s
    rw [Finset.mem_union, List.mem_toFinset, List.mem_toFinset, PackedBlock.mem_idleSegments]
    constructor
    · rintro (hs | hs)
      · obtain ⟨p, hp, rfl⟩ := List.mem_map.mp hs
        exact hrange p hp
      · exact hs.1
    · intro hs
      by_cases hlive : s ∈ live.map Prod.fst
      · exact Or.inl hlive
      · exact Or.inr ⟨hs, hlive⟩
  have hset : (live.map Prod.fst).toFinset ∪ (b.idleSegments (live.map Prod.fst)).toFinset =
      Finset.range b.shape.users := by
    ext s
    rw [hmem, Finset.mem_range]
  refine ⟨hnd, hrange, List.nodup_nil, fun s => ?_, ?_, fun d hd => ?_, fun i d hd => ?_, Nat.le_refl _, ?_⟩
  · rw [hmem]; simp
  · rw [hset, Finset.card_range]; rfl
  · cases hd
  · cases hd
  · simp [Round.traces, Round.publications]

/-- The commit traces that one more decision asks for. -/
theorem publications_decide (d : Decision) :
    (r.decide d).publications = r.publications ++ if d.rows = 0 then [] else [⟨d.segment, d.rows⟩] := by
  unfold publications decide
  by_cases hrows : d.rows = 0 <;> simp [hrows]

/-- What is given to the queue under an open round is that round's. -/
theorem Open.traces_append (h : r.Open b pending deferred sent) (ps : List Publication) :
    r.traces (sent ++ ps) = r.traces sent ++ ps :=
  List.drop_append_of_le_length h.first

/-- **One decision of a pending segment**, its trace enqueued or put off: it synchronises when it is the last. -/
theorem Open.decide (h : r.Open b pending deferred sent) {d : Decision} {ps ds : List Publication}
    (hmem : d.segment ∈ pending) (hb : Bounded b r.live d) (hs : d.synchronize = true ↔ pending = {d.segment})
    (htraces : ps ++ ds = deferred ++ if d.rows = 0 then [] else [⟨d.segment, d.rows⟩]) :
    (r.decide d).Open b (pending.erase d.segment) ds (sent ++ ps) := by
  have hnew := ((h.undecided d.segment).mp hmem).2
  have hcard := Finset.card_pos.mpr ⟨d.segment, hmem⟩
  have hleft := h.left
  refine ⟨h.live_nodup, h.live_range, ?_, fun t => ?_, ?_, fun x hx => ?_, fun i x hx => ?_, ?_, ?_⟩
  · show ((r.decisions ++ [d]).map Decision.segment).Nodup
    rw [List.map_append, List.nodup_append]
    refine ⟨h.once, by simp, fun x hx y hy => ?_⟩
    rintro rfl
    rw [List.map_singleton, List.mem_singleton] at hy
    exact hnew (hy ▸ hx)
  · show t ∈ pending.erase d.segment ↔ t < b.shape.users ∧ t ∉ (r.decisions ++ [d]).map Decision.segment
    rw [Finset.mem_erase, h.undecided t, List.map_append, List.mem_append, List.map_singleton, List.mem_singleton]
    constructor
    · rintro ⟨hne, hlt, hnot⟩
      exact ⟨hlt, fun hor => hor.elim hnot hne⟩
    · rintro ⟨hlt, hnot⟩
      exact ⟨fun heq => hnot (Or.inr heq), hlt, fun hin => hnot (Or.inl hin)⟩
  · show (pending.erase d.segment).card + (r.decisions ++ [d]).length = b.shape.users
    rw [Finset.card_erase_of_mem hmem, List.length_append, List.length_singleton]
    omega
  · rcases List.mem_append.mp (show x ∈ r.decisions ++ [d] from hx) with hx | hx
    · exact h.bounded x hx
    · rw [List.mem_singleton] at hx
      subst hx
      exact hb
  · have hx' : (r.decisions ++ [d])[i]? = some x := hx
    rcases Nat.lt_trichotomy i r.decisions.length with hlt | rfl | hgt
    · rw [List.getElem?_append_left hlt] at hx'
      exact h.last i x hx'
    · rw [List.getElem?_concat_length, Option.some.injEq] at hx'
      subst hx'
      rw [hs]
      constructor
      · intro heq
        rw [heq, Finset.card_singleton] at hleft
        omega
      · intro hlast
        obtain ⟨t, ht⟩ := Finset.card_eq_one.mp (show pending.card = 1 by omega)
        rw [ht, Finset.mem_singleton] at hmem
        rw [ht, hmem]
    · rw [List.getElem?_eq_none (by simp; omega)] at hx'
      cases hx'
  · show r.first ≤ (sent ++ ps).length
    rw [List.length_append]
    exact Nat.le_add_right_of_le h.first
  · show r.traces (sent ++ ps) ++ ds = (r.decide d).publications
    rw [publications_decide, ← h.traces, h.traces_append, List.append_assoc, htraces, List.append_assoc]

/-- What was put off is enqueued. -/
theorem Open.flush (h : r.Open b pending deferred sent) : r.Open b pending [] (sent ++ deferred) := by
  refine ⟨h.live_nodup, h.live_range, h.once, h.undecided, h.left, h.bounded, h.last, ?_, ?_⟩
  · rw [List.length_append]
    exact Nat.le_add_right_of_le h.first
  · rw [h.traces_append, List.append_nil]
    exact h.traces

end Round

/-! ## The invariant -/

namespace PackedVerifierEngine

/-- Every past round is complete. -/
def Past (e : PackedVerifierEngine) : Prop := ∀ p ∈ e.past, p.1.Complete e.block p.2

/-- What holds of an engine that is idle or verified. -/
structure Able (e : PackedVerifierEngine) : Prop where
  poisoned : e.world.block.poisoned = false
  closed : e.world.block.closed = false
  serving : ∀ r, e.current = some r → r.Open e.block e.pendingSegments e.world.deferred e.world.line.sent
  idle : ∀ r, e.current = some r → e.idleSegments = e.block.idleSegments (r.live.map Prod.fst)
  starts : ∀ r, e.current = some r → e.block.extent = true → ∀ p ∈ r.live, e.roundStarts.lookup p.1 = some p.2
  fresh : e.current = none → e.pendingSegments = ∅ ∧ e.world.deferred = []
  direct : e.deferring = false → e.world.deferred = []
  emptied : e.phase = .idle → e.pendingSegments = ∅

/-- What every reachable engine keeps. -/
structure Kept (e : PackedVerifierEngine) : Prop where
  past : e.Past
  able : e.phase = .idle ∨ e.phase = .verified → e.Able

variable {e : PackedVerifierEngine}

/-- A failed engine keeps its past. -/
theorem Past.failed (h : e.Past) (hphase : e.phase = .failed) : e.Kept :=
  ⟨h, fun hlive => by rw [hphase] at hlive; rcases hlive with h | h <;> cases h⟩

/-- The current round of an idle engine that puts nothing off is complete. -/
theorem Able.closes (h : e.Able) (hidle : e.phase = .idle) (hdeferred : e.world.deferred = []) :
    ∀ r, e.current = some r → r.Open e.block ∅ [] e.world.line.sent := by
  intro r hr
  have hopen := h.serving r hr
  rwa [h.emptied hidle, hdeferred] at hopen

/-! ## Commits -/

/-- A commit that may be made: of a pending segment, an idle one at prefix 0 and a live one within its bounds. -/
structure Committable (e : PackedVerifierEngine) (segment rows : Nat) : Prop where
  phase : e.phase = .verified
  mem : segment ∈ e.pendingSegments
  fits : rows ≤ e.block.shape.rowsPerUser
  idle : segment ∈ e.idleSegments → rows = 0
  capped : e.block.extent = true → rows = 0 ∨ segment ∈ e.idleSegments ∨ ∃ start limit,
    e.roundStarts.lookup segment = some start ∧
      Attention.acceptLimit start e.block.shape.rowsPerUser = .ok limit ∧ rows ≤ limit

theorem checkExtentCap_ok {segment rows : Nat} {u : Unit} (h : e.checkExtentCap segment rows = .ok u) :
    rows = 0 ∨ segment ∈ e.idleSegments ∨ ∃ start limit, e.roundStarts.lookup segment = some start ∧
      Attention.acceptLimit start e.block.shape.rowsPerUser = .ok limit ∧ rows ≤ limit := by
  unfold checkExtentCap at h
  split at h
  · rename_i hskip
    exact hskip.elim Or.inl fun hidle => Or.inr (Or.inl hidle)
  · split at h
    · cases h
    · rename_i start hstart
      obtain ⟨limit, hlimit, h⟩ := bind_ok h
      rw [raiseIf_ok] at h
      exact Or.inr (Or.inr ⟨start, limit, hstart, hlimit, by omega⟩)

/-- **A commit that passes the checks may be made.** -/
theorem commitCheck_ok {segment rows : Int} {p : Nat × Nat} (h : e.commitCheck segment rows = .ok p) :
    segment = p.1 ∧ rows = p.2 ∧ e.Committable p.1 p.2 := by
  unfold commitCheck at h
  obtain ⟨_, hidle, h⟩ := bind_ok h
  obtain ⟨index, hindex, h⟩ := bind_ok h
  obtain ⟨_, hrows, h⟩ := bind_ok h
  rw [raiseIf_ok] at hidle hrows
  unfold checkSegment segmentIndex at hindex
  obtain ⟨index', hrange, hindex⟩ := bind_ok hindex
  obtain ⟨_, hin, hrange⟩ := bind_ok hrange
  obtain ⟨_, hpending, hindex⟩ := bind_ok hindex
  rw [raiseIf_ok] at hin hpending
  cases hindex
  have hindex : segment.toNat = index := by cases hrange; rfl
  have hzero : index ∈ e.idleSegments → rows.toNat = 0 := by
    intro hmem
    by_contra hne
    refine hidle ⟨List.any_eq_true.mpr ⟨index, hmem, ?_⟩, by omega⟩
    rw [decide_eq_true_eq]
    omega
  have hcap : e.block.extent = true → rows.toNat = 0 ∨ index ∈ e.idleSegments ∨ ∃ start limit,
      e.roundStarts.lookup index = some start ∧
        Attention.acceptLimit start e.block.shape.rowsPerUser = .ok limit ∧ rows.toNat ≤ limit := by
    intro hextent
    simp only [hextent, if_true] at h
    obtain ⟨_, hcheck, -⟩ := bind_ok h
    exact checkExtentCap_ok hcheck
  have hp : p = (index, rows.toNat) := by
    split at h
    · obtain ⟨_, -, h⟩ := bind_ok h
      cases h; rfl
    · cases h; rfl
  subst hp
  refine ⟨by show segment = (index : Int); omega, by show rows = (rows.toNat : Int); omega, ?_, ?_, ?_, hzero, hcap⟩
  · by_contra hphase
    exact hpending (Or.inl hphase)
  · by_contra hnot
    exact hpending (Or.inr hnot)
  · show rows.toNat ≤ _
    omega

/-- A commit that may not be made is refused. -/
theorem commitUser_refused {segment rows : Int} (env : BlockCommitEnv)
    (h : ¬∃ s n : Nat, segment = s ∧ rows = n ∧ e.Committable s n) : (e.commitUser segment rows env).Refused e := by
  unfold commitUser
  cases hc : e.commitCheck segment rows with
  | error err => exact Call.refused_throw e err
  | ok p =>
    obtain ⟨hs, hn, hable⟩ := commitCheck_ok hc
    exact absurd ⟨p.1, p.2, hs, hn, hable⟩ h

/-- What the block's part of a commit that returned leaves: its life, and the commit put off if the engine defers, else
on the queue. -/
theorem commitBlock_ok {segment rows : Nat} {env : BlockCommitEnv} {u : Unit}
    (h : (e.commitBlock segment rows env).result = .ok u) :
    (e.commitBlock segment rows env).obj.block.poisoned = e.world.block.poisoned ∧
      (e.commitBlock segment rows env).obj.block.closed = e.world.block.closed ∧
      (e.commitBlock segment rows env).obj.deferred = e.world.deferred ++
        (if rows ≠ 0 ∧ e.deferring = true then [⟨segment, rows⟩] else []) ∧
      (e.commitBlock segment rows env).obj.line.sent = e.world.line.sent ++
        if rows ≠ 0 ∧ e.deferring = false then [⟨segment, rows⟩] else [] := by
  obtain ⟨hpoisoned, hclosed, hdeferred⟩ := commitUser_ok h
  refine ⟨hpoisoned, hclosed, ?_⟩
  have heffect : e.commitEffect env = .deferred ↔ e.deferring = true := by
    unfold commitEffect
    cases e.deferring with
    | true => simp
    | false =>
      cases env.trace with
      | some t => simp
      | none => cases e.pipelinedCommits <;> simp
  simp only [Int.toNat_natCast, ne_eq, heffect, Bool.not_eq_true] at hdeferred
  exact hdeferred

/-- The bounds of a decision that may be made. -/
theorem Able.bounded (h : e.Able) {segment rows : Nat} (hc : e.Committable segment rows) {r : Round}
    (hr : e.current = some r) (s : Bool) : Round.Bounded e.block r.live ⟨segment, rows, s⟩ := by
  have hopen := h.serving r hr
  have hlt := ((hopen.undecided segment).mp hc.mem).1
  refine ⟨hlt, hc.fits, fun hnot => hc.idle ?_, fun hextent position hmem => ?_⟩
  · rw [h.idle r hr, PackedBlock.mem_idleSegments]
    exact ⟨hlt, hnot⟩
  · rcases hc.capped hextent with hzero | hidle | ⟨start, limit, hstart, hlimit, hle⟩
    · exact Or.inl hzero
    · rw [h.idle r hr, PackedBlock.mem_idleSegments] at hidle
      exact absurd (List.mem_map.mpr ⟨_, hmem, rfl⟩) hidle.2
    · have hposition := h.starts r hr hextent _ hmem
      rw [hstart, Option.some.injEq] at hposition
      subst hposition
      exact Or.inr ⟨limit, hlimit, hle⟩

/-- A pending segment is one of a round. -/
theorem Able.round (h : e.Able) {segment : Nat} (hmem : segment ∈ e.pendingSegments) : ∃ r, e.current = some r := by
  cases hr : e.current with
  | some r => exact ⟨r, rfl⟩
  | none =>
    rw [(h.fresh hr).1] at hmem
    simp at hmem

/-- The round of a decision made. -/
theorem decided_current {r : Round} (hr : e.current = some r) (segment rows : Nat) (w : World) :
    (e.decided segment rows w).current = some (r.decide ⟨segment, rows, e.isLast segment⟩) := by
  unfold PackedVerifierEngine.decided
  rw [hr]
  rfl

/-- The engine of a decision made is able again. -/
theorem Able.decided (h : e.Able) {segment rows : Nat} {env : BlockCommitEnv} (hc : e.Committable segment rows)
    {u : Unit} (hblock : (e.commitBlock segment rows env).result = .ok u) :
    (e.decided segment rows (e.commitBlock segment rows env).obj).Able := by
  obtain ⟨hpoisoned, hclosed, hdeferred, hsent⟩ := commitBlock_ok hblock
  obtain ⟨r, hr⟩ := h.round hc.mem
  have hcurrent := decided_current hr segment rows (e.commitBlock segment rows env).obj
  refine ⟨hpoisoned.trans h.poisoned, hclosed.trans h.closed, ?_, ?_, ?_, ?_, ?_, ?_⟩
  · intro r' hr'
    rw [hcurrent, Option.some.injEq] at hr'
    subst hr'
    show Round.Open e.block (e.pendingSegments.erase segment) (e.commitBlock segment rows env).obj.deferred
      (e.commitBlock segment rows env).obj.line.sent _
    rw [hsent]
    refine (h.serving r hr).decide hc.mem (h.bounded hc hr _) ?_ ?_
    · exact decide_eq_true_iff
    · rw [hdeferred]
      cases hdefer : e.deferring with
      | true => by_cases hrows : rows = 0 <;> simp [hrows]
      | false =>
        rw [h.direct hdefer]
        by_cases hrows : rows = 0 <;> simp [hrows]
  · intro r' hr'
    rw [hcurrent, Option.some.injEq] at hr'
    subst hr'
    exact h.idle r hr
  · intro r' hr'
    rw [hcurrent, Option.some.injEq] at hr'
    subst hr'
    exact h.starts r hr
  · intro hnone
    rw [hcurrent] at hnone
    cases hnone
  · intro hdefer
    have hdefer' : e.deferring = false := hdefer
    show (e.commitBlock segment rows env).obj.deferred = []
    rw [hdeferred, h.direct hdefer', hdefer']
    simp
  · intro hidle
    have hphase : (if e.pendingSegments.erase segment = ∅ then BlockPhase.idle else e.phase) = .idle := hidle
    split at hphase
    · assumption
    · rw [hc.phase] at hphase; cases hphase

/-- The invariant through `commit_user`. -/
theorem Kept.commitUser (h : e.Kept) (segment rows : Int) (env : BlockCommitEnv) :
    (e.commitUser segment rows env).obj.Kept := by
  unfold PackedVerifierEngine.commitUser
  refine Call.attempt_obj h fun p hp => ?_
  obtain ⟨-, -, hc⟩ := commitCheck_ok hp
  cases hblock : (e.commitBlock p.1 p.2 env).result with
  | error err => exact Past.failed (e := { e with phase := .failed, world := _ }) h.past rfl
  | ok u => exact ⟨h.past, fun _ => (h.able (Or.inr hc.phase)).decided hc hblock⟩

/-! ## Flushes -/

/-- A flush of a living block leaves its life alone, puts nothing off any more and gives the queue what was put off. -/
theorem flushed {w : World} (hpoisoned : w.block.poisoned = false) (hclosed : w.block.closed = false) :
    (w.flushCommits false).obj.block.poisoned = false ∧ (w.flushCommits false).obj.block.closed = false ∧
      (w.flushCommits false).obj.deferred = [] ∧
      (w.flushCommits false).obj.line.sent = w.line.sent ++ w.deferred := by
  unfold World.flushCommits
  split
  · rename_i hnone
    exact ⟨hpoisoned, hclosed, hnone, by rw [hnone, List.append_nil]; rfl⟩
  split
  · rename_i hdead
    simp [hpoisoned, hclosed] at hdead
  · unfold World.noteDeferredPublications
    split <;> exact ⟨hpoisoned, hclosed, rfl, rfl⟩

/-- The invariant through `flush_commits`, after which nothing is put off unless the engine has failed. -/
theorem Kept.flushCommits (h : e.Kept) (raised : Option (Nat × PyError)) :
    (e.flushCommits raised).obj.Kept ∧
      ((e.flushCommits raised).obj.phase = .idle ∨ (e.flushCommits raised).obj.phase = .verified →
        (e.flushCommits raised).obj.world.deferred = []) := by
  unfold PackedVerifierEngine.flushCommits
  split
  · rename_i hnone
    refine ⟨⟨h.past, fun hlive => ?_⟩, fun _ => hnone⟩
    have ha := h.able hlive
    exact ⟨ha.poisoned, ha.closed, ha.serving, ha.idle, ha.starts, ha.fresh, fun _ => hnone, ha.emptied⟩
  split
  · rename_i hdead
    refine ⟨⟨h.past, fun hlive => ?_⟩, fun _ => rfl⟩
    have hlive' : e.phase = .idle ∨ e.phase = .verified := hlive
    have ha := h.able hlive'
    rcases hdead with hphase | hphase | hpoisoned | hclosed
    · rw [hphase] at hlive'; rcases hlive' with h' | h' <;> cases h'
    · rw [hphase] at hlive'; rcases hlive' with h' | h' <;> cases h'
    · rw [ha.poisoned] at hpoisoned; cases hpoisoned
    · rw [ha.closed] at hclosed; cases hclosed
  · rename_i halive
    cases raised with
    | some raised =>
      refine ⟨Past.failed (e := { e with
        deferArmed := _, deferring := _, phase := .failed, world := _ }) h.past rfl, fun hlive => ?_⟩
      rcases hlive with h' | h' <;> cases h'
    | none =>
      have hpoisoned : e.world.block.poisoned = false := by
        cases hp : e.world.block.poisoned with
        | false => rfl
        | true => exact absurd (Or.inr (Or.inr (Or.inl hp))) halive
      have hclosed : e.world.block.closed = false := by
        cases hc : e.world.block.closed with
        | false => rfl
        | true => exact absurd (Or.inr (Or.inr (Or.inr hc))) halive
      obtain ⟨hp, hc, hd, hsent⟩ := flushed hpoisoned hclosed
      refine ⟨⟨h.past, fun hlive => ?_⟩, fun _ => hd⟩
      have ha := h.able hlive
      refine ⟨hp, hc, ?_, ha.idle, ha.starts, fun hnone => ⟨(ha.fresh hnone).1, hd⟩, fun _ => hd, ha.emptied⟩
      intro r hr
      show Round.Open e.block e.pendingSegments (e.world.flushCommits false).obj.deferred
        (e.world.flushCommits false).obj.line.sent r
      rw [hd, hsent]
      exact (ha.serving r hr).flush

/-- The invariant through the backstop of `verify`. -/
theorem Kept.flushFirst (h : e.Kept) (raised : Option (Nat × PyError)) :
    (e.flushFirst raised).obj.Kept ∧
      ((e.flushFirst raised).obj.phase = .idle → (e.flushFirst raised).obj.world.deferred = []) := by
  unfold PackedVerifierEngine.flushFirst
  split
  · rename_i hnone
    exact ⟨h, fun _ => hnone⟩
  · obtain ⟨hk, hd⟩ := h.flushCommits raised
    exact ⟨hk, fun hidle => hd (Or.inl hidle)⟩

/-! ## Verify -/

/-- The positions of distinct segments are found by segment. -/
theorem lookup_of_mem {live rest : List (Nat × Nat)} (hnd : (live.map Prod.fst).Nodup) {p : Nat × Nat}
    (hp : p ∈ live) : (live ++ rest).lookup p.1 = some p.2 := by
  induction live with
  | nil => cases hp
  | cons q live ih =>
    rw [List.map_cons, List.nodup_cons] at hnd
    rw [List.cons_append, List.lookup_cons]
    rcases List.mem_cons.mp hp with rfl | hp
    · simp
    · have hne : p.1 ≠ q.1 := fun heq => hnd.1 (heq ▸ List.mem_map.mpr ⟨p, hp, rfl⟩)
      rw [beq_eq_false_iff_ne.mpr hne]
      exact ih hnd.2 hp

/-- `round_starts` holds the position of every live segment. -/
theorem startsOf_ok {live starts : List (Nat × Nat)} (h : e.startsOf live = .ok starts)
    (hnd : (live.map Prod.fst).Nodup) (hextent : e.block.extent = true) :
    ∀ p ∈ live, starts.lookup p.1 = some p.2 := by
  intro p hp
  unfold startsOf at h
  rw [if_neg (by simp [hextent])] at h
  split at h
  · cases h
    have hlookup : (live ++ []).lookup p.1 = some p.2 := lookup_of_mem hnd hp
    rwa [List.append_nil] at hlookup
  · cases hfills : e.block.idleInputs (live.map Prod.fst) with
    | error err => rw [hfills] at h; cases h
    | ok fills =>
      rw [hfills] at h
      cases h
      exact lookup_of_mem hnd hp

/-- What the checks of `verify` establish of the live segments and of `round_starts`. -/
theorem verifyCheck_ok {owners : List (Engine × Nat)} {env : VerifyEnv}
    {p : List (Nat × Nat) × List (Nat × Nat)} (h : e.verifyCheck owners env = .ok p) :
    e.phase = .idle ∧ (p.1.map Prod.fst).Nodup ∧ (∀ q ∈ p.1, q.1 < e.block.shape.users) ∧
      (e.block.extent = true → ∀ q ∈ p.1, p.2.lookup q.1 = some q.2) := by
  unfold verifyCheck at h
  obtain ⟨_, hphase, h⟩ := bind_ok h
  obtain ⟨segments, hsegments, h⟩ := bind_ok h
  obtain ⟨_, -, h⟩ := bind_ok h
  obtain ⟨_, -, h⟩ := bind_ok h
  obtain ⟨starts, hstarts, h⟩ := bind_ok h
  cases h
  rw [raiseIf_ok] at hphase
  obtain ⟨-, hnd, hlt, hlen, -⟩ := roundSegments_ok hsegments
  have hmap : (segments.zip (owners.map Prod.snd)).map Prod.fst = segments :=
    List.map_fst_zip (by rw [List.length_map]; omega)
  refine ⟨by_contra hphase, by rw [hmap]; exact hnd, fun q hq => ?_, ?_⟩
  · exact hlt _ (List.of_mem_zip hq).1
  · exact startsOf_ok hstarts (by rw [hmap]; exact hnd)

/-- A verify trace follows complete rounds only. -/
theorem Past.opened (h : e.Past) (hcloses : ∀ r, e.current = some r → r.Open e.block ∅ [] e.world.line.sent)
    (live : List (Nat × Nat)) : (e.opened live).Past := by
  intro p hp
  rcases List.mem_append.mp (show p ∈ e.past ++ e.current.toList.map _ from hp) with hp | hp
  · exact h p hp
  · obtain ⟨r, hr, rfl⟩ := List.mem_map.mp hp
    exact (hcloses r (Option.mem_toList.mp hr)).complete

/-- The verify trace keeps the past, and when it returns has opened a round in front of it. -/
theorem runTrace_kept (h : e.Past) (hcloses : ∀ r, e.current = some r → r.Open e.block ∅ [] e.world.line.sent)
    (live : List (Nat × Nat)) (env : VerifyEnv) :
    (e.runTrace live env).obj.Past ∧ ∀ u, (e.runTrace live env).result = .ok u → ∃ w validated,
      Alike e.world w ∧
      (e.runTrace live env).obj = { { e with world := w }.opened live with validatedThisRound := validated } := by
  unfold runTrace
  split
  · have hopened := h.opened hcloses live
    refine ⟨Call.attempt_obj hopened fun _ _ => Call.attempt_obj hopened fun _ _ => hopened, fun u hu => ?_⟩
    obtain ⟨_, -, hc⟩ := Call.of_attempt hu
    rw [hc] at hu ⊢
    obtain ⟨_, -, hc⟩ := Call.of_attempt hu
    rw [hc]
    exact ⟨e.world, e.validatedThisRound, Alike.refl _, rfl⟩
  · have halike := replay_alike (w := e.world) env.replay
    have heither : Past (if (e.world.replay env.replay).obj.ran.length = e.world.ran.length then
        { e with world := (e.world.replay env.replay).obj }
        else { e with world := (e.world.replay env.replay).obj }.opened live) := by
      split
      · exact h
      · refine Past.opened (e := { e with world := (e.world.replay env.replay).obj }) h (fun r hr => ?_) live
        show Round.Open e.block ∅ [] (e.world.replay env.replay).obj.line.sent r
        rw [halike.sent]
        exact hcloses r hr
    refine ⟨Call.bind_obj heither fun _ _ => heither, fun u hu => ?_⟩
    obtain ⟨a, ha, hc⟩ := Call.of_bind hu
    obtain ⟨s, hran⟩ := replay_ran ha
    rw [hc]
    refine ⟨(e.world.replay env.replay).obj, e.roundFences, halike, ?_⟩
    have hne : ¬(e.world.replay env.replay).obj.ran.length = e.world.ran.length := by
      rw [hran, List.length_append, List.length_singleton]; omega
    simp only [Call.onto_obj, Call.ret_obj, if_neg hne]
    rfl

/-- A verified engine is able, and every segment is pending. -/
theorem arrived_able {live : List (Nat × Nat)} {w : World} {validated : Bool}
    (hpoisoned : w.block.poisoned = false) (hclosed : w.block.closed = false) (hdeferred : w.deferred = [])
    (hnd : (live.map Prod.fst).Nodup) (hrange : ∀ q ∈ live, q.1 < e.block.shape.users)
    (hstarts : e.block.extent = true → ∀ q ∈ live, e.roundStarts.lookup q.1 = some q.2) :
    (arrived { { e with world := w }.opened live with validatedThisRound := validated } live).Able := by
  have hnone : (arrived { { e with world := w }.opened live with validatedThisRound := validated }
      live).world.deferred = [] := by
    show World.deferred (if e.gdnAfterPairs = true then { w with deferred := [] } else w) = []
    split
    · rfl
    · exact hdeferred
  have hblock : (arrived { { e with world := w }.opened live with validatedThisRound := validated } live).world.block =
      w.block := by
    show World.block (if e.gdnAfterPairs = true then { w with deferred := [] } else w) = w.block
    split <;> rfl
  have hline : (arrived { { e with world := w }.opened live with validatedThisRound := validated } live).world.line =
      w.line := by
    show World.line (if e.gdnAfterPairs = true then { w with deferred := [] } else w) = w.line
    split <;> rfl
  refine ⟨by rw [hblock]; exact hpoisoned, by rw [hblock]; exact hclosed, ?_, ?_, ?_, ?_, fun _ => hnone, ?_⟩
  · intro r hr
    cases hr
    rw [hnone, hline]
    exact Round.open_verified hnd hrange
  · intro r hr
    cases hr
    rfl
  · intro r hr
    cases hr
    exact hstarts
  · intro hr; cases hr
  · intro hr; cases hr

/-- The invariant through the commits of the idle segments. -/
theorem Kept.commitIdle (h : e.Kept) (env : Nat → BlockCommitEnv) (segments : List Nat) :
    (e.commitIdle env segments).obj.Kept := by
  induction segments generalizing e with
  | nil => exact h
  | cons segment segments ih =>
    have hnext := h.commitUser segment 0 (env segment)
    exact Call.bind_obj hnext fun _ _ => ih hnext

/-- The `try` of `verify` keeps the past, and when it returns the invariant. -/
theorem verifyBody_kept (h : e.Past) (hcloses : ∀ r, e.current = some r → r.Open e.block ∅ [] e.world.line.sent)
    (hpoisoned : e.world.block.poisoned = false) (hclosed : e.world.block.closed = false)
    (hdeferred : e.world.deferred = []) {live : List (Nat × Nat)} (hnd : (live.map Prod.fst).Nodup)
    (hrange : ∀ q ∈ live, q.1 < e.block.shape.users)
    (hstarts : e.block.extent = true → ∀ q ∈ live, e.roundStarts.lookup q.1 = some q.2) (env : VerifyEnv) :
    (e.verifyBody live env).obj.Past ∧ ∀ u, (e.verifyBody live env).result = .ok u →
      (e.verifyBody live env).obj.Kept := by
  obtain ⟨hpast, hran⟩ := runTrace_kept h hcloses live env
  -- once the trace has returned, the round is open and every commit of an idle segment keeps the invariant
  have hidle : ∀ u, (e.runTrace live env).result = .ok u →
      (((e.runTrace live env).obj.arrived live).commitIdle env.idle
        ((e.runTrace live env).obj.block.idleSegments (live.map Prod.fst))).obj.Kept := by
    intro u hu
    obtain ⟨w, validated, halike, hobj⟩ := hran u hu
    refine Kept.commitIdle (e := (e.runTrace live env).obj.arrived live) ⟨hpast, fun _ => ?_⟩ _ _
    rw [hobj]
    exact arrived_able (halike.poisoned.trans hpoisoned) (halike.closed.trans hclosed)
      (halike.deferred.trans hdeferred) hnd hrange hstarts
  unfold verifyBody
  constructor
  · refine Call.attempt_obj h fun _ _ => ?_
    refine Call.bind_obj hpast fun u hu => ?_
    exact Call.attempt_obj hpast fun _ _ => (hidle u hu).past
  · intro v hv
    obtain ⟨_, -, hc⟩ := Call.of_attempt hv
    rw [hc] at hv ⊢
    obtain ⟨u, hu, hc⟩ := Call.of_bind hv
    rw [hc] at hv ⊢
    obtain ⟨_, -, hc⟩ := Call.of_attempt hv
    rw [hc]
    exact hidle u hu

/-- The invariant through `verify`. -/
theorem Kept.verify (h : e.Kept) (owners : List (Engine × Nat)) (env : VerifyEnv) :
    (e.verify owners env).obj.Kept := by
  obtain ⟨hkept, hnone⟩ := h.flushFirst env.flush
  unfold PackedVerifierEngine.verify
  refine Call.bind_obj hkept fun _ _ => ?_
  generalize (e.flushFirst env.flush).obj = e₁ at hkept hnone
  refine Call.attempt_obj hkept fun p hp => ?_
  obtain ⟨hidle, hnd, hrange, hstarts⟩ := verifyCheck_ok hp
  have ha := hkept.able (Or.inl hidle)
  obtain ⟨hpast, hok⟩ := verifyBody_kept (e := e₁.verifying p.2) hkept.past (ha.closes hidle (hnone hidle)) ha.poisoned
    ha.closed (hnone hidle) hnd hrange hstarts env
  cases hbody : ((e₁.verifying p.2).verifyBody p.1 env).result with
  | ok u => exact hok u hbody
  | error err =>
    exact Past.failed (e := { ((e₁.verifying p.2).verifyBody p.1 env).obj with phase := .failed }) hpast rfl

end PackedVerifierEngine

/-! ## Every run -/

/-- What happens to a packed verifier. -/
inductive BlockEvent
  | verify (owners : List (Engine × Nat)) (env : VerifyEnv)
  | commitUser (segment rows : Int) (env : BlockCommitEnv)
  | armDeferredCommits
  | flushCommits (raised : Option (Nat × PyError))
  | fenceToken
  | fence
  | noteRoundFence (token : Nat)

/-- One event. -/
inductive BlockStep : PackedVerifierEngine → BlockEvent → PackedVerifierEngine → Prop
  | verify {e : PackedVerifierEngine} {owners : List (Engine × Nat)} {env : VerifyEnv} :
      BlockStep e (.verify owners env) (e.verify owners env).obj
  | commitUser {e : PackedVerifierEngine} {segment rows : Int} {env : BlockCommitEnv} :
      BlockStep e (.commitUser segment rows env) (e.commitUser segment rows env).obj
  | armDeferredCommits {e : PackedVerifierEngine} : BlockStep e .armDeferredCommits e.armDeferredCommits.1
  | flushCommits {e : PackedVerifierEngine} {raised : Option (Nat × PyError)} :
      BlockStep e (.flushCommits raised) (e.flushCommits raised).obj
  | fenceToken {e : PackedVerifierEngine} : BlockStep e .fenceToken
      { e with world := { e.world with line := e.world.line.readToken e.world.block.commitSerial } }
  | fence {e : PackedVerifierEngine} :
      BlockStep e .fence { e with world := { e.world with line := e.world.line.fence } }
  | noteRoundFence {e : PackedVerifierEngine} {token : Nat} :
      BlockStep e (.noteRoundFence token) { e with world := (e.world.noteRoundFence token).1 }

namespace PackedVerifierEngine

variable {e : PackedVerifierEngine}

/-- What moves only the block's line and arms its replay keeps the invariant. -/
theorem Kept.alike (h : e.Kept) {w : World} (hw : Alike e.world w) : Kept { e with world := w } := by
  refine ⟨h.past, fun hlive => ?_⟩
  have ha := h.able hlive
  refine ⟨hw.poisoned.trans ha.poisoned, hw.closed.trans ha.closed, ?_, ha.idle, ha.starts, ?_, ?_, ha.emptied⟩
  · intro r hr
    show Round.Open e.block e.pendingSegments w.deferred w.line.sent r
    rw [hw.deferred, hw.sent]
    exact ha.serving r hr
  · intro hnone
    exact ⟨(ha.fresh hnone).1, hw.deferred.trans (ha.fresh hnone).2⟩
  · intro hdefer
    exact hw.deferred.trans (ha.direct hdefer)

/-- A block that has served no round. -/
theorem kept_start (b : PackedBlock) (afterPairs pipelinedCommits roundFences fastCommit : Bool) :
    (start b afterPairs pipelinedCommits roundFences fastCommit).Kept := by
  refine ⟨fun r hr => (by cases hr), fun _ => ⟨rfl, rfl, ?_, ?_, ?_, fun _ => ⟨rfl, rfl⟩, fun _ => rfl, fun _ => rfl⟩⟩
  · intro r hr; cases hr
  · intro r hr; cases hr
  · intro r hr; cases hr

/-- One event keeps the invariant. -/
theorem Kept.step (h : e.Kept) {event : BlockEvent} {e' : PackedVerifierEngine} (hs : BlockStep e event e') :
    e'.Kept := by
  cases hs with
  | verify => exact h.verify _ _
  | commitUser => exact h.commitUser _ _ _
  | armDeferredCommits =>
    unfold PackedVerifierEngine.armDeferredCommits
    split
    · exact ⟨h.past, fun hlive =>
        have ha := h.able hlive
        ⟨ha.poisoned, ha.closed, ha.serving, ha.idle, ha.starts, ha.fresh, ha.direct, ha.emptied⟩⟩
    · exact h
  | flushCommits => exact (h.flushCommits _).1
  | fenceToken => exact h.alike ⟨rfl, rfl, rfl, rfl⟩
  | fence => exact h.alike ⟨rfl, rfl, rfl, rfl⟩
  | noteRoundFence => exact h.alike (noteRoundFence_alike _)

/-- A commit that returned made the decision that the observer sees, enqueued its trace or put it off, and synchronised
when it emptied the pending segments. -/
theorem commitUser_decision (h : e.Kept) {segment rows : Int} {env : BlockCommitEnv} {u : Unit}
    (hu : (e.commitUser segment rows env).result = .ok u) :
    ∃ (r : Round) (s n : Nat) (synchronize : Bool), segment = s ∧ rows = n ∧ e.current = some r ∧
      (e.commitUser segment rows env).obj.current = some (r.decide ⟨s, n, synchronize⟩) ∧
      (e.commitUser segment rows env).obj.world.line.sent = e.world.line.sent ++
        (if n ≠ 0 ∧ e.deferring = false then [⟨s, n⟩] else []) ∧
      (e.commitUser segment rows env).obj.world.deferred = e.world.deferred ++
        (if n ≠ 0 ∧ e.deferring = true then [⟨s, n⟩] else []) ∧
      (synchronize = true ↔ (e.commitUser segment rows env).obj.pendingSegments = ∅) := by
  unfold PackedVerifierEngine.commitUser at hu ⊢
  obtain ⟨p, hp, hc⟩ := Call.of_attempt hu
  rw [hc] at hu ⊢
  obtain ⟨hs, hn, hable⟩ := commitCheck_ok hp
  obtain ⟨r, hr⟩ := (h.able (Or.inr hable.phase)).round hable.mem
  cases hblock : (e.commitBlock p.1 p.2 env).result with
  | error err => simp only [hblock] at hu; cases hu
  | ok u =>
    obtain ⟨-, -, hdeferred, hsent⟩ := commitBlock_ok hblock
    refine ⟨r, p.1, p.2, e.isLast p.1, hs, hn, hr, decided_current hr p.1 p.2 _, hsent, hdeferred, ?_⟩
    show e.isLast p.1 = true ↔ e.pendingSegments.erase p.1 = ∅
    unfold isLast
    rw [decide_eq_true_eq, Finset.erase_eq_empty_iff]
    constructor
    · exact Or.inr
    · rintro (hempty | hone)
      · have hmem := hable.mem
        rw [hempty] at hmem
        simp at hmem
      · exact hone

/-- **The round protocol of a packed block**: in every run, each round between two verify traces is complete with what
the queue was given between them, and the current one of an engine that has not failed is under way with exactly the
pending segments undecided; a commit that returned enqueues its trace or puts it off, and synchronises exactly when it
empties the pending segments; one that may not be made is refused. -/
theorem round_protocol {b : PackedBlock} {afterPairs pipelinedCommits roundFences fastCommit : Bool}
    {events : List BlockEvent} {e : PackedVerifierEngine}
    (h : Run BlockStep (start b afterPairs pipelinedCommits roundFences fastCommit) events e) :
    (∀ p ∈ e.past, p.1.Complete e.block p.2) ∧
      (e.phase = .idle ∨ e.phase = .verified →
        ∀ r, e.current = some r → r.Open e.block e.pendingSegments e.world.deferred e.world.line.sent) ∧
      ∀ (segment rows : Int) (env : BlockCommitEnv),
        ((e.commitUser segment rows env).result = .ok () →
          ∃ (r : Round) (s n : Nat) (synchronize : Bool), segment = s ∧ rows = n ∧ e.current = some r ∧
            (e.commitUser segment rows env).obj.current = some (r.decide ⟨s, n, synchronize⟩) ∧
            (e.commitUser segment rows env).obj.world.line.sent = e.world.line.sent ++
              (if n ≠ 0 ∧ e.deferring = false then [⟨s, n⟩] else []) ∧
            (e.commitUser segment rows env).obj.world.deferred = e.world.deferred ++
              (if n ≠ 0 ∧ e.deferring = true then [⟨s, n⟩] else []) ∧
            (synchronize = true ↔ (e.commitUser segment rows env).obj.pendingSegments = ∅)) ∧
        ((¬∃ s n : Nat, segment = s ∧ rows = n ∧ e.Committable s n) → (e.commitUser segment rows env).Refused e) := by
  have hkept : e.Kept := Run.invariant_state (kept_start b _ _ _ _) (fun hk hs => Kept.step hk hs) h
  exact ⟨hkept.past, fun hlive => (hkept.able hlive).serving,
    fun segment rows env => ⟨fun hu => commitUser_decision hkept hu, fun hno => commitUser_refused env hno⟩⟩

/-! ## A run -/

/-- A device that answers every call of a commit. -/
def sampleCommitEnv : BlockCommitEnv := ⟨true, true, none, none⟩

/-- A device that answers every call of a round. -/
def sampleVerifyEnv : VerifyEnv :=
  ⟨none, fun _ => .ok (), none, .ok (), .ok (), .ok (), ⟨true, none, .enqueued, true, true, none, true⟩, .ok (),
    fun _ => sampleCommitEnv⟩

/-- The owner of the next round. -/
def sampleNext : List (Engine × Nat) := [(⟨some 101, sampleTable 5 [6, 7]⟩, 133)]

/-- A padded round of one live user, whose commit is put off to the next `verify`. -/
def sampleEngine : PackedVerifierEngine :=
  let e := (start sampleBlock true true true false).armDeferredCommits.1
  let e := (e.verify sampleOwners sampleVerifyEnv).obj
  let e := (e.commitUser 1 3 sampleCommitEnv).obj
  (e.verify sampleNext sampleVerifyEnv).obj

theorem sampleEngine_run : Run BlockStep (start sampleBlock true true true false)
    [.armDeferredCommits, .verify sampleOwners sampleVerifyEnv, .commitUser 1 3 sampleCommitEnv,
      .verify sampleNext sampleVerifyEnv] sampleEngine :=
  (((Run.single .armDeferredCommits).snoc .verify).snoc .commitUser).snoc .verify

/-- The sample's first round is complete, its idle segment decided first and its trace enqueued by the next `verify`. -/
theorem round_protocol_sample :
    (sampleEngine.past = [(⟨[(1, 130)], [⟨0, 0, false⟩, ⟨1, 3, true⟩], 0⟩, [⟨1, 3⟩])] ∧
      ∀ p ∈ sampleEngine.past, p.1.Complete sampleEngine.block p.2) ∧
      (sampleEngine.phase = .idle ∨ sampleEngine.phase = .verified → ∀ r, sampleEngine.current = some r →
        r.Open sampleEngine.block sampleEngine.pendingSegments sampleEngine.world.deferred
          sampleEngine.world.line.sent) ∧
      (sampleEngine.commitUser 0 0 sampleCommitEnv).Refused sampleEngine := by
  obtain ⟨hpast, hcurrent, hcommit⟩ := round_protocol sampleEngine_run
  refine ⟨⟨by decide, hpast⟩, hcurrent, (hcommit 0 0 sampleCommitEnv).2 ?_⟩
  rintro ⟨s, n, hs, -, hc⟩
  have hmem := hc.mem
  have hzero : s = 0 := by omega
  subst hzero
  exact absurd hmem (by decide)

end PackedVerifierEngine

end BlackholeQwen.Packed
