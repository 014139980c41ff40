import BlackholeQwen.Serving.PackedRounds
import Mathlib.Data.List.Forall2

/-!
# Narrowing a round (`serving_packed_step.py`)

A round that its block will not serve has its tickets cut to widths that the requests' own engines serve. Every width is
planned before any session changes (`narrowPlan`), then the sessions narrow their tickets one after another
(`narrowEntries`). A cut neither emits a token nor moves a session (`Unmoved`); where every cut succeeds, each entry
carries the widest ticket that its engine serves, live in its session (`narrow_round_planned`).
-/

namespace BlackholeQwen.Serving

open Lib Speculative GreedySession

/-- `VerifierEngine.serves`: the engine's captures are by width, or by what its replay plan selects from the position,
the width and the remaining budget; `none` where the plan raises `ValueError`. -/
def verifierServes (select : Option (Nat → Nat → Int → Option Nat)) (buckets : List Nat) (s : GreedySession)
    (rows position : Nat) : Bool :=
  match select with
  | none => rows ∈ buckets
  | some select =>
    match select position rows ((s.maxNewTokens : Int) - s.emitted.length) with
    | none => false
    | some key => key ∈ buckets

/-- A narrowing that returned: the live ticket gave way to a new one, cut from it. -/
theorem narrow_ok {s : GreedySession} {requestId : String} {ticket t : BlockTicket} {rows ident : Nat}
    (h : (s.narrow requestId ticket rows ident).result = .ok t) :
    (s.narrow requestId ticket rows ident).obj = s.issued t ∧ s.pending = some ticket ∧ t.ident = ident ∧
      t.position = ticket.position ∧ t.seed = ticket.seed ∧ t.proposals = ticket.proposals.take (rows - 1) ∧
      t.rows = rows := by
  have hident : t.ident = ident := by
    obtain ⟨⟨⟩, -, hc⟩ := Call.of_attempt h
    rw [narrow, hc] at h
    cases h
    rfl
  rcases s.narrow_cases requestId ticket rows ident with
    ⟨e, hc⟩ | ⟨t', hc, -, hpending, -, hposition, hseed, hproposals, hrows, -, -⟩ <;> rw [hc] at h ⊢
  · cases h
  · cases h
    exact ⟨rfl, hpending, hident, hposition, hseed, hproposals, hrows⟩

namespace PackedWorld

/-! ## What a cut leaves alone -/

/-- The session of a request. -/
def session (w : PackedWorld) (i : Nat) : GreedySession := (w.owners i).request.session

/-- The engines serve what they served, and the sessions have emitted nothing and are where they were. -/
structure Unmoved (w w' : PackedWorld) : Prop where
  serves : ∀ i, (w'.owners i).serves = (w.owners i).serves
  budget : ∀ i, (w'.session i).maxNewTokens = (w.session i).maxNewTokens
  emitted : ∀ i, (w'.session i).emitted = (w.session i).emitted
  position : ∀ i, (w'.session i).position = (w.session i).position

theorem Unmoved.refl (w : PackedWorld) : Unmoved w w := ⟨fun _ => rfl, fun _ => rfl, fun _ => rfl, fun _ => rfl⟩

theorem Unmoved.trans {w w' w'' : PackedWorld} (h : Unmoved w w') (h' : Unmoved w' w'') : Unmoved w w'' :=
  ⟨fun i => (h'.serves i).trans (h.serves i), fun i => (h'.budget i).trans (h.budget i),
    fun i => (h'.emitted i).trans (h.emitted i), fun i => (h'.position i).trans (h.position i)⟩

theorem setSession_self (w : PackedWorld) (e : PackedEntry) (s : GreedySession) :
    (w.setSession e s).session e.request = s := by
  simp [session, setSession, setRequest]

theorem setSession_of_ne (w : PackedWorld) (e : PackedEntry) (s : GreedySession) {i : Nat} (h : i ≠ e.request) :
    (w.setSession e s).owners i = w.owners i := by
  simp [setSession, setRequest, h]

/-- The ticket of an entry is cut. -/
theorem unmoved_narrow (w : PackedWorld) (e : PackedEntry) (t : BlockTicket) :
    Unmoved w (w.tick.setSession e ((w.session e.request).issued t)) := by
  have hother : ∀ i, i ≠ e.request → (w.tick.setSession e ((w.session e.request).issued t)).owners i = w.owners i :=
    fun i hi => w.tick.setSession_of_ne e _ hi
  have hself := w.tick.setSession_self e ((w.session e.request).issued t)
  refine ⟨fun i => ?_, fun i => ?_, fun i => ?_, fun i => ?_⟩ <;> by_cases hi : i = e.request
  · subst hi; simp [setSession, setRequest, tick]
  · rw [hother i hi]
  · subst hi; rw [hself]; rfl
  · rw [session, hother i hi]; rfl
  · subst hi; rw [hself]; rfl
  · rw [session, hother i hi]; rfl
  · subst hi; rw [hself]; rfl
  · rw [session, hother i hi]; rfl

theorem narrowTicket_ok {env : PackedStepEnv} {w : PackedWorld} {e : PackedEntry} {width : Nat} {t : BlockTicket}
    (h : (w.narrowTicket env e width).result = .ok t) :
    (w.narrowTicket env e width).obj = (w.session e.request).issued t ∧
      (w.session e.request).pending = some e.ticket ∧ t.ident = env.ident w.clock ∧
      t.position = e.ticket.position ∧ t.seed = e.ticket.seed ∧
      t.proposals = e.ticket.proposals.take (width - 1) ∧ t.rows = width :=
  narrow_ok h

/-- **The cuts of a round move no session**, whether or not they all succeed. -/
theorem narrowEntries_unmoved (env : PackedStepEnv) (w : PackedWorld) (plan : List (PackedEntry × Option Nat)) :
    Unmoved w (narrowEntries env w plan).world := by
  induction plan generalizing w with
  | nil => exact .refl w
  | cons p plan ih =>
    obtain ⟨e, width⟩ := p
    cases width with
    | none => exact ih w
    | some width =>
      unfold narrowEntries
      split
      · exact ⟨fun _ => rfl, fun _ => rfl, fun _ => rfl, fun _ => rfl⟩
      · rename_i t ht
        rw [(narrowTicket_ok ht).1]
        exact (w.unmoved_narrow e t).trans (ih _)

/-! ## The plan -/

/-- What `narrow_round` plans for an entry: nothing where its ticket is servable, else the widest servable cut. -/
def Planned (w : PackedWorld) (e : PackedEntry) (width : Option Nat) : Prop :=
  w.servable e = true ∧ width = none ∨ w.servable e = false ∧ width ≠ none ∧ width = w.servableWidth e

/-- The plan of an entry is its request's and its ticket's. -/
theorem Planned.alike {w : PackedWorld} {e e' : PackedEntry} {width width' : Option Nat} (h : w.Planned e width)
    (h' : w.Planned e' width') (hrequest : e.request = e'.request) (hticket : e.ticket = e'.ticket) :
    width = width' := by
  have hservable : w.servable e = w.servable e' := by rw [servable, servable, hrequest, hticket]
  have hwidth : w.servableWidth e = w.servableWidth e' := by rw [servableWidth, servableWidth, hrequest, hticket]
  rcases h with ⟨hs, hn⟩ | ⟨hs, -, hn⟩ <;> rcases h' with ⟨hs', hn'⟩ | ⟨hs', -, hn'⟩
  · rw [hn, hn']
  · exact absurd (hs.symm.trans (hservable.trans hs')) (by decide)
  · exact absurd (hs.symm.trans (hservable.trans hs')) (by decide)
  · rw [hn, hn', hwidth]

theorem narrowPlan_ok {w : PackedWorld} {entries : List PackedEntry} {widths : List (Option Nat)}
    (h : w.narrowPlan entries = .ok widths) : List.Forall₂ w.Planned entries widths := by
  induction entries generalizing widths with
  | nil => cases h; exact .nil
  | cons e entries ih =>
    rw [narrowPlan, List.mapM_cons] at h
    obtain ⟨width, hwidth, h⟩ := bind_ok h
    obtain ⟨rest, hrest, h⟩ := bind_ok h
    cases h
    refine .cons ?_ (ih hrest)
    split at hwidth
    · cases hwidth; exact .inl ⟨‹_›, rfl⟩
    · rename_i hservable
      cases hsome : w.servableWidth e <;> rw [hsome] at hwidth <;> cases hwidth
      exact .inr ⟨by simpa using hservable, by simp, hsome.symm⟩

/-- The two ends of the plan: it refuses and nothing is done, or every entry has what is planned for it. -/
theorem narrowRound_cases (env : PackedStepEnv) (w : PackedWorld) (entries : List PackedEntry) :
    (∃ e, narrowRound env w entries = ⟨w, entries, some e⟩) ∨
      ∃ plan, narrowRound env w entries = narrowEntries env w plan ∧ plan.map Prod.fst = entries ∧
        ∀ p ∈ plan, w.Planned p.1 p.2 := by
  unfold narrowRound
  split
  · exact .inl ⟨_, rfl⟩
  · rename_i widths h
    have hall := narrowPlan_ok h
    exact .inr ⟨_, rfl, List.map_fst_zip hall.length_eq.le, fun p hp => (List.forall₂_iff_zip.mp hall).2 hp⟩

/-- The first of a descending list that passes is the greatest that does. -/
theorem servableWidth_widest {w : PackedWorld} {e : PackedEntry} {serves : GreedySession → Nat → Nat → Bool}
    (hserves : (w.owners e.request).serves = some serves) {width : Nat} (h : w.servableWidth e = some width) :
    width ∈ narrowWidths ∧ width ≤ e.ticket.rows ∧ serves (w.session e.request) width e.ticket.position = true ∧
      ∀ rows ∈ narrowWidths, rows ≤ e.ticket.rows → serves (w.session e.request) rows e.ticket.position = true →
        rows ≤ width := by
  rw [servableWidth, hserves] at h
  obtain ⟨hpass, as, bs, hsplit, hbefore⟩ := List.find?_eq_some_iff_append.mp h
  rw [Bool.and_eq_true, decide_eq_true_iff] at hpass
  refine ⟨hsplit ▸ by simp, hpass.1, hpass.2, fun rows hrows hle hrow => ?_⟩
  rw [hsplit, List.mem_append, List.mem_cons] at hrows
  have hsorted : narrowWidths.Pairwise (· > ·) := by decide
  rw [hsplit, List.pairwise_append, List.pairwise_cons] at hsorted
  rcases hrows with hrows | rfl | hrows
  · have hrefused := hbefore rows hrows
    change (!(decide (rows ≤ e.ticket.rows) && serves (w.session e.request) rows e.ticket.position)) = true at hrefused
    rw [hrow, decide_eq_true hle] at hrefused
    cases hrefused
  · exact le_rfl
  · exact (hsorted.2.1.1 rows hrows).le

theorem servableWidth_serves {w : PackedWorld} {e : PackedEntry} {width : Nat} (h : w.servableWidth e = some width) :
    ∃ serves, (w.owners e.request).serves = some serves := by
  unfold servableWidth at h
  split at h
  · cases h
  · exact ⟨_, ‹_›⟩

/-! ## The cuts -/

/-- The cuts of other requests leave a request alone. -/
theorem narrowEntries_other (env : PackedStepEnv) {w : PackedWorld} {plan : List (PackedEntry × Option Nat)} {i : Nat}
    (h : ∀ p ∈ plan, p.2 ≠ none → p.1.request ≠ i) : (narrowEntries env w plan).world.owners i = w.owners i := by
  induction plan generalizing w with
  | nil => rfl
  | cons p plan ih =>
    obtain ⟨e, width⟩ := p
    obtain ⟨hhead, htail⟩ := List.forall_mem_cons.mp h
    cases width with
    | none => exact ih htail
    | some width =>
      unfold narrowEntries
      split
      · rfl
      · exact (ih htail).trans (w.tick.setSession_of_ne e _ (hhead (by simp)).symm)

/-- The sessions after a successful cut of the first entry. -/
theorem narrowEntries_some {env : PackedStepEnv} {w : PackedWorld} {e : PackedEntry} {width : Nat}
    {plan : List (PackedEntry × Option Nat)} (h : (narrowEntries env w ((e, some width) :: plan)).refused = none) :
    ∃ t, (w.narrowTicket env e width).result = .ok t ∧
      narrowEntries env w ((e, some width) :: plan) =
        (narrowEntries env (w.tick.setSession e ((w.session e.request).issued t)) plan).cons
          { e with ticket := t } := by
  rw [narrowEntries] at h ⊢
  split at h
  · cases h
  · rename_i t ht
    exact ⟨t, ht, by rw [(narrowTicket_ok ht).1]⟩

/-- A ticket that is cut is the live one, unless it was made by a cut. -/
theorem narrowEntries_live {env : PackedStepEnv} {w : PackedWorld} {plan : List (PackedEntry × Option Nat)}
    (h : (narrowEntries env w plan).refused = none) {p : PackedEntry × Option Nat} (hp : p ∈ plan) (hcut : p.2 ≠ none)
    (hfresh : ∀ n, env.ident n ≠ p.1.ticket.ident) : (w.session p.1.request).pending = some p.1.ticket := by
  induction plan generalizing w with
  | nil => cases hp
  | cons q plan ih =>
    obtain ⟨e, width⟩ := q
    cases width with
    | none =>
      rcases List.mem_cons.mp hp with rfl | hp
      · exact absurd rfl hcut
      · exact ih h hp
    | some width =>
      obtain ⟨t, ht, heq⟩ := narrowEntries_some h
      obtain ⟨-, hpending, hident, -⟩ := narrowTicket_ok ht
      rcases List.mem_cons.mp hp with rfl | hp
      · exact hpending
      · rw [heq] at h
        have hlive := ih h hp
        by_cases hsame : p.1.request = e.request
        · -- the session of the first entry holds the ticket that this cut made
          rw [hsame, setSession_self] at hlive
          have ht' : some t = some p.1.ticket := hlive
          cases ht'
          exact absurd hident.symm (hfresh w.clock)
        · rwa [session, w.tick.setSession_of_ne e _ hsame] at hlive

/-- What a planned entry becomes. -/
structure Carries (final : PackedWorld) (p : PackedEntry × Option Nat) (e : PackedEntry) : Prop where
  key : e.key = p.1.key
  live : (final.session e.request).pending = some e.ticket
  kept : p.2 = none → e = p.1
  position : e.ticket.position = p.1.ticket.position
  seed : e.ticket.seed = p.1.ticket.seed
  prefixed : e.ticket.tokens <+: p.1.ticket.tokens
  rows : ∀ width, p.2 = some width → e.ticket.rows = width

/-- The cut ticket's tokens are a prefix. -/
theorem tokens_prefix {t ticket : BlockTicket} (hseed : t.seed = ticket.seed) {n : Nat}
    (hproposals : t.proposals = ticket.proposals.take n) : t.tokens <+: ticket.tokens := by
  rw [BlockTicket.tokens, BlockTicket.tokens, hseed, hproposals, List.map_take]
  exact List.cons_prefix_cons.mpr ⟨rfl, List.take_prefix _ _⟩

/-- **The cuts that all succeed**: each entry carries its planned ticket, live in its session. Entries of one request
are planned alike, so that none of them is cut where there are two. -/
theorem narrowEntries_carries {env : PackedStepEnv} {w : PackedWorld} {plan : List (PackedEntry × Option Nat)}
    (h : (narrowEntries env w plan).refused = none)
    (hlive : ∀ p ∈ plan, (w.session p.1.request).pending = some p.1.ticket)
    (hfresh : ∀ p ∈ plan, ∀ n, env.ident n ≠ p.1.ticket.ident)
    (halike : ∀ p ∈ plan, ∀ q ∈ plan, p.1.request = q.1.request → p.2 = q.2) :
    List.Forall₂ (Carries (narrowEntries env w plan).world) plan (narrowEntries env w plan).entries := by
  induction plan generalizing w with
  | nil => exact .nil
  | cons p plan ih =>
    obtain ⟨e, width⟩ := p
    obtain ⟨hhead, htail⟩ := List.forall_mem_cons.mp hlive
    have hfresh' := (List.forall_mem_cons.mp hfresh).2
    have halike' : ∀ p ∈ plan, ∀ q ∈ plan, p.1.request = q.1.request → p.2 = q.2 := fun p hp q hq =>
      halike p (List.mem_cons_of_mem _ hp) q (List.mem_cons_of_mem _ hq)
    have hwith : ∀ p ∈ plan, p.1.request = e.request → p.2 = width := fun p hp hsame =>
      halike p (List.mem_cons_of_mem _ hp) (e, width) List.mem_cons_self hsame
    cases width with
    | none =>
      have hkept : (narrowEntries env w plan).world.owners e.request = w.owners e.request :=
        narrowEntries_other env fun p hp hcut hsame => hcut (hwith p hp hsame)
      refine .cons ⟨rfl, ?_, fun _ => rfl, rfl, rfl, List.prefix_rfl, fun _ hn => by cases hn⟩
        (ih h htail hfresh' halike')
      change ((narrowEntries env w plan).world.session e.request).pending = some e.ticket
      rw [session, hkept]
      exact hhead
    | some width =>
      obtain ⟨t, ht, heq⟩ := narrowEntries_some h
      obtain ⟨-, -, hident, hposition, hseed, hproposals, hrows⟩ := narrowTicket_ok ht
      rw [heq] at h ⊢
      -- no other entry is of this request: its ticket would be live, and the live one has just been made
      have hapart : ∀ p ∈ plan, p.1.request ≠ e.request := by
        intro p hp hsame
        have hcut : p.2 ≠ none := by simp [hwith p hp hsame]
        have hp' := narrowEntries_live h hp hcut (hfresh' p hp)
        rw [hsame, setSession_self] at hp'
        have ht' : some t = some p.1.ticket := hp'
        cases ht'
        exact hfresh' p hp w.clock hident.symm
      have hkept := narrowEntries_other env
        (w := w.tick.setSession e ((w.session e.request).issued t)) fun p hp _ => hapart p hp
      refine .cons ⟨rfl, ?_, fun hn => (nomatch hn), hposition, hseed,
        tokens_prefix hseed hproposals,
        fun n hn => hrows.trans (Option.some.inj hn)⟩ (ih h (fun p hp => ?_) hfresh' halike')
      · change ((narrowEntries env _ plan).world.session e.request).pending = some t
        rw [session, hkept]
        exact congrArg GreedySession.pending (w.tick.setSession_self e _)
      · rw [session, w.tick.setSession_of_ne e _ (hapart p hp)]
        exact htail p hp

/-- Where requests are distinct, the entries carry the live tickets also when a session refuses midway. -/
theorem narrowEntries_stopped {env : PackedStepEnv} {w : PackedWorld} {plan : List (PackedEntry × Option Nat)}
    (hlive : ∀ p ∈ plan, (w.session p.1.request).pending = some p.1.ticket)
    (hdistinct : (plan.map fun p => p.1.request).Nodup) :
    ∀ e ∈ (narrowEntries env w plan).entries,
      ((narrowEntries env w plan).world.session e.request).pending = some e.ticket := by
  induction plan generalizing w with
  | nil => simp [narrowEntries]
  | cons p plan ih =>
    obtain ⟨e, width⟩ := p
    obtain ⟨hhead, htail⟩ := List.forall_mem_cons.mp hlive
    rw [List.map_cons, List.nodup_cons] at hdistinct
    obtain ⟨hnot, hdistinct⟩ := hdistinct
    have hapart : ∀ p ∈ plan, p.1.request ≠ e.request := fun p hp hsame =>
      hnot (List.mem_map.mpr ⟨p, hp, hsame⟩)
    cases width with
    | none =>
      refine List.forall_mem_cons.mpr ⟨?_, ih htail hdistinct⟩
      change ((narrowEntries env w plan).world.session e.request).pending = some e.ticket
      rw [session, narrowEntries_other env fun p hp _ => hapart p hp]
      exact hhead
    | some width =>
      unfold narrowEntries
      split
      · refine List.forall_mem_cons.mpr ⟨hhead, fun e' he' => ?_⟩
        obtain ⟨p, hp, rfl⟩ := List.mem_map.mp he'
        exact htail p hp
      · rename_i t ht
        rw [(narrowTicket_ok ht).1]
        refine List.forall_mem_cons.mpr ⟨?_, ih (fun p hp => ?_) hdistinct⟩
        · change ((narrowEntries env _ plan).world.session e.request).pending = some t
          rw [session, narrowEntries_other env fun p hp _ => hapart p hp]
          exact congrArg GreedySession.pending (w.tick.setSession_self e _)
        · rw [session, w.tick.setSession_of_ne e _ (hapart p hp)]
          exact htail p hp

/-! ## The round -/

/-- What `narrow_round` promises of an entry: its ticket, in the world that the round leaves. -/
structure NarrowedTo (w final : PackedWorld) (e e' : PackedEntry) : Prop where
  key : e'.key = e.key
  live : (final.session e'.request).pending = some e'.ticket
  served : ∀ serves, (final.owners e'.request).serves = some serves →
    serves (final.session e'.request) e'.ticket.rows e'.ticket.position = true
  position : e'.ticket.position = e.ticket.position
  seed : e'.ticket.seed = e.ticket.seed
  prefixed : e'.ticket.tokens <+: e.ticket.tokens
  kept : w.servable e = true → e' = e
  bucket : w.servable e = false → e'.ticket.rows ∈ narrowWidths
  widest : w.servable e = false → ∀ serves, (w.owners e.request).serves = some serves → ∀ rows ∈ narrowWidths,
    rows ≤ e.ticket.rows → serves (w.session e.request) rows e.ticket.position = true → rows ≤ e'.ticket.rows

/-- An engine serves what it served while its session has not moved. -/
theorem Unmoved.verifierServes {w final : PackedWorld} (h : Unmoved w final)
    (select : Option (Nat → Nat → Int → Option Nat)) (buckets : List Nat) (i rows position : Nat) :
    Serving.verifierServes select buckets (final.session i) rows position =
      Serving.verifierServes select buckets (w.session i) rows position := by
  simp only [Serving.verifierServes, h.budget, h.emitted]

theorem Carries.narrowedTo {w final : PackedWorld} {p : PackedEntry × Option Nat} {e' : PackedEntry}
    (h : Carries final p e') (hplan : w.Planned p.1 p.2) (hunmoved : Unmoved w final)
    (hserves : ∀ serves, (w.owners p.1.request).serves = some serves →
      ∃ select buckets, serves = Serving.verifierServes select buckets) : NarrowedTo w final p.1 e' := by
  obtain ⟨e, width⟩ := p
  have hrequest : e'.request = e.request := congrArg Prod.snd h.key
  have hstill : ∀ serves, (final.owners e'.request).serves = some serves →
      serves (w.session e.request) e'.ticket.rows e'.ticket.position = true →
      serves (final.session e'.request) e'.ticket.rows e'.ticket.position = true := by
    intro serves hfinal hw
    rw [hunmoved.serves, hrequest] at hfinal
    obtain ⟨select, buckets, rfl⟩ := hserves serves hfinal
    rwa [hunmoved.verifierServes, hrequest]
  rcases hplan with ⟨hservable, hwidth⟩ | ⟨hservable, hsome, hwidth⟩
  · cases h.kept hwidth
    refine ⟨rfl, h.live, fun serves hfinal => hstill serves hfinal ?_, rfl, rfl, List.prefix_rfl, fun _ => rfl,
      fun hn => by simp [hservable] at hn, fun hn => by simp [hservable] at hn⟩
    rw [hunmoved.serves] at hfinal
    simpa only [servable, hfinal] using! hservable
  · obtain ⟨n, rfl⟩ := Option.ne_none_iff_exists'.mp hsome
    obtain ⟨serves, hown⟩ := servableWidth_serves hwidth.symm
    obtain ⟨hbucket, -, hserved, hwidest⟩ := servableWidth_widest hown hwidth.symm
    have hrows := h.rows n rfl
    refine ⟨h.key, h.live, fun serves' hfinal => hstill serves' hfinal ?_, h.position, h.seed, h.prefixed,
      fun hs => by simp [hservable] at hs, fun _ => hrows ▸ hbucket, fun _ serves' hw => ?_⟩
    · rw [hunmoved.serves, hrequest, hown] at hfinal
      cases hfinal
      rw [hrows, h.position]
      exact hserved
    · rw [hown] at hw
      cases hw
      rw [hrows]
      exact hwidest

/-- **Narrowing is planned before it is done.** The entries carry live tickets, tickets that a cut makes are new
objects, and the engines' `serves` is the verifier engine's: a round that is narrowed carries, for each entry in order,
the widest cut its own engine serves, or the ticket it had; a round with a ticket that nothing narrower serves is left
as it was; whatever stops it, no token is emitted and no session moves, and, where the requests are distinct, the
entries carry the live tickets. -/
theorem narrow_round_planned (env : PackedStepEnv) (w : PackedWorld) (entries : List PackedEntry)
    (hlive : ∀ e ∈ entries, (w.session e.request).pending = some e.ticket)
    (hfresh : ∀ e ∈ entries, ∀ n, env.ident n ≠ e.ticket.ident)
    (hserves : ∀ e ∈ entries, ∀ serves, (w.owners e.request).serves = some serves →
      ∃ select buckets, serves = Serving.verifierServes select buckets) :
    ((narrowRound env w entries).refused = none →
      List.Forall₂ (NarrowedTo w (narrowRound env w entries).world) entries (narrowRound env w entries).entries) ∧
    ((∃ e ∈ entries, w.servable e = false ∧ w.servableWidth e = none) →
      (narrowRound env w entries).world = w ∧ (narrowRound env w entries).entries = entries ∧
        (narrowRound env w entries).refused ≠ none) ∧
    Unmoved w (narrowRound env w entries).world ∧
    ((entries.map PackedEntry.request).Nodup → ∀ e ∈ (narrowRound env w entries).entries,
      ((narrowRound env w entries).world.session e.request).pending = some e.ticket) := by
  rcases narrowRound_cases env w entries with ⟨e, heq⟩ | ⟨plan, heq, rfl, hplan⟩ <;> rw [heq]
  · exact ⟨fun hn => (nomatch hn), fun _ => ⟨rfl, rfl, fun hn => (nomatch hn)⟩, .refl w, fun _ => hlive⟩
  rw [List.forall_mem_map] at hlive hfresh hserves
  have hunmoved := narrowEntries_unmoved env w plan
  -- entries of one request have its live ticket, and so the same plan
  have halike : ∀ p ∈ plan, ∀ q ∈ plan, p.1.request = q.1.request → p.2 = q.2 := by
    intro p hp q hq hsame
    have hticket : p.1.ticket = q.1.ticket :=
      Option.some.inj ((hlive p hp).symm.trans ((congrArg _ (congrArg _ hsame)).trans (hlive q hq)))
    exact (hplan p hp).alike (hplan q hq) hsame hticket
  refine ⟨fun hdone => ?_, fun ⟨e, he, hservable, hnone⟩ => ?_, hunmoved, fun hdistinct => ?_⟩
  · have hcarries := narrowEntries_carries hdone hlive hfresh halike
    rw [List.forall₂_map_left_iff]
    refine (List.forall₂_iff_zip.mpr ⟨hcarries.length_eq, fun hp => ?_⟩)
    exact ((List.forall₂_iff_zip.mp hcarries).2 hp).narrowedTo (hplan _ (List.of_mem_zip hp).1) hunmoved
      (hserves _ (List.of_mem_zip hp).1)
  · obtain ⟨p, hp, rfl⟩ := List.mem_map.mp he
    rcases hplan p hp with ⟨hs, -⟩ | ⟨-, hsome, hwidth⟩
    · exact absurd (hs.symm.trans hservable) (by decide)
    · exact absurd (hwidth.trans hnone) hsome
  · exact narrowEntries_stopped hlive (by rwa [List.map_map] at hdistinct)

/-! ## A round -/

/-- A ticket of four rows, at the sample sessions' position. -/
def draftedTicket : BlockTicket := { sampleTicket "a" 0 with proposals := [6, 7, 8] }

/-- The sample's first request with a live ticket of four rows; the engines capture one and two rows. -/
def draftedWorld : PackedWorld :=
  { sampleWorld with
    owners := fun i =>
      { sampleWorld.owners i with
        serves := some (Serving.verifierServes none [2, 1])
        request := { (sampleWorld.owners i).request with
          session := { (sampleWorld.owners i).request.session with
            pending := if i = 0 then some draftedTicket else ((sampleWorld.owners i).request.session.pending) } } } }

def draftedEnv : PackedStepEnv := { sampleEnv with ident := fun n => n + 10 }

def draftedEntries : List PackedEntry := [⟨"b", 1, sampleTicket "b" 1⟩, ⟨"a", 0, draftedTicket⟩]

theorem narrow_round_planned_sample :
    ((narrowRound draftedEnv draftedWorld draftedEntries).entries.map fun e => e.ticket.rows) = [1, 2] ∧
      List.Forall₂ (NarrowedTo draftedWorld (narrowRound draftedEnv draftedWorld draftedEntries).world) draftedEntries
        (narrowRound draftedEnv draftedWorld draftedEntries).entries :=
  ⟨by decide, (narrow_round_planned draftedEnv draftedWorld draftedEntries (by decide)
    (fun e he n => by
      have hident : e.ticket.ident < 10 := by revert e; decide
      exact Nat.ne_of_gt (by change e.ticket.ident < n + 10; omega))
    (fun e _ serves hs => ⟨none, [2, 1], (Option.some.inj hs).symm⟩)).1 (by decide)⟩

end PackedWorld

end BlackholeQwen.Serving
