import BlackholeQwen.Lib.Runs
import BlackholeQwen.Parser.Stream
import Mathlib.Data.List.Induction

/-!
# Re-chunking preserves the stream

What the wrapped `parse_delta` does over a whole stream, against the history of the deltas: the private decode of all
the tokens so far (`Stream.texts`), the window as a statement about the earlier markers and results (`Window`), and the
deltas at which the pieces stopped joining (`On`). `InStep` says that the state kept on the parser is what the history
determines; each turn preserves it (`InStep.turn`), whatever the stock parser does, so every turn of every run is
`Served`.
-/

namespace BlackholeQwen.Parser

open Lib

/-! ## The history -/

/-- The engine's token ids, in order. -/
def idsOf (turns : List Turn) : List Nat := turns.flatMap fun t => t.delta.ids

@[simp] theorem idsOf_snoc (turns : List Turn) (t : Turn) : idsOf (turns ++ [t]) = idsOf turns ++ t.delta.ids := by
  simp [idsOf]

section History

variable {δ : Type}

/-- The texts of a delta's tokens, decoded after all the tokens before them. -/
def Stream.texts (s : Stream δ) (past ids : List Nat) : Option (List String) :=
  match s.config.steps s.decoding past with
  | .error _ => none
  | .ok (_, decoding) => (s.config.steps decoding ids).toOption.map Prod.fst

/-- The pieces of a delta: its tokens' texts, except that a stop token's is left out of a last delta. -/
def Pieces (own : List String) (delta : Delta) (pieces : List String) : Prop :=
  String.join own = delta.text ∧ pieces = own ∨
    String.join own ≠ delta.text ∧ delta.finished = true ∧ String.join own.dropLast = delta.text ∧
      pieces = own.dropLast ++ [""]

/-- A delta that has tokens decodes, and its pieces join to the engine's text. -/
def Joins (s : Stream δ) (past : List Nat) (delta : Delta) : Prop :=
  delta.ids = [] ∨ ∃ own pieces, s.texts past delta.ids = some own ∧ Pieces own delta pieces

/-- The sub-results of a turn could not be merged. -/
def MergeFails (construct : DeltaMessage → Except PyError DeltaMessage) (t : Turn) : Prop :=
  (∃ m, t.result = .ok m) ∧ ∃ e, merge construct true t.results = .error e

/-- No delta so far switched the request to the stock path. -/
def On (construct : DeltaMessage → Except PyError DeltaMessage) (s : Stream δ) (turns : List Turn) : Prop :=
  ∀ i t, turns[i]? = some t → Joins s (idsOf (turns.take i)) t.delta ∧ ¬MergeFails construct t

/-- A tool call was opened. -/
def ToolSeen (markers : Dict Nat Terminal) (ids : List Nat) : Prop := ∃ id ∈ ids, markers.get? id = some .TOOL_START

/-- A tool call was opened and not closed since. -/
def ToolOpen (markers : Dict Nat Terminal) (ids : List Nat) : Prop :=
  ∃ before id after, ids = before ++ id :: after ∧ markers.get? id = some .TOOL_START ∧
    ∀ j ∈ after, markers.get? j ≠ some .TOOL_END

/-- The whitespace window: a tool call was closed, none is open, and no result had content but whitespace. -/
def Window (markers : Dict Nat Terminal) (turns : List Turn) : Prop :=
  ToolSeen markers (idsOf turns) ∧ ¬ToolOpen markers (idsOf turns) ∧
    ∀ t ∈ turns, ∀ m, t.result = .ok m → nonBlank m = false

end History

/-! ## What a turn owes its delta -/

/-- The sub-calls pass on the delta's tokens in order, each once, and its text; `finished` comes with the last. A parser
that raised got an initial part of them. -/
structure Passed (t : Turn) : Prop where
  ids : t.calls.flatMap Delta.ids <+: t.delta.ids
  all : ∀ m, t.result = .ok m → t.calls.flatMap Delta.ids = t.delta.ids ∧
    String.join (t.calls.map Delta.text) = t.delta.text ∧
    t.calls.getLast?.map Delta.finished = some t.delta.finished
  finished : ∀ i call, t.calls[i]? = some call → call.finished = true →
    t.delta.finished = true ∧ i + 1 = t.calls.length

/-- One token per sub-call, with its piece. -/
def OneByOne (delta : Delta) (pieces : List String) (calls : List Delta) : Prop :=
  ∀ i call, calls[i]? = some call → ∃ piece id, pieces[i]? = some piece ∧ delta.ids[i]? = some id ∧
    call = { delta with
      text := piece, ids := [id], finished := delta.finished && decide (i + 1 = delta.ids.length) }

/-- A delta of several tokens that holds a marker, or comes in the window. -/
def Split (markers : Dict Nat Terminal) (past : List Turn) (delta : Delta) : Prop :=
  2 ≤ delta.ids.length ∧ (marked markers delta.ids = true ∨ Window markers past)

/-- What one turn does, after those before it, for a parser whose first delta opened this stream or none. -/
structure Served {δ : Type} (construct : DeltaMessage → Except PyError DeltaMessage) (stream : Option (Stream δ))
    (past : List Turn) (t : Turn) : Prop where
  passed : Passed t
  inactive : stream = none → t.calls = [t.delta]
  split : ∀ s, stream = some s → On construct s past → Joins s (idsOf past) t.delta →
    Split s.config.markers past t.delta → ∃ own pieces, s.texts (idsOf past) t.delta.ids = some own ∧
      Pieces own t.delta pieces ∧ OneByOne t.delta pieces t.calls
  whole : ∀ s, stream = some s → ¬Split s.config.markers past t.delta → t.calls = [t.delta]
  off : ∀ s, stream = some s → ¬(On construct s past ∧ Joins s (idsOf past) t.delta) → t.calls = [t.delta]

/-! ## The private decode and the window follow the history -/

section

variable {δ : Type}

/-- The decoder after some tokens goes on as after all of them. -/
theorem Config.steps_ok {c : Config δ} {ids' pieces' : _} {d' d'' : Decoding δ}
    (h' : c.steps d' ids' = .ok (pieces', d'')) : ∀ {ids : List Nat} {d : Decoding δ} {pieces : List String},
    c.steps d ids = .ok (pieces, d') → c.steps d (ids ++ ids') = .ok (pieces ++ pieces', d'')
  | [], _, _, h => by cases h; exact h'
  | id :: ids, d, pieces, h => by
    obtain ⟨p, hp, h⟩ := bind_ok h
    obtain ⟨q, hq, h⟩ := bind_ok h
    cases h
    have ih := Config.steps_ok h' hq
    simp only [List.cons_append, Config.steps, bind, Except.bind, hp, ih]
    rfl

theorem Config.steps_length {c : Config δ} : ∀ {ids : List Nat} {d d' : Decoding δ} {pieces : List String},
    c.steps d ids = .ok (pieces, d') → pieces.length = ids.length
  | [], _, _, _, h => by cases h; rfl
  | id :: ids, d, d', pieces, h => by
    obtain ⟨p, -, h⟩ := bind_ok h
    obtain ⟨q, hq, h⟩ := bind_ok h
    cases h
    simp [Config.steps_length hq]

theorem foldl_mark (markers : Dict Nat Terminal) (ids : List Nat) :
    ((ids.foldl (mark markers) (false, false)).1 = true ↔ ToolSeen markers ids) ∧
      ((ids.foldl (mark markers) (false, false)).2 = true ↔ ToolOpen markers ids) := by
  induction ids using List.reverseRecOn with
  | nil => simp [ToolSeen, ToolOpen]
  | append_singleton ids id ih =>
    rw [List.foldl_concat]
    have hseen : ToolSeen markers (ids ++ [id]) ↔ ToolSeen markers ids ∨ markers.get? id = some .TOOL_START := by
      simp [ToolSeen, or_and_right, exists_or]
    have hopen : ToolOpen markers (ids ++ [id]) ↔
        markers.get? id = some .TOOL_START ∨ ToolOpen markers ids ∧ markers.get? id ≠ some .TOOL_END := by
      constructor
      · rintro ⟨before, j, after, heq, hj, hafter⟩
        rcases List.eq_nil_or_concat after with rfl | ⟨after, last, rfl⟩
        · obtain ⟨-, hlast⟩ := List.append_inj' heq rfl
          cases hlast
          exact Or.inl hj
        · rw [List.concat_eq_append, ← List.cons_append, ← List.append_assoc] at heq
          obtain ⟨rfl, hlast⟩ := List.append_inj' heq rfl
          cases hlast
          exact Or.inr ⟨⟨before, j, after, rfl, hj, fun k hk => hafter k (by simp [hk])⟩, hafter id (by simp)⟩
      · rintro (hid | ⟨⟨before, j, after, rfl, hj, hafter⟩, hid⟩)
        · exact ⟨ids, id, [], rfl, hid, by simp⟩
        · refine ⟨before, j, after ++ [id], by simp, hj, fun k hk => ?_⟩
          rcases List.mem_append.mp hk with hk | hk
          · exact hafter k hk
          · rwa [List.mem_singleton.mp hk]
    rw [hseen, hopen, ← ih.1, ← ih.2]
    unfold mark
    split <;> simp_all

/-! ## The plan -/

theorem rendered_eq {own pieces : List String} {delta : Delta} :
    rendered own delta.text delta.finished = some pieces ↔ Pieces own delta pieces := by
  unfold rendered Pieces
  by_cases h1 : String.join own = delta.text
  · rw [if_pos h1]
    constructor
    · intro h
      cases h
      exact Or.inl ⟨h1, rfl⟩
    · rintro (⟨-, rfl⟩ | ⟨hne, -⟩)
      · rfl
      · exact absurd h1 hne
  · rw [if_neg h1]
    by_cases h2 : delta.finished = true ∧ String.join own.dropLast = delta.text
    · rw [if_pos (by rw [h2.1, h2.2]; simp)]
      constructor
      · intro h
        cases h
        exact Or.inr ⟨h1, h2.1, h2.2, rfl⟩
      · rintro (⟨h, -⟩ | ⟨-, -, -, rfl⟩)
        · exact absurd h h1
        · rfl
    · rw [if_neg (by simpa using h2)]
      constructor
      · intro h
        cases h
      · rintro (⟨h, -⟩ | ⟨-, hf, hj, -⟩)
        · exact absurd h h1
        · exact absurd ⟨hf, hj⟩ h2

theorem Pieces.join {own pieces : List String} {delta : Delta} (h : Pieces own delta pieces) :
    String.join pieces = delta.text := by
  rcases h with ⟨h, rfl⟩ | ⟨-, -, h, rfl⟩
  · exact h
  · rw [String.join_append, h]
    simp

theorem Pieces.length {own pieces : List String} {delta : Delta} (h : Pieces own delta pieces) (hne : own ≠ []) :
    pieces.length = own.length := by
  rcases h with ⟨-, rfl⟩ | ⟨-, -, -, rfl⟩
  · rfl
  · have := List.length_pos_iff.mpr hne
    simp only [List.length_append, List.length_dropLast, List.length_singleton]
    omega

/-- The plan of a stream that is on, for a delta with tokens. -/
theorem Stream.plan_cases (s : Stream δ) (delta : Delta) (hids : delta.ids ≠ []) :
    ((¬∃ own pieces d, s.config.steps s.decoding delta.ids = .ok (own, d) ∧ Pieces own delta pieces) ∧
      s.plan delta.text delta.ids delta.finished = (s.switchOff, none)) ∨
    ∃ own pieces d, s.config.steps s.decoding delta.ids = .ok (own, d) ∧ Pieces own delta pieces ∧
      s.plan delta.text delta.ids delta.finished = s.planPieces delta.ids pieces d := by
  unfold Stream.plan
  rw [if_neg hids]
  cases hs : s.config.steps s.decoding delta.ids with
  | error e => exact Or.inl ⟨by simp, rfl⟩
  | ok p =>
    obtain ⟨own, d⟩ := p
    simp only
    cases hr : rendered own delta.text delta.finished with
    | none =>
      refine Or.inl ⟨?_, rfl⟩
      rintro ⟨own', pieces, d', heq, hp⟩
      cases heq
      rw [rendered_eq.mpr hp] at hr
      cases hr
    | some pieces => exact Or.inr ⟨own, pieces, d, rfl, rendered_eq.mp hr, rfl⟩

/-! ## The state follows the history -/

variable {construct : DeltaMessage → Except PyError DeltaMessage}

/-- What is kept on the parser is what the history determines. -/
structure InStep (construct : DeltaMessage → Except PyError DeltaMessage) (s₀ : Stream δ) (turns : List Turn)
    (s : Stream δ) : Prop where
  config : s.config = s₀.config
  on : s.on = true ↔ On construct s₀ turns
  decoding : s.on = true → ∃ own, s₀.config.steps s₀.decoding (idsOf turns) = .ok (own, s.decoding)
  tool : s.on = true → (s.toolSeen, s.inTool) = (idsOf turns).foldl (mark s₀.config.markers) (false, false)
  nonws : s.on = true → (s.nonwsContent = true ↔ ∃ t ∈ turns, ∃ m, t.result = .ok m ∧ nonBlank m = true)

/-- The same inside a turn, after its plan. -/
structure Planned (construct : DeltaMessage → Except PyError DeltaMessage) (s₀ : Stream δ) (turns : List Turn)
    (delta : Delta) (s : Stream δ) : Prop where
  config : s.config = s₀.config
  on : s.on = true ↔ On construct s₀ turns ∧ Joins s₀ (idsOf turns) delta
  decoding : s.on = true → ∃ own, s₀.config.steps s₀.decoding (idsOf turns ++ delta.ids) = .ok (own, s.decoding)
  tool : s.on = true →
    (s.toolSeen, s.inTool) = (idsOf turns ++ delta.ids).foldl (mark s₀.config.markers) (false, false)
  nonws : s.on = true → (s.nonwsContent = true ↔ ∃ t ∈ turns, ∃ m, t.result = .ok m ∧ nonBlank m = true)

theorem on_snoc {s₀ : Stream δ} {turns : List Turn} {t : Turn} :
    On construct s₀ (turns ++ [t]) ↔
      On construct s₀ turns ∧ Joins s₀ (idsOf turns) t.delta ∧ ¬MergeFails construct t := by
  constructor
  · intro h
    refine ⟨fun i u hu => ?_, ?_⟩
    · have hlt := (List.getElem?_eq_some_iff.mp hu).1
      have := h i u (by rw [List.getElem?_append_left hlt, hu])
      rwa [List.take_append_of_le_length hlt.le] at this
    · have := h turns.length t (by simp)
      rwa [List.take_left] at this
  · rintro ⟨h, ht⟩ i u hu
    rcases Nat.lt_or_ge i turns.length with hlt | hge
    · rw [List.getElem?_append_left hlt] at hu
      rw [List.take_append_of_le_length hlt.le]
      exact h i u hu
    · obtain ⟨hi, hu⟩ := List.getElem?_eq_some_iff.mp hu
      obtain rfl : i = turns.length := by simp at hi; omega
      simp only [List.getElem_concat_length] at hu
      rw [List.take_left, ← hu]
      exact ht

namespace InStep

variable {s₀ s : Stream δ} {turns : List Turn}

theorem init (hon : s₀.on = true) (htool : s₀.toolSeen = false ∧ s₀.inTool = false)
    (hnonws : s₀.nonwsContent = false) : InStep construct s₀ [] s₀ where
  config := rfl
  on := ⟨fun _ _ _ h => (by cases h), fun _ => hon⟩
  decoding _ := ⟨[], rfl⟩
  tool _ := by rw [htool.1, htool.2]; rfl
  nonws _ := by simp [hnonws]

/-- The window that the state shows is the history's. -/
theorem window (h : InStep construct s₀ turns s) (hon : s.on = true) :
    s.window = true ↔ Window s₀.config.markers turns := by
  obtain ⟨hseen, hopen⟩ := foldl_mark s₀.config.markers (idsOf turns)
  rw [← h.tool hon] at hseen hopen
  have hnonws := h.nonws hon
  simp only at hseen hopen
  unfold Stream.window Window
  rw [Bool.and_eq_true, Bool.and_eq_true, Bool.not_eq_true', Bool.not_eq_true', hseen, ← Bool.not_eq_true,
    ← Bool.not_eq_true, hopen, hnonws, and_assoc]
  simp

/-- The texts that the kept stream gives a delta are those of the whole history. -/
theorem texts (h : InStep construct s₀ turns s) (hon : s.on = true) (ids : List Nat) :
    s₀.texts (idsOf turns) ids = (s.config.steps s.decoding ids).toOption.map Prod.fst := by
  obtain ⟨own, hsteps⟩ := h.decoding hon
  rw [Stream.texts, hsteps, h.config]

/-- The state after the rest of `plan`. -/
theorem planPieces (h : InStep construct s₀ turns s) (hon : s.on = true) {delta : Delta} {own pieces : List String}
    {d : Decoding δ} (hs : s.config.steps s.decoding delta.ids = .ok (own, d)) (hp : Pieces own delta pieces) :
    Planned construct s₀ turns delta (s.planPieces delta.ids pieces d).1 := by
  have hjoins : Joins s₀ (idsOf turns) delta :=
    Or.inr ⟨own, pieces, by rw [h.texts hon, hs]; rfl, hp⟩
  refine ⟨h.config, iff_of_true hon ⟨h.on.mp hon, hjoins⟩, fun _ => ?_, fun _ => ?_, fun _ => h.nonws hon⟩
  · obtain ⟨before, hbefore⟩ := h.decoding hon
    rw [h.config] at hs
    exact ⟨_, Config.steps_ok hs hbefore⟩
  · rw [List.foldl_append, ← h.tool hon, ← h.config]
    rfl

/-- A plan keeps the state in step, and splits exactly the deltas that the history says. -/
theorem plan (h : InStep construct s₀ turns s) (delta : Delta) :
    ∃ s₁ plan, planned (some s) delta = (some s₁, plan) ∧ Planned construct s₀ turns delta s₁ ∧
      (plan = none ∧ ¬(s₁.on = true ∧ Split s₀.config.markers turns delta) ∨
        s₁.on = true ∧ Split s₀.config.markers turns delta ∧ ∃ own pieces,
          s₀.texts (idsOf turns) delta.ids = some own ∧ Pieces own delta pieces ∧
            pieces.length = delta.ids.length ∧ plan = some (pieces.zip (delta.ids.map fun id => [id]))) := by
  unfold planned
  simp only
  by_cases hon : s.on = true
  swap
  · refine ⟨s, none, by rw [if_neg hon], ⟨h.config, ?_, fun h' => absurd h' hon, fun h' => absurd h' hon,
      fun h' => absurd h' hon⟩, Or.inl ⟨rfl, fun h' => hon h'.1⟩⟩
    rw [h.on] at hon ⊢
    exact ⟨fun h' => absurd h' hon, fun h' => absurd h'.1 hon⟩
  rw [if_pos hon]
  by_cases hids : delta.ids = []
  · have hplan : s.plan delta.text delta.ids delta.finished = (s, none) := by
      unfold Stream.plan
      rw [if_pos hids]
    refine ⟨s, none, by rw [hplan], ⟨h.config, iff_of_true hon ⟨h.on.mp hon, Or.inl hids⟩, ?_, ?_, h.nonws⟩,
      Or.inl ⟨rfl, fun h' => ?_⟩⟩
    · rw [hids, List.append_nil]; exact h.decoding
    · rw [hids, List.append_nil]; exact h.tool
    · have := h'.2.1
      rw [hids] at this
      cases this
  rcases s.plan_cases delta hids with ⟨hfail, hplan⟩ | ⟨own, pieces, d, hs, hp, hplan⟩
  · refine ⟨s.switchOff, none, by rw [hplan], ⟨h.config, ?_, fun h' => (by cases h'), fun h' => (by cases h'),
      fun h' => (by cases h')⟩, Or.inl ⟨rfl, fun h' => (by cases h'.1)⟩⟩
    refine ⟨fun h' => (by cases h'), fun ⟨_, hj⟩ => absurd ?_ hfail⟩
    obtain ⟨own, pieces, ht, hp⟩ := hj.resolve_left hids
    rw [h.texts hon] at ht
    cases hs : s.config.steps s.decoding delta.ids with
    | error e => rw [hs] at ht; cases ht
    | ok q =>
      rw [hs] at ht
      cases ht
      exact ⟨q.1, pieces, q.2, rfl, hp⟩
  · have hmid := h.planPieces hon hs hp
    have hlen : pieces.length = delta.ids.length := by
      rw [hp.length, Config.steps_length hs]
      rw [← List.length_pos_iff, Config.steps_length hs]
      exact List.length_pos_iff.mpr hids
    have hcond : (decide (delta.ids.length = 1) || !(marked s.config.markers delta.ids || s.window)) = false ↔
        Split s₀.config.markers turns delta := by
      have hpos := List.length_pos_iff.mpr hids
      rw [Bool.or_eq_false_iff, Bool.not_eq_false', Bool.or_eq_true, h.window hon, h.config, decide_eq_false_iff_not]
      unfold Split
      rw [show 2 ≤ delta.ids.length ↔ ¬delta.ids.length = 1 from ⟨fun h' => by omega, fun h' => by omega⟩]
    rw [hplan]
    refine ⟨_, _, rfl, hmid, ?_⟩
    unfold Stream.planPieces
    by_cases hc : Split s₀.config.markers turns delta
    · refine Or.inr ⟨hon, hc, own, pieces, by rw [h.texts hon, hs]; rfl, hp, hlen, ?_⟩
      simp only
      rw [if_neg (by rw [hcond.mpr hc]; simp)]
    · refine Or.inl ⟨?_, fun h' => hc h'.2⟩
      simp only
      rw [if_pos (by rw [← Bool.not_eq_false, hcond]; exact hc)]

end InStep

/-! ## The sub-calls -/

/-- The sub-calls made are an initial part of those planned, all of them unless one raised. -/
theorem feed_calls {π : Type} (original : π → Delta → Call π (Option DeltaMessage)) :
    ∀ (deltas : List Delta) (parser : π), (feed original parser deltas).calls <+: deltas ∧
      ((feed original parser deltas).raised = none →
        (feed original parser deltas).calls = deltas ∧ (feed original parser deltas).results.length = deltas.length)
  | [], _ => ⟨List.prefix_rfl, fun _ => ⟨rfl, rfl⟩⟩
  | delta :: deltas, parser => by
    rw [feed]
    cases (original parser delta).result with
    | error e => exact ⟨⟨deltas, rfl⟩, fun h => (by cases h)⟩
    | ok message =>
      obtain ⟨h1, h2⟩ := feed_calls original deltas (original parser delta).obj
      exact ⟨List.prefix_cons_inj _ |>.mpr h1, fun h => ⟨by simp [(h2 h).1], by simp [(h2 h).2]⟩⟩

/-- A delta fed whole is one call, whether or not it raises. -/
theorem feed_whole {π : Type} (original : π → Delta → Call π (Option DeltaMessage)) (parser : π) (delta : Delta) :
    (feed original parser [delta]).calls = [delta] := by
  rw [feed]
  cases (original parser delta).result <;> rfl

theorem subCalls_text (delta : Delta) (plan : List (String × List Nat)) :
    (subCalls delta (some plan)).map Delta.text = plan.map Prod.fst := by
  apply List.ext_getElem?
  intro i
  simp only [subCalls, List.getElem?_map, List.getElem?_mapIdx, Option.map_map]
  rfl

theorem subCalls_ids (delta : Delta) (plan : List (String × List Nat)) :
    (subCalls delta (some plan)).map Delta.ids = plan.map Prod.snd := by
  apply List.ext_getElem?
  intro i
  simp only [subCalls, List.getElem?_map, List.getElem?_mapIdx, Option.map_map]
  rfl

/-- The sub-calls that feed a delta one token at a time. -/
theorem subCalls_split {delta : Delta} {pieces : List String} (hlen : pieces.length = delta.ids.length) {i : Nat}
    {call : Delta}
    (h : (subCalls delta (some (pieces.zip (delta.ids.map fun id => [id]))))[i]? = some call) :
    ∃ piece id, pieces[i]? = some piece ∧ delta.ids[i]? = some id ∧ call = { delta with
      text := piece, ids := [id], finished := delta.finished && decide (i + 1 = delta.ids.length) } := by
  simp only [subCalls, List.getElem?_mapIdx, Option.map_eq_some_iff, List.length_zip, List.length_map, hlen,
    Nat.min_self] at h
  obtain ⟨p, hp, rfl⟩ := h
  obtain ⟨hpiece, hid⟩ := List.getElem?_zip_eq_some.mp hp
  rw [List.getElem?_map, Option.map_eq_some_iff] at hid
  obtain ⟨id, hid, heq⟩ := hid
  exact ⟨p.1, id, hpiece, hid, by rw [heq]⟩

/-- A delta that is fed whole is passed on. -/
theorem Passed.whole {t : Turn} (h : t.calls = [t.delta]) : Passed t where
  ids := by simp only [h, List.flatMap_singleton, List.prefix_rfl]
  all _ _ := by rw [h]; simp [String.join_cons]
  finished i call hc hf := by
    rw [h] at hc ⊢
    obtain ⟨hi, rfl⟩ := List.getElem?_eq_some_iff.mp hc
    simp only [List.length_singleton, Nat.lt_one_iff] at hi
    subst hi
    exact ⟨hf, rfl⟩

/-- A delta that is fed one token at a time is passed on. -/
theorem Passed.split {t : Turn} {own pieces : List String} (hp : Pieces own t.delta pieces)
    (hlen : pieces.length = t.delta.ids.length) (hids : t.delta.ids ≠ [])
    (hpre : t.calls <+: subCalls t.delta (some (pieces.zip (t.delta.ids.map fun id => [id]))))
    (hall : ∀ m, t.result = .ok m →
      t.calls = subCalls t.delta (some (pieces.zip (t.delta.ids.map fun id => [id])))) :
    Passed t ∧ OneByOne t.delta pieces t.calls := by
  have hflat : (subCalls t.delta (some (pieces.zip (t.delta.ids.map fun id => [id])))).flatMap Delta.ids =
      t.delta.ids := by
    rw [List.flatMap_def, subCalls_ids, List.map_snd_zip (by simp [hlen]), ← List.flatMap_def,
      List.flatMap_singleton']
  have hcount : (subCalls t.delta (some (pieces.zip (t.delta.ids.map fun id => [id])))).length =
      t.delta.ids.length := by
    simp [subCalls, hlen]
  obtain ⟨rest, hrest⟩ := hpre
  have hcall : ∀ i call, t.calls[i]? = some call → ∃ piece id, pieces[i]? = some piece ∧ t.delta.ids[i]? = some id ∧
      call = { t.delta with
        text := piece, ids := [id], finished := t.delta.finished && decide (i + 1 = t.delta.ids.length) } :=
    fun i call hc => subCalls_split hlen
      (by rw [← hrest, List.getElem?_append_left (List.getElem?_eq_some_iff.mp hc).1, hc])
  refine ⟨⟨?_, fun m hm => ?_, fun i call hc hf => ?_⟩, hcall⟩
  · exact ⟨rest.flatMap Delta.ids, by rw [← List.flatMap_append, hrest, hflat]⟩
  · rw [hall m hm]
    refine ⟨hflat, ?_, ?_⟩
    · rw [subCalls_text, List.map_fst_zip (by simp [hlen]), hp.join]
    · rw [List.getLast?_eq_getElem?, hcount]
      have hpos := List.length_pos_iff.mpr hids
      obtain ⟨call, hc⟩ : ∃ call, (subCalls t.delta (some (pieces.zip (t.delta.ids.map fun id =>
          [id]))))[t.delta.ids.length - 1]? = some call := by
        exact ⟨_, List.getElem?_eq_getElem (by rw [hcount]; omega)⟩
      rw [hc]
      obtain ⟨piece, id, -, -, rfl⟩ := subCalls_split hlen hc
      simp [show t.delta.ids.length - 1 + 1 = t.delta.ids.length by omega]
  · obtain ⟨piece, id, -, -, rfl⟩ := hcall i call hc
    simp only [Bool.and_eq_true, decide_eq_true_eq] at hf
    have hlt := (List.getElem?_eq_some_iff.mp hc).1
    have hle : t.calls.length ≤ t.delta.ids.length := by
      rw [← hcount, ← hrest, List.length_append]
      exact Nat.le_add_right _ _
    exact ⟨hf.1, by omega⟩

/-! ## A turn -/

/-- At most one sub-result merges. -/
theorem merge_short (construct : DeltaMessage → Except PyError DeltaMessage) {results : List (Option DeltaMessage)}
    (h : results.length ≤ 1) :
    ∃ m, merge construct true results = .ok m := by
  match results, h with
  | [], _ => exact ⟨none, rfl⟩
  | [none], _ => exact ⟨none, rfl⟩
  | [some m], _ => exact ⟨some m, rfl⟩

namespace Planned

variable {s₀ s : Stream δ} {turns : List Turn} {t : Turn}

/-- A turn that raised leaves the state as planned. -/
theorem raised (h : Planned construct s₀ turns t.delta s) {e : PyError} (he : t.result = .error e) :
    InStep construct s₀ (turns ++ [t]) s where
  config := h.config
  on := by
    rw [on_snoc, h.on]
    have : ¬MergeFails construct t := fun ⟨⟨m, hm⟩, _⟩ => by rw [he] at hm; cases hm
    tauto
  decoding := by rw [idsOf_snoc]; exact h.decoding
  tool := by rw [idsOf_snoc]; exact h.tool
  nonws hon := by
    rw [h.nonws hon]
    constructor
    · rintro ⟨u, hu, hm⟩
      exact ⟨u, List.mem_append_left _ hu, hm⟩
    · rintro ⟨u, hu, m, hm, hb⟩
      rcases List.mem_append.mp hu with hu | hu
      · exact ⟨u, hu, m, hm, hb⟩
      · rw [List.mem_singleton.mp hu, he] at hm
        cases hm

/-- A turn that returned observes its message, unless its plan or its merge switched the stream off. -/
theorem returned (h : Planned construct s₀ turns t.delta s) {m : Option DeltaMessage} (hm : t.result = .ok m)
    {s' : Stream δ} (hs' : s' = s ∧ ¬MergeFails construct t ∨ s' = s.switchOff ∧ MergeFails construct t) :
    InStep construct s₀ (turns ++ [t]) (if s'.on then s'.observe m else s') := by
  rcases hs' with ⟨rfl, hmerge⟩ | ⟨rfl, hmerge⟩
  · have hobserved : InStep construct s₀ (turns ++ [t]) (s'.observe m) := by
      refine ⟨h.config, ?_, ?_, ?_, fun hon => ?_⟩
      · rw [on_snoc]
        exact h.on.trans (by tauto)
      · rw [idsOf_snoc]; exact h.decoding
      · rw [idsOf_snoc]; exact h.tool
      · simp only [Stream.observe, Bool.or_eq_true, h.nonws hon, List.mem_append, List.mem_singleton]
        constructor
        · rintro (⟨u, hu, hrest⟩ | hb)
          · exact ⟨u, Or.inl hu, hrest⟩
          · exact ⟨t, Or.inr rfl, m, hm, hb⟩
        · rintro ⟨u, hu | rfl, m', hm', hb⟩
          · exact Or.inl ⟨u, hu, m', hm', hb⟩
          · rw [hm] at hm'
            cases hm'
            exact Or.inr hb
    by_cases hon : s'.on = true
    · rwa [if_pos hon]
    · rw [if_neg hon]
      exact ⟨h.config, hobserved.on, fun h' => absurd h' hon, fun h' => absurd h' hon, fun h' => absurd h' hon⟩
  · rw [if_neg (by simp [Stream.switchOff])]
    refine ⟨h.config, ?_, fun h' => (by cases h'), fun h' => (by cases h'), fun h' => (by cases h')⟩
    rw [on_snoc]
    exact ⟨fun h' => (by cases h'), fun h' => absurd hmerge h'.2.2⟩

end Planned

section Turns

variable {π : Type} {host : Host δ} {original : π → Delta → Call π (Option DeltaMessage)}

/-- The wrapped call, by whether a sub-call raised. -/
theorem parseDelta_cases {w : Wrapped δ π} {delta : Delta} {stream : Option (Stream δ)}
    {plan : Option (List (String × List Nat))} (hp : planned (current host w delta) delta = (stream, plan)) :
    ∃ fed, feed original w.parser (subCalls delta plan) = fed ∧
      ((∃ e, fed.raised = some e ∧ parseDelta host original construct w delta =
        (⟨fed.parser, if host.attributes then some stream else w.state⟩, ⟨delta, fed.calls, fed.results, .error e⟩)) ∨
      fed.raised = none ∧ parseDelta host original construct w delta =
        (⟨fed.parser, if host.attributes then some (observed (merged construct stream plan fed.results).1
            (merged construct stream plan fed.results).2) else w.state⟩,
          ⟨delta, fed.calls, fed.results, .ok (merged construct stream plan fed.results).2⟩)) := by
  refine ⟨_, rfl, ?_⟩
  unfold parseDelta finish
  simp only [hp]
  cases (feed original w.parser (subCalls delta plan)).raised with
  | some e => exact Or.inl ⟨e, rfl, rfl⟩
  | none => exact Or.inr ⟨rfl, rfl⟩

/-- Where M does not apply, each delta is fed whole. -/
theorem turn_inactive (original : π → Delta → Call π (Option DeltaMessage))
    (construct : DeltaMessage → Except PyError DeltaMessage) {w : Wrapped δ π} {delta : Delta}
    (hcur : current host w delta = none) (turns : List Turn) :
    Served construct (none : Option (Stream δ)) turns (parseDelta host original construct w delta).2 ∧
      (parseDelta host original construct w delta).2.delta = delta ∧
      (host.attributes = true → (parseDelta host original construct w delta).1.state = some none) := by
  have hcalls := feed_whole original w.parser delta
  have served : ∀ t : Turn, t.calls = [t.delta] → Served construct (none : Option (Stream δ)) turns t := fun t ht =>
    ⟨.whole ht, fun _ => ht, fun _ h => (by cases h), fun _ h => (by cases h), fun _ h => (by cases h)⟩
  have hplanned : planned (current host w delta) delta = (none, none) := by rw [hcur]; rfl
  obtain ⟨fed, rfl, ⟨e, -, heq⟩ | ⟨-, heq⟩⟩ := parseDelta_cases hplanned <;> rw [heq]
  · exact ⟨served _ hcalls, rfl, fun hattr => by simp only [hattr, if_true]⟩
  · exact ⟨served _ hcalls, rfl, fun hattr => by simp only [hattr, if_true]; rfl⟩

/-- One turn of an open stream does what it owes its delta, and keeps the state in step. -/
theorem InStep.turn {s₀ s : Stream δ} {turns : List Turn} (h : InStep construct s₀ turns s)
    (original : π → Delta → Call π (Option DeltaMessage)) {w : Wrapped δ π} {delta : Delta}
    (hattr : host.attributes = true) (hcur : current host w delta = some s) :
    Served construct (some s₀) turns (parseDelta host original construct w delta).2 ∧
      (parseDelta host original construct w delta).2.delta = delta ∧
      ∃ s', (parseDelta host original construct w delta).1.state = some (some s') ∧
        InStep construct s₀ (turns ++ [(parseDelta host original construct w delta).2]) s' := by
  obtain ⟨s₁, plan, hplanned, hmid, hshape⟩ := h.plan delta
  obtain ⟨hpre, hall⟩ := feed_calls original (subCalls delta plan) w.parser
  -- what is owed follows from the plan, whatever the turn returned
  have served : ∀ t : Turn, t.delta = delta → t.calls = (feed original w.parser (subCalls delta plan)).calls →
      (∀ m, t.result = .ok m → t.calls = subCalls delta plan) → Served construct (some s₀) turns t := by
    rintro t rfl hcalls hfull
    rcases hshape with ⟨rfl, hnot⟩ | ⟨hon, hsplit, own, pieces, htexts, hp, hlen, rfl⟩
    · have hwhole : t.calls = [t.delta] := hcalls.trans (feed_whole original w.parser t.delta)
      exact ⟨.whole hwhole, fun h' => (by cases h'), fun s hs hons hjoins hsplit => by
        cases hs; exact absurd ⟨hmid.on.mpr ⟨hons, hjoins⟩, hsplit⟩ hnot, fun _ _ _ => hwhole, fun _ _ _ => hwhole⟩
    · have hids : t.delta.ids ≠ [] := by
        intro hnil
        have := hsplit.1
        rw [hnil] at this
        cases this
      obtain ⟨hpassed, hone⟩ := Passed.split hp hlen hids (hcalls ▸ hpre) hfull
      refine ⟨hpassed, fun h' => (by cases h'), fun s hs _ _ _ => ?_, fun s hs hnot => ?_, fun s hs hnot => ?_⟩
      · cases hs
        exact ⟨own, pieces, htexts, hp, hone⟩
      · cases hs
        exact absurd hsplit hnot
      · cases hs
        exact absurd (hmid.on.mp hon) hnot
  rw [← hcur] at hplanned
  obtain ⟨fed, hfed, ⟨e, -, heq⟩ | ⟨hraised, heq⟩⟩ := parseDelta_cases hplanned <;>
    rw [heq] <;> rw [hfed] at hall served
  · refine ⟨served _ rfl rfl fun m hm => (by cases hm), rfl, s₁, by simp only [hattr, if_true], ?_⟩
    exact hmid.raised rfl
  · obtain ⟨hcalls, hresults⟩ := hall hraised
    refine ⟨served _ rfl rfl fun m _ => hcalls, rfl, ?_⟩
    simp only [hattr, if_true]
    cases plan with
    | none =>
      refine ⟨_, rfl, hmid.returned rfl (Or.inl ⟨rfl, fun hm => ?_⟩)⟩
      obtain ⟨-, e, he⟩ := hm
      obtain ⟨m, hm⟩ := merge_short construct hresults.le
      rw [hm] at he
      cases he
    | some plan =>
      refine ⟨_, rfl, hmid.returned rfl ?_⟩
      unfold Stream.merge
      cases hm : Parser.merge construct true fed.results with
      | ok m =>
        refine Or.inl ⟨rfl, fun hfail => ?_⟩
        obtain ⟨-, e, he⟩ := hfail
        rw [hm] at he
        cases he
      | error e => exact Or.inr ⟨rfl, ⟨_, rfl⟩, e, hm⟩

/-- The deltas of a request, one after the other. -/
def TurnStep (host : Host δ) (original : π → Delta → Call π (Option DeltaMessage))
    (construct : DeltaMessage → Except PyError DeltaMessage) (w : Wrapped δ π) (t : Turn) (w' : Wrapped δ π) : Prop :=
  parseDelta host original construct w t.delta = (w', t)

/-- The turns of a list of deltas. -/
def serve (host : Host δ) (original : π → Delta → Call π (Option DeltaMessage))
    (construct : DeltaMessage → Except PyError DeltaMessage) (w : Wrapped δ π) : List Delta → Wrapped δ π × List Turn
  | [] => (w, [])
  | delta :: deltas =>
    let turn := parseDelta host original construct w delta
    ((serve host original construct turn.1 deltas).1, turn.2 :: (serve host original construct turn.1 deltas).2)

/-- They are a run. -/
theorem serve_run (host : Host δ) (original : π → Delta → Call π (Option DeltaMessage))
    (construct : DeltaMessage → Except PyError DeltaMessage) (w : Wrapped δ π) (deltas : List Delta) :
    Run (TurnStep host original construct) w (serve host original construct w deltas).2
      (serve host original construct w deltas).1 := by
  induction deltas generalizing w with
  | nil => exact .nil
  | cons delta deltas ih =>
    have hdelta : (parseDelta host original construct w delta).2.delta = delta := by
      have hp : planned (current host w delta) delta = (_, _) := Prod.ext rfl rfl
      obtain ⟨fed, -, ⟨e, -, heq⟩ | ⟨-, heq⟩⟩ := parseDelta_cases hp <;> rw [heq]
    have hstep : TurnStep host original construct w (parseDelta host original construct w delta).2
        (parseDelta host original construct w delta).1 := by
      rw [TurnStep, hdelta]
    exact (Run.single hstep).append (ih _)

/-- The stream that the first delta opens. -/
def opened (host : Host δ) (turns : List Turn) : Option (Stream δ) :=
  if host.attributes then turns.head?.bind fun t => openStream host t.delta.request t.delta.promptTokenIds else none

/-- A stream is opened on, with the window shut. -/
theorem openStream_fresh {request : Request} {promptTokenIds : Option (List Nat)} {s : Stream δ}
    (h : openStream host request promptTokenIds = some s) :
    s.on = true ∧ (s.toolSeen = false ∧ s.inTool = false) ∧ s.nonwsContent = false := by
  unfold openStream at h
  split at h
  · cases h
  obtain ⟨decodeStream, -, h⟩ := Option.bind_eq_some_iff.mp h
  cases hi : Stream.init decodeStream host.added host.markers promptTokenIds request with
  | error e => rw [hi] at h; cases h
  | ok s' =>
    rw [hi] at h
    cases h
    unfold Stream.init at hi
    obtain ⟨added, -, hi⟩ := bind_ok hi
    cases hnew : decodeStream.new ((promptTokenIds.getD []).drop ((promptTokenIds.getD []).length - PRIME_TOKENS))
      request.skipSpecialTokens with
    | error e => rw [hnew] at hi; cases hi
    | ok decoder =>
      rw [hnew] at hi
      cases hi
      exact ⟨rfl, ⟨rfl, rfl⟩, rfl⟩

/-- What is kept on the parser between two deltas. -/
structure Kept (host : Host δ) (construct : DeltaMessage → Except PyError DeltaMessage) (turns : List Turn)
    (w : Wrapped δ π) : Prop where
  fresh : turns = [] → w.state = none
  inactive : host.attributes = true → turns ≠ [] → opened host turns = none → w.state = some none
  inStep : ∀ s₀, opened host turns = some s₀ → ∃ s, w.state = some (some s) ∧ InStep construct s₀ turns s

/-- The stream of the next delta, against the stream that was opened. -/
theorem Kept.current {turns : List Turn} {w : Wrapped δ π} (h : Kept host construct turns w) (t : Turn) :
    opened host (turns ++ [t]) = none ∧ current host w t.delta = none ∨
      ∃ s₀ s, opened host (turns ++ [t]) = some s₀ ∧ host.attributes = true ∧ current host w t.delta = some s ∧
        InStep construct s₀ turns s := by
  unfold Parser.current
  by_cases hattr : host.attributes = true
  swap
  · exact Or.inl ⟨by rw [opened, if_neg hattr], by rw [if_neg hattr]⟩
  rw [if_pos hattr]
  cases turns with
  | nil =>
    have hopen : opened host ([] ++ [t]) = openStream host t.delta.request t.delta.promptTokenIds := by
      rw [opened, if_pos hattr]; rfl
    rw [hopen, h.fresh rfl]
    cases hs : openStream host t.delta.request t.delta.promptTokenIds with
    | none => exact Or.inl ⟨rfl, rfl⟩
    | some s =>
      obtain ⟨hon, htool, hnonws⟩ := openStream_fresh hs
      exact Or.inr ⟨s, s, rfl, hattr, rfl, .init hon htool hnonws⟩
  | cons u turns =>
    have hopen : opened host (u :: turns ++ [t]) = opened host (u :: turns) := rfl
    rw [hopen]
    cases hs : opened host (u :: turns) with
    | none => exact Or.inl ⟨rfl, by rw [h.inactive hattr (by simp) hs]; rfl⟩
    | some s₀ =>
      obtain ⟨s, hstate, hin⟩ := h.inStep s₀ hs
      exact Or.inr ⟨s₀, s, rfl, hattr, by rw [hstate]; rfl, hin⟩

/-- A turn is served, and what it keeps on the parser is in step again. -/
theorem Kept.turn {turns : List Turn} {w w' : Wrapped δ π} {t : Turn} (h : Kept host construct turns w)
    (ht : TurnStep host original construct w t w') :
    Served construct (opened host (turns ++ [t])) turns t ∧ Kept host construct (turns ++ [t]) w' := by
  rcases h.current t with ⟨hopen, hcur⟩ | ⟨s₀, s, hopen, hattr, hcur, hin⟩
  · obtain ⟨hserved, -, hstate⟩ := turn_inactive original construct hcur turns
    rw [show parseDelta host original construct w t.delta = (w', t) from ht] at hserved hstate
    rw [hopen]
    exact ⟨hserved, fun h' => (by simp at h'), fun hattr _ _ => hstate hattr,
      fun s₀ hs => (by rw [hopen] at hs; cases hs)⟩
  · obtain ⟨hserved, -, s', hstate, hin'⟩ := hin.turn original hattr hcur
    rw [show parseDelta host original construct w t.delta = (w', t) from ht] at hserved hstate hin'
    rw [hopen]
    refine ⟨hserved, fun h' => (by simp at h'), fun _ _ hs => (by rw [hopen] at hs; cases hs), fun s₁ hs => ?_⟩
    rw [hopen] at hs
    cases hs
    exact ⟨s', hstate, hin'⟩

/-- Every turn of a run is served. -/
theorem run_served {parser : π} {turns : List Turn} {w : Wrapped δ π}
    (h : Run (TurnStep host original construct) ⟨parser, none⟩ turns w) :
    Kept host construct turns w ∧
      ∀ i t, turns[i]? = some t → Served construct (opened host turns) (turns.take i) t := by
  refine Run.invariant (P := fun turns w => Kept host construct turns w ∧
    ∀ i t, turns[i]? = some t → Served construct (opened host turns) (turns.take i) t) ?_ ?_ h
  · refine ⟨⟨fun _ => rfl, fun _ hne => absurd rfl hne, fun s₀ hs => ?_⟩, fun i t hi => (by simp at hi)⟩
    unfold opened at hs
    split at hs <;> cases hs
  · intro turns w t w' _ hk ht
    obtain ⟨hserved, hkept⟩ := hk.1.turn ht
    refine ⟨hkept, fun i u hu => ?_⟩
    rcases Nat.lt_or_ge i turns.length with hlt | hge
    · rw [List.getElem?_append_left hlt] at hu
      rw [List.take_append_of_le_length hlt.le]
      have hsame : opened host (turns ++ [t]) = opened host turns := by
        cases turns with
        | nil => cases hlt
        | cons _ _ => rfl
      rw [hsame]
      exact hk.2 i u hu
    · obtain ⟨hi, hu⟩ := List.getElem?_eq_some_iff.mp hu
      obtain rfl : i = turns.length := by simp at hi; omega
      simp only [List.getElem_concat_length] at hu
      rw [List.take_left, ← hu]
      exact hserved

/-- **Re-chunking preserves the stream.** Over every run of the wrapped `parse_delta`, around any stock parser and any
decode stream, and however the engine splits its tokens: each turn is `Served`; from the first delta whose pieces do not
join on, each delta is fed whole; and unless the parser raises, the tokens passed on are the engine's, in order and each
once. -/
theorem rechunk_preserves {parser : π} {turns : List Turn} {w : Wrapped δ π}
    (h : Run (TurnStep host original construct) ⟨parser, none⟩ turns w) :
    (∀ i t, turns[i]? = some t → Served construct (opened host turns) (turns.take i) t) ∧
      (∀ s i t, opened host turns = some s → turns[i]? = some t → ¬Joins s (idsOf (turns.take i)) t.delta →
        ∀ j u, i ≤ j → turns[j]? = some u → u.calls = [u.delta]) ∧
      ((∀ t ∈ turns, ∃ m, t.result = .ok m) →
        turns.flatMap (fun t => t.calls.flatMap Delta.ids) = idsOf turns) := by
  have hserved := (run_served h).2
  refine ⟨hserved, fun s i t hs hi hjoins j u hij hj => ?_, fun hok => ?_⟩
  · refine (hserved j u hj).off s hs fun ⟨hon, hjoined⟩ => hjoins ?_
    rcases Nat.eq_or_lt_of_le hij with rfl | hlt
    · rw [hi] at hj
      cases hj
      exact hjoined
    · have := (hon i t (by rw [List.getElem?_take_of_lt hlt, hi])).1
      rwa [List.take_take, Nat.min_eq_left hlt.le] at this
  · unfold idsOf
    rw [List.flatMap_def, List.flatMap_def]
    congr 1
    refine List.map_congr_left fun t ht => ?_
    obtain ⟨i, hi⟩ := List.mem_iff_getElem?.mp ht
    obtain ⟨m, hm⟩ := hok t ht
    exact ((hserved i t hi).passed.all m hm).1

end Turns

end

/-! ## Where the stream is not re-chunked -/

def sampleText : Nat → String
  | 1 => "</tool_call>"
  | 2 => "<|im_end|>"
  | 3 => "<tool_call>"
  | 6 => " "
  | _ => "a"

/-- A parser whose engines match three ids, over a tokenizer that renders each token by itself. -/
def sampleHost : Host Unit where
  attributes := true
  engineBased := true
  resolvedTokenIds := [[(1, .TOOL_END), (2, .other "EOS"), (3, .TOOL_START)]]
  fastBackend := true
  added := .ok []
  decodeStream := some ⟨fun _ _ => .ok (), fun _ id => ((), .ok (some (sampleText id)))⟩

/-- A stock parser that returns nothing. -/
def sampleParser (_ : Unit) (_ : Delta) : Call Unit (Option DeltaMessage) := Call.ret () none

def sampleServe (w : Wrapped Unit Unit) (text : String) (ids : List Nat) (finished : Bool) :
    Wrapped Unit Unit × Turn :=
  parseDelta sampleHost sampleParser .ok w ⟨text, ids, ⟨false, true⟩, none, finished⟩

/-- A tool call's end and a stop token, whose text the engine leaves out. -/
def stopTurn : Wrapped Unit Unit × Turn := sampleServe ⟨(), none⟩ "</tool_call>" [1, 2] true

/-- A tool call's end where none was opened, and two tokens after it. -/
def strayTurn : Wrapped Unit Unit × Turn := sampleServe ⟨(), none⟩ "</tool_call>" [1] false
def strayNext : Wrapped Unit Unit × Turn := sampleServe strayTurn.1 "aa" [4, 5] false

/-- Text that comes without tokens, and a tool call's start after it. -/
def emptyTurn : Wrapped Unit Unit × Turn := sampleServe ⟨(), none⟩ "a" [] false
def emptyNext : Wrapped Unit Unit × Turn := sampleServe emptyTurn.1 "<tool_call>a" [3, 4] true

/-- The steps of the sample parser. -/
abbrev SampleStep : Wrapped Unit Unit → Turn → Wrapped Unit Unit → Prop :=
  TurnStep sampleHost sampleParser .ok

theorem stop_run : Run SampleStep ⟨(), none⟩ [stopTurn.2] stopTurn.1 :=
  Run.single (show SampleStep _ _ _ from rfl)

theorem stray_run : Run SampleStep ⟨(), none⟩ [strayTurn.2, strayNext.2] strayNext.1 :=
  (Run.single (show SampleStep ⟨(), none⟩ strayTurn.2 strayTurn.1 from rfl)).snoc
    (show SampleStep strayTurn.1 strayNext.2 strayNext.1 from rfl)

theorem empty_run : Run SampleStep ⟨(), none⟩ [emptyTurn.2, emptyNext.2] emptyNext.1 :=
  (Run.single (show SampleStep ⟨(), none⟩ emptyTurn.2 emptyTurn.1 from rfl)).snoc
    (show SampleStep emptyTurn.1 emptyNext.2 emptyNext.1 from rfl)

theorem stray_on {s : Stream Unit} (hs : opened sampleHost [strayTurn.2] = some s) :
    On Except.ok s [strayTurn.2] ∧ ¬ToolOpen s.config.markers (idsOf [strayTurn.2]) := by
  cases hs
  refine ⟨fun i t hi => ?_, fun h => ?_⟩
  · cases i with
    | zero =>
      cases hi
      refine ⟨Or.inr ⟨["</tool_call>"], _, rfl, Or.inl ⟨by decide, rfl⟩⟩, ?_⟩
      rintro ⟨-, e, he⟩
      cases he
    | succ i => simp at hi
  · have := (foldl_mark _ _).2.mpr h
    revert this
    decide

/-- **Three things that are not so.** A stop token in a delta that is fed one token at a time comes with no text, not
its own; a tool call's end opens no window where no tool call was opened; and text that comes without tokens does not
switch the request to the stock path. -/
theorem rechunk_disagrees :
    (Run SampleStep ⟨(), none⟩ [stopTurn.2] stopTurn.1 ∧ ∃ s own, opened sampleHost [stopTurn.2] = some s ∧
      Joins s [] stopTurn.2.delta ∧ Split s.config.markers [] stopTurn.2.delta ∧
      s.texts [] stopTurn.2.delta.ids = some own ∧ stopTurn.2.calls.map Delta.text ≠ own) ∧
    (Run SampleStep ⟨(), none⟩ [strayTurn.2, strayNext.2] strayNext.1 ∧ ∃ s, opened sampleHost [strayTurn.2] = some s ∧
      (∃ id ∈ strayTurn.2.delta.ids, s.config.markers.get? id = some .TOOL_END) ∧
      ¬ToolOpen s.config.markers (idsOf [strayTurn.2]) ∧ strayTurn.2.result = .ok none ∧ On .ok s [strayTurn.2] ∧
      Joins s (idsOf [strayTurn.2]) strayNext.2.delta ∧ 2 ≤ strayNext.2.delta.ids.length ∧
      strayNext.2.calls = [strayNext.2.delta]) ∧
    Run SampleStep ⟨(), none⟩ [emptyTurn.2, emptyNext.2] emptyNext.1 ∧ emptyTurn.2.delta.ids = [] ∧
      emptyTurn.2.delta.text ≠ String.join [] ∧ emptyNext.2.calls ≠ [emptyNext.2.delta] := by
  refine ⟨⟨stop_run, _, ["</tool_call>", "<|im_end|>"], rfl, ?_, ⟨by decide, Or.inl (by decide)⟩, rfl, by decide⟩,
    ⟨stray_run, _, rfl, ⟨1, by decide, by decide⟩, (stray_on rfl).2, rfl, (stray_on rfl).1, ?_, by decide, rfl⟩,
    empty_run, rfl, by decide, by decide⟩
  · exact Or.inr ⟨_, ["</tool_call>", ""], rfl, Or.inr ⟨by decide, rfl, by decide, rfl⟩⟩
  · exact Or.inr ⟨["a", "a"], _, rfl, Or.inl ⟨by decide, rfl⟩⟩

/-- A stock parser that passes on, as content, the text of the tokens from `5` on. -/
def echoParser (_ : Unit) (delta : Delta) : Call Unit (Option DeltaMessage) :=
  Call.ret () (if delta.ids.all (5 ≤ ·) then some ⟨none, some delta.text, none, []⟩ else none)

/-- The deltas of a request, each with its tokens. -/
def sampleDeltas : List Delta :=
  [("<tool_call>", [3]), ("a</tool_call>", [4, 1]), ("  ", [6, 6]), ("aa", [5, 5]), ("aa", [5, 5]), ("x", [5, 5]),
    ("<tool_call>a", [3, 4])].map fun p => ⟨p.1, p.2, ⟨false, true⟩, none, false⟩

/-- The sample parser's turns over them. -/
def sampleTurns : List Turn := (serve sampleHost echoParser .ok ⟨(), none⟩ sampleDeltas).2

/-- A tool call's end is split, and so are the blanks in the window behind it and the text that ends it; the text after
that stays whole, and from the delta that does not join on everything does. -/
theorem rechunk_preserves_sample :
    sampleTurns.map (fun t => t.calls.map Delta.text) = [["<tool_call>"], ["a", "</tool_call>"], [" ", " "], ["a", "a"],
      ["aa"], ["x"], ["<tool_call>a"]] ∧
    sampleTurns.flatMap (fun t => t.calls.flatMap Delta.ids) = idsOf sampleTurns ∧
    ∀ i t, sampleTurns[i]? = some t → Served Except.ok (opened sampleHost sampleTurns) (sampleTurns.take i) t := by
  obtain ⟨hserved, -, hall⟩ := rechunk_preserves (serve_run sampleHost echoParser .ok ⟨(), none⟩ sampleDeltas)
  refine ⟨by decide +kernel, hall fun t ht => ?_, hserved⟩
  have hreturned : sampleTurns.all (fun t => t.result.isOk) = true := by decide +kernel
  have hok := List.all_eq_true.mp hreturned t ht
  cases hresult : t.result with
  | ok m => exact ⟨m, rfl⟩
  | error e => rw [hresult] at hok; cases hok

end BlackholeQwen.Parser
