import BlackholeQwen.Lib.Call
import Mathlib.Data.List.Nodup

/-!
# The command line of the server (`serving_c2_contract.py`)

At boot every engine flag that a profile owns is dropped from the platform's command line, with its value, and the
profile's own arguments are appended.

- `Platform`: the platform's part of a command line, in its order.
- `launched_exact`: whatever the platform passes, the engine is launched with the platform's part and, for every owned
  flag, with the profile's value alone.
- `rewrite_rewrite`: of two rewritings the last one counts.
-/

namespace BlackholeQwen.Serving.EngineArgv

open Lib

/-- A token of a command line. -/
abbrev ArgToken : Type := List Char

/-- `OWNED_FLAGS`: the engine flags that a profile owns, and whether each takes a value. -/
def OWNED_FLAGS : List (ArgToken × Bool) :=
  [("model".toList, true), ("dtype".toList, true), ("max-model-len".toList, true), ("max-num-seqs".toList, true),
    ("max-num-batched-tokens".toList, true), ("block-size".toList, true), ("num-gpu-blocks-override".toList, true),
    ("limit-mm-per-prompt".toList, true), ("shutdown-timeout".toList, true), ("additional-config".toList, true),
    ("speculative-config".toList, true), ("gpu-memory-utilization".toList, true), ("kv-cache-dtype".toList, true),
    ("enable-prefix-caching".toList, false), ("no-enable-prefix-caching".toList, false),
    ("async-scheduling".toList, false), ("no-async-scheduling".toList, false),
    ("enable-chunked-prefill".toList, false), ("no-enable-chunked-prefill".toList, false),
    ("enforce-eager".toList, false), ("no-enforce-eager".toList, false), ("prefix-caching-hash-algo".toList, true)]

/-- The flag of a token that starts with two dashes, its underscores read as dashes, and the value after the sign. -/
def flagOf : ArgToken → Option (ArgToken × Option ArgToken)
  | '-' :: '-' :: rest =>
    some ((rest.takeWhile (· ≠ '=')).map (fun c => if c = '_' then '-' else c), (rest.dropWhile (· ≠ '=')).tail?)
  | _ => none

/-- Whether a token is an owned flag, and if so whether its value is the next token. -/
def ownedFlag (token : ArgToken) : Option Bool :=
  (flagOf token).bind fun flag => (OWNED_FLAGS.lookup flag.1).map (· && flag.2.isNone)

/-- `launched_values`: what a command line gives a flag. -/
def launchedValues (flag : ArgToken) : List ArgToken → List ArgToken
  | [] => []
  | token :: rest =>
    match flagOf token with
    | some (name, value) =>
      if name = flag then value.getD (rest.headD []) :: launchedValues flag rest else launchedValues flag rest
    | none => launchedValues flag rest

/-- The loop of `rewrite_argv`. -/
def keptTokens : List ArgToken → Bool → List ArgToken
  | [], _ => []
  | _ :: rest, true => keptTokens rest false
  | token :: rest, false =>
    match ownedFlag token with
    | some skip => keptTokens rest skip
    | none => token :: keptTokens rest false

/-- A value of a profile's engine table; a text is what is printed of it once the snapshot is filled in. -/
inductive EngineValue
  | switch (on : Bool)
  | null
  | text (print : ArgToken → ArgToken)

/-- A profile's engine table: every flag once, and each as `OWNED_FLAGS` has it. -/
structure Engine where
  items : List (ArgToken × EngineValue)
  nodup : (items.map Prod.fst).Nodup
  texts : ∀ key print, (key, .text print) ∈ items → OWNED_FLAGS.lookup key = some true
  switches : ∀ key, (key, .switch true) ∈ items → OWNED_FLAGS.lookup key = some false

/-- The tokens of an item. -/
def itemTokens (snapshot : ArgToken) (item : ArgToken × EngineValue) : List ArgToken :=
  match item.2 with
  | .switch true => ['-' :: '-' :: item.1]
  | .switch false => []
  | .null => []
  | .text print => ['-' :: '-' :: item.1, print snapshot]

/-- `engine_arguments`. -/
def engineArguments (engine : Engine) (snapshot : ArgToken) : List ArgToken :=
  engine.items.flatMap (itemTokens snapshot)

/-- `rewrite_argv`. -/
def rewriteArgv (argv : List ArgToken) (engine : Engine) (snapshot : ArgToken) : Except PyError (List ArgToken) :=
  match argv with
  | [] => .error .indexError
  | program :: arguments => .ok (program :: keptTokens arguments false ++ engineArguments engine snapshot)

/-- The platform's part of a command line: the tokens that are no owned flag, nor the value that follows one. -/
inductive Platform : List ArgToken → List ArgToken → Prop
  | nil : Platform [] []
  | keep (token : ArgToken) (rest kept : List ArgToken) (howned : ownedFlag token = none) (hrest : Platform rest kept) :
    Platform (token :: rest) (token :: kept)
  | drop (token : ArgToken) (rest kept : List ArgToken) (howned : ownedFlag token = some false)
    (hrest : Platform rest kept) : Platform (token :: rest) kept
  | dropValue (token : ArgToken) (rest kept : List ArgToken) (howned : ownedFlag token = some true)
    (hrest : Platform rest.tail kept) : Platform (token :: rest) kept

/-! ## What is kept -/

section

variable {token flag : ArgToken} {tokens rest kept : List ArgToken}

theorem keptTokens_none (h : ownedFlag token = none) :
    keptTokens (token :: rest) false = token :: keptTokens rest false := by
  rw [keptTokens, h]

theorem keptTokens_some {skip : Bool} (h : ownedFlag token = some skip) :
    keptTokens (token :: rest) false = keptTokens rest skip := by
  rw [keptTokens, h]

theorem keptTokens_skip (rest : List ArgToken) : keptTokens rest true = keptTokens rest.tail false := by
  cases rest with
  | nil => rfl
  | cons token rest => rfl

/-- The loop keeps the platform's part. -/
theorem platform_kept (tokens : List ArgToken) : Platform tokens (keptTokens tokens false) := by
  have hboth : Platform tokens (keptTokens tokens false) ∧ Platform tokens.tail (keptTokens tokens true) := by
    induction tokens with
    | nil => exact ⟨.nil, .nil⟩
    | cons token rest ih =>
      refine ⟨?_, ih.1⟩
      rcases howned : ownedFlag token with _ | _ | _
      · rw [keptTokens_none howned]
        exact .keep token rest _ howned ih.1
      · rw [keptTokens_some howned]
        exact .drop token rest _ howned ih.1
      · rw [keptTokens_some howned]
        exact .dropValue token rest _ howned ih.2
  exact hboth.1

/-- And the platform's part is unique. -/
theorem Platform.eq (h : Platform tokens kept) : kept = keptTokens tokens false := by
  induction h with
  | nil => rfl
  | keep token rest kept howned _ ih => rw [keptTokens_none howned, ih]
  | drop token rest kept howned _ ih => rw [keptTokens_some howned, ih]
  | dropValue token rest kept howned _ ih => rw [keptTokens_some howned, keptTokens_skip, ih]

/-- No token of it is an owned flag. -/
theorem Platform.unowned (h : Platform tokens kept) : ∀ token ∈ kept, ownedFlag token = none := by
  induction h with
  | nil => exact fun _ h => absurd h List.not_mem_nil
  | keep token rest kept howned _ ih =>
    intro other hmem
    rcases List.mem_cons.mp hmem with rfl | hmem
    · exact howned
    · exact ih other hmem
  | drop token rest kept howned _ ih => exact ih
  | dropValue token rest kept howned _ ih => exact ih

/-- Tokens of which none is an owned flag are kept. -/
theorem keptTokens_append (h : ∀ token ∈ tokens, ownedFlag token = none) :
    keptTokens (tokens ++ rest) false = tokens ++ keptTokens rest false := by
  induction tokens with
  | nil => rfl
  | cons token tokens ih =>
    rw [List.cons_append, keptTokens_none (h token List.mem_cons_self), ih fun t ht => h t (List.mem_cons_of_mem _ ht),
      List.cons_append]

/-! ## What is launched -/

/-- A token of another flag, or of none. -/
theorem launchedValues_skip (h : ∀ value, flagOf token ≠ some (flag, value)) :
    launchedValues flag (token :: rest) = launchedValues flag rest := by
  rw [launchedValues]
  rcases hflag : flagOf token with _ | ⟨name, value⟩
  · rfl
  · refine if_neg fun heq => h value ?_
    rw [hflag, heq]

theorem launchedValues_append (h : ∀ token ∈ tokens, ∀ value, flagOf token ≠ some (flag, value)) :
    launchedValues flag (tokens ++ rest) = launchedValues flag rest := by
  induction tokens with
  | nil => rfl
  | cons token tokens ih =>
    rw [List.cons_append, launchedValues_skip (h token List.mem_cons_self)]
    exact ih fun t ht => h t (List.mem_cons_of_mem _ ht)

/-- A token that is no owned flag gives no owned flag a value. -/
theorem flagOf_ne {takes : Bool} (hflag : OWNED_FLAGS.lookup flag = some takes) (h : ownedFlag token = none)
    (value : Option ArgToken) : flagOf token ≠ some (flag, value) := by
  intro heq
  rw [ownedFlag, heq, Option.bind_some, hflag] at h
  cases h

/-- The names of the owned flags are as they are read. -/
theorem flagOf_key {takes : Bool} (hflag : OWNED_FLAGS.lookup flag = some takes) :
    flagOf ('-' :: '-' :: flag) = some (flag, none) := by
  have hall : ∀ item ∈ OWNED_FLAGS, flagOf ('-' :: '-' :: item.1) = some (item.1, none) := by decide
  obtain ⟨before, after, heq, -⟩ := List.lookup_eq_some_iff.mp hflag
  exact hall (flag, takes) (heq ▸ List.mem_append_right _ List.mem_cons_self)

theorem ownedFlag_key {takes : Bool} (hflag : OWNED_FLAGS.lookup flag = some takes) :
    ownedFlag ('-' :: '-' :: flag) = some takes := by
  rw [ownedFlag, flagOf_key hflag, Option.bind_some, hflag, Option.map_some, Option.isNone_none, Bool.and_true]

end

/-! ## The profile's arguments -/

/-- No text of the table is printed as a flag. -/
def Engine.Plain (engine : Engine) (snapshot : ArgToken) : Prop :=
  ∀ key print, (key, .text print) ∈ engine.items → flagOf (print snapshot) = none

section

variable {flag snapshot : ArgToken} {items : List (ArgToken × EngineValue)} {rest : List ArgToken}

/-- The arguments of a profile are dropped again. -/
theorem keptTokens_items
    (htexts : ∀ key print, (key, .text print) ∈ items → OWNED_FLAGS.lookup key = some true)
    (hswitches : ∀ key, (key, .switch true) ∈ items → OWNED_FLAGS.lookup key = some false) :
    keptTokens (items.flatMap (itemTokens snapshot)) false = [] := by
  induction items with
  | nil => rfl
  | cons item items ih =>
    have hrest := ih (fun key print h => htexts key print (List.mem_cons_of_mem _ h))
      (fun key h => hswitches key (List.mem_cons_of_mem _ h))
    obtain ⟨key, value⟩ := item
    rw [List.flatMap_cons]
    rcases value with on | _ | print
    · cases on with
      | false => exact hrest
      | true => exact (keptTokens_some (ownedFlag_key (hswitches key List.mem_cons_self))).trans hrest
    · exact hrest
    · exact (keptTokens_some (ownedFlag_key (htexts key print List.mem_cons_self))).trans hrest

/-- Items of other flags, with plain texts. -/
theorem launchedValues_items
    (htexts : ∀ key print, (key, .text print) ∈ items → OWNED_FLAGS.lookup key = some true)
    (hswitches : ∀ key, (key, .switch true) ∈ items → OWNED_FLAGS.lookup key = some false)
    (hplain : ∀ key print, (key, .text print) ∈ items → flagOf (print snapshot) = none)
    (hother : ∀ item ∈ items, item.1 = flag → item.2 = .null ∨ item.2 = .switch false) :
    launchedValues flag (items.flatMap (itemTokens snapshot) ++ rest) = launchedValues flag rest := by
  refine launchedValues_append fun token htoken value heq => ?_
  obtain ⟨item, hitem, htoken⟩ := List.mem_flatMap.mp htoken
  obtain ⟨key, content⟩ := item
  rcases content with on | _ | print
  · cases on with
    | false => exact absurd htoken List.not_mem_nil
    | true =>
      obtain rfl := List.mem_singleton.mp htoken
      rw [flagOf_key (hswitches key hitem)] at heq
      cases heq
      rcases hother _ hitem rfl with h | h <;> cases h
  · exact absurd htoken List.not_mem_nil
  · rcases List.mem_cons.mp htoken with rfl | htoken
    · rw [flagOf_key (htexts key print hitem)] at heq
      cases heq
      rcases hother _ hitem rfl with h | h <;> cases h
    · obtain rfl := List.mem_singleton.mp htoken
      rw [hplain key print hitem] at heq
      cases heq

end

/-- An item, between the items of other flags. -/
theorem Engine.split {engine : Engine} {key : ArgToken} {value : EngineValue} (h : (key, value) ∈ engine.items) :
    ∃ before after, engine.items = before ++ (key, value) :: after ∧ (∀ item ∈ before, item.1 ≠ key) ∧
      ∀ item ∈ after, item.1 ≠ key := by
  obtain ⟨before, after, heq⟩ := List.append_of_mem h
  have hnodup := engine.nodup
  rw [heq, List.map_append, List.map_cons, List.nodup_middle, List.nodup_cons, List.mem_append, not_or] at hnodup
  refine ⟨before, after, heq, fun item hitem hkey => hnodup.1.1 ?_, fun item hitem hkey => hnodup.1.2 ?_⟩
  · have hmem : item.1 ∈ before.map Prod.fst := List.mem_map_of_mem hitem
    rwa [hkey] at hmem
  · have hmem : item.1 ∈ after.map Prod.fst := List.mem_map_of_mem hitem
    rwa [hkey] at hmem

/-- What the profile's arguments give a flag that has an item. -/
theorem launchedValues_item {engine : Engine} {snapshot key : ArgToken} {value : EngineValue}
    (hplain : engine.Plain snapshot) (h : (key, value) ∈ engine.items) :
    ∃ rest, launchedValues key (engineArguments engine snapshot) =
        launchedValues key (itemTokens snapshot (key, value) ++ rest) ∧ launchedValues key rest = [] := by
  obtain ⟨before, after, heq, hbefore, hafter⟩ := engine.split h
  refine ⟨after.flatMap (itemTokens snapshot), ?_, ?_⟩
  · rw [engineArguments, heq, List.flatMap_append, List.flatMap_cons]
    refine launchedValues_items (fun key' print h' => ?_) (fun key' h' => ?_) (fun key' print h' => ?_)
      fun item hitem hkey => absurd hkey (hbefore item hitem)
    · exact engine.texts key' print (heq ▸ List.mem_append_left _ h')
    · exact engine.switches key' (heq ▸ List.mem_append_left _ h')
    · exact hplain key' print (heq ▸ List.mem_append_left _ h')
  · rw [← List.append_nil (after.flatMap _)]
    refine (launchedValues_items (fun key' print h' => ?_) (fun key' h' => ?_) (fun key' print h' => ?_)
      fun item hitem hkey => absurd hkey (hafter item hitem)).trans rfl
    · exact engine.texts key' print (heq ▸ List.mem_append_right _ (List.mem_cons_of_mem _ h'))
    · exact engine.switches key' (heq ▸ List.mem_append_right _ (List.mem_cons_of_mem _ h'))
    · exact hplain key' print (heq ▸ List.mem_append_right _ (List.mem_cons_of_mem _ h'))

/-! ## Results -/

/-- **Main result: the profile's values alone are launched.** The engine gets the platform's part of the command line,
in its order, and then the profile's arguments; whatever the platform passed for it, an owned flag has the printed value
of the profile's table, stands once where it is a switch that is on, and is absent where the table does not set it. -/
theorem launched_exact (engine : Engine) {snapshot : ArgToken} (program : ArgToken) (arguments : List ArgToken)
    (hplain : engine.Plain snapshot) (hprogram : ownedFlag program = none) :
    ∃ kept argv, (∀ tokens, Platform arguments tokens ↔ tokens = kept) ∧
      rewriteArgv (program :: arguments) engine snapshot = .ok argv ∧
      argv = program :: kept ++ engineArguments engine snapshot ∧
      ∀ flag takes, OWNED_FLAGS.lookup flag = some takes →
        (∀ print, (flag, .text print) ∈ engine.items → launchedValues flag argv = [print snapshot]) ∧
        ((flag, .switch true) ∈ engine.items → (launchedValues flag argv).length = 1) ∧
        ((∀ value, (flag, value) ∈ engine.items → value = .null ∨ value = .switch false) →
          launchedValues flag argv = []) := by
  refine ⟨keptTokens arguments false, _, fun tokens => ⟨Platform.eq, ?_⟩, rfl, rfl, fun flag takes hflag => ?_⟩
  · rintro rfl
    exact platform_kept arguments
  have hunowned : ∀ token ∈ program :: keptTokens arguments false, ∀ value, flagOf token ≠ some (flag, value) := by
    intro token htoken
    rcases List.mem_cons.mp htoken with rfl | htoken
    · exact flagOf_ne hflag hprogram
    · exact flagOf_ne hflag ((platform_kept arguments).unowned token htoken)
  rw [launchedValues_append hunowned]
  refine ⟨fun print hitem => ?_, fun hitem => ?_, fun hnone => ?_⟩
  · obtain ⟨rest, heq, hrest⟩ := launchedValues_item hplain hitem
    have htext : ∀ value, flagOf (print snapshot) ≠ some (flag, value) := by
      intro value h
      rw [hplain flag print hitem] at h
      cases h
    have hvalues : launchedValues flag (('-' :: '-' :: flag) :: print snapshot :: rest) =
        print snapshot :: launchedValues flag (print snapshot :: rest) := by
      rw [launchedValues, flagOf_key hflag]
      exact if_pos rfl
    rw [heq]
    exact hvalues.trans (congrArg _ ((launchedValues_skip htext).trans hrest))
  · obtain ⟨rest, heq, hrest⟩ := launchedValues_item hplain hitem
    have hvalues : launchedValues flag (('-' :: '-' :: flag) :: rest) =
        rest.headD [] :: launchedValues flag rest := by
      rw [launchedValues, flagOf_key hflag]
      exact if_pos rfl
    rw [heq]
    refine (congrArg List.length hvalues).trans ?_
    rw [hrest]
    rfl
  · rw [← List.append_nil (engineArguments engine snapshot)]
    refine (launchedValues_items engine.texts engine.switches hplain fun item hitem hkey => ?_).trans rfl
    exact hnone item.2 (hkey ▸ hitem)

/-- **Of two rewritings the last one counts**: whatever a profile has appended, another one replaces. -/
theorem rewrite_rewrite (argv : List ArgToken) (first second : Engine) (snapshot snapshot' : ArgToken) :
    (rewriteArgv argv first snapshot >>= fun argv => rewriteArgv argv second snapshot') =
      rewriteArgv argv second snapshot' := by
  cases argv with
  | nil => rfl
  | cons program arguments =>
    have hkept : keptTokens (keptTokens arguments false ++ engineArguments first snapshot) false =
        keptTokens arguments false := by
      rw [keptTokens_append (platform_kept arguments).unowned, engineArguments,
        keptTokens_items first.texts first.switches, List.append_nil]
    show rewriteArgv (program :: (keptTokens arguments false ++ engineArguments first snapshot)) second snapshot' = _
    rw [rewriteArgv, rewriteArgv, hkept]

/-- A model, a switch and a switch that is off. -/
def sampleEngine : Engine where
  items := [("model".toList, .text id), ("max-num-seqs".toList, .text fun _ => "8".toList),
    ("no-async-scheduling".toList, .switch true), ("enforce-eager".toList, .switch false)]
  nodup := by decide
  texts := by
    intro key print h
    simp only [List.mem_cons, Prod.mk.injEq, List.not_mem_nil, or_false] at h
    rcases h with ⟨rfl, -⟩ | ⟨rfl, -⟩ | ⟨-, h⟩ | ⟨-, h⟩
    · rfl
    · rfl
    · cases h
    · cases h
  switches := by
    intro key h
    simp only [List.mem_cons, Prod.mk.injEq, List.not_mem_nil, or_false] at h
    rcases h with ⟨-, h⟩ | ⟨-, h⟩ | ⟨rfl, -⟩ | ⟨-, h⟩
    · cases h
    · cases h
    · rfl
    · cases h

/-- The platform's number of sequences is not launched. -/
theorem sampleEngine_launched : ∃ argv,
    rewriteArgv ["-m".toList, "--port".toList, "8000".toList, "--max_num_seqs=64".toList] sampleEngine "/snap".toList =
      .ok argv ∧ launchedValues "max-num-seqs".toList argv = ["8".toList] := by
  have hplain : sampleEngine.Plain "/snap".toList := by
    intro key print h
    simp only [sampleEngine, List.mem_cons, Prod.mk.injEq, List.not_mem_nil, or_false] at h
    rcases h with ⟨-, h⟩ | ⟨-, h⟩ | ⟨-, h⟩ | ⟨-, h⟩ <;> cases h <;> rfl
  obtain ⟨kept, argv, -, hargv, -, hflags⟩ := launched_exact sampleEngine "-m".toList
    ["--port".toList, "8000".toList, "--max_num_seqs=64".toList] hplain (by decide)
  exact ⟨argv, hargv, (hflags "max-num-seqs".toList true (by decide)).1 _
    (List.mem_cons_of_mem _ List.mem_cons_self)⟩

end BlackholeQwen.Serving.EngineArgv
