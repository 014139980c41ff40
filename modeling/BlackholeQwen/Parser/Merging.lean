import BlackholeQwen.Lib.Keyed
import BlackholeQwen.Parser.Stream

/-!
# Merging sub-deltas is a homomorphism for the client

A client adds each message of a stream to what it has received (`Client.take`): it appends the texts, and for each tool
index, in the order they are first seen, it keeps the first id, type and name and appends the arguments. The messages
of a list are fresh, and nothing reads them again once their merge has returned.

- `ClientCall.take_absorb`, `ToolCall.absorb_assoc`: a call that absorbed another acts as both.
- `Stands`: a message does what a list of messages does.
- `combine_flatten`: messages that stand for groups combine to what all the groups combine to.
- `merge_homomorphism`: the client cannot tell a merge from its messages, nor can a later merge.
-/

namespace BlackholeQwen.Parser

open Lib

/-! ## The client -/

/-- A text appended to another, either of which may be missing. -/
def addText : Option String → Option String → Option String
  | some a, some b => some (a ++ b)
  | a, b => a.or b

/-- What a client has of a tool call. -/
structure ClientCall where
  id : Option String
  type : Option String
  name : Option String
  arguments : Option String
  deriving DecidableEq, Repr

/-- A part of a tool call, added to what the client has of it. -/
def ClientCall.take (o : Option ClientCall) (call : ToolCall) : ClientCall :=
  let c := o.getD ⟨none, none, none, none⟩
  ⟨c.id.or call.id, c.type.or call.type, c.name.or (call.function.bind FunctionCall.name),
    addText c.arguments (call.function.bind FunctionCall.arguments)⟩

/-- What a client has received. -/
structure Client where
  content : Option String
  reasoning : Option String
  calls : Dict Nat ClientCall

/-- A message, added to what the client has received. -/
def Client.take (client : Client) (message : DeltaMessage) : Client :=
  ⟨addText client.content message.content, addText client.reasoning message.reasoning,
    accumulate ToolCall.index ClientCall.take client.calls message.toolCalls⟩

/-- A stream of results; a null one adds nothing. -/
def Client.fold (client : Client) (messages : List (Option DeltaMessage)) : Client :=
  messages.foldl (fun client message => (message.map client.take).getD client) client

/-! ## Texts -/

theorem addText_assoc (a b c : Option String) : addText (addText a b) c = addText a (addText b c) := by
  cases a <;> cases b <;> cases c <;> simp [addText, String.append_assoc]

theorem addText_none (a : Option String) : addText a none = a := by
  cases a <;> rfl

theorem none_addText (a : Option String) : addText none a = a := by
  cases a <;> rfl

/-- The text of one part more. -/
theorem textOf_cons {α : Type} (f : α → Option String) (x : α) (xs : List α) :
    textOf ((x :: xs).filterMap f) = addText (f x) (textOf (xs.filterMap f)) := by
  cases hx : f x with
  | none => rw [List.filterMap_cons_none hx, none_addText]
  | some a =>
    rw [List.filterMap_cons_some hx]
    cases hrest : xs.filterMap f with
    | nil =>
      show some (String.join [a]) = some a
      simp [String.join]
    | cons b rest =>
      show some (String.join (a :: b :: rest)) = some (a ++ String.join (b :: rest))
      rw [String.join_cons]

theorem textOf_append {α : Type} (f : α → Option String) (xs ys : List α) :
    textOf ((xs ++ ys).filterMap f) = addText (textOf (xs.filterMap f)) (textOf (ys.filterMap f)) := by
  induction xs with
  | nil => exact (none_addText _).symm
  | cons x xs ih => rw [List.cons_append, textOf_cons, textOf_cons, ih, addText_assoc]

/-- The first value of one part more. -/
theorem head?_cons {α β : Type} (f : α → Option β) (x : α) (xs : List α) :
    ((x :: xs).filterMap f).head? = (f x).or (xs.filterMap f).head? := by
  cases hx : f x with
  | none => rw [List.filterMap_cons_none hx, Option.none_or]
  | some a => rw [List.filterMap_cons_some hx]; rfl

/-! ## Calls -/

theorem FunctionCall.absorb_assoc (f g h : FunctionCall) : (f.absorb g).absorb h = f.absorb (g.absorb h) := by
  have hargs : ∀ x y : FunctionCall, (x.absorb y).arguments = addText x.arguments y.arguments := fun x y => by
    unfold FunctionCall.absorb addText
    cases x.arguments <;> cases y.arguments <;> rfl
  have hname : ∀ x y : FunctionCall, (x.absorb y).name = x.name.or y.name := fun _ _ => rfl
  have hext : ∀ x y : FunctionCall, x.name = y.name → x.arguments = y.arguments → x = y := by
    rintro ⟨_, _⟩ ⟨_, _⟩ rfl rfl
    rfl
  exact hext _ _ (by rw [hname, hname, hname, hname, Option.or_assoc])
    (by rw [hargs, hargs, hargs, hargs, addText_assoc])

/-- **A call that absorbed another** absorbs as both. -/
theorem ToolCall.absorb_assoc (x y z : ToolCall) : (x.absorb y).absorb z = x.absorb (y.absorb z) := by
  obtain ⟨index, id, type, function⟩ := x
  obtain ⟨index', id', type', function'⟩ := y
  obtain ⟨index'', id'', type'', function''⟩ := z
  unfold ToolCall.absorb
  rw [Option.or_assoc, Option.or_assoc]
  cases function <;> cases function' <;> cases function'' <;> first | rfl | skip
  show ToolCall.mk index _ _ (some _) = ToolCall.mk index _ _ (some _)
  rw [FunctionCall.absorb_assoc]

/-- **A call that absorbed another** adds to the client what both add. -/
theorem ClientCall.take_absorb (o : Option ClientCall) (x y : ToolCall) :
    ClientCall.take (some (ClientCall.take o x)) y = ClientCall.take o (x.absorb y) := by
  obtain ⟨index, id, type, function⟩ := x
  obtain ⟨index', id', type', function'⟩ := y
  unfold ClientCall.take ToolCall.absorb
  simp only [Option.getD_some, Option.or_assoc, addText_assoc]
  cases function with
  | none => cases function' <;> simp [none_addText]
  | some f =>
    cases function' with
    | none => simp [addText_none]
    | some g =>
      unfold FunctionCall.absorb addText
      cases f.arguments <;> cases g.arguments <;> rfl

/-- How `coalesce` adds a call to those of its index. -/
def absorbed (o : Option ToolCall) (call : ToolCall) : ToolCall := (o.map (·.absorb call)).getD call

theorem accumulate_coalesce {σ : Type} {act : Option σ → ToolCall → σ}
    (hact : ∀ o x y, act (some (act o x)) y = act o (x.absorb y)) (d : Dict Nat σ) (calls : List ToolCall) :
    accumulate ToolCall.index act d (coalesce calls) = accumulate ToolCall.index act d calls :=
  @accumulate_fuse _ _ _ _ _ _ ToolCall.absorb hact (fun _ _ _ => rfl) d calls

theorem absorbed_absorb (o : Option ToolCall) (x y : ToolCall) :
    absorbed (some (absorbed o x)) y = absorbed o (x.absorb y) := by
  cases o with
  | none => rfl
  | some e => exact ToolCall.absorb_assoc e x y

/-- **One call for each index.** -/
theorem coalesce_nodup (calls : List ToolCall) : ((coalesce calls).map ToolCall.index).Nodup := by
  have hkeys := @fuse_key _ _ _ ToolCall.index ToolCall.absorb (fun _ _ _ => rfl) calls
  have hindex : (coalesce calls).map ToolCall.index = (fuse ToolCall.index ToolCall.absorb calls).keys := by
    show ((fuse ToolCall.index ToolCall.absorb calls).items.map Prod.snd).map ToolCall.index = _
    rw [List.map_map]
    exact List.map_congr_left fun p hp => hkeys p hp
  rw [hindex]
  exact (fuse ToolCall.index ToolCall.absorb calls).nodup

/-! ## Standing for a group -/

/-- A message does, for the client and for a later merge, what the messages of a group do. -/
structure Stands (coalesceCalls : Bool) (message : DeltaMessage) (group : List DeltaMessage) : Prop where
  role : message.role = (group.filterMap DeltaMessage.role).head?
  content : message.content = textOf (group.filterMap DeltaMessage.content)
  reasoning : message.reasoning = textOf (group.filterMap DeltaMessage.reasoning)
  client : ∀ d, accumulate ToolCall.index ClientCall.take d message.toolCalls =
    accumulate ToolCall.index ClientCall.take d (group.flatMap DeltaMessage.toolCalls)
  coalesced : coalesceCalls = true → ∀ d, accumulate ToolCall.index absorbed d message.toolCalls =
    accumulate ToolCall.index absorbed d (group.flatMap DeltaMessage.toolCalls)
  listed : coalesceCalls = false → message.toolCalls = group.flatMap DeltaMessage.toolCalls

theorem Stands.single (coalesceCalls : Bool) (message : DeltaMessage) : Stands coalesceCalls message [message] := by
  have htext : ∀ f : DeltaMessage → Option String, textOf ([message].filterMap f) = f message := fun f => by
    rw [textOf_cons]
    exact addText_none _
  have hrole : ([message].filterMap DeltaMessage.role).head? = message.role := by
    rw [head?_cons]
    exact Option.or_none
  have hcalls : [message].flatMap DeltaMessage.toolCalls = message.toolCalls := List.flatMap_singleton ..
  exact ⟨hrole.symm, (htext _).symm, (htext _).symm, fun d => by rw [hcalls], fun _ d => by rw [hcalls],
    fun _ => hcalls.symm⟩

theorem Stands.combine (coalesceCalls : Bool) (group : List DeltaMessage) :
    Stands coalesceCalls (combine coalesceCalls group) group := by
  cases coalesceCalls with
  | false => exact ⟨rfl, rfl, rfl, fun _ => rfl, fun h => (by cases h), fun _ => rfl⟩
  | true =>
    exact ⟨rfl, rfl, rfl, fun d => accumulate_coalesce ClientCall.take_absorb d _,
      fun _ d => accumulate_coalesce absorbed_absorb d _, fun h => (by cases h)⟩

/-- The messages of a group, added one by one. -/
theorem Client.foldl_take (group : List DeltaMessage) (client : Client) : group.foldl Client.take client =
    ⟨addText client.content (textOf (group.filterMap DeltaMessage.content)),
      addText client.reasoning (textOf (group.filterMap DeltaMessage.reasoning)),
      accumulate ToolCall.index ClientCall.take client.calls (group.flatMap DeltaMessage.toolCalls)⟩ := by
  induction group generalizing client with
  | nil =>
    show client = ⟨addText client.content none, addText client.reasoning none, client.calls⟩
    rw [addText_none, addText_none]
  | cons message group ih =>
    rw [List.foldl_cons, ih, textOf_cons, textOf_cons, List.flatMap_cons, accumulate_append, ← addText_assoc,
      ← addText_assoc]
    rfl

/-- **The client** gets from a message what it gets from the group that it stands for. -/
theorem Stands.take {coalesceCalls : Bool} {message : DeltaMessage} {group : List DeltaMessage}
    (h : Stands coalesceCalls message group) (client : Client) :
      client.take message = group.foldl Client.take client := by
  rw [Client.foldl_take, Client.take, h.content, h.reasoning, h.client]

/-- **Merges of merges.** Messages that stand for groups combine to what all the groups combine to. -/
theorem combine_flatten {coalesceCalls : Bool} {messages : List DeltaMessage} {groups : List (List DeltaMessage)}
    (h : List.Forall₂ (Stands coalesceCalls) messages groups) :
    combine coalesceCalls messages = combine coalesceCalls groups.flatten := by
  have htext : ∀ f : DeltaMessage → Option String, (∀ m g, Stands coalesceCalls m g → f m = textOf (g.filterMap f)) →
      textOf (messages.filterMap f) = textOf (groups.flatten.filterMap f) := by
    intro f hf
    induction h with
    | nil => rfl
    | cons hm _ ih => rw [textOf_cons, List.flatten_cons, textOf_append, hf _ _ hm, ih]
  have hrole : (messages.filterMap DeltaMessage.role).head? = (groups.flatten.filterMap DeltaMessage.role).head? := by
    clear htext
    induction h with
    | nil => rfl
    | cons hm _ ih => rw [head?_cons, List.flatten_cons, List.filterMap_append, List.head?_append, hm.role, ih]
  have hcalls : (combine coalesceCalls messages).toolCalls = (combine coalesceCalls groups.flatten).toolCalls := by
    clear htext hrole
    cases coalesceCalls with
    | false =>
      show messages.flatMap DeltaMessage.toolCalls = groups.flatten.flatMap DeltaMessage.toolCalls
      induction h with
      | nil => rfl
      | cons hm _ ih => rw [List.flatMap_cons, List.flatten_cons, List.flatMap_append, hm.listed rfl, ih]
    | true =>
      have hall : ∀ d, accumulate ToolCall.index absorbed d (messages.flatMap DeltaMessage.toolCalls) =
          accumulate ToolCall.index absorbed d (groups.flatten.flatMap DeltaMessage.toolCalls) := by
        induction h with
        | nil => exact fun _ => rfl
        | cons hm _ ih =>
          intro d
          rw [List.flatMap_cons, List.flatten_cons, List.flatMap_append, accumulate_append, accumulate_append,
            hm.coalesced rfl, ih]
      exact congrArg Dict.values (hall Dict.empty)
  unfold combine at hcalls ⊢
  rw [htext _ fun _ _ hs => hs.content, htext _ fun _ _ hs => hs.reasoning, hrole]
  exact congrArg (DeltaMessage.mk _ _ _) hcalls

/-! ## Main result -/

/-- What a merge returns. -/
def mergedOf (coalesceCalls : Bool) : List DeltaMessage → Option DeltaMessage
  | [] => none
  | [message] => some message
  | messages => some (combine coalesceCalls messages)

theorem merge_ok {construct : DeltaMessage → Except PyError DeltaMessage} (h : ∀ m, construct m = .ok m)
    (coalesceCalls : Bool) (messages : List (Option DeltaMessage)) :
    merge construct coalesceCalls messages = .ok (mergedOf coalesceCalls (messages.filterMap id)) := by
  unfold merge mergedOf
  rcases messages.filterMap id with _ | ⟨m, _ | ⟨m', ms⟩⟩
  · rfl
  · rfl
  · show (construct _).map some = _
    rw [h]
    rfl

/-- What a merge returns stands for its messages. -/
theorem mergedOf_stands {coalesceCalls : Bool} {group : List DeltaMessage} {message : DeltaMessage}
    (h : mergedOf coalesceCalls group = some message) : Stands coalesceCalls message group := by
  unfold mergedOf at h
  split at h
  · cases h
  · cases h
    exact Stands.single coalesceCalls message
  · cases h
    exact Stands.combine coalesceCalls group

/-- A merge of merges is a merge of all. -/
theorem mergedOf_flatten (coalesceCalls : Bool) (groups : List (List DeltaMessage)) :
    mergedOf coalesceCalls (groups.filterMap (mergedOf coalesceCalls)) = mergedOf coalesceCalls groups.flatten := by
  -- the groups that are not empty, beside what they merge to
  have hfull : ∃ full : List (List DeltaMessage),
      List.Forall₂ (fun m g => mergedOf coalesceCalls g = some m) (groups.filterMap (mergedOf coalesceCalls)) full ∧
        full.flatten = groups.flatten := by
    induction groups with
    | nil => exact ⟨[], .nil, rfl⟩
    | cons group groups ih =>
      obtain ⟨full, hfull, hflat⟩ := ih
      cases hgroup : mergedOf coalesceCalls group with
      | none =>
        have hnil : group = [] := by
          unfold mergedOf at hgroup
          split at hgroup
          · rfl
          · cases hgroup
          · cases hgroup
        rw [List.filterMap_cons_none hgroup]
        exact ⟨full, hfull, by rw [hflat, hnil]; rfl⟩
      | some message =>
        rw [List.filterMap_cons_some hgroup]
        exact ⟨group :: full, .cons hgroup hfull, by rw [List.flatten_cons, List.flatten_cons, hflat]⟩
  obtain ⟨full, hfull, hflat⟩ := hfull
  rw [← hflat]
  have hcombine := combine_flatten (hfull.imp fun _ _ h => mergedOf_stands h)
  have hsome : ∀ {m : DeltaMessage} {g : List DeltaMessage}, mergedOf coalesceCalls g = some m → g ≠ [] := by
    rintro m g h rfl
    cases h
  generalize groups.filterMap (mergedOf coalesceCalls) = messages at hfull hcombine
  cases hfull with
  | nil => rfl
  | @cons m g ms gs hm hrest =>
    cases hrest with
    | nil =>
      rw [List.flatten_cons, List.flatten_nil, List.append_nil, hm]
      rfl
    | @cons m' g' ms gs hm' hrest =>
      obtain ⟨a, t, rfl⟩ := List.exists_cons_of_ne_nil (hsome hm)
      obtain ⟨b, t', rfl⟩ := List.exists_cons_of_ne_nil (hsome hm')
      show some (combine coalesceCalls (m :: m' :: ms)) = _
      rw [hcombine]
      cases t with
      | nil => rfl
      | cons c t => rfl

/-- A stream is added message by message. -/
theorem Client.fold_eq (client : Client) (messages : List (Option DeltaMessage)) :
    client.fold messages = (messages.filterMap id).foldl Client.take client := by
  unfold Client.fold
  induction messages generalizing client with
  | nil => rfl
  | cons message messages ih =>
    cases message with
    | none => exact ih client
    | some message => exact ih (client.take message)

/-- **Main result.** With coalescing on or off, a client that gets the merge of a list of messages has what it has after
the messages themselves, only null messages merge to null, a merge of merges is the merge of all messages, and
`coalesce` leaves one call for each index. -/
theorem merge_homomorphism {construct : DeltaMessage → Except PyError DeltaMessage}
    (hconstruct : ∀ m, construct m = .ok m)
    (coalesceCalls : Bool) :
    (∀ messages : List (Option DeltaMessage), ∃ merged, merge construct coalesceCalls messages = .ok merged ∧
      (∀ client : Client, client.fold [merged] = client.fold messages) ∧ (merged = none → ∀ m ∈ messages, m = none)) ∧
    (∀ groups : List (List (Option DeltaMessage)), (groups.mapM (merge construct coalesceCalls) >>=
      merge construct coalesceCalls) = merge construct coalesceCalls groups.flatten) ∧
    ∀ calls, ((coalesce calls).map ToolCall.index).Nodup := by
  refine ⟨fun messages => ⟨_, merge_ok hconstruct coalesceCalls messages, fun client => ?_, fun hnull => ?_⟩,
    fun groups => ?_, coalesce_nodup⟩
  · rw [Client.fold_eq, Client.fold_eq]
    cases hmerged : mergedOf coalesceCalls (messages.filterMap id) with
    | none =>
      have hnil : messages.filterMap id = [] := by
        unfold mergedOf at hmerged
        split at hmerged
        · assumption
        · cases hmerged
        · cases hmerged
      rw [hnil]
      rfl
    | some merged => exact (mergedOf_stands hmerged).take client
  · intro m hm
    cases m with
    | none => rfl
    | some message =>
      have hmem : message ∈ messages.filterMap id := List.mem_filterMap.mpr ⟨some message, hm, rfl⟩
      unfold mergedOf at hnull
      split at hnull
      · rename_i hnil
        rw [hnil] at hmem
        cases hmem
      · cases hnull
      · cases hnull
  · have heach := mapM_eq_ok fun group (_ : group ∈ groups) => merge_ok hconstruct coalesceCalls group
    rw [heach]
    show merge construct coalesceCalls _ = _
    rw [merge_ok hconstruct, merge_ok hconstruct]
    have hlive : (groups.map fun group => mergedOf coalesceCalls (group.filterMap id)).filterMap id =
        (groups.map fun group => group.filterMap id).filterMap (mergedOf coalesceCalls) := by
      rw [List.filterMap_map, List.filterMap_map]
      rfl
    have hflat : groups.flatten.filterMap id = (groups.map fun group => group.filterMap id).flatten :=
      List.filterMap_flatten
    rw [hlive, mergedOf_flatten, hflat]

/-- A call in two fragments, with a null message between. -/
theorem merge_homomorphism_sample :
    let first : DeltaMessage := ⟨none, none, none, [⟨0, some "a", none, some ⟨some "f", some "x"⟩⟩]⟩
    let second : DeltaMessage := ⟨none, some "", none, [⟨0, none, none, some ⟨none, some "y"⟩⟩]⟩
    ∃ merged, merge Except.ok true [some first, none, some second] = .ok merged ∧
      ∀ client : Client, client.fold [merged] = client.fold [some first, none, some second] := by
  intro first second
  obtain ⟨merged, hok, hfold, -⟩ :=
    (merge_homomorphism (fun _ => rfl) true).1 [some first, none, some second]
  exact ⟨merged, hok, hfold⟩

end BlackholeQwen.Parser
