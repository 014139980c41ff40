import BlackholeQwen.Lib.Call
import BlackholeQwen.Lib.Dict

/-!
# Re-chunking at the parser's marker tokens

The wrapper that the API server puts around `parse_delta`: a private decode stream beside the engine's detokenizer, the
whitespace window after a tool call, and the plan that feeds a delta whole or one token per sub-call. The stock parser,
the decode stream of `tokenizers` and the constructor of its messages are parameters.
-/

namespace BlackholeQwen.Parser

open Lib

/-- What a decode stream raises. -/
inductive DecodeError
  | overflow
  | typeError
  | other (text : String)
  deriving DecidableEq, Repr

def INVALID_PREFIX : String := "Invalid prefix encountered"
def PRIME_TOKENS : Nat := 64

/-- `tokenizers.decoders.DecodeStream`: the constructor, and `step`, which changes the stream also when it raises. -/
structure DecodeStream (δ : Type) where
  new : List Nat → Bool → Except DecodeError δ
  step : δ → Nat → δ × Except DecodeError (Option String)

/-- What a parser's engines match a token id to. -/
inductive Terminal
  | TOOL_START
  | TOOL_END
  | other (name : String)
  deriving DecidableEq, Repr

/-- The fields of a request that are read. -/
structure Request where
  skipSpecialTokens : Bool
  spacesBetweenSpecialTokens : Bool
  deriving DecidableEq, Repr

/-- The arguments of `parse_delta`. -/
structure Delta where
  text : String
  ids : List Nat
  request : Request
  promptTokenIds : Option (List Nat)
  finished : Bool
  deriving DecidableEq, Repr

/-! ## The private decode stream -/

/-- The decoder, and whether its last token was an added one. -/
structure Decoding (δ : Type) where
  decoder : δ
  lastSpecial : Bool
  deriving DecidableEq, Repr

/-- What a stream is opened with and keeps. -/
structure Config (δ : Type) where
  decodeStream : DecodeStream δ
  markers : Dict Nat Terminal
  skipSpecialTokens : Bool
  spaces : Bool
  added : Dict Nat String

namespace Config

variable {δ : Type} (c : Config δ)

/-- The guarded step of the decoder: an overflow or a type error gives no text, an invalid prefix restarts the stream
unprimed and steps again. -/
def stepDecoder (decoder : δ) (tokenId : Nat) : Except DecodeError (Option String × δ) :=
  match c.decodeStream.step decoder tokenId with
  | (decoder, .ok piece) => .ok (piece, decoder)
  | (decoder, .error .overflow) => .ok (none, decoder)
  | (decoder, .error .typeError) => .ok (none, decoder)
  | (_, .error (.other text)) =>
    if INVALID_PREFIX.isPrefixOf text then do
      let decoder ← c.decodeStream.new [] c.skipSpecialTokens
      let (decoder, piece) := c.decodeStream.step decoder tokenId
      return (← piece, decoder)
    else .error (.other text)

/-- `Stream.step`; after a raise the stream is switched off, and its decoder is not read again. -/
def step (d : Decoding δ) (tokenId : Nat) : Except DecodeError (String × Decoding δ) := do
  let (piece, decoder) ← c.stepDecoder d.decoder tokenId
  if c.spaces then return (piece.getD "", ⟨decoder, d.lastSpecial⟩)
  else
    let special := c.added.get? tokenId
    return (((if d.lastSpecial then special else none).or piece).getD "", ⟨decoder, special.isSome⟩)

/-- The texts of a list of tokens. -/
def steps (d : Decoding δ) : List Nat → Except DecodeError (List String × Decoding δ)
  | [] => .ok ([], d)
  | id :: ids => do
    let (piece, d) ← c.step d id
    let (pieces, d) ← steps d ids
    return (piece :: pieces, d)

end Config

/-! ## The plan -/

/-- One request's state: the private decode stream and the whitespace window. -/
structure Stream (δ : Type) where
  config : Config δ
  decoding : Decoding δ
  toolSeen : Bool
  inTool : Bool
  nonwsContent : Bool
  on : Bool

/-- The pieces to feed, if they join to the engine's text; a stop token has no text of its own in the last delta. -/
def rendered (pieces : List String) (deltaText : String) (finished : Bool) : Option (List String) :=
  if String.join pieces = deltaText then some pieces
  else if finished && decide (String.join pieces.dropLast = deltaText) then some (pieces.dropLast ++ [""])
  else none

/-- A delta's token ids hold a marker. -/
def marked (markers : Dict Nat Terminal) (ids : List Nat) : Bool := ids.any fun id => (markers.get? id).isSome

/-- Whether a tool call was seen and whether one is open, after one more token. -/
def mark (markers : Dict Nat Terminal) (tool : Bool × Bool) (id : Nat) : Bool × Bool :=
  match markers.get? id with
  | some .TOOL_START => (true, true)
  | some .TOOL_END => (tool.1, false)
  | _ => tool

namespace Stream

variable {δ : Type}

/-- `Stream.__init__`. -/
def init (decodeStream : DecodeStream δ) (added : Except DecodeError (List (Nat × String)))
    (markers : Dict Nat Terminal) (promptTokenIds : Option (List Nat)) (request : Request) :
    Except DecodeError (Stream δ) :=
  let spaces := request.skipSpecialTokens || request.spacesBetweenSpecialTokens
  let prompt := promptTokenIds.getD []
  (if spaces then .ok [] else added) >>= fun added =>
    (decodeStream.new (prompt.drop (prompt.length - PRIME_TOKENS)) request.skipSpecialTokens).map fun decoder =>
      ⟨⟨decodeStream, markers, request.skipSpecialTokens, spaces, Dict.ofList added⟩, ⟨decoder, false⟩,
        false, false, false, true⟩

/-- `Stream.switch_off`. -/
def switchOff (s : Stream δ) : Stream δ := { s with on := false }

/-- A tool call was seen, none is open, and no content that is not whitespace came out. -/
def window (s : Stream δ) : Bool := s.toolSeen && !s.inTool && !s.nonwsContent

/-- The rest of `plan`, with the pieces of a delta that has tokens. -/
def planPieces (s : Stream δ) (ids : List Nat) (pieces : List String) (decoding : Decoding δ) :
    Stream δ × Option (List (String × List Nat)) :=
  let tool := ids.foldl (mark s.config.markers) (s.toolSeen, s.inTool)
  ({ s with decoding, toolSeen := tool.1, inTool := tool.2 },
    if ids.length = 1 || !(marked s.config.markers ids || s.window) then none
    else some (pieces.zip (ids.map fun id => [id])))

/-- `Stream.plan`: the texts and tokens to feed one at a time, or `none` for the whole delta. -/
def plan (s : Stream δ) (deltaText : String) (ids : List Nat) (finished : Bool) :
    Stream δ × Option (List (String × List Nat)) :=
  if ids = [] then (s, none)
  else match s.config.steps s.decoding ids with
    | .error _ => (s.switchOff, none)
    | .ok (pieces, decoding) =>
      match rendered pieces deltaText finished with
      | none => (s.switchOff, none)
      | some pieces => s.planPieces ids pieces decoding

end Stream

/-! ## Messages -/

/-- `DeltaFunctionCall`. -/
structure FunctionCall where
  name : Option String
  arguments : Option String
  deriving DecidableEq, Repr

/-- `DeltaToolCall`. -/
structure ToolCall where
  index : Nat
  id : Option String
  type : Option String
  function : Option FunctionCall
  deriving DecidableEq, Repr

/-- `DeltaMessage`. -/
structure DeltaMessage where
  role : Option String
  content : Option String
  reasoning : Option String
  toolCalls : List ToolCall
  deriving DecidableEq, Repr

/-- The function of a later entry of an index, into that of the first. -/
def FunctionCall.absorb (existing call : FunctionCall) : FunctionCall where
  name := existing.name.or call.name
  arguments := match existing.arguments, call.arguments with
    | some a, some b => some (a ++ b)
    | a, b => a.or b

/-- A later entry of an index, into the first. -/
def ToolCall.absorb (existing call : ToolCall) : ToolCall where
  index := existing.index
  id := existing.id.or call.id
  type := existing.type.or call.type
  function := match existing.function, call.function with
    | some f, some g => some (f.absorb g)
    | f, g => f.or g

/-- `coalesce`: one entry per index, in first-seen order. -/
def coalesce (calls : List ToolCall) : List ToolCall :=
  (calls.foldl (fun merged call => merged.set call.index
    (((merged.get? call.index).map fun existing => existing.absorb call).getD call)) Dict.empty).values

/-- A text of parts, if there are any. -/
def textOf (parts : List String) : Option String := if parts = [] then none else some (String.join parts)

/-- Several messages as one. -/
def combine (coalesceCalls : Bool) (messages : List DeltaMessage) : DeltaMessage where
  role := (messages.filterMap DeltaMessage.role).head?
  content := textOf (messages.filterMap DeltaMessage.content)
  reasoning := textOf (messages.filterMap DeltaMessage.reasoning)
  toolCalls := if coalesceCalls then coalesce (messages.flatMap DeltaMessage.toolCalls)
    else messages.flatMap DeltaMessage.toolCalls

/-- `merge`: the sub-results as one message, built by the messages' own constructor. -/
def merge (construct : DeltaMessage → Except PyError DeltaMessage) (coalesceCalls : Bool)
    (messages : List (Option DeltaMessage)) : Except PyError (Option DeltaMessage) :=
  match messages.filterMap id with
  | [] => .ok none
  | [message] => .ok (some message)
  | messages => (construct (combine coalesceCalls messages)).map some

/-- An entry of a list of calls as `coalesce` leaves it, which fills the first entry of an index in place. The first
function that it takes over from a later entry it shares with it. -/
def ToolCall.filled (calls : List ToolCall) (i : Nat) (call : ToolCall) : ToolCall :=
  let before := (calls.take i).filter fun c => c.index = call.index
  let merged := ((coalesce calls).find? fun c => c.index = call.index).getD call
  if before.isEmpty then merged
  else if call.function.isSome && before.all (fun c => c.function.isNone) then { call with function := merged.function }
  else call

/-- The messages of a list with these calls for theirs. -/
def withCalls : List (Option DeltaMessage) → List ToolCall → List (Option DeltaMessage)
  | [], _ => []
  | none :: messages, calls => none :: withCalls messages calls
  | some message :: messages, calls =>
    some { message with toolCalls := calls.take message.toolCalls.length } ::
      withCalls messages (calls.drop message.toolCalls.length)

/-- The messages as a merge that failed leaves them. -/
def coalesced (messages : List (Option DeltaMessage)) : List (Option DeltaMessage) :=
  let calls := (messages.filterMap id).flatMap DeltaMessage.toolCalls
  withCalls messages (calls.mapIdx (ToolCall.filled calls))

/-- What is kept of sub-results that do not merge: they are merged without coalescing their calls, or the last one is
taken. -/
def salvage (construct : DeltaMessage → Except PyError DeltaMessage) (messages : List (Option DeltaMessage)) :
    Option DeltaMessage :=
  match merge construct false (coalesced messages) with
  | .ok message => message
  | .error _ => ((coalesced messages).filterMap id).getLast?

/-- Whitespace, as `str.strip` has it. -/
def isSpace (c : Char) : Bool :=
  let n := c.toNat
  (9 ≤ n && n ≤ 13) || (28 ≤ n && n ≤ 32) || n = 0x85 || n = 0xa0 || n = 0x1680 || (0x2000 ≤ n && n ≤ 0x200a) ||
    n = 0x2028 || n = 0x2029 || n = 0x202f || n = 0x205f || n = 0x3000

/-- The message has content that is not whitespace. -/
def nonBlank (message : Option DeltaMessage) : Bool :=
  (message.bind DeltaMessage.content).any fun content => content.toList.any fun c => !isSpace c

/-- `Stream.observe`. -/
def Stream.observe {δ : Type} (s : Stream δ) (message : Option DeltaMessage) : Stream δ :=
  { s with nonwsContent := s.nonwsContent || nonBlank message }

/-! ## The wrapped `parse_delta` -/

/-- What `open_stream` reads of a parser: whether it is engine based, the token ids that its engines match, its
tokenizer's backend and that backend's added tokens, and the `DecodeStream` class. -/
structure Host (δ : Type) where
  attributes : Bool
  engineBased : Bool
  resolvedTokenIds : List (List (Nat × Terminal))
  fastBackend : Bool
  added : Except DecodeError (List (Nat × String))
  decodeStream : Option (DecodeStream δ)

/-- `marker_terminals`. -/
def Host.markers {δ : Type} (host : Host δ) : Dict Nat Terminal := Dict.ofList host.resolvedTokenIds.flatten

/-- `open_stream`: a stream for the request, or `none` where M cannot apply. -/
def openStream {δ : Type} (host : Host δ) (request : Request) (promptTokenIds : Option (List Nat)) :
    Option (Stream δ) :=
  if !host.engineBased || host.markers.items.isEmpty || !host.fastBackend then none
  else host.decodeStream.bind fun decodeStream =>
    (Stream.init decodeStream host.added host.markers promptTokenIds request).toOption

/-- A parser and the state that M keeps on it, once its first delta has come. -/
structure Wrapped (δ π : Type) where
  parser : π
  state : Option (Option (Stream δ))

/-- What the sub-calls of one delta did: those made, their results, and what the last one raised, if it did. -/
structure Fed (π : Type) where
  parser : π
  calls : List Delta
  results : List (Option DeltaMessage)
  raised : Option PyError

/-- The stock `parse_delta`, on one list of arguments after the other. -/
def feed {π : Type} (original : π → Delta → Call π (Option DeltaMessage)) (parser : π) : List Delta → Fed π
  | [] => ⟨parser, [], [], none⟩
  | delta :: deltas =>
    match (original parser delta).result with
    | .error e => ⟨(original parser delta).obj, [delta], [], some e⟩
    | .ok message =>
      let fed := feed original (original parser delta).obj deltas
      ⟨fed.parser, delta :: fed.calls, message :: fed.results, fed.raised⟩

/-- The sub-calls of a plan. -/
def subCalls (delta : Delta) : Option (List (String × List Nat)) → List Delta
  | none => [delta]
  | some plan => plan.mapIdx fun i piece =>
    { delta with text := piece.1, ids := piece.2, finished := delta.finished && decide (i + 1 = plan.length) }

/-- `Stream.merge`: a merge that fails switches the stream off. -/
def Stream.merge {δ : Type} (construct : DeltaMessage → Except PyError DeltaMessage) (s : Stream δ)
    (messages : List (Option DeltaMessage)) : Stream δ × Option DeltaMessage :=
  match Parser.merge construct true messages with
  | .ok message => (s, message)
  | .error _ => (s.switchOff, salvage construct messages)

/-- What one delta did: the sub-calls, their results, and what the wrapped `parse_delta` returned or raised. -/
structure Turn where
  delta : Delta
  calls : List Delta
  results : List (Option DeltaMessage)
  result : Except PyError (Option DeltaMessage)

section

variable {δ π : Type} (host : Host δ) (original : π → Delta → Call π (Option DeltaMessage))
  (construct : DeltaMessage → Except PyError DeltaMessage)

/-- The stream of a delta, and its plan. -/
def planned (stream : Option (Stream δ)) (delta : Delta) :
    Option (Stream δ) × Option (List (String × List Nat)) :=
  match stream with
  | none => (none, none)
  | some s =>
    if s.on then ((s.plan delta.text delta.ids delta.finished).1, (s.plan delta.text delta.ids delta.finished).2)
    else (some s, none)

/-- The stream after the sub-calls returned, and the delta's message. -/
def merged (stream : Option (Stream δ)) (plan : Option (List (String × List Nat)))
    (results : List (Option DeltaMessage)) : Option (Stream δ) × Option DeltaMessage :=
  match stream, plan with
  | some s, some _ => (some (s.merge construct results).1, (s.merge construct results).2)
  | stream, _ => (stream, results.head?.join)

/-- `if stream.on: stream.observe(result)`. -/
def observed (stream : Option (Stream δ)) (message : Option DeltaMessage) : Option (Stream δ) :=
  stream.map fun s => if s.on then s.observe message else s

/-- The stream of a delta: the state on the parser, opened at the first one. -/
def current (w : Wrapped δ π) (delta : Delta) : Option (Stream δ) :=
  if host.attributes then w.state.getD (openStream host delta.request delta.promptTokenIds) else none

/-- What is left on the parser, and the turn, once the sub-calls are done. -/
def finish (w : Wrapped δ π) (delta : Delta) (stream : Option (Stream δ)) (plan : Option (List (String × List Nat)))
    (fed : Fed π) : Wrapped δ π × Turn :=
  match fed.raised with
  | some e =>
    (⟨fed.parser, if host.attributes then some stream else w.state⟩, ⟨delta, fed.calls, fed.results, .error e⟩)
  | none =>
    let m := merged construct stream plan fed.results
    (⟨fed.parser, if host.attributes then some (observed m.1 m.2) else w.state⟩,
      ⟨delta, fed.calls, fed.results, .ok m.2⟩)

/-- The wrapped `parse_delta`. -/
def parseDelta (w : Wrapped δ π) (delta : Delta) : Wrapped δ π × Turn :=
  let p := planned (current host w delta) delta
  finish host construct w delta p.1 p.2 (feed original w.parser (subCalls delta p.2))

end

end BlackholeQwen.Parser
