import PackageDoc.Yaml.Layout

namespace PackageDoc.Yaml

/-!
# Nodes in the order of the text

The nodes of a document as a sequence of events: a scalar or a reference is one event, a collection
has one at each of its ends.  `Grammar.pursue` reads tokens for what is expected next, a stack of
`Goal`s; a scalar that is left out is empty.

`Document.ofText` gives the events of the first document of a text.  When the text has a fault, they
are those of the nodes before it.
-/

/-- What may stand before a node. -/
structure Properties where
  anchor : Option String := none
  /-- The full tag. -/
  tag : Option (List UInt8) := none
  deriving Repr, DecidableEq, Inhabited

/-- A node, or an end of one.  `α` says how the node that is referred to is given. -/
inductive Event (α : Type) where
  | reference (target : α)
  | scalar (properties : Properties) (text : List Char) (isPlain : Bool)
  | sequenceStart (properties : Properties)
  | sequenceEnd
  | mappingStart (properties : Properties)
  | mappingEnd
  deriving Repr, DecidableEq, Inhabited

/-- An event and its line. -/
structure EventAt (α : Type) where
  event : Event α
  line : Nat
  deriving Repr, DecidableEq, Inhabited

/-- What is expected in a text. -/
inductive Goal where
  /-- The node of a document, which may be left out. -/
  | documentNode
  /-- A node of a block.  As the value of a key it may be a sequence that is not indented. -/
  | blockNode (asValue : Bool)
  /-- A node of a flow collection. -/
  | flowNode
  | blockEntry
  /-- An entry of a sequence that is not indented. -/
  | valueEntry
  | blockKey
  | blockValue
  | flowEntry (isFirst : Bool)
  /-- The key of a mapping with one entry inside a sequence. -/
  | pairKey
  | pairValue
  | pairEnd
  | flowKey (isFirst : Bool)
  | flowValue
  /-- The value of an entry that has none. -/
  | noValue
  deriving Repr, DecidableEq, Inhabited

/-- The state of reading a document. -/
structure Grammar where
  layout : Layout
  goals : List Goal
  /-- What the handles of tags stand for. -/
  handles : List (List Char × List UInt8)
  deriving Repr, Inhabited

namespace Grammar

/-- What a goal gives: an event, or only other goals. -/
abbrev Step :=
  Except Nat (Option (EventAt String) × Grammar)

/-- The next token. -/
def peek (g : Grammar) : Except Nat (TokenAt × Grammar) := do
  let (t, l) ← g.layout.peek
  .ok (t, { g with layout := l })

/-- Go on behind the next token. -/
def take (g : Grammar) : Grammar :=
  { g with layout := g.layout.take }

/-- Expect goals before all others. -/
def expect (g : Grammar) (goals : List Goal) : Grammar :=
  { g with goals := goals ++ g.goals }

/-- Give an event. -/
def emit (g : Grammar) (event : Event String) (line : Nat) : Step :=
  .ok (some ⟨event, line⟩, g)

/-- Give an empty scalar. -/
def emitEmpty (g : Grammar) (line : Nat) : Step :=
  g.emit (.scalar {} [] true) line

/-- Go on with other goals. -/
def goOn (g : Grammar) (goals : List Goal) : Step :=
  .ok (none, g.expect goals)

/-! ### Nodes -/

/-- The full tag. -/
def fullTag? (g : Grammar) (t : TagText) : Option (List UInt8) :=
  if t.handle.isEmpty then some t.suffix
  else (g.handles.find? fun h => h.1 == t.handle).map fun h => h.2 ++ t.suffix

/-- The properties that stand before a node, each at most once. -/
def properties (g : Grammar) : Except Nat (Properties × Grammar) := do
  let (t, g) ← g.peek
  match t.token with
  | .anchor name =>
    let (t, g) ← g.take.peek
    match t.token with
    | .tag text => resolve t.line (some name) text g.take
    | _ => .ok (⟨some name, none⟩, g)
  | .tag text =>
    let line := t.line
    let (t, g) ← g.take.peek
    match t.token with
    | .anchor name =>
      let (_, g) ← g.take.peek
      resolve line (some name) text g
    | _ => resolve line none text g
  | _ => .ok ({}, g)
where
  /-- Find the full tag; the node behind the properties is looked at first. -/
  resolve (line : Nat) (name : Option String) (text : TagText) (g : Grammar) :
      Except Nat (Properties × Grammar) := do
    let (_, g) ← g.peek
    match g.fullTag? text with
    | some tag => .ok (⟨name, some tag⟩, g)
    | none => .error line

/-- A node; `inBlock` says whether it may be a block. -/
def node (g : Grammar) (inBlock asValue : Bool) : Step := do
  let (first, g) ← g.peek
  match first.token with
  | .reference name => g.take.emit (.reference name) first.line
  | _ =>
    let (p, g) ← g.properties
    let (t, g) ← g.peek
    match t.token with
    | .scalar text isPlain => g.take.emit (.scalar p text isPlain) first.line
    | .sequenceOpen => (g.take.expect [.flowEntry true]).emit (.sequenceStart p) first.line
    | .mappingOpen => (g.take.expect [.flowKey true]).emit (.mappingStart p) first.line
    | .entry =>
      if asValue then (g.expect [.valueEntry]).emit (.sequenceStart p) first.line
      else other g p first t
    | .sequenceBlock =>
      if inBlock then (g.take.expect [.blockEntry]).emit (.sequenceStart p) first.line
      else other g p first t
    | .mappingBlock =>
      if inBlock then (g.take.expect [.blockKey]).emit (.mappingStart p) first.line
      else other g p first t
    | _ => other g p first t
where
  /-- A node that is left out has properties. -/
  other (g : Grammar) (p : Properties) (first t : TokenAt) : Step :=
    if p.anchor.isSome || p.tag.isSome then g.emit (.scalar p [] true) first.line
    else .error t.line

/-! ### Blocks -/

/-- Does a token end an entry of a block sequence? -/
def endsEntry : Token → Bool
  | .entry | .blockEnd => true
  | _ => false

/-- Does a token end a key or a value of a block mapping? -/
def endsBlockPart : Token → Bool
  | .key | .value | .blockEnd => true
  | _ => false

/-- An entry of a block sequence, or its end. -/
def blockEntry (g : Grammar) : Step := do
  let (t, g) ← g.peek
  match t.token with
  | .entry =>
    let (next, g) ← g.take.peek
    if endsEntry next.token then (g.expect [.blockEntry]).emitEmpty t.line
    else g.goOn [.blockNode false, .blockEntry]
  | .blockEnd => g.take.emit .sequenceEnd t.line
  | _ => .error t.line

/-- An entry of a sequence that is not indented, or its end. -/
def valueEntry (g : Grammar) : Step := do
  let (t, g) ← g.peek
  match t.token with
  | .entry =>
    let (next, g) ← g.take.peek
    if endsEntry next.token || endsBlockPart next.token then
      (g.expect [.valueEntry]).emitEmpty t.line
    else g.goOn [.blockNode false, .valueEntry]
  | _ => g.emit .sequenceEnd t.line

/-- A key of a block mapping, or its end. -/
def blockKey (g : Grammar) : Step := do
  let (t, g) ← g.peek
  match t.token with
  | .key =>
    let (next, g) ← g.take.peek
    if endsBlockPart next.token then (g.expect [.blockValue]).emitEmpty t.line
    else g.goOn [.blockNode true, .blockValue]
  | .blockEnd => g.take.emit .mappingEnd t.line
  | _ => .error t.line

/-- A value of a block mapping. -/
def blockValue (g : Grammar) : Step := do
  let (t, g) ← g.peek
  match t.token with
  | .value =>
    let (next, g) ← g.take.peek
    if endsBlockPart next.token then (g.expect [.blockKey]).emitEmpty t.line
    else g.goOn [.blockNode true, .blockKey]
  | _ => (g.expect [.blockKey]).emitEmpty t.line

/-! ### Flow collections -/

/-- Does a token end an entry of a flow sequence? -/
def endsFlowEntry : Token → Bool
  | .comma | .sequenceClose => true
  | _ => false

/-- Does a token end an entry of a flow mapping? -/
def endsFlowPair : Token → Bool
  | .comma | .mappingClose => true
  | _ => false

/-- Go on behind the comma between two entries; nothing stands before the first, and `close` ends
    the collection. -/
def nextEntry (g : Grammar) (isFirst : Bool) (close : Token) : Except Nat (TokenAt × Grammar) := do
  let (t, g) ← g.peek
  if isFirst || t.token == close then .ok (t, g)
  else if t.token == .comma then g.take.peek
  else .error t.line

/-- An entry of a flow sequence, or its end. -/
def flowEntry (g : Grammar) (isFirst : Bool) : Step := do
  let (t, g) ← g.nextEntry isFirst .sequenceClose
  match t.token with
  | .sequenceClose => g.take.emit .sequenceEnd t.line
  | .key => (g.take.expect [.pairKey]).emit (.mappingStart {}) t.line
  | _ => g.goOn [.flowNode, .flowEntry false]

/-- The key of a mapping with one entry.  The token in the place of a key that is left out is
    skipped. -/
def pairKey (g : Grammar) : Step := do
  let (t, g) ← g.peek
  if t.token == .value || endsFlowEntry t.token then (g.take.expect [.pairValue]).emitEmpty t.line
  else g.goOn [.flowNode, .pairValue]

/-- The value of a mapping with one entry. -/
def pairValue (g : Grammar) : Step := do
  let (t, g) ← g.peek
  if t.token == .value then
    let (next, g) ← g.take.peek
    if endsFlowEntry next.token then (g.expect [.pairEnd]).emitEmpty next.line
    else g.goOn [.flowNode, .pairEnd]
  else (g.expect [.pairEnd]).emitEmpty t.line

/-- The end of a mapping with one entry. -/
def pairEnd (g : Grammar) : Step := do
  let (t, g) ← g.peek
  (g.expect [.flowEntry false]).emit .mappingEnd t.line

/-- A key of a flow mapping, or its end. -/
def flowKey (g : Grammar) (isFirst : Bool) : Step := do
  let (t, g) ← g.nextEntry isFirst .mappingClose
  match t.token with
  | .mappingClose => g.take.emit .mappingEnd t.line
  | .key =>
    let (next, g) ← g.take.peek
    if next.token == .value || endsFlowPair next.token then
      (g.expect [.flowValue]).emitEmpty next.line
    else g.goOn [.flowNode, .flowValue]
  | _ => g.goOn [.flowNode, .noValue]

/-- A value of a flow mapping. -/
def flowValue (g : Grammar) : Step := do
  let (t, g) ← g.peek
  if t.token == .value then
    let (next, g) ← g.take.peek
    if endsFlowPair next.token then (g.expect [.flowKey false]).emitEmpty next.line
    else g.goOn [.flowNode, .flowKey false]
  else (g.expect [.flowKey false]).emitEmpty t.line

/-- The value of an entry that has none. -/
def noValue (g : Grammar) : Step := do
  let (t, g) ← g.peek
  (g.expect [.flowKey false]).emitEmpty t.line

/-! ### Documents -/

/-- Does a token end a document that has no node? -/
def endsDocument : Token → Bool
  | .directive _ | .documentStart | .documentEnd | .textEnd => true
  | _ => false

/-- The node of a document. -/
def documentNode (g : Grammar) : Step := do
  let (t, g) ← g.peek
  if endsDocument t.token then g.emitEmpty t.line else g.goOn [.blockNode false]

/-- Pursue a goal. -/
def pursue (g : Grammar) : Goal → Step
  | .documentNode => g.documentNode
  | .blockNode asValue => g.node true asValue
  | .flowNode => g.node false false
  | .blockEntry => g.blockEntry
  | .valueEntry => g.valueEntry
  | .blockKey => g.blockKey
  | .blockValue => g.blockValue
  | .flowEntry isFirst => g.flowEntry isFirst
  | .pairKey => g.pairKey
  | .pairValue => g.pairValue
  | .pairEnd => g.pairEnd
  | .flowKey isFirst => g.flowKey isFirst
  | .flowValue => g.flowValue
  | .noValue => g.noValue

/-- The events of all goals.  A fault ends them; without one the state behind the last node is
    given. -/
def run : (bound : Nat) → Grammar → List (EventAt String) × Except Nat Grammar
  | 0, g => ([], .error g.layout.line)
  | bound + 1, g =>
    match g.goals with
    | [] => ([], .ok g)
    | goal :: goals =>
      match pursue { g with goals := goals } goal with
      | .error line => ([], .error line)
      | .ok (event, g) =>
        let (events, r) := run bound g
        (event.toList ++ events, r)

/-- The directives before a document: at most one version, which is 1.1 or 1.2, and every handle at
    most once. -/
def directives : (bound : Nat) → (hasVersion : Bool) → Grammar → Except Nat Grammar
  | 0, _, g => .ok g
  | bound + 1, hasVersion, g => do
    let (t, g) ← g.peek
    match t.token with
    | .directive (.version major minor) =>
      if hasVersion || major != 1 || (minor != 1 && minor != 2) then .error t.line
      else directives bound true g.take
    | .directive (.handle handle expansion) =>
      if g.handles.any fun h => h.1 == handle then .error t.line
      else directives bound hasVersion { g.take with handles := g.handles ++ [(handle, expansion)] }
    | _ => .ok g

/-- What handles stand for if no directive says anything else. -/
def defaultHandles : List (List Char × List UInt8) :=
  [(['!'], Text.asciiBytes ['!']), (['!', '!'], Text.asciiBytes "tag:yaml.org,2002:".toList)]

/-- The beginning of the first document, up to its node; `none` if the text holds none.  Only a
    document that is marked may leave its node out. -/
def start (text : List Char) (isCut : Bool) : Except Nat (Option Grammar) := do
  let g : Grammar := ⟨.ofText text isCut, [], []⟩
  let (t, g) ← g.peek
  let withDefaults (g : Grammar) : Grammar := { g with handles := g.handles ++ defaultHandles }
  match t.token with
  | .textEnd => .ok none
  | .directive _ | .documentStart =>
    let g ← directives (text.length + 1) false g
    let (t, g) ← g.peek
    if t.token == .documentStart then .ok (some (withDefaults (g.take.expect [.documentNode])))
    else .error t.line
  | _ => .ok (some (withDefaults (g.expect [.blockNode false])))

/-- The end of the first document. -/
def finish (g : Grammar) : Except Nat Grammar := do
  let (t, g) ← g.peek
  .ok (if t.token == .documentEnd then g.take else g)

/-- Does something follow the first document? -/
def hasMore : (bound : Nat) → Grammar → Bool
  | 0, _ => true
  | bound + 1, g =>
    match g.peek with
    | .error _ => true
    | .ok (t, g) =>
      if t.token == .documentEnd then hasMore bound g.take else t.token != .textEnd

end Grammar

/-- The first document of a text. -/
structure Document (α : Type) where
  events : List (EventAt α)
  /-- The line of the fault that ends the events. -/
  fault : Option Nat := none
  /-- Does another document follow? -/
  hasMore : Bool := false
  deriving Repr, Inhabited

namespace Document

/-- More than the number of steps in which a text is read: no character gives rise to more than four
    tokens, and no token to more than four steps. -/
def stepBound (text : List Char) : Nat :=
  16 * text.length + 64

/-- Read from the node of a document on. -/
def ofGrammar (text : List Char) (g : Grammar) : Document String :=
  let (events, r) := Grammar.run (stepBound text) g
  match r.bind Grammar.finish with
  | .error line => ⟨events, some line, false⟩
  | .ok g => ⟨events, none, g.hasMore (stepBound text)⟩

/-- The first document of a text; `isCut` says whether more follows that cannot be read. -/
def ofText (text : List Char) (isCut : Bool) : Document String :=
  match Grammar.start text isCut with
  | .error line => ⟨[], some line, false⟩
  | .ok none => ⟨[], none, false⟩
  | .ok (some g) => ofGrammar text g

end Document
end PackageDoc.Yaml
