import TenantRegistry.Yaml.Node.Basic
import TenantRegistry.Yaml.Token.Scan

/-!
From tokens to documents.

Every function reads one construct and leaves the tokens after it. A token that does not fit
ends the text: the construct becomes a fault and no tokens are left. Keys, values and items
may be left out; an empty scalar then stands where they would start.
-/

namespace TenantRegistry.Yaml

/-- Tokens still to come, the tag handles and anchors of the document under way, and its size
so far. -/
structure Reader where
  tokens : List Token
  handles : List (List Char × List UInt8)
  anchors : List (List Char × Nat)
  size : Nat

namespace Reader

/-- The handles that every document has. -/
def standardHandles : List (List Char × List UInt8) :=
  [(['!'], Utf8.encode ['!']), (['!', '!'], Utf8.ofString "tag:yaml.org,2002:")]

def skip : StateM Reader Unit :=
  modify fun r => { r with tokens := r.tokens.tail }

/-- The text is malformed: nothing more is read. -/
def fault : StateM Reader Node := do
  modify fun r => { r with tokens := [] }
  return .fault

def count : StateM Reader Unit :=
  modify fun r => { r with size := r.size + 1 }

/-- The next token is of one of some kinds. -/
def next (p : TokenKind → Bool) : StateM Reader Bool := do
  return (← get).tokens.head?.any fun t => p t.kind

/-- The scalar that stands for something left out. -/
def emptyScalar (props : Properties) : StateM Reader Node := do
  count
  return .scalar props .plain ""

def nothing (m : Mark) : StateM Reader Node :=
  emptyScalar ⟨m, none, none⟩

/-- A value that is left out where the next token starts. -/
def omitted : StateM Reader Node := do
  match (← get).tokens with
  | [] => fault
  | t :: _ => nothing t.start

/-- Gives an anchor its number: how many names are anchored in the document so far. A name
that is anchored again counts once. -/
def define (name : List Char) : StateM Reader Nat := do
  let r ← get
  let id := r.anchors.length
  set { r with anchors := (name, id) :: r.anchors.filter (·.1 != name) }
  return id

/-- Anchor and tag before a node. -/
structure Prelude where
  anchor : Option (List Char)
  tag : Option (List Char × List UInt8)

/-- Reads an anchor and a tag in either order. -/
def properties : StateM Reader Prelude := do
  match (← get).tokens with
  | ⟨_, _, .anchor name⟩ :: ⟨_, _, .tag h suffix⟩ :: _ => skip; skip; return ⟨some name, some (h, suffix)⟩
  | ⟨_, _, .tag h suffix⟩ :: ⟨_, _, .anchor name⟩ :: _ => skip; skip; return ⟨some name, some (h, suffix)⟩
  | ⟨_, _, .anchor name⟩ :: _ => skip; return ⟨some name, none⟩
  | ⟨_, _, .tag h suffix⟩ :: _ => skip; return ⟨none, some (h, suffix)⟩
  | _ => return ⟨none, none⟩

/-- The tag that a handle and a suffix name; none for a handle the document does not have. -/
def resolve (handles : List (List Char × List UInt8)) (h : List Char) (suffix : List UInt8) :
    Option Tag :=
  if h.isEmpty then some ⟨suffix⟩
  else (handles.find? (·.1 == h)).map fun (_, tagPrefix) => ⟨tagPrefix ++ suffix⟩

/-- A lone `!` before a scalar says nothing. -/
def scalarTag (t : Option Tag) : Option Tag :=
  if t = some ⟨[0x21]⟩ then none else t

/-- Numbers the anchor of a node and counts the node. -/
def place (m : Mark) (anchor : Option (List Char)) (tag : Option Tag) : StateM Reader Properties := do
  count
  match anchor with
  | some name => return ⟨m, some (← define name), tag⟩
  | none => return ⟨m, none, tag⟩

mutual

/-- One node. Block collections may stand where `block` holds, and a sequence without
indentation of its own where `indentless` does. -/
def node (block indentless : Bool) : (fuel : Nat) → StateM Reader Node
  | 0 => fault
  | fuel + 1 => do
    let r ← get
    match r.tokens with
    | [] => fault
    | ⟨m, _, .alias name⟩ :: _ =>
      skip
      match r.anchors.find? (·.1 == name) with
      | some (_, id) => count; return .alias m id
      | none => fault
    | first :: _ =>
      let prelude ← properties
      let tag? := match prelude.tag with
        | none => some none
        | some (h, suffix) => (resolve r.handles h suffix).map some
      match tag?, (← get).tokens with
      | none, _ => fault
      | _, [] => fault
      | some tag, t :: _ => content block indentless first.start prelude.anchor tag t fuel

/-- What follows anchor and tag, the next token being `t`. -/
def content (block indentless : Bool) (m : Mark) (anchor : Option (List Char))
    (tag : Option Tag) (t : Token) : (fuel : Nat) → StateM Reader Node
  | 0 => fault
  | fuel + 1 =>
    match t.kind with
    | .scalar style text => do
      skip
      let props ← place m anchor (scalarTag tag)
      return .scalar props style (String.ofList text)
    | .flowSequenceStart => do
      skip
      let props ← place m anchor tag
      return .sequence props (← flowItems true fuel)
    | .flowMappingStart => do
      skip
      let props ← place m anchor tag
      return .mapping props (← flowEntries true fuel)
    | kind => do
      if indentless && kind == .blockEntry then
        let props ← place m anchor tag
        return .sequence props (← indentlessItems fuel)
      else if block && kind == .blockSequenceStart then
        skip
        let props ← place m anchor tag
        return .sequence props (← blockItems fuel)
      else if block && kind == .blockMappingStart then
        skip
        let props ← place m anchor tag
        return .mapping props (← blockEntries fuel)
      else if anchor.isSome || tag.isSome then
        let props ← place m anchor tag
        return .scalar props .plain ""
      else fault

/-- A node, or an empty scalar if the next token says that it is left out. The empty scalar
stands at `m`, or where the next token starts. -/
def nodeOr (block indentless : Bool) (absent : TokenKind → Bool) (m : Option Mark) :
    (fuel : Nat) → StateM Reader Node
  | 0 => fault
  | fuel + 1 => do
    match (← get).tokens with
    | [] => fault
    | t :: _ => if absent t.kind then nothing (m.getD t.start) else node block indentless fuel

/-- The items of a block sequence and its end. -/
def blockItems : (fuel : Nat) → StateM Reader (List Node)
  | 0 => return [← fault]
  | fuel + 1 => do
    match (← get).tokens with
    | ⟨_, stop, .blockEntry⟩ :: _ =>
      skip
      let item ← nodeOr true false (fun k => k == .blockEntry || k == .blockEnd) (some stop) fuel
      return item :: (← blockItems fuel)
    | ⟨_, _, .blockEnd⟩ :: _ => skip; count; return []
    | _ => return [← fault]

/-- The items of a sequence that is indented no deeper than the mapping around it. -/
def indentlessItems : (fuel : Nat) → StateM Reader (List Node)
  | 0 => return [← fault]
  | fuel + 1 => do
    match (← get).tokens with
    | ⟨_, stop, .blockEntry⟩ :: _ =>
      skip
      let item ← nodeOr true false
        (fun k => k == .blockEntry || k == .key || k == .value || k == .blockEnd) (some stop) fuel
      return item :: (← indentlessItems fuel)
    | [] => return [← fault]
    | _ => count; return []

/-- The entries of a block mapping and its end. -/
def blockEntries : (fuel : Nat) → StateM Reader (List (Node × Node))
  | 0 => return [(← fault, .fault)]
  | fuel + 1 => do
    let absent (k : TokenKind) := k == .key || k == .value || k == .blockEnd
    match (← get).tokens with
    | ⟨_, stop, .key⟩ :: _ =>
      skip
      let k ← nodeOr true true absent (some stop) fuel
      let v ← match (← get).tokens with
        | ⟨_, stop, .value⟩ :: _ => do skip; nodeOr true true absent (some stop) fuel
        | _ => omitted
      return (k, v) :: (← blockEntries fuel)
    | ⟨_, _, .blockEnd⟩ :: _ => skip; count; return []
    | _ => return [(← fault, .fault)]

/-- The items of a sequence in brackets and its end. An item may be a single pair of a mapping
without braces of its own. -/
def flowItems (first : Bool) : (fuel : Nat) → StateM Reader (List Node)
  | 0 => return [← fault]
  | fuel + 1 => do
    if ← next (· == .flowSequenceEnd) then
      skip; count; return []
    if !first then
      if ← next (· == .flowEntry) then skip
      else return [← fault]
    match (← get).tokens with
    | [] => return [← fault]
    | ⟨_, _, .flowSequenceEnd⟩ :: _ => skip; count; return []
    | ⟨m, _, .key⟩ :: _ =>
      skip; count
      let pair ← flowPair fuel
      count
      return .mapping ⟨m, none, none⟩ [pair] :: (← flowItems false fuel)
    | _ =>
      let item ← node false false fuel
      return item :: (← flowItems false fuel)

/-- The single pair of a mapping without braces. Where its key is left out the token after it
is passed over. -/
def flowPair : (fuel : Nat) → StateM Reader (Node × Node)
  | 0 => return (← fault, .fault)
  | fuel + 1 => do
    let absent (k : TokenKind) := k == .flowEntry || k == .flowSequenceEnd
    let k ← match (← get).tokens with
      | [] => fault
      | t :: _ =>
        if absent t.kind || t.kind == .value then do skip; nothing t.stop
        else node false false fuel
    let v ← flowValue absent fuel
    return (k, v)

/-- The value of an entry between brackets, if there is one. -/
def flowValue (absent : TokenKind → Bool) : (fuel : Nat) → StateM Reader Node
  | 0 => fault
  | fuel + 1 => do
    if ← next (· == .value) then
      skip
      nodeOr false false absent none fuel
    else omitted

/-- The entries of a mapping in braces and its end. -/
def flowEntries (first : Bool) : (fuel : Nat) → StateM Reader (List (Node × Node))
  | 0 => return [(← fault, .fault)]
  | fuel + 1 => do
    let absent (k : TokenKind) := k == .flowEntry || k == .flowMappingEnd
    if ← next (· == .flowMappingEnd) then
      skip; count; return []
    if !first then
      if ← next (· == .flowEntry) then skip
      else return [(← fault, .fault)]
    match (← get).tokens with
    | [] => return [(← fault, .fault)]
    | ⟨_, _, .flowMappingEnd⟩ :: _ => skip; count; return []
    | ⟨_, _, .key⟩ :: _ =>
      skip
      let k ← nodeOr false false (fun k => absent k || k == .value) none fuel
      let v ← flowValue absent fuel
      return (k, v) :: (← flowEntries false fuel)
    | _ =>
      let k ← node false false fuel
      let v ← omitted
      return (k, v) :: (← flowEntries false fuel)

end

/-- The directives before a document: the version at most once and understood, each handle at
most once. None if one is refused. -/
def directives : (handles : List (List Char × List UInt8)) → (versioned : Bool) → List Token →
    Option (List (List Char × List UInt8) × List Token)
  | handles, versioned, ⟨_, _, .versionDirective major minor⟩ :: rest =>
    if versioned || major ≠ 1 || (minor ≠ 1 ∧ minor ≠ 2) then none
    else directives handles true rest
  | handles, versioned, ⟨_, _, .tagDirective h tagPrefix⟩ :: rest =>
    if handles.any (·.1 == h) then none
    else directives (handles ++ [(h, tagPrefix)]) versioned rest
  | handles, _, tokens => some (handles ++ standardHandles, tokens)

/-- The document whose content is next. -/
def document (handles : List (List Char × List UInt8)) (tokens : List Token)
    (root : (fuel : Nat) → StateM Reader Node) : Document × List Token :=
  let (root, r) := (root (4 * tokens.length + 4)).run ⟨tokens, handles, [], 0⟩
  (⟨root, r.size, r.tokens.isEmpty⟩, r.tokens)

/-- The content of a document after `---`, which may be left out. -/
def explicitContent (fuel : Nat) : StateM Reader Node := do
  let ends (k : TokenKind) : Bool := match k with
    | .versionDirective .. | .tagDirective .. | .documentStart | .documentEnd | .streamEnd => true
    | _ => false
  match (← get).tokens with
  | [] => fault
  | t :: _ => if ends t.kind then nothing t.start else node true false fuel

/-- A text that is malformed before a document starts. -/
def faultyDocument : Document :=
  ⟨.fault, 0, true⟩

/-- Past the marks that end a document. -/
def skipEnds (tokens : List Token) : List Token :=
  tokens.dropWhile (·.kind == .documentEnd)

/-- The documents from the second one on. -/
def laterDocuments : (fuel : Nat) → List Token → List Document
  | 0, _ => [faultyDocument]
  | fuel + 1, tokens =>
    match skipEnds tokens with
    | ⟨_, _, .streamEnd⟩ :: _ => []
    | tokens =>
      match directives [] false tokens with
      | some (handles, ⟨_, _, .documentStart⟩ :: rest) =>
        let (d, rest) := document handles rest explicitContent
        if d.faulty then [d] else d :: laterDocuments fuel rest
      | _ => [faultyDocument]

end Reader

/-- The documents of a text. Only the first one needs no `---`, and a text without content has
one empty document. A malformed text has its fault in the last document. -/
def Document.ofText (text : String) : List Document :=
  let (tokens, _) := Token.ofText text.toList
  let starts (k : TokenKind) : Bool := match k with
    | .versionDirective .. | .tagDirective .. | .documentStart => true
    | _ => false
  match tokens with
  | [] => [Reader.faultyDocument]
  | ⟨m, _, .streamEnd⟩ :: _ => [⟨.scalar ⟨m, none, none⟩ .plain "", 1, false⟩]
  | t :: _ =>
    if starts t.kind then
      Reader.laterDocuments (tokens.length + 1) tokens
    else
      let (d, rest) := Reader.document Reader.standardHandles tokens (Reader.node true false)
      if d.faulty then [d] else d :: Reader.laterDocuments (tokens.length + 1) rest

end TenantRegistry.Yaml
