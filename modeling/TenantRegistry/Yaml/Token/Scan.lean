import TenantRegistry.Yaml.Token.Plain
import TenantRegistry.Yaml.Token.Block
import TenantRegistry.Yaml.Token.Property

/-!
From text to tokens.

Indentation becomes tokens that open and close block collections. That a scalar is a mapping
key shows only at the colon after it, so the place of every possible key is remembered and the
key token is put there when the colon comes. A token is released as soon as no possible key
can stand before it; a fault keeps back only what is not yet released.
-/

namespace TenantRegistry.Yaml

/-- A place where a mapping key may start. It must be one if nothing else can stand there. -/
structure PossibleKey where
  required : Bool
  number : Nat
  mark : Mark
  deriving DecidableEq, Repr

/-- The state of reading tokens. `keys` has one entry per open bracket and a last one for the
block around them; `pending` are the tokens not yet released, of which `released` came before. -/
structure Scanner where
  cursor : Cursor
  flow : Nat
  indent : Int
  indents : List Int
  keyAllowed : Bool
  keys : List (Option PossibleKey)
  released : Nat
  pending : List Token
  faulty : Bool

namespace Scanner

def ofSource (s : Source) : Scanner :=
  { cursor := ⟨s.text, Mark.start⟩, flow := 0, indent := -1, indents := [], keyAllowed := true,
    keys := [none], released := 0, pending := [], faulty := s.faulty }

def inFlow (s : Scanner) : Bool :=
  0 < s.flow

def push (s : Scanner) (t : Token) : Scanner :=
  { s with pending := s.pending ++ [t] }

/-- A token that holds no characters. -/
def pushMark (s : Scanner) (m : Mark) (kind : TokenKind) : Scanner :=
  s.push ⟨m, m, kind⟩

/-- Puts a token before the one with the given number. -/
def insert (s : Scanner) (number : Nat) (t : Token) : Scanner :=
  { s with pending := s.pending.insertIdx (number - s.released) t }

/-- Past blanks, comments and line breaks. Tabs are blanks only where no key may start, and a
line break outside brackets lets a key start. -/
def skipGap : (budget : List Char) → Scanner → Scanner
  | [], s => s
  | _ :: budget, s =>
    match s.cursor.rest with
    | [] => s
    | c :: _ =>
      if c == ' ' || (c == '\t' && (s.inFlow || !s.keyAllowed)) then
        skipGap budget { s with cursor := s.cursor.skip }
      else if c == '#' then
        skipGap budget { s with cursor := s.cursor.skipLine }
      else if isBreakChar c then
        skipGap budget { s with cursor := s.cursor.skipBreak, keyAllowed := s.keyAllowed || !s.inFlow }
      else s

/-- Past a byte-order mark, which may open a text. -/
def skipOrderMark (s : Scanner) : Scanner :=
  if s.cursor.mark.index == 0 && atChar '\uFEFF' s.cursor.rest then
    { s with cursor := s.cursor.skip }
  else s

/-- A key is on one line and takes no more than 1024 octets up to its colon. -/
def isStale (now : Mark) (k : PossibleKey) : Bool :=
  k.mark.line < now.line || k.mark.index + 1024 < now.index

/-- Forgets the places where a key can no longer start. None if a key had to be there. -/
def dropStale (s : Scanner) : Option Scanner := do
  let stale (k : Option PossibleKey) := k.any (isStale s.cursor.mark)
  if s.keys.any fun k => stale k && k.any (·.required) then
    failure
  return { s with keys := s.keys.map fun k => if stale k then none else k }

/-- Forgets the possible key of the innermost collection. None if a key had to be there. -/
def dropKey (s : Scanner) : Option Scanner :=
  match s.keys with
  | some k :: keys => if k.required then none else some { s with keys := none :: keys }
  | _ => some s

/-- Remembers that the next token may be a key. -/
def saveKey (s : Scanner) : Option Scanner :=
  if s.keyAllowed then do
    let required := !s.inFlow && s.indent == s.cursor.mark.column
    let s ← s.dropKey
    let key : PossibleKey := ⟨required, s.released + s.pending.length, s.cursor.mark⟩
    return { s with keys := some key :: s.keys.tail }
  else
    some s

/-- Deepens the indentation to `column` if it lies further in, and opens a block collection
before the token `number`, or after all tokens. -/
def openBlock (s : Scanner) (column : Nat) (number : Option Nat) (kind : TokenKind) (m : Mark) :
    Scanner :=
  if !s.inFlow && s.indent < column then
    let s := { s with indent := column, indents := s.indent :: s.indents }
    match number with
    | some n => s.insert n ⟨m, m, kind⟩
    | none => s.pushMark m kind
  else s

/-- Closes the block collections that lie further in than `column`. -/
def closeBlocks (column : Int) : (indents : List Int) → Scanner → Scanner
  | [], s => s
  | outer :: rest, s =>
    if column < s.indent then
      closeBlocks column rest
        { s.pushMark s.cursor.mark .blockEnd with indent := outer, indents := rest }
    else s

def unindent (column : Int) (s : Scanner) : Scanner :=
  if s.inFlow then s else closeBlocks column s.indents s

/-- A token of `n` characters of one line. -/
def take (n : Nat) (kind : TokenKind) (s : Scanner) : Scanner :=
  let after := s.cursor.skipMany n
  { s.push ⟨s.cursor.mark, after.mark, kind⟩ with cursor := after }

def streamEnd (s : Scanner) : Option Scanner := do
  let m := s.cursor.mark
  let m := if m.column = 0 then m else ⟨m.index, m.line + 1, 0⟩
  let s := { s with cursor := ⟨s.cursor.rest, m⟩ }
  let s ← (s.unindent (-1)).dropKey
  return { s.pushMark m .streamEnd with keyAllowed := false }

def directive (s : Scanner) : Option Scanner := do
  let s ← (s.unindent (-1)).dropKey
  let (t, after) ← Property.scanDirective s.cursor
  return { s.push t with cursor := after, keyAllowed := false }

def documentMark (kind : TokenKind) (s : Scanner) : Option Scanner := do
  let s ← (s.unindent (-1)).dropKey
  return { s.take 3 kind with keyAllowed := false }

def openFlow (kind : TokenKind) (s : Scanner) : Option Scanner := do
  let s ← s.saveKey
  return { s.take 1 kind with flow := s.flow + 1, keys := none :: s.keys, keyAllowed := true }

def closeFlow (kind : TokenKind) (s : Scanner) : Option Scanner := do
  let s ← s.dropKey
  let s := if s.inFlow then { s with flow := s.flow - 1, keys := s.keys.tail } else s
  return { s.take 1 kind with keyAllowed := false }

def flowEntry (s : Scanner) : Option Scanner := do
  let s ← s.dropKey
  return { s.take 1 .flowEntry with keyAllowed := true }

def blockEntry (s : Scanner) : Option Scanner := do
  if !s.inFlow && !s.keyAllowed then
    failure
  let m := s.cursor.mark
  let s ← (s.openBlock m.column none .blockSequenceStart m).dropKey
  return { s.take 1 .blockEntry with keyAllowed := true }

def explicitKey (s : Scanner) : Option Scanner := do
  if !s.inFlow && !s.keyAllowed then
    failure
  let m := s.cursor.mark
  let s ← (s.openBlock m.column none .blockMappingStart m).dropKey
  return { s.take 1 .key with keyAllowed := !s.inFlow }

/-- A colon: the possible key before it becomes one; without, the value has an empty key or
belongs to an explicit one. -/
def mappingValue (s : Scanner) : Option Scanner :=
  match s.keys with
  | some k :: keys =>
    let s := s.insert k.number ⟨k.mark, k.mark, .key⟩
    let s := s.openBlock k.mark.column (some k.number) .blockMappingStart k.mark
    let s := { s with keys := none :: keys, keyAllowed := false }
    some (s.take 1 .value)
  | _ => do
    if !s.inFlow && !s.keyAllowed then
      failure
    let m := s.cursor.mark
    let s := s.openBlock m.column none .blockMappingStart m
    let s := { s with keyAllowed := !s.inFlow }
    return s.take 1 .value

/-- A token that may start a key and after which none may start. -/
def keyToken (scan : Cursor → Option (Token × Cursor)) (s : Scanner) : Option Scanner := do
  let s ← s.saveKey
  let (t, after) ← scan s.cursor
  return { s.push t with cursor := after, keyAllowed := false }

def blockScalar (literal : Bool) (s : Scanner) : Option Scanner := do
  let s ← s.dropKey
  let (t, after) ← BlockScalar.scan literal s.indent s.cursor
  return { s.push t with cursor := after, keyAllowed := true }

def plainScalar (s : Scanner) : Option Scanner := do
  let s ← s.saveKey
  let (t, broken, after) ← Plain.scan s.inFlow s.indent s.cursor
  return { s.push t with cursor := after, keyAllowed := broken }

/-- The characters that cannot start a plain scalar before anything but text. -/
def isIndicator (c : Char) : Bool :=
  "-?:,[]\x7b\x7d#&*!|>'\"%@\x60".toList.contains c

/-- A plain scalar may start with `c`, followed by `rest`. -/
def startsPlain (flow : Bool) (c : Char) (rest : List Char) : Bool :=
  !(isBlankChar c || isBreakChar c || isIndicator c) ||
    (c == '-' && !atBlank rest) ||
    (!flow && (c == '?' || c == ':') && !atGap rest)

/-- Reads the token that starts with `c`. -/
def dispatch (c : Char) (rest : List Char) (s : Scanner) : Option Scanner :=
  let flow := s.inFlow
  if s.cursor.mark.column == 0 && c == '%' then s.directive
  else if s.cursor.atDocumentMark '-' then s.documentMark .documentStart
  else if s.cursor.atDocumentMark '.' then s.documentMark .documentEnd
  else if c == '[' then s.openFlow .flowSequenceStart
  else if c == '\x7b' then s.openFlow .flowMappingStart
  else if c == ']' then s.closeFlow .flowSequenceEnd
  else if c == '\x7d' then s.closeFlow .flowMappingEnd
  else if c == ',' then s.flowEntry
  else if c == '-' && atGap rest then s.blockEntry
  else if c == '?' && (flow || atGap rest) then s.explicitKey
  else if c == ':' && (flow || atGap rest) then s.mappingValue
  else if c == '*' then s.keyToken (Property.scanName .alias)
  else if c == '&' then s.keyToken (Property.scanName .anchor)
  else if c == '!' then s.keyToken (Property.scanTag flow)
  else if c == '|' && !flow then s.blockScalar true
  else if c == '>' && !flow then s.blockScalar false
  else if c == '\'' then s.keyToken (QuotedScalar.scan true)
  else if c == '"' then s.keyToken (QuotedScalar.scan false)
  else if startsPlain flow c rest then s.plainScalar
  else none

/-- A text that breaks off before a forbidden character must leave enough to tell tokens
apart. -/
def isStarved (need : Nat) (s : Scanner) : Bool :=
  s.faulty && s.cursor.rest.length < need

/-- Reads one more token, with the tokens that its indentation entails. None for a malformed
text. -/
def fetch (s : Scanner) : Option Scanner := do
  let s := s.skipOrderMark
  let s := s.skipGap s.cursor.rest
  if s.isStarved 4 then
    failure
  let s ← s.dropStale
  let s := s.unindent s.cursor.mark.column
  match s.cursor.rest with
  | [] => s.streamEnd
  | c :: rest => do
    let s ← s.dispatch c rest
    if s.isStarved 2 then
      failure
    return s

/-- A key may yet be put before the first pending token. -/
def isOpen (s : Scanner) : Bool :=
  s.keys.any fun k => k.any (·.number == s.released)

/-- Releases tokens until none is left. The answer is the tokens up to the end of the text or
up to a fault, and whether there was one. -/
def releaseAll : (fuel : Nat) → Scanner → List Token × Bool
  | 0, _ => ([], true)
  | fuel + 1, s =>
    match s.pending with
    | [] =>
      match s.fetch with
      | none => ([], true)
      | some s => releaseAll fuel s
    | t :: later =>
      match s.dropStale with
      | none => ([], true)
      | some s =>
        if s.isOpen then
          match s.fetch with
          | none => ([], true)
          | some s => releaseAll fuel s
        else if t.kind = .streamEnd then ([t], false)
        else
          let (tokens, fault) :=
            releaseAll fuel { s with pending := later, released := s.released + 1 }
          (t :: tokens, fault)

end Scanner

/-- The tokens of a text up to its end or its first fault, and whether there is a fault. Every
character brings at most three tokens: a key, the start and the end of a collection. -/
def Token.ofText (text : List Char) : List Token × Bool :=
  let source := Source.ofText text
  (Scanner.ofSource source).releaseAll (6 * source.text.length + 10)

end TenantRegistry.Yaml
