import TenantRegistry.Yaml.ScalarText
import TenantRegistry.Yaml.Tree.Basic

/-!
The block style in which values are written: one entry or item per line, nested collections
indented by two, sequences under a key not indented, empty collections as `[]` and `\x7b\x7d`.

A key that does not fit on a line of its own, because it is a collection, has line breaks or is
longer than 128 octets, is introduced by `?` and its value by `:`. A tag directly on a tagged
value cannot be written.
-/

namespace TenantRegistry.Yaml.Tree

open ScalarText (Form spaces)

/-- Where a value is written. -/
structure Place where
  /-- A space must come before what follows on the line. -/
  space : Bool
  /-- A block collection may start on this line. -/
  sameLine : Bool
  /-- The value belongs to an entry of a mapping. -/
  inMapping : Bool
  /-- The value is a key on one line with its colon. -/
  simpleKey : Bool

namespace Place

def start : Place := ⟨false, true, false, false⟩

/-- After the dash of an item. -/
def item : Place := ⟨true, true, false, false⟩

/-- After the colon of a simple key. -/
def value : Place := ⟨true, false, true, false⟩

/-- After the `?` or `:` of an entry whose key is no simple key. -/
def complex : Place := ⟨true, true, true, false⟩

def key : Place := ⟨false, true, true, true⟩

/-- After a tag. -/
def tagged (p : Place) : Place := { p with space := true, sameLine := false }

end Place

/-- Written text, and whether it ends with the line break of a literal block. -/
structure Output where
  text : List Char
  ended : Bool

namespace Output

def line (text : List Char) : Output := ⟨text, false⟩

/-- A new line with an indentation, after some output. -/
def newLine (ended : Bool) (indent : Nat) : List Char :=
  (if ended then [] else ['\n']) ++ spaces indent

end Output

/-- The characters of a tag that are not written as octets. -/
def isTagText (c : Char) : Bool :=
  isWordChar c || ";/?:@&=+$,.~*'()[]".toList.contains c

/-- An octet after a percent sign. -/
def percentOctet (b : UInt8) : List Char :=
  '%' :: Text.hexUpper 2 b.toNat

def tagContent (tag : String) : List Char :=
  tag.toList.flatMap fun c => if isTagText c then [c] else (Utf8.encodeChar c).flatMap percentOctet

/-- A tag as it is written before a value. -/
def writeTag (tag : String) : List Char :=
  if tag = "!" then "!<".toList ++ tagContent tag ++ ['>'] else '!' :: tagContent tag

/-- The text of a value that is written plain whatever it is: null, truth values and numbers. -/
def fixedText? : Tree → Option (List Char)
  | .null => some "null".toList
  | .bool b => some (if b then "true".toList else "false".toList)
  | .number n => some (numberText n)
  | _ => none

/-- The octets of a text. -/
def octetCount (cs : List Char) : Nat :=
  cs.foldl (fun octets c => octets + c.utf8Size) 0

/-- The octets of a tag with its `!`. -/
def tagLength (tag : String) : Nat :=
  if tag = "!" then 1 else 1 + octetCount tag.toList

/-- The octets that count against the length of a simple key; none if it cannot be one. -/
def simpleLength? : Tree → Option Nat
  | .string s => if ScalarText.isMultiline s.toList then none else some (octetCount s.toList)
  | .sequence [] => some 0
  | .mapping [] => some 0
  | .sequence _ => none
  | .mapping _ => none
  | .tagged tag value => value.simpleLength?.map (· + tagLength tag)
  | t => t.fixedText?.map List.length

def isSimpleKey (t : Tree) : Bool :=
  t.simpleLength?.any (· ≤ 128)

/-- The indentation of a collection inside one that is indented by `indent`; none is the
document itself. -/
def deeper (indent : Option Nat) : Nat :=
  match indent with
  | none => 0
  | some n => n + 2

/-- The indentation of the later lines of a scalar. -/
def scalarIndent (indent : Option Nat) : Nat :=
  indent.getD 0 + 2

def lead (p : Place) : List Char :=
  if p.space then [' '] else []

/-- What comes before the first item or entry of a block. -/
def blockLead (p : Place) (indent : Nat) : List Char :=
  if p.sameLine then lead p else Output.newLine false indent

/-- The place of a key. -/
def keyPlace (k : Tree) : Place :=
  if k.isSimpleKey then .key else .complex

/-- The place of the value under a key. -/
def valuePlace (k : Tree) : Place :=
  if k.isSimpleKey then .value else .complex

/-- An entry, from its written key and value. -/
def Output.entry (simple : Bool) (indent : Nat) (key value : Output) : Output :=
  if simple then ⟨key.text ++ ':' :: value.text, value.ended⟩
  else ⟨'?' :: key.text ++ Output.newLine key.ended indent ++ ':' :: value.text, value.ended⟩

mutual

/-- A value at a place in a collection that is indented by `indent`. None for a tag on a tagged
value. -/
def write (indent : Option Nat) (p : Place) : Tree → Option Output
  | .null => some (.line (lead p ++ "null".toList))
  | .bool b => some (.line (lead p ++ if b then "true".toList else "false".toList))
  | .number n => some (.line (lead p ++ numberText n))
  | .string s =>
    let (text, ended) :=
      ScalarText.write (ScalarText.form p.simpleKey s) (scalarIndent indent) s.toList
    some ⟨lead p ++ text, ended⟩
  | .sequence [] => some (.line (lead p ++ ['[', ']']))
  | .sequence (t :: ts) => do
    let inner := if p.inMapping && !p.sameLine then indent.getD 0 else deeper indent
    let first ← write (some inner) .item t
    let rest ← writeItems inner first.ended ts
    return ⟨blockLead p inner ++ '-' :: first.text ++ rest.text, rest.ended⟩
  | .mapping [] => some (.line (lead p ++ ['\x7b', '\x7d']))
  | .mapping ((k, v) :: rest) => do
    let inner := deeper indent
    let key ← write (some inner) (keyPlace k) k
    let value ← write (some inner) (valuePlace k) v
    let first := Output.entry k.isSimpleKey inner key value
    let rest ← writeEntries inner first.ended rest
    return ⟨blockLead p inner ++ first.text ++ rest.text, rest.ended⟩
  | .tagged tag value =>
    match value with
    | .tagged .. => none
    | value => do
      let out ← write indent p.tagged value
      return ⟨lead p ++ writeTag tag ++ out.text, out.ended⟩

/-- The items after the first one; `ended` tells how the item before them ends. -/
def writeItems (indent : Nat) (ended : Bool) : List Tree → Option Output
  | [] => some ⟨[], ended⟩
  | t :: ts => do
    let first ← write (some indent) .item t
    let rest ← writeItems indent first.ended ts
    return ⟨Output.newLine ended indent ++ '-' :: first.text ++ rest.text, rest.ended⟩

/-- The entries after the first one. -/
def writeEntries (indent : Nat) (ended : Bool) : List (Tree × Tree) → Option Output
  | [] => some ⟨[], ended⟩
  | (k, v) :: rest => do
    let key ← write (some indent) (keyPlace k) k
    let value ← write (some indent) (valuePlace k) v
    let first := Output.entry k.isSimpleKey indent key value
    let rest ← writeEntries indent first.ended rest
    return ⟨Output.newLine ended indent ++ first.text ++ rest.text, rest.ended⟩

end

/-- The text of a document. -/
def render (t : Tree) : Option (List Char) := do
  let out ← t.write none .start
  return if out.ended then out.text else out.text ++ ['\n']

/-- The text of a stream of documents, with a line `---` between two of them. -/
def renderAll : List Tree → Option (List Char)
  | [] => some []
  | [t] => t.render
  | t :: ts => do return (← t.render) ++ "---\n".toList ++ (← renderAll ts)

end TenantRegistry.Yaml.Tree
