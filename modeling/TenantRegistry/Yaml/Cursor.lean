import TenantRegistry.Yaml.Mark

/-!
A place in a text that is being read: the characters still to come and the position reached.

The classes of characters that the syntax distinguishes are here too, and which characters a
text may hold at all. A text is taken in portions of 16 KiB, and a portion that holds a
forbidden character is not read at all: `Source` is what can be read before it.
-/

namespace TenantRegistry.Yaml

def isBlankChar (c : Char) : Bool :=
  c == ' ' || c == '\t'

/-- Line breaks: CR, LF, NEL, LS and PS. -/
def isBreakChar (c : Char) : Bool :=
  c == '\n' || c == '\r' || c == '\u0085' || c == '\u2028' || c == '\u2029'

/-- Letters, digits, `_` and `-`, of which names of anchors, handles and directives consist. -/
def isWordChar (c : Char) : Bool :=
  c.isAlphanum || c == '_' || c == '-'

/-- The characters a text may hold. -/
def isAllowedChar (c : Char) : Bool :=
  let n := c.toNat
  n == 0x9 || n == 0xA || n == 0xD || (0x20 ≤ n && n ≤ 0x7E) || n == 0x85 ||
    (0xA0 ≤ n && n ≤ 0xD7FF) || (0xE000 ≤ n && n ≤ 0xFFFD) || 0x10000 ≤ n

/-- What comes next is a blank, a line break or the end. -/
def atGap : List Char → Bool
  | [] => true
  | c :: _ => isBlankChar c || isBreakChar c

/-- What comes next is a line break or the end. -/
def atLineEnd : List Char → Bool
  | [] => true
  | c :: _ => isBreakChar c

def atBreak : List Char → Bool
  | [] => false
  | c :: _ => isBreakChar c

def atBlank : List Char → Bool
  | [] => false
  | c :: _ => isBlankChar c

/-- What comes next is `c`. -/
def atChar (c : Char) : List Char → Bool
  | [] => false
  | d :: _ => c == d

/-- How many octets the next character takes. The end counts as one. -/
def nextWidth : List Char → Nat
  | [] => 1
  | c :: _ => c.utf8Size

/-- Characters still to come and the position of the first of them. -/
structure Cursor where
  rest : List Char
  mark : Mark
  deriving DecidableEq, Repr

namespace Cursor

/-- Past one character that is no line break. -/
def skip (cur : Cursor) : Cursor :=
  ⟨cur.rest.tail, cur.mark.next (nextWidth cur.rest)⟩

/-- Past `n` characters of one line. -/
def skipMany : Nat → Cursor → Cursor
  | 0, cur => cur
  | n + 1, cur => skipMany n cur.skip

example : (skipMany 2 ⟨['é', ':'], Mark.start⟩).mark = ⟨3, 0, 2⟩ := by decide

/-- Past a line break, with the text it stands for: LS and PS are kept, every other break is a
line feed. CR and LF together are one break. Without a break nothing is read. -/
def takeBreak (cur : Cursor) : List Char × Cursor :=
  match cur.rest with
  | '\r' :: '\n' :: rest => (['\n'], ⟨rest, cur.mark.newLine 2⟩)
  | c :: rest =>
    if c == '\u2028' || c == '\u2029' then ([c], ⟨rest, cur.mark.newLine c.utf8Size⟩)
    else if isBreakChar c then (['\n'], ⟨rest, cur.mark.newLine c.utf8Size⟩)
    else ([], cur)
  | [] => ([], cur)

def skipBreak (cur : Cursor) : Cursor :=
  cur.takeBreak.2

/-- The longest run of characters of one line that satisfy `p`, and the place after it. -/
def takeWhile (p : Char → Bool) (cur : Cursor) : List Char × Cursor :=
  let run := cur.rest.takeWhile p
  (run, cur.skipMany run.length)

def skipWhile (p : Char → Bool) (cur : Cursor) : Cursor :=
  (cur.takeWhile p).2

/-- Past the rest of the line, the break excluded. -/
def skipLine (cur : Cursor) : Cursor :=
  cur.skipWhile (!isBreakChar ·)

/-- Past blanks, a comment and the line break. None if something else stands on the line. -/
def skipLineEnd? (cur : Cursor) : Option Cursor :=
  let cur := cur.skipWhile isBlankChar
  let cur := if atChar '#' cur.rest then cur.skipLine else cur
  if atLineEnd cur.rest then some cur.skipBreak else none

/-- At the start of a line that begins with `---` or `...` and a gap. -/
def atDocumentMark (c : Char) (cur : Cursor) : Bool :=
  cur.mark.column == 0 &&
    match cur.rest with
    | c₁ :: c₂ :: c₃ :: rest => c₁ == c && c₂ == c && c₃ == c && atGap rest
    | _ => false

end Cursor

/-- The size of a portion in octets. -/
def portionSize : Nat := 16384

/-- A text as far as it can be read, and whether a forbidden character follows. -/
structure Source where
  text : List Char
  faulty : Bool
  deriving DecidableEq, Repr

/-- Reads on in a portion that has `room` octets left and of which `portion` is read, last
character first. -/
def Source.read : (room : Nat) → (portion : List Char) → List Char → Source
  | _, portion, [] => ⟨portion.reverse, false⟩
  | room, portion, c :: rest =>
    if c.utf8Size ≤ room then
      if isAllowedChar c then Source.read (room - c.utf8Size) (c :: portion) rest
      else ⟨[], true⟩
    else if isAllowedChar c then
      let later := Source.read (portionSize - c.utf8Size) [c] rest
      ⟨portion.reverse ++ later.text, later.faulty⟩
    else
      ⟨portion.reverse, true⟩

def Source.ofText (text : List Char) : Source :=
  Source.read portionSize [] text

end TenantRegistry.Yaml
