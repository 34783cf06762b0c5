import TenantRegistry.Yaml.Cursor

/-!
Tokens: the marks, names and scalars a text is made of, each with the place where it starts
and the place where it stops.
-/

namespace TenantRegistry.Yaml

/-- How a scalar is written. -/
inductive ScalarStyle where
  | plain
  | singleQuoted
  | doubleQuoted
  | literal
  | folded
  deriving DecidableEq, Repr

/-- What a token says. Names and tags are kept as octets where escapes may build them. -/
inductive TokenKind where
  | streamEnd
  | versionDirective (major minor : Nat)
  | tagDirective (handle : List Char) (tagPrefix : List UInt8)
  | documentStart
  | documentEnd
  | blockSequenceStart
  | blockMappingStart
  | blockEnd
  | flowSequenceStart
  | flowSequenceEnd
  | flowMappingStart
  | flowMappingEnd
  | blockEntry
  | flowEntry
  | key
  | value
  | alias (name : List Char)
  | anchor (name : List Char)
  | tag (handle : List Char) (suffix : List UInt8)
  | scalar (style : ScalarStyle) (text : List Char)
  deriving DecidableEq, Repr

structure Token where
  start : Mark
  stop : Mark
  kind : TokenKind
  deriving DecidableEq, Repr

/-- What folding makes of a line break and the breaks after it: a lone line feed joins two
lines with a space, and a first line feed gives way to the further breaks. -/
def foldBreaks (first further : List Char) : List Char :=
  if first = ['\n'] then
    if further.isEmpty then [' '] else further
  else
    first ++ further

/-- Blanks and line breaks between two parts of a scalar. -/
structure Gap where
  /-- Blanks of the line on which the gap starts, of no account once it has a break. -/
  blanks : List Char
  broken : Bool
  first : List Char
  further : List Char

/-- No blanks and no break, or the break that an escape has taken out. -/
def Gap.empty (broken : Bool) : Gap :=
  ⟨[], broken, [], []⟩

/-- The text a gap stands for. -/
def Gap.text (g : Gap) : List Char :=
  if g.broken then foldBreaks g.first g.further else g.blanks

/-- Reads blanks and breaks onto a gap. None if a tab stands before column `indent` of a later
line. As in all such loops below, the characters to come are the budget: one is spent per step. -/
def Gap.read (indent : Int) : (budget : List Char) → Gap → Cursor → Option (Gap × Cursor)
  | [], g, cur => some (g, cur)
  | _ :: budget, g, cur =>
    match cur.rest with
    | [] => some (g, cur)
    | c :: _ =>
      if isBlankChar c then
        if g.broken then
          if c == '\t' && cur.mark.column < indent then none
          else Gap.read indent budget g cur.skip
        else Gap.read indent budget { g with blanks := g.blanks ++ [c] } cur.skip
      else if isBreakChar c then
        let (text, cur) := cur.takeBreak
        if g.broken then Gap.read indent budget { g with further := g.further ++ text } cur
        else Gap.read indent budget ⟨[], true, text, []⟩ cur
      else some (g, cur)

end TenantRegistry.Yaml
