import TenantRegistry.Yaml.Token.Basic

/-!
Block scalars: the indented lines after `|`, kept as they are, or after `>`, folded.

The header may fix the indentation and say what becomes of the breaks at the end: one is kept,
none (`-`) or all (`+`).
-/

namespace TenantRegistry.Yaml.BlockScalar

/-- What becomes of the line breaks at the end. -/
inductive Chomping where
  | clip
  | strip
  | keep
  deriving DecidableEq, Repr

def chomping? (c : Char) : Option Chomping :=
  if c = '+' then some .keep else if c = '-' then some .strip else none

/-- An indentation digit. None without one; zero is refused. -/
def increment (cur : Cursor) : Option (Option Nat × Cursor) :=
  match cur.rest with
  | c :: _ =>
    if c.isDigit then
      if c = '0' then none else some (some (c.toNat - '0'.toNat), cur.skip)
    else some (none, cur)
  | [] => some (none, cur)

/-- A chomping indicator. -/
def chomping (cur : Cursor) : Option Chomping × Cursor :=
  match cur.rest.head? >>= chomping? with
  | some c => (some c, cur.skip)
  | none => (none, cur)

/-- The indicators of the header in either order. -/
def header (cur : Cursor) : Option (Chomping × Option Nat × Cursor) := do
  match chomping cur with
  | (some c, cur) => do
    let (n, cur) ← increment cur
    return (c, n, cur)
  | (none, cur) => do
    let (n, cur) ← increment cur
    if n.isSome then
      let (c, cur) := chomping cur
      return (c.getD .clip, n, cur)
    else
      return (.clip, none, cur)

/-- Past indentation and empty lines: their breaks, the deepest column reached and the place
after them. An indentation not yet known lets any number of spaces pass. None if a tab stands
in the indentation. -/
def emptyLines (indent : Option Nat) : (budget : List Char) → (deepest : Nat) → Cursor →
    Option (List Char × Nat × Cursor)
  | [], deepest, cur => some ([], max deepest cur.mark.column, cur)
  | _ :: budget, deepest, cur =>
    let within := match indent with
      | none => true
      | some n => decide (cur.mark.column < n)
    match cur.rest with
    | [] => some ([], max deepest cur.mark.column, cur)
    | c :: _ =>
      if within && c == ' ' then emptyLines indent budget deepest cur.skip
      else if within && c == '\t' then none
      else if isBreakChar c then do
        let deepest := max deepest cur.mark.column
        let (text, cur) := cur.takeBreak
        let (breaks, deepest, cur) ← emptyLines indent budget deepest cur
        return (text ++ breaks, deepest, cur)
      else some ([], max deepest cur.mark.column, cur)

/-- What follows a line of a block scalar: its break and those of the empty lines after it;
also, whether the line starts with a blank. -/
structure LineEnd where
  first : List Char
  further : List Char
  blank : Bool

/-- The text between a line and the next one, which starts with a blank or not. Lines that
start with a blank are not folded. -/
def LineEnd.joint (literal : Bool) (e : LineEnd) (blank : Bool) : List Char :=
  if !literal && e.first == ['\n'] && !e.blank && !blank then foldBreaks e.first e.further
  else e.first ++ e.further

/-- Reads lines that are indented by exactly `indent`, the last of them ending as told. -/
def lines (literal : Bool) (indent : Nat) : (budget : List Char) → LineEnd → Cursor →
    Option (List Char × LineEnd × Cursor)
  | [], e, cur => some ([], e, cur)
  | _ :: budget, e, cur =>
    if cur.mark.column = indent ∧ cur.rest ≠ [] then do
      let blank := atBlank cur.rest
      let (line, after) := cur.takeWhile (!isBreakChar ·)
      let (first, after) := after.takeBreak
      let (further, _, after) ← emptyLines (some indent) after.rest 0 after
      let (text, last, after) ← lines literal indent budget ⟨first, further, blank⟩ after
      return (e.joint literal blank ++ line ++ text, last, after)
    else
      some ([], e, cur)

/-- What chomping leaves of the breaks at the end. -/
def LineEnd.chomped (e : LineEnd) : Chomping → List Char
  | .strip => []
  | .clip => e.first
  | .keep => e.first ++ e.further

/-- The scalar whose `|` or `>` is next, in a collection indented by `parent`. Without an
indentation digit the deepest of the first empty lines and the first text line decides. -/
def scan (literal : Bool) (parent : Int) (cur : Cursor) : Option (Token × Cursor) := do
  let (chomp, digit, after) ← header cur.skip
  let after ← after.skipLineEnd?
  let fixed := digit.map fun n => (if 0 ≤ parent then parent + n else n).toNat
  let (further, deepest, after) ← emptyLines fixed after.rest 0 after
  let indent := fixed.getD (max deepest (max (parent + 1) 1).toNat)
  let (text, last, after) ← lines literal indent after.rest ⟨[], further, false⟩ after
  let style := if literal then ScalarStyle.literal else .folded
  return (⟨cur.mark, after.mark, .scalar style (text ++ last.chomped chomp)⟩, after)

end TenantRegistry.Yaml.BlockScalar
