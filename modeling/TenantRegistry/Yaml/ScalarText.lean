import TenantRegistry.Text.Quoted
import TenantRegistry.Yaml.Cursor
import TenantRegistry.Yaml.Scalar

/-!
How a text is written as a scalar.

A text with a line feed is a literal block where the place allows it. A text that would read back
as something else than a text is single-quoted. Any other text is plain. A form that cannot hold
the text gives way to the next one: plain to single quotes, single quotes and literal blocks to
double quotes, which hold everything.
-/

namespace TenantRegistry.Yaml.ScalarText

/-- A character that stands for itself in every form but double quotes. -/
def isPrintable (c : Char) : Bool :=
  let n := c.toNat
  n == 0xA || (0x20 ≤ n && n ≤ 0x7E) || (0xA0 ≤ n && n ≤ 0xD7FF) ||
    (0xE000 ≤ n && n ≤ 0xFFFD && n != 0xFEFF) || 0x10000 ≤ n

/-- What comes next separates words: a blank, a line break, a NUL or the end. -/
def atSeparator : List Char → Bool
  | [] => true
  | c :: _ => isBlankChar c || isBreakChar c || c == '\x00'

/-- A character that cannot start a plain scalar. -/
def isLeadIndicator (c : Char) : Bool :=
  "#,[]\x7b\x7d&*!|>'\"%@\x60".toList.contains c

/-- A colon before a separator or a number sign after one, in what follows a first character. -/
def hasInnerIndicator : (afterSeparator : Bool) → List Char → Bool
  | _, [] => false
  | afterSeparator, c :: rest =>
    (c == ':' && atSeparator rest) || (c == '#' && afterSeparator) ||
      hasInnerIndicator (atSeparator [c]) rest

/-- A text that would be taken for something else if it were plain. -/
def hasIndicator (cs : List Char) : Bool :=
  ['-', '-', '-'].isPrefixOf cs || ['.', '.', '.'].isPrefixOf cs ||
    match cs with
    | [] => false
    | c :: rest =>
      isLeadIndicator c || ((c == '?' || c == ':' || c == '-') && atSeparator rest) ||
        hasInnerIndicator (atSeparator [c]) rest

/-- Two neighbours somewhere in a text. -/
def hasPair (p q : Char → Bool) : List Char → Bool
  | c :: d :: rest => (p c && q d) || hasPair p q (d :: rest)
  | _ => false

def isSpaceChar (c : Char) : Bool :=
  c == ' '

def isMultiline (cs : List Char) : Bool :=
  cs.any isBreakChar

/-- Space or break at the end. -/
def endsWith (p : Char → Bool) (cs : List Char) : Bool :=
  cs.getLast?.any p

def plainAllowed (cs : List Char) : Bool :=
  !(cs.head?.any isSpaceChar || endsWith isSpaceChar cs || isMultiline cs || hasIndicator cs) &&
    cs.all isPrintable

def singleAllowed (cs : List Char) : Bool :=
  !(hasPair isBreakChar isSpaceChar cs || hasPair isSpaceChar isBreakChar cs) && cs.all isPrintable

def literalAllowed (cs : List Char) : Bool :=
  !(endsWith isSpaceChar cs || hasPair isSpaceChar isBreakChar cs) && cs.all isPrintable

/-- A text that a plain scalar would not read back. -/
def isAmbiguous (s : String) : Bool :=
  Scalar.hasLeadingZero s.toList ||
    match Scalar.ofPlain s with
    | .text _ => false
    | _ => true

inductive Form where
  | plain
  | single
  | double
  | literal
  deriving DecidableEq, Repr

/-- The form of a text, as a simple key or elsewhere. -/
def form (simpleKey : Bool) (s : String) : Form :=
  let cs := s.toList
  if cs.contains '\n' then
    if literalAllowed cs && !simpleKey then .literal else .double
  else if simpleKey && isMultiline cs then .double
  else if !isAmbiguous s && plainAllowed cs then .plain
  else if singleAllowed cs then .single
  else .double

/-- The letter after the backslash of an escape, where there is one. -/
def escapeLetter? (c : Char) : Option Char :=
  match c with
  | '\x00' => some '0'
  | '\x07' => some 'a'
  | '\x08' => some 'b'
  | '\t' => some 't'
  | '\n' => some 'n'
  | '\x0b' => some 'v'
  | '\x0c' => some 'f'
  | '\r' => some 'r'
  | '\x1b' => some 'e'
  | '"' => some '"'
  | '\\' => some '\\'
  | '\u0085' => some 'N'
  | '\u2028' => some 'L'
  | '\u2029' => some 'P'
  | _ => none

def escape (c : Char) : List Char :=
  match escapeLetter? c with
  | some l => ['\\', l]
  | none =>
    if isPrintable c then [c]
    else if c.toNat ≤ 0xFF then '\\' :: 'x' :: Text.hexUpper 2 c.toNat
    else if c.toNat ≤ 0xFFFF then '\\' :: 'u' :: Text.hexUpper 4 c.toNat
    else '\\' :: 'U' :: Text.hexUpper 8 c.toNat

def spaces (n : Nat) : List Char :=
  List.replicate n ' '

/-- The inside of single quotes. After line breaks the text is indented. -/
def singleInside (indent : Nat) : (afterBreak : Bool) → List Char → List Char
  | afterBreak, [] => if afterBreak then spaces indent else []
  | afterBreak, c :: rest =>
    if isBreakChar c then c :: singleInside indent true rest
    else
      (if afterBreak then spaces indent else []) ++ (if c = '\'' then ['\'', '\''] else [c]) ++
        singleInside indent false rest

/-- The lines of a literal block, each but an empty one indented. -/
def literalLines (indent : Nat) : (afterBreak : Bool) → List Char → List Char
  | _, [] => []
  | afterBreak, c :: rest =>
    if isBreakChar c then c :: literalLines indent true rest
    else (if afterBreak then spaces indent else []) ++ c :: literalLines indent false rest

/-- The indicators after the `|` of a literal block: its indentation where the first line does
not show it, and what becomes of the line breaks at its end. -/
def literalHints (cs : List Char) : List Char :=
  (if cs.head?.any fun c => isSpaceChar c || isBreakChar c then ['2'] else []) ++
    match cs.reverse with
    | c :: rest =>
      if !isBreakChar c then ['-']
      else
        match rest with
        | [] => ['+']
        | d :: _ => if isBreakChar d then ['+'] else []
    | [] => ['-']

/-- A text in a form, its later lines indented. Also told is whether it ends with a line break. -/
def write (f : Form) (indent : Nat) (cs : List Char) : List Char × Bool :=
  match f with
  | .plain => (cs, false)
  | .single => ('\'' :: singleInside indent false cs ++ ['\''], false)
  | .double => ('"' :: cs.flatMap escape ++ ['"'], false)
  | .literal =>
    ('|' :: literalHints cs ++ '\n' :: literalLines indent true cs, endsWith isBreakChar cs)

end TenantRegistry.Yaml.ScalarText
