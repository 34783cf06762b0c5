import TenantRegistry.Json.Basic
import TenantRegistry.Text.Utf16

/-!
JSON texts as they are written: numbers with all their digits, entries in their order, repeated
keys included.

`Written.ofText?` reads exactly the texts of RFC 8259, to any depth. What such a text is worth
as a value is a further question, which `Json.Reader` answers.
-/

namespace TenantRegistry.Json

/-- A number as written: sign, digits before and after the point, and the exponent's sign and
digits. -/
structure NumberText where
  negative : Bool
  whole : List Char
  places : List Char
  exponent : Option (Bool × List Char)
  deriving DecidableEq, Repr

/-- A value as written. A string is none if an escape in it is half of a surrogate pair, which
no text can hold. -/
inductive Written where
  | null
  | bool (b : Bool)
  | number (n : NumberText)
  | string (s : Option String)
  | array (items : List Written)
  | object (entries : List (Option String × Written))
  deriving Repr

namespace Written

open Utf16 (isLead isTrail)

def isSpace (c : Char) : Bool :=
  c == ' ' || c == '\t' || c == '\n' || c == '\r'

def skipSpace (cs : List Char) : List Char :=
  cs.dropWhile isSpace

/-- The number that four hexadecimal digits write. -/
def hex4? (a b c d : Char) : Option Nat :=
  Number.ofDigits? 16 [a, b, c, d]

/-- What the character after a backslash stands for. -/
def simpleEscape? (c : Char) : Option Char :=
  match c with
  | '"' => some '"'
  | '\\' => some '\\'
  | '/' => some '/'
  | 'b' => some '\x08'
  | 'f' => some '\x0c'
  | 'n' => some '\n'
  | 'r' => some '\r'
  | 't' => some '\t'
  | _ => none

/-- The character that the escape of a lead surrogate and what follows it write, if they are a
pair, and what follows the pair. -/
def pair? (lead : Nat) (cs : List Char) : Option (Char × List Char) :=
  match cs with
  | '\\' :: 'u' :: a :: b :: c :: d :: rest =>
    match hex4? a b c d with
    | some trail => if isLead lead && isTrail trail then some (Utf16.pair lead trail, rest) else none
    | none => none
  | _ => none

/-- The rest of a string up to its closing quote, and what follows it; one unit of the budget is
spent per step. -/
def stringRest : (budget : List Char) → List Char → Option (Option (List Char) × List Char)
  | [], _ => none
  | _ :: budget, cs =>
    match cs with
    | [] => none
    | '"' :: rest => some (some [], rest)
    | '\\' :: 'u' :: a :: b :: c :: d :: rest =>
      match hex4? a b c d with
      | none => none
      | some n =>
        match pair? n rest with
        | some (c, rest) => prepend c (stringRest budget rest)
        | none =>
          if isLead n || isTrail n then (stringRest budget rest).map fun (_, rest) => (none, rest)
          else prepend (Char.ofNat n) (stringRest budget rest)
    | '\\' :: c :: rest =>
      match simpleEscape? c with
      | some c => prepend c (stringRest budget rest)
      | none => none
    | c :: rest =>
      if c.toNat < 0x20 || c == '\\' then none else prepend c (stringRest budget rest)
where
  prepend (c : Char) (r : Option (Option (List Char) × List Char)) :
      Option (Option (List Char) × List Char) :=
    r.map fun (s, rest) => (s.map (c :: ·), rest)

/-- The string whose opening quote is read, and what follows it. -/
def takeString (cs : List Char) : Option (Option String × List Char) :=
  (stringRest cs cs).map fun (s, rest) => (s.map String.ofList, rest)

/-- The exponent of a number, if there is one. None if it has no digits. -/
def takeExponent (cs : List Char) : Option (Option (Bool × List Char) × List Char) :=
  match cs with
  | c :: rest =>
    if c = 'e' ∨ c = 'E' then
      let (negative, rest) := match rest with
        | '+' :: rest => (false, rest)
        | '-' :: rest => (true, rest)
        | _ => (false, rest)
      let digits := rest.takeWhile Char.isDigit
      if digits.isEmpty then none
      else some (some (negative, digits), rest.dropWhile Char.isDigit)
    else some (none, cs)
  | [] => some (none, [])

/-- The places after the point, if there is one. None if it has none. -/
def takePlaces (cs : List Char) : Option (List Char × List Char) :=
  match cs with
  | '.' :: rest =>
    let digits := rest.takeWhile Char.isDigit
    if digits.isEmpty then none else some (digits, rest.dropWhile Char.isDigit)
  | _ => some ([], cs)

/-- The digits before the point: a zero alone, or digits that start with another one. -/
def takeWhole (cs : List Char) : Option (List Char × List Char) :=
  match cs with
  | '0' :: rest => some (['0'], rest)
  | c :: _ => if c.isDigit then some (cs.takeWhile Char.isDigit, cs.dropWhile Char.isDigit) else none
  | [] => none

/-- The number that is next, and what follows it. -/
def takeNumber (cs : List Char) : Option (NumberText × List Char) := do
  let (negative, cs) := match cs with
    | '-' :: rest => (true, rest)
    | _ => (false, cs)
  let (whole, cs) ← takeWhole cs
  let (places, cs) ← takePlaces cs
  let (exponent, cs) ← takeExponent cs
  return (⟨negative, whole, places, exponent⟩, cs)

/-- What follows `word`, if it is next. -/
def takeWord (word : String) (value : Written) (cs : List Char) : Option (Written × List Char) :=
  if word.toList.isPrefixOf cs then some (value, cs.drop word.length) else none

mutual

/-- The value that is next, after any space, and what follows it. -/
def takeValue : (fuel : Nat) → List Char → Option (Written × List Char)
  | 0, _ => none
  | fuel + 1, cs =>
    match skipSpace cs with
    | [] => none
    | c :: rest =>
      if c = '\x7b' then do
        match skipSpace rest with
        | '\x7d' :: rest => return (.object [], rest)
        | rest => do
          let (first, rest) ← takeEntry fuel rest
          let (others, rest) ← takeEntries fuel rest
          return (.object (first :: others), rest)
      else if c = '[' then do
        match skipSpace rest with
        | ']' :: rest => return (.array [], rest)
        | rest => do
          let (first, rest) ← takeValue fuel rest
          let (others, rest) ← takeItems fuel rest
          return (.array (first :: others), rest)
      else if c = '"' then do
        let (s, rest) ← takeString rest
        return (.string s, rest)
      else if c = 'n' then takeWord "null" .null (c :: rest)
      else if c = 't' then takeWord "true" (.bool true) (c :: rest)
      else if c = 'f' then takeWord "false" (.bool false) (c :: rest)
      else do
        let (n, rest) ← takeNumber (c :: rest)
        return (.number n, rest)

/-- The items after the first one, up to the closing bracket. -/
def takeItems : (fuel : Nat) → List Char → Option (List Written × List Char)
  | 0, _ => none
  | fuel + 1, cs =>
    match skipSpace cs with
    | ']' :: rest => some ([], rest)
    | ',' :: rest => do
      let (x, rest) ← takeValue fuel rest
      let (xs, rest) ← takeItems fuel rest
      return (x :: xs, rest)
    | _ => none

/-- A key, a colon and a value. -/
def takeEntry : (fuel : Nat) → List Char → Option ((Option String × Written) × List Char)
  | 0, _ => none
  | fuel + 1, cs =>
    match skipSpace cs with
    | '"' :: rest => do
      let (k, rest) ← takeString rest
      match skipSpace rest with
      | ':' :: rest => do
        let (v, rest) ← takeValue fuel rest
        return ((k, v), rest)
      | _ => none
    | _ => none

/-- The entries after the first one, up to the closing brace. -/
def takeEntries : (fuel : Nat) → List Char → Option (List (Option String × Written) × List Char)
  | 0, _ => none
  | fuel + 1, cs =>
    match skipSpace cs with
    | '\x7d' :: rest => some ([], rest)
    | ',' :: rest => do
      let (x, rest) ← takeEntry fuel rest
      let (xs, rest) ← takeEntries fuel rest
      return (x :: xs, rest)
    | _ => none

end

/-- The value that is a whole text, with space around it. Every step but one in two reads a
character, which bounds the fuel. -/
def ofText? (cs : List Char) : Option Written := do
  let (v, rest) ← takeValue (2 * cs.length + 2) cs
  if (skipSpace rest).isEmpty then some v else none

end Written

/-- A text is JSON. -/
def isWellFormed (s : String) : Bool :=
  (Written.ofText? s.toList).isSome

end TenantRegistry.Json
