import TenantRegistry.Yaml.Token.Basic

/-!
Quoted scalars. Between single quotes a quote is written twice; between double quotes a
backslash starts an escape. In both, line breaks fold.
-/

namespace TenantRegistry.Yaml.QuotedScalar

/-- The value of a hexadecimal digit. -/
def hexValue? (c : Char) : Option Nat :=
  if c.isDigit then some (c.toNat - '0'.toNat)
  else if 'a' ≤ c ∧ c ≤ 'f' then some (c.toNat - 'a'.toNat + 10)
  else if 'A' ≤ c ∧ c ≤ 'F' then some (c.toNat - 'A'.toNat + 10)
  else none

/-- The number that exactly `n` hexadecimal digits write. -/
def hexNumber? : (n : Nat) → (soFar : Nat) → List Char → Option Nat
  | 0, soFar, _ => some soFar
  | _ + 1, _, [] => none
  | n + 1, soFar, c :: rest => do hexNumber? n (soFar * 16 + (← hexValue? c)) rest

/-- What the character after a backslash stands for. -/
def simpleEscape? (c : Char) : Option Char :=
  match c with
  | '0' => some '\x00'
  | 'a' => some '\x07'
  | 'b' => some '\x08'
  | 't' => some '\t'
  | '\t' => some '\t'
  | 'n' => some '\n'
  | 'v' => some '\x0b'
  | 'f' => some '\x0c'
  | 'r' => some '\r'
  | 'e' => some '\x1b'
  | ' ' => some ' '
  | '"' => some '"'
  | '/' => some '/'
  | '\\' => some '\\'
  | 'N' => some '\u0085'
  | '_' => some '\u00a0'
  | 'L' => some '\u2028'
  | 'P' => some '\u2029'
  | _ => none

/-- How many digits a numeric escape has. -/
def escapeDigits? (c : Char) : Option Nat :=
  match c with
  | 'x' => some 2
  | 'u' => some 4
  | 'U' => some 8
  | _ => none

/-- The character of an escape, the cursor being at its backslash. Numbers that are no
character are refused. -/
def escape? (cur : Cursor) : Option (Char × Cursor) :=
  match cur.rest with
  | _ :: c :: rest =>
    match simpleEscape? c with
    | some d => some (d, cur.skipMany 2)
    | none => do
      let digits ← escapeDigits? c
      let n ← hexNumber? digits 0 rest
      if n.isValidChar then some (Char.ofNat n, cur.skipMany (2 + digits)) else none
  | _ => none

/-- Reads a run without gaps. Told with it is whether an escaped line break ends it. -/
def run (single : Bool) : (budget : List Char) → Cursor → Option (List Char × Bool × Cursor)
  | [], cur => some ([], false, cur)
  | _ :: budget, cur =>
    match cur.rest with
    | [] => some ([], false, cur)
    | c :: rest =>
      if isBlankChar c || isBreakChar c then some ([], false, cur)
      else if single then
        if c == '\'' then
          if atChar '\'' rest then do
            let (text, escaped, cur) ← run single budget (cur.skipMany 2)
            return ('\'' :: text, escaped, cur)
          else some ([], false, cur)
        else do
          let (text, escaped, cur) ← run single budget cur.skip
          return (c :: text, escaped, cur)
      else if c == '"' then some ([], false, cur)
      else if c == '\\' then
        if atBreak rest then some ([], true, cur.skip.skipBreak)
        else do
          let (d, cur) ← escape? cur
          let (text, escaped, cur) ← run single budget cur
          return (d :: text, escaped, cur)
      else do
        let (text, escaped, cur) ← run single budget cur.skip
        return (c :: text, escaped, cur)

/-- Reads runs and gaps in turn up to the closing quote. -/
def runs (single : Bool) (quote : Char) : (budget : List Char) → Cursor →
    Option (List Char × Cursor)
  | [], _ => none
  | _ :: budget, cur => do
    if cur.atDocumentMark '-' || cur.atDocumentMark '.' || cur.rest.isEmpty then
      failure
    let (text, escaped, after) ← run single cur.rest cur
    if atChar quote after.rest then
      return (text, after.skip)
    let (gap, after) ← Gap.read (-1) after.rest (Gap.empty escaped) after
    let (later, after) ← runs single quote budget after
    return (text ++ gap.text ++ later, after)

/-- The scalar whose opening quote is next. -/
def scan (single : Bool) (cur : Cursor) : Option (Token × Cursor) := do
  let quote := if single then '\'' else '"'
  let (text, after) ← runs single quote cur.rest cur.skip
  let style := if single then ScalarStyle.singleQuoted else .doubleQuoted
  return (⟨cur.mark, after.mark, .scalar style text⟩, after)

end TenantRegistry.Yaml.QuotedScalar
