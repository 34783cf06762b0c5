import TenantRegistry.Text.Utf8
import TenantRegistry.Yaml.Token.Basic
import TenantRegistry.Yaml.Token.Quoted

/-!
Anchors, aliases, tags and directives.

A tag is a handle and a suffix, or the full tag between `!<` and `>`. Octets may be written as
`%` and two hexadecimal digits; a tag ends at an octet zero.
-/

namespace TenantRegistry.Yaml.Property

/-- A word of letters, digits, `_` and `-`. -/
def word (cur : Cursor) : List Char × Cursor :=
  cur.takeWhile isWordChar

/-- What may follow the name of an anchor or alias. -/
def endsName (cur : Cursor) : Bool :=
  atGap cur.rest || cur.rest.head?.any fun c =>
    c == '?' || c == ':' || c == ',' || c == ']' || c == '\x7d' || c == '%' || c == '@' || c == '\x60'

/-- The anchor or alias whose `&` or `*` is next. -/
def scanName (kind : List Char → TokenKind) (cur : Cursor) : Option (Token × Cursor) := do
  let (name, after) := word cur.skip
  if name.isEmpty || !endsName after then
    failure
  return (⟨cur.mark, after.mark, kind name⟩, after)

/-- One octet written as `%` and two digits. -/
def escapedOctet? (cur : Cursor) : Option (Nat × Cursor) :=
  match cur.rest with
  | '%' :: rest => do
    let n ← QuotedScalar.hexNumber? 2 0 rest
    return (n, cur.skipMany 3)
  | _ => none

/-- How many octets a character has whose first octet is `b`. -/
def octetsAfter? (b : Nat) : Option Nat :=
  if b < 0x80 then some 0
  else if b < 0xC0 then none
  else if b < 0xE0 then some 1
  else if b < 0xF0 then some 2
  else if b < 0xF8 then some 3
  else none

/-- `n` escaped octets that continue a character. -/
def escapedTail : (n : Nat) → Cursor → Option (List UInt8 × Cursor)
  | 0, cur => some ([], cur)
  | n + 1, cur => do
    let (b, cur) ← escapedOctet? cur
    if b / 64 ≠ 2 then
      failure
    let (octets, cur) ← escapedTail n cur
    return (b.toUInt8 :: octets, cur)

/-- The octets of one escaped character. -/
def escapedChar (cur : Cursor) : Option (List UInt8 × Cursor) := do
  let (b, cur) ← escapedOctet? cur
  let (octets, cur) ← escapedTail (← octetsAfter? b) cur
  return (b.toUInt8 :: octets, cur)

/-- The characters of a tag. Brackets and commas are among them where nothing else can be meant. -/
def isTagChar (brackets : Bool) (c : Char) : Bool :=
  isWordChar c || ";/?:@&=+$.!~*'()".toList.contains c ||
    (brackets && (c == ',' || c == '[' || c == ']'))

/-- A run of tag characters as octets. -/
def tagChars (brackets : Bool) : (budget : List Char) → Cursor → Option (List UInt8 × Cursor)
  | [], cur => some ([], cur)
  | _ :: budget, cur =>
    match cur.rest with
    | [] => some ([], cur)
    | c :: _ =>
      if c == '%' then do
        let (octets, cur) ← escapedChar cur
        let (later, cur) ← tagChars brackets budget cur
        return (octets ++ later, cur)
      else if isTagChar brackets c then do
        let (later, cur) ← tagChars brackets budget cur.skip
        return (c.toNat.toUInt8 :: later, cur)
      else some ([], cur)

/-- Octets up to an octet zero. -/
def upToZero (octets : List UInt8) : List UInt8 :=
  octets.takeWhile (· != 0)

/-- A run of tag characters that is not empty. -/
def someTagChars (brackets : Bool) (cur : Cursor) : Option (List UInt8 × Cursor) := do
  let (octets, cur) ← tagChars brackets cur.rest cur
  if octets.isEmpty then
    failure
  return (upToZero octets, cur)

/-- A handle: `!`, `!word!`, or what may be the start of a tag, `!word`. -/
def handle (cur : Cursor) : Option (List Char × Cursor) := do
  if !atChar '!' cur.rest then
    failure
  let (name, after) := word cur.skip
  if atChar '!' after.rest then
    return ('!' :: name ++ ['!'], after.skip)
  else
    return ('!' :: name, after)

/-- Handle and suffix of the tag that is next. A lone `!` has no handle and is its own
suffix. -/
def tagParts (cur : Cursor) : Option (List Char × List UInt8 × Cursor) :=
  match cur.rest with
  | _ :: '<' :: _ => do
    let (suffix, cur) ← someTagChars true (cur.skipMany 2)
    if !atChar '>' cur.rest then
      failure
    return ([], suffix, cur.skip)
  | _ => do
    let (h, after) ← handle cur
    if 1 < h.length ∧ h.getLast? = some '!' then
      let (suffix, after) ← someTagChars false after
      return (h, suffix, after)
    else
      let (octets, after) ← tagChars false after.rest after
      let suffix := upToZero (Utf8.encode h.tail ++ octets)
      if suffix.isEmpty then
        return ([], Utf8.encode ['!'], after)
      else
        return (['!'], suffix, after)

/-- The tag whose `!` is next. A gap must follow it, or a comma between brackets. -/
def scanTag (flow : Bool) (cur : Cursor) : Option (Token × Cursor) := do
  let (h, suffix, after) ← tagParts cur
  unless atGap after.rest || (flow && atChar ',' after.rest) do
    failure
  return (⟨cur.mark, after.mark, .tag h suffix⟩, after)

/-- A version number of at most nine digits. -/
def versionNumber (cur : Cursor) : Option (Nat × Cursor) := do
  let (digits, after) := cur.takeWhile Char.isDigit
  if digits.isEmpty || 9 < digits.length then
    failure
  return (digits.foldl (fun n c => n * 10 + (c.toNat - '0'.toNat)) 0, after)

/-- The value of a version directive, of which 1.1 and 1.2 are understood. -/
def version (cur : Cursor) : Option ((Nat × Nat) × Cursor) := do
  let (major, cur) ← versionNumber (cur.skipWhile isBlankChar)
  if !atChar '.' cur.rest then
    failure
  let (minor, cur) ← versionNumber cur.skip
  return ((major, minor), cur)

/-- The handle and prefix of a tag directive. -/
def tagDirective (cur : Cursor) : Option (List Char × List UInt8 × Cursor) := do
  let (h, cur) ← handle (cur.skipWhile isBlankChar)
  if h ≠ ['!'] ∧ h.getLast? ≠ some '!' then
    failure
  if !atBlank cur.rest then
    failure
  let (tagPrefix, cur) ← someTagChars true (cur.skipWhile isBlankChar)
  if !atGap cur.rest then
    failure
  return (h, tagPrefix, cur)

/-- The directive whose `%` is next, and the rest of its line. -/
def scanDirective (cur : Cursor) : Option (Token × Cursor) := do
  let (name, after) := word cur.skip
  if name.isEmpty || !atGap after.rest then
    failure
  let (kind, after) ←
    if name = "YAML".toList then do
      let (v, after) ← version after
      pure (TokenKind.versionDirective v.1 v.2, after)
    else if name = "TAG".toList then do
      let (h, tagPrefix, after) ← tagDirective after
      pure (TokenKind.tagDirective h tagPrefix, after)
    else failure
  let line ← after.skipLineEnd?
  return (⟨cur.mark, after.mark, kind⟩, line)

end TenantRegistry.Yaml.Property
