import TenantRegistry.Number.Basic

/-!
JSON values and their compact text.

An object is a list of entries in the order of their keys, each key once. `insert` keeps that
order, so an object built by insertions does not show in which order they were made.
-/

namespace TenantRegistry

inductive Json where
  | null
  | bool (b : Bool)
  | number (n : Number)
  | string (s : String)
  | array (items : List Json)
  | object (entries : List (String × Json))
  deriving Repr, Inhabited

namespace Json

/-- Puts an entry where its key belongs, in place of one with the same key. -/
def insert (key : String) (value : Json) : List (String × Json) → List (String × Json)
  | [] => [(key, value)]
  | (k, v) :: rest =>
    if key = k then (key, value) :: rest
    else if key < k then (key, value) :: (k, v) :: rest
    else (k, v) :: insert key value rest

/-- The object with some entries, of which a later one takes the place of an earlier one. -/
def ofEntries (entries : List (String × Json)) : Json :=
  .object (entries.foldl (fun acc (k, v) => insert k v acc) [])

/-- Two digits of a control character. -/
def controlDigits (n : Nat) : List Char :=
  [Nat.digitChar (n / 16), Nat.digitChar (n % 16)]

/-- A character inside quotes. Quotes, backslashes and control characters are escaped. -/
def escape (c : Char) : List Char :=
  if c = '"' then ['\\', '"']
  else if c = '\\' then ['\\', '\\']
  else if c = '\x08' then ['\\', 'b']
  else if c = '\x0c' then ['\\', 'f']
  else if c = '\n' then ['\\', 'n']
  else if c = '\r' then ['\\', 'r']
  else if c = '\t' then ['\\', 't']
  else if c.toNat < 0x20 then '\\' :: 'u' :: '0' :: '0' :: controlDigits c.toNat
  else [c]

def quote (s : String) : List Char :=
  '"' :: s.toList.flatMap escape ++ ['"']

/-- An integer in decimal, a float with the fewest digits that read back. What is not finite
has no number in JSON and becomes null. -/
def numberText : Number → List Char
  | .integer n => Number.decimal n
  | .float x =>
    if x.isFinite then x.write ⟨Binary64.plainRange, true⟩ else "null".toList

mutual

/-- The text of a value without any spaces. -/
def compact : Json → List Char
  | .null => "null".toList
  | .bool b => if b then "true".toList else "false".toList
  | .number n => numberText n
  | .string s => quote s
  | .array [] => ['[', ']']
  | .array (x :: xs) => '[' :: compact x ++ compactItems xs
  | .object [] => ['\x7b', '\x7d']
  | .object ((k, v) :: rest) => '\x7b' :: quote k ++ ':' :: compact v ++ compactEntries rest

/-- The items after the first one and the closing bracket. -/
def compactItems : List Json → List Char
  | [] => [']']
  | x :: xs => ',' :: compact x ++ compactItems xs

/-- The entries after the first one and the closing brace. -/
def compactEntries : List (String × Json) → List Char
  | [] => ['\x7d']
  | (k, v) :: rest => ',' :: quote k ++ ':' :: compact v ++ compactEntries rest

end

def text (j : Json) : String :=
  String.ofList j.compact

end Json
end TenantRegistry
