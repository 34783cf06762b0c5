import TenantRegistry.Text.Printable

/-!
Quoted texts, as messages show them: in double quotes, with a backslash before a quote or a
backslash and code points in braces for what cannot be shown.
-/

namespace TenantRegistry.Text

/-- `n` in hexadecimal, in lower case. -/
def hex (n : Nat) : List Char :=
  Nat.toDigits 16 n

/-- `n` in upper-case hexadecimal, with at least `width` digits. -/
def hexUpper (width n : Nat) : List Char :=
  let digits := (Nat.toDigits 16 n).map Char.toUpper
  List.replicate (width - digits.length) '0' ++ digits

def quoteChar (c : Char) : List Char :=
  if c = '"' then ['\\', '"']
  else if c = '\\' then ['\\', '\\']
  else if c = '\n' then ['\\', 'n']
  else if c = '\r' then ['\\', 'r']
  else if c = '\t' then ['\\', 't']
  else if c.toNat = 0 then ['\\', '0']
  else if isPrintable c then [c]
  else '\\' :: 'u' :: '\x7b' :: hex c.toNat ++ ['\x7d']

/-- A text between double quotes. -/
def quote (s : String) : String :=
  String.ofList ('"' :: s.toList.flatMap quoteChar ++ ['"'])

end TenantRegistry.Text
