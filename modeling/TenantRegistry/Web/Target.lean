/-!
The target of a request: the path that is routed and the text that messages quote.

A target is a path with or without a query, or a whole URL; a fragment is no part of it.
-/

namespace TenantRegistry.Web

structure Target where
  path : List Char
  /-- The target without its fragment. -/
  text : List Char
  deriving DecidableEq, Repr

namespace Target

/-- What is before the first of two slashes after a colon and what is after them. -/
def splitScheme? : List Char → Option (List Char × List Char)
  | ':' :: '/' :: '/' :: rest => some ([], rest)
  | c :: rest =>
    if c == '/' || c == '?' then none
    else (splitScheme? rest).map fun (scheme, rest) => (c :: scheme, rest)
  | [] => none

/-- The scheme as it is shown: the two of the web in lower case. -/
def schemeText (scheme : List Char) : List Char :=
  let lower := scheme.map Char.toLower
  if lower = "http".toList ∨ lower = "https".toList then lower else scheme

/-- The target that a text writes. -/
def ofChars (cs : List Char) : Target :=
  let cs := cs.takeWhile (· ≠ '#')
  match splitScheme? cs with
  | some (scheme, rest) =>
    let authority := rest.takeWhile fun c => c != '/' && c != '?'
    let rest := rest.drop authority.length
    let path := rest.takeWhile (· ≠ '?')
    let path := if path.isEmpty then ['/'] else path
    ⟨path, schemeText scheme ++ "://".toList ++ authority ++ path ++ rest.dropWhile (· ≠ '?')⟩
  | none =>
    if cs.head? = some '/' then ⟨cs.takeWhile (· ≠ '?'), cs⟩
    else if cs.head? = some '?' then ⟨['/'], '/' :: cs⟩
    else if cs = ['*'] then ⟨cs, cs⟩
    else ⟨[], cs⟩

def ofString (s : String) : Target :=
  ofChars s.toList

end Target
end TenantRegistry.Web
