import TenantRegistry.Text.Blank
import TenantRegistry.Web.Url.Host

/-!
URLs: reading them in the way of browsers, and their normal form.

Space at the ends of a text and line breaks in it count for nothing. The schemes of the web take
any number of slashes or backslashes before their host, which they must have; default ports,
dot segments and the letter case of scheme and host are gone from the normal form, and
characters that a part may not hold are percent-encoded. How domain names are converted to ASCII
is a parameter.

Main operations: `Url.ofString` and `Url.text`.
-/

namespace TenantRegistry.Web

/-- How the texts of a scheme are read. -/
inductive SchemeClass where
  /-- With a domain name or an address as host, and backslashes as good as slashes. -/
  | web
  /-- Like a scheme of the web, but the host may be left out. -/
  | file
  | other
  deriving DecidableEq, Repr

inductive UrlPath where
  /-- A path that no slash starts, without segments. -/
  | rootless (chars : List Char)
  | segments (list : List (List Char))
  deriving DecidableEq, Repr

structure Authority where
  username : List Char
  password : List Char
  host : Host
  port : Option Nat
  deriving DecidableEq, Repr

/-- A URL with all its parts in normal form. -/
structure Url where
  scheme : List Char
  authority : Option Authority
  path : UrlPath
  query : Option (List Char)
  fragment : Option (List Char)
  deriving DecidableEq, Repr

namespace Url

/-- The schemes of the web with their default ports. -/
def webSchemes : List (String × Nat) :=
  [("http", 80), ("https", 443), ("ws", 80), ("wss", 443), ("ftp", 21)]

def defaultPort? (scheme : List Char) : Option Nat :=
  (webSchemes.find? (·.1.toList == scheme)).map (·.2)

def classOf (scheme : List Char) : SchemeClass :=
  if (defaultPort? scheme).isSome then .web
  else if scheme = "file".toList then .file
  else .other

/-! ## What is percent-encoded -/

def inFragment (c : Char) : Bool :=
  Host.isControl c || " \"<>`".toList.contains c

def inPath (c : Char) : Bool :=
  inFragment c || "#?\x7b\x7d".toList.contains c

def inUserinfo (c : Char) : Bool :=
  inPath c || "/:;=@[\\]^|".toList.contains c

def inQuery (cls : SchemeClass) (c : Char) : Bool :=
  Host.isControl c || " \"#<>".toList.contains c || (cls != .other && c == '\'')

/-! ## Parts of a text -/

/-- The text that is read: without controls and spaces at its ends and without line breaks and
tabs anywhere. -/
def relevant (s : String) : List Char :=
  (Text.trimBy (fun c => c.toNat ≤ 0x20) s.toList).filter
    fun c => c != '\t' && c != '\n' && c != '\r'

def isSchemeChar (c : Char) : Bool :=
  c.isAlphanum || c == '+' || c == '-' || c == '.'

/-- The scheme in lower case and what follows its colon. -/
def splitScheme? (cs : List Char) : Option (List Char × List Char) :=
  match cs.head?, cs.dropWhile isSchemeChar with
  | some first, ':' :: rest =>
    if first.isAlpha then some ((cs.takeWhile isSchemeChar).map Char.toLower, rest) else none
  | _, _ => none

/-- The part before the first character that `p` holds of, and the part after it. -/
def cut (p : Char → Bool) (cs : List Char) : List Char × Option (List Char) :=
  match cs.dropWhile (!p ·) with
  | [] => (cs, none)
  | _ :: rest => (cs.takeWhile (!p ·), some rest)

def isSlash (cls : SchemeClass) (c : Char) : Bool :=
  c == '/' || (cls != .other && c == '\\')

/-! ## Paths -/

/-- `.`, also encoded. -/
def isSingleDot (s : List Char) : Bool :=
  s.map Char.toLower == ['.'] || s.map Char.toLower == "%2e".toList

/-- `..`, also encoded. -/
def isDoubleDot (s : List Char) : Bool :=
  [".." , ".%2e", "%2e.", "%2e%2e"].any fun dots => s.map Char.toLower == dots.toList

/-- A letter and a colon or bar. -/
def isDrive (s : List Char) : Bool :=
  match s with
  | [letter, mark] => letter.isAlpha && (mark == ':' || mark == '|')
  | _ => false

/-- The segments of a file's path start with a drive. -/
def startsWithDrive (segments : List (List Char)) : Bool :=
  ((segments.dropWhile (·.isEmpty)).head?.map isDrive).getD false

/-- A segment to be put after others; a drive at the start of a file's path has a colon. -/
def placed (cls : SchemeClass) (done : List (List Char)) (s : List Char) : List (List Char) :=
  if cls = .file ∧ isDrive s ∧ done.all (·.isEmpty) then done ++ [s.take 1 ++ [':']]
  else done ++ [s]

/-- The segments without the last one, but a drive stays. -/
def shorten (cls : SchemeClass) (done : List (List Char)) : List (List Char) :=
  if cls = .file ∧ startsWithDrive done ∧ (done.dropWhile (·.isEmpty)).length = 1 then done
  else done.dropLast

/-- Segments without those that are dots, `done` being before them. A path that ends with such a
segment ends with a slash. -/
def resolve (cls : SchemeClass) : (done : List (List Char)) → List (List Char) → List (List Char)
  | done, [] => done
  | done, s :: rest =>
    if isDoubleDot s then
      if rest.isEmpty then shorten cls done ++ [[]] else resolve cls (shorten cls done) rest
    else if isSingleDot s then
      if rest.isEmpty then done ++ [[]] else resolve cls done rest
    else resolve cls (placed cls done s) rest

/-- The segments that a path has after its first slash. -/
def segmentsOf (cls : SchemeClass) (cs : List Char) : List (List Char) :=
  resolve cls [] ((Text.pieces (isSlash cls) cs).map (Percent.encodeWhere inPath))

/-- The path after an authority, or after nothing if it starts with a slash. -/
def pathOf (cls : SchemeClass) (cs : List Char) : UrlPath :=
  match cs with
  | [] => .segments (if cls = .other then [] else [[]])
  | c :: rest => .segments (segmentsOf cls (if isSlash cls c then rest else c :: rest))

/-- The path of a file, which starts with one slash. -/
def filePath (cs : List Char) : List (List Char) :=
  match (segmentsOf .file cs).dropWhile (·.isEmpty) with
  | [] => [[]]
  | segments => segments

/-! ## Authorities -/

/-- A host, up to a colon outside brackets, and what follows it. -/
def splitHost : (inBrackets : Bool) → List Char → List Char × List Char
  | _, [] => ([], [])
  | inBrackets, c :: rest =>
    if c = ':' ∧ !inBrackets then ([], c :: rest)
    else
      let (host, rest) := splitHost (if c = '[' then true else if c = ']' then false else inBrackets) rest
      (c :: host, rest)

/-- A port number that is not the default one, and what follows it. -/
def takePort (scheme cs : List Char) : Except UrlProblem (Option Nat × List Char) :=
  let digits := cs.takeWhile Char.isDigit
  let rest := cs.dropWhile Char.isDigit
  let number := Number.ofDigits? 10 digits
  if 65535 < number.getD 0 then .error .port
  else
    match rest with
    | [] => .ok (number.filter fun n => defaultPort? scheme ≠ some n, [])
    | c :: rest =>
      if c = '\\' then .ok (number.filter fun n => defaultPort? scheme ≠ some n, c :: rest)
      else .error .port

/-- What is before the last `@` and what is after it; none before if there is none. -/
def splitUserinfo (cs : List Char) : Option (List Char) × List Char :=
  if cs.contains '@' then
    let after := (cs.reverse.takeWhile (· ≠ '@')).reverse
    (some (cs.take (cs.length - after.length - 1)), after)
  else (none, cs)

section Conversion

variable (toAscii : Domain.ToAscii)

/-- A host and a port, and what follows them. -/
def hostAndPort (cls : SchemeClass) (scheme : List Char) (cs : List Char) :
    Except UrlProblem (Host × Option Nat × List Char) := do
  let (host, rest) := splitHost false cs
  if host.isEmpty ∧ (cls ≠ .other ∨ !rest.isEmpty) then throw .emptyHost
  let host ← if cls = .other then Host.ofPlain host else Host.ofChars toAscii host
  match rest with
  | [] => return (host, none, [])
  | _ :: rest => do
    let (port, rest) ← takePort scheme rest
    return (host, port, rest)

/-- The authority that is next and the path that follows it. -/
def takeAuthority (cls : SchemeClass) (scheme : List Char) (cs : List Char) :
    Except UrlProblem (Authority × UrlPath) := do
  let ends (c : Char) : Bool := isSlash cls c || c == '?' || c == '#'
  let after := cs.dropWhile (!ends ·)
  let (userinfo, rest) := splitUserinfo (cs.takeWhile (!ends ·))
  if userinfo = some [] ∧ rest.isEmpty ∧ !after.isEmpty then throw .emptyHost
  let (username, password) := cut (· == ':') (userinfo.getD [])
  let username := Percent.encodeWhere inUserinfo username
  let password := Percent.encodeWhere inUserinfo (password.getD [])
  let (host, port, rest) ← hostAndPort toAscii cls scheme rest
  if host = .name [] ∧ !(username.isEmpty && password.isEmpty) then throw .emptyHost
  let path := (cut (fun c => c == '?' || c == '#') (rest ++ after)).1
  return (⟨username, password, host, port⟩, pathOf cls path)

/-- The host of a file and the path that follows it. -/
def takeFileHost (cs : List Char) : Except UrlProblem (Host × List Char) := do
  let host := cs.takeWhile (!isSlash .file ·)
  if isDrive host then return (.name [], cs)
  let path := cs.dropWhile (!isSlash .file ·)
  if host.isEmpty then return (.name [], path)
  let host ← Host.ofChars toAscii host
  let isLocal := host = .name "localhost".toList || startsWithDrive (segmentsOf .file path)
  return (if isLocal then .name [] else host, path)

/-! ## Reading -/

/-- The URL with a scheme whose text goes on with `cs`. -/
def ofRest (scheme cs : List Char) : Except UrlProblem Url := do
  let cls := classOf scheme
  let (beforeFragment, fragment) := cut (· == '#') cs
  let (hierarchy, query) := cut (· == '?') beforeFragment
  let query := query.map (Percent.encodeWhere (inQuery cls))
  let fragment := fragment.map (Percent.encodeWhere inFragment)
  match cls with
  | .web => do
    let (authority, path) ← takeAuthority toAscii cls scheme (cs.dropWhile (isSlash cls))
    return ⟨scheme, some authority, path, query, fragment⟩
  | .file =>
    match hierarchy with
    | a :: b :: rest =>
      if isSlash cls a && isSlash cls b then do
        let (host, path) ← takeFileHost toAscii rest
        return ⟨scheme, some ⟨[], [], host, none⟩, .segments (filePath path), query, fragment⟩
      else
        return ⟨scheme, some ⟨[], [], .name [], none⟩, .segments (filePath hierarchy), query,
          fragment⟩
    | hierarchy =>
      return ⟨scheme, some ⟨[], [], .name [], none⟩, .segments (filePath hierarchy), query,
        fragment⟩
  | .other =>
    match hierarchy with
    | '/' :: '/' :: _ => do
      let (authority, path) ← takeAuthority toAscii cls scheme (cs.drop 2)
      return ⟨scheme, some authority, path, query, fragment⟩
    | '/' :: _ => return ⟨scheme, none, pathOf cls hierarchy, query, fragment⟩
    | hierarchy =>
      return ⟨scheme, none, .rootless (Percent.encodeWhere Host.isControl hierarchy), query,
        fragment⟩

end Conversion

/-- The URL that a text writes. -/
def ofString (s : String) (toAscii : Domain.ToAscii := Domain.toAscii?) : Except UrlProblem Url :=
  match splitScheme? (relevant s) with
  | some (scheme, rest) => ofRest toAscii scheme rest
  | none => .error .relative

/-! ## Writing -/

def userinfoText (a : Authority) : List Char :=
  let password := if a.password.isEmpty then [] else ':' :: a.password
  if a.username.isEmpty && a.password.isEmpty then [] else a.username ++ password ++ ['@']

def authorityText (a : Authority) : List Char :=
  '/' :: '/' :: userinfoText a ++ a.host.chars ++
    match a.port with
    | some port => ':' :: Nat.toDigits 10 port
    | none => []

/-- The text of a path. Without an authority, two slashes may not start it. -/
def pathText (hasAuthority : Bool) : UrlPath → List Char
  | .rootless cs => cs
  | .segments list =>
    let text := list.flatMap ('/' :: ·)
    if !hasAuthority && 1 < list.length && list.head? == some [] then '/' :: '.' :: text else text

/-- The normal form of a URL. -/
def chars (u : Url) : List Char :=
  u.scheme ++ ':' :: (u.authority.map authorityText).getD [] ++
    pathText u.authority.isSome u.path ++ (u.query.map ('?' :: ·)).getD [] ++
    (u.fragment.map ('#' :: ·)).getD []

def text (u : Url) : String :=
  String.ofList u.chars

end Url
end TenantRegistry.Web
