import TenantRegistry.Text.Utf8

/-!
The command line: an address to listen on, which must be given, and a log filter.

An option is `--name value` or `--name=value` and may be given once. Arguments are read in
order, and an option's value is checked when the next option comes or the arguments end.
-/

namespace TenantRegistry.CommandLine

structure Options where
  listen : String
  logFilter : String
  deriving DecidableEq, Repr

/-- Why a command line gives no options. -/
inductive Problem where
  | missingListen
  | unknownArgument
  /-- An option without its value. -/
  | noValue
  | givenTwice
  | notUtf8
  /-- A flag with a value. -/
  | unneededValue
  /-- Help is asked for. -/
  | help
  | version
  deriving DecidableEq, Repr

/-- How the program is called. -/
def usage : String :=
  "Usage: tenant-config-api [OPTIONS] --listen <LISTEN>\n\n" ++
    "Options:\n" ++
    "      --listen <LISTEN>      Address to listen on, e.g. 0.0.0.0:8080\n" ++
    "      --loglevel <LOGLEVEL>  Log filter [default: info]\n" ++
    "  -h, --help                 Print help\n" ++
    "  -V, --version              Print version"

def versionText : String := "tenant-config-api"

/-- What a caller is told. -/
def Problem.message : Problem → String
  | .missingListen => "error: --listen <LISTEN> is required"
  | .unknownArgument => "error: unexpected argument"
  | .noValue => "error: an option lacks its value"
  | .givenTwice => "error: an option is given twice"
  | .notUtf8 => "error: a value is not UTF-8"
  | .unneededValue => "error: a flag takes no value"
  | .help => usage
  | .version => versionText

/-- The caller asked to be told. -/
def Problem.isWanted : Problem → Bool
  | .help => true
  | .version => true
  | _ => false

/-- The options there are. -/
inductive Name where
  | listen
  | logFilter
  deriving DecidableEq, Repr

/-- What a name after two hyphens means. -/
inductive Meaning where
  | option (o : Name)
  | flag (p : Problem)
  deriving DecidableEq, Repr

def meaning? (name : List UInt8) : Option Meaning :=
  if name = Utf8.ofString "listen" then some (.option .listen)
  else if name = Utf8.ofString "loglevel" then some (.option .logFilter)
  else if name = Utf8.ofString "help" then some (.flag .help)
  else if name = Utf8.ofString "version" then some (.flag .version)
  else none

/-- The option that is being read. -/
inductive Pending where
  | none
  /-- The next argument is its value. -/
  | wanting (o : Name)
  | holding (o : Name) (value : List UInt8)
  deriving DecidableEq, Repr

/-- What has been read so far. -/
structure State where
  listen : Option String
  logFilter : Option String
  pending : Pending
  deriving DecidableEq, Repr

namespace State

def start : State := ⟨none, none, .none⟩

/-- An option with its value, once. -/
def set (s : State) (o : Name) (value : List UInt8) : Except Problem State :=
  let given := match o with
    | .listen => s.listen
    | .logFilter => s.logFilter
  if given.isSome then .error .givenTwice
  else
    match Utf8.toString? value with
    | none => .error .notUtf8
    | some text =>
      match o with
      | .listen => .ok { s with listen := some text }
      | .logFilter => .ok { s with logFilter := some text }

/-- Ends the option that is being read. -/
def settle (s : State) : Except Problem State :=
  match s.pending with
  | .none => .ok s
  | .wanting _ => .error .noValue
  | .holding o value => { s with pending := .none }.set o value

/-- An argument that is neither option nor flag: a value, if one is wanted. -/
def word (s : State) (arg : List UInt8) : Except Problem State :=
  match s.pending with
  | .wanting o => .ok { s with pending := .holding o arg }
  | _ => .error .unknownArgument

/-- A name after two hyphens, perhaps with a value attached. -/
def long (s : State) (name : List UInt8) (attached : Option (List UInt8)) :
    Except Problem State := do
  match meaning? name, attached with
  | some (.option o), some value => (← s.settle).set o value
  | some (.option o), none => return { ← s.settle with pending := .wanting o }
  | some (.flag _), some _ => throw .unneededValue
  | some (.flag p), none =>
    let _ ← s.settle
    throw p
  | none, _ => throw .unknownArgument

/-- Letters after one hyphen: only the first can matter. -/
def short (s : State) (letter : UInt8) : Except Problem State := do
  if letter = 'h'.toNat.toUInt8 then
    let _ ← s.settle
    throw .help
  else if letter = 'V'.toNat.toUInt8 then
    let _ ← s.settle
    throw .version
  else throw .unknownArgument

/-- What ends the reading of arguments. -/
def finish (s : State) : Except Problem Options := do
  let s ← s.settle
  match s.listen with
  | some listen => return ⟨listen, s.logFilter.getD "info"⟩
  | none => throw .missingListen

end State

def hyphen : UInt8 := 0x2D

/-- What is before the first `=` and what is after it. -/
def splitAttached (arg : List UInt8) : List UInt8 × Option (List UInt8) :=
  match arg.dropWhile (· ≠ 0x3D) with
  | [] => (arg, none)
  | _ :: value => (arg.takeWhile (· ≠ 0x3D), some value)

/-- Reads arguments. Nothing may follow two hyphens alone. -/
def read (s : State) : List (List UInt8) → Except Problem Options
  | [] => s.finish
  | arg :: rest => do
    match arg with
    | a :: b :: name =>
      if a = hyphen ∧ b = hyphen then
        if name.isEmpty then
          if rest.isEmpty then s.finish else throw .unknownArgument
        else
          let (name, attached) := splitAttached name
          read (← s.long name attached) rest
      else if a = hyphen then read (← s.short b) rest
      else read (← s.word arg) rest
    | arg => read (← s.word arg) rest

/-- The options of a command line, whose first argument is the name of the program. -/
def parse (args : List (List UInt8)) : Except Problem Options :=
  read .start (args.drop 1)

end TenantRegistry.CommandLine
