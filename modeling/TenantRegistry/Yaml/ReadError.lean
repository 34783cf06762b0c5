import TenantRegistry.Text.Quoted
import TenantRegistry.Yaml.Scalar
import TenantRegistry.Yaml.Tree.Basic

/-!
Why a document cannot be read, and where.

A complaint about content carries the path to the value complained of and the place where the
document has it. That a text is malformed is one complaint without further detail.
-/

namespace TenantRegistry.Yaml

/-- The way from the root of a document to a value. -/
inductive Path where
  | root
  | item (parent : Path) (index : Nat)
  | key (parent : Path) (name : String)
  /-- Through an alias, which adds nothing to the text of a path. -/
  | alias (parent : Path)
  /-- Under a key that is no scalar. -/
  | unnamed (parent : Path)
  deriving DecidableEq, Repr

namespace Path

/-- The text of a path; the root is a point. -/
def text : Path → String
  | .root => "."
  | .item parent index => parent.text ++ "[" ++ toString index ++ "]"
  | .key .root name => name
  | .key parent name => parent.text ++ "." ++ name
  | .alias parent => parent.text
  | .unnamed .root => "?"
  | .unnamed parent => parent.text ++ ".?"

end Path

/-- What a document has in place of what was expected. -/
inductive Found where
  | scalar (s : Scalar)
  | sequence
  | mapping
  deriving Repr

inductive Complaint where
  | malformed
  | tooDeep (mark : Mark)
  | tooManyAliases
  | mismatch (found : Found) (expected : String)
  /-- The tag of a scalar does not fit its text. -/
  | unfit (text : String) (expected : Scalar.Unfit)
  | unknownField (name : String) (known : List String)
  | missingField (name : String)
  | duplicateField (name : String)
  | duplicateKey (key : Tree)
  deriving Repr

/-- A complaint and, once it is known, where it belongs. -/
structure ReadError where
  complaint : Complaint
  place : Option (Path × Mark)
  deriving Repr

def Found.text : Found → String
  | .scalar .null => "unit value"
  | .scalar (.bool b) => "boolean \x60" ++ toString b ++ "\x60"
  | .scalar (.number (.integer n)) => "integer \x60" ++ String.ofList (Number.decimal n) ++ "\x60"
  | .scalar (.number (.float x)) =>
    let digits := if x.isFinite then String.ofList (x.write ⟨fun _ => true, false⟩)
      else if x.isNaN then "NaN" else if x.negative then "-inf" else "inf"
    "floating point \x60" ++ digits ++ "\x60"
  | .scalar (.wide n) =>
    "integer \x60" ++ String.ofList (Number.decimal n) ++ "\x60 as " ++ if n < 0 then "i128" else "u128"
  | .scalar (.text s) => "string " ++ Text.quote s
  | .sequence => "sequence"
  | .mapping => "map"

/-- Names in backquotes, as a choice. -/
def fieldList (names : List String) : String :=
  ", ".intercalate (names.map fun n => "\x60" ++ n ++ "\x60")

def Complaint.text : Complaint → String
  | .malformed => "malformed YAML"
  | .tooDeep _ => "recursion limit exceeded"
  | .tooManyAliases => "repetition limit exceeded"
  | .mismatch found expected => "invalid type: " ++ found.text ++ ", expected " ++ expected
  | .unfit text expected => "invalid value: string " ++ Text.quote text ++ ", expected " ++ expected
  | .unknownField name known =>
    "unknown field \x60" ++ name ++ "\x60, expected one of " ++ fieldList known
  | .missingField name => "missing field \x60" ++ name ++ "\x60"
  | .duplicateField name => "duplicate field \x60" ++ name ++ "\x60"
  | .duplicateKey .null => "duplicate entry with null key"
  | .duplicateKey (.bool b) => "duplicate entry with key \x60" ++ toString b ++ "\x60"
  | .duplicateKey (.number n) => "duplicate entry with key " ++ String.ofList (Tree.numberText n)
  | .duplicateKey (.string s) => "duplicate entry with key " ++ Text.quote s
  | .duplicateKey _ => "duplicate entry in YAML map"

namespace ReadError

/-- The path, unless it is the root's, the complaint and the place. -/
def message (e : ReadError) : String :=
  match e.complaint, e.place with
  | .tooDeep mark, _ => e.complaint.text ++ mark.suffix
  | .malformed, _ | .tooManyAliases, _ | _, none => e.complaint.text
  | _, some (path, mark) =>
    let path := path.text
    (if path = "." then "" else path ++ ": ") ++ e.complaint.text ++ mark.suffix

/-- Says where a complaint belongs, if that is not said yet. -/
def at' (path : Path) (mark : Mark) (e : ReadError) : ReadError :=
  match e.place with
  | some _ => e
  | none => { e with place := some (path, mark) }

end ReadError
end TenantRegistry.Yaml
