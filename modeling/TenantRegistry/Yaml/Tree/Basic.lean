import TenantRegistry.Number.Basic

/-!
YAML values: trees of scalars, sequences, mappings with keys of any kind, and tagged values.

Two trees are the same when they hold the same content, entries of mappings taken in any order.
-/

namespace TenantRegistry.Yaml

inductive Tree where
  | null
  | bool (b : Bool)
  | number (n : Number)
  | string (s : String)
  | sequence (items : List Tree)
  | mapping (entries : List (Tree × Tree))
  /-- The tag is without its leading `!`, unless it is nothing else. -/
  | tagged (tag : String) (value : Tree)
  deriving Repr, Inhabited

namespace Tree

/-- A tag without its leading `!`, unless it is nothing else. -/
def tagName (tag : String) : String :=
  match tag.toList with
  | '!' :: c :: rest => String.ofList (c :: rest)
  | _ => tag

/-- A tree without the tags around it. -/
def untagged : Tree → Tree
  | .tagged _ value => value.untagged
  | t => t

mutual

def same : Tree → Tree → Bool
  | .null, .null => true
  | .bool a, .bool b => a == b
  | .number m, .number n => m.same n
  | .string s, .string t => s == t
  | .sequence xs, .sequence ys => sameItems xs ys
  | .mapping xs, .mapping ys => xs.length == ys.length && entriesWithin xs ys
  | .tagged s a, .tagged t b => s == t && same a b
  | _, _ => false

def sameItems : List Tree → List Tree → Bool
  | [], [] => true
  | x :: xs, y :: ys => same x y && sameItems xs ys
  | _, _ => false

/-- Every one of some entries is among others. -/
def entriesWithin : List (Tree × Tree) → List (Tree × Tree) → Bool
  | [], _ => true
  | (k, v) :: rest, ys => ys.any (fun (k', v') => same k k' && same v v') && entriesWithin rest ys

end

/-- How documents write floats in texts. -/
def floatText (x : Binary64) : List Char :=
  if x.isNaN then ".nan".toList
  else if x.isFinite then x.write ⟨Binary64.plainRange, false⟩
  else if x.negative then "-.inf".toList
  else ".inf".toList

def numberText : Number → List Char
  | .integer n => Number.decimal n
  | .float x => floatText x

end Tree
end TenantRegistry.Yaml
