import TenantRegistry.Yaml.Node.Reader
import TenantRegistry.Yaml.ReadError

/-!
From documents to values.

Aliases are followed, tags of the core schema are applied and application tags kept, and a
mapping must not have the same key twice. Collections may be nested 128 deep, counting through
aliases, and the number of aliases followed is limited by the size of the document.
-/

namespace TenantRegistry.Yaml

/-- What a read needs of its document: the anchored nodes and how many aliases it may follow. -/
structure Scope where
  anchored : List (Nat × Node)
  limit : Nat

def Document.scope (d : Document) : Scope :=
  ⟨d.anchored, d.size * 100⟩

/-- Reading counts the aliases followed so far. -/
abbrev Read := StateT Nat (Except ReadError)

namespace Read

def fail {α : Type} (c : Complaint) : Read α :=
  throw ⟨c, none⟩

/-- A complaint that arises inside belongs here unless it says where it belongs. -/
def within {α : Type} (path : Path) (mark : Mark) (r : Read α) : Read α :=
  fun n => (r n).mapError (·.at' path mark)

/-- The node an alias stands for. -/
def follow (scope : Scope) (anchor : Nat) : Read Node := do
  modify (· + 1)
  if scope.limit < (← get) then
    fail .tooManyAliases
  match scope.anchored.find? (·.1 == anchor) with
  | some (_, n) => return n
  | none => fail .malformed

/-- How deep collections may be nested. -/
def depthLimit : Nat := 128

/-- The kind of value that any tree is. -/
def anyTree : String := "any YAML value"

/-- The value of a scalar. -/
def scalarTree : Scalar → Except Complaint Tree
  | .null => .ok .null
  | .bool b => .ok (.bool b)
  | .number n => .ok (.number n)
  | .wide n => .error (.mismatch (.scalar (.wide n)) anyTree)
  | .text s => .ok (.string s)

/-- The application's tag of a node, unless it is spoken for. -/
def localTag (tagged : Bool) (tag : Option Tag) : Option String :=
  if tagged then none else tag >>= Tag.name?

/-- A tree under its tag. -/
def tag (name : Option String) (t : Tree) : Tree :=
  match name with
  | some name => .tagged (Tree.tagName name) t
  | none => t

/-- The path of the value under a key. -/
def valuePath (path : Path) : Node → Path
  | .scalar _ _ text => .key path text
  | _ => .unnamed path

/-- The values of items, each read by `readItem`. -/
def items (readItem : Path → Node → Read Tree) (path : Path) : (index : Nat) → List Node →
    Read (List Tree)
  | _, [] => return []
  | index, n :: rest => do
    let t ← readItem (.item path index) n
    return t :: (← items readItem path (index + 1) rest)

/-- The entries of a mapping, in order; `before` are those already read, last one first. -/
def entries (readKey readValue : Path → Node → Read Tree) (path : Path) :
    (before : List (Tree × Tree)) → List (Node × Node) → Read (List (Tree × Tree))
  | before, [] => return before.reverse
  | before, (k, v) :: rest => do
    let key ← readKey path k
    match before.find? (·.1.same key) with
    | some (same, _) => fail (.duplicateKey same)
    | none =>
      let value ← readValue (valuePath path k) v
      entries readKey readValue path ((key, value) :: before) rest

/-- The value of a node that is no alias, its parts being read by `readNode`. A collection is
refused where it is too deep. The keys of a tagged mapping do not take tags of their own. -/
def content (readNode : Bool → Path → Node → Read Tree) (deep tagged : Bool) (path : Path)
    (n : Node) : Read Tree :=
  match n with
  | .scalar props style text => within path props.mark do
    let name := localTag tagged props.tag
    let tagged := tagged || name.isSome
    match Scalar.ofNode tagged props.tag style text with
    | .ok s =>
      match scalarTree s with
      | .ok t => return tag name t
      | .error c => fail c
    | .error unfit => fail (.unfit text unfit)
  | .sequence props children => within path props.mark do
    let name := localTag tagged props.tag
    if deep then
      fail (.tooDeep props.mark)
    return tag name (.sequence (← items (readNode false) path 0 children))
  | .mapping props children => within path props.mark do
    let name := localTag tagged props.tag
    if deep then
      fail (.tooDeep props.mark)
    return tag name
      (.mapping (← entries (readNode (tagged || name.isSome)) (readNode false) path [] children))
  | .alias .. | .fault => fail .malformed

/-- The value of a node, which is first followed if it is an alias. -/
def resolved (scope : Scope) (readNode : Bool → Path → Node → Read Tree) (deep tagged : Bool)
    (path : Path) : Node → Read Tree
  | .alias mark anchor => within path mark do
    content readNode deep false (.alias path) (← follow scope anchor)
  | n => content readNode deep tagged path n

/-- The value of a node, where collections may be nested `depth` deep. -/
def tree (scope : Scope) : (depth : Nat) → (tagged : Bool) → Path → Node → Read Tree
  | 0 => resolved scope (fun _ _ _ => fail .malformed) true
  | depth + 1 => resolved scope (tree scope depth) false

end Read

/-- Reads the root of a document. Whatever is malformed behind it counts against it. -/
def Document.read {α : Type} (d : Document) (reader : Scope → Path → Node → Read α) :
    Except ReadError α := do
  let (a, _) ← (reader d.scope .root d.root).run 0
  if d.faulty then
    throw ⟨.malformed, none⟩
  return a

/-- The value of a text that is one document. -/
def Tree.ofText (text : String) : Except ReadError Tree :=
  match Document.ofText text with
  | [d] => d.read fun scope => Read.tree scope Read.depthLimit false
  | d :: _ => do
    let _ ← d.read fun scope => Read.tree scope Read.depthLimit false
    throw ⟨.malformed, none⟩
  | [] => throw ⟨.malformed, none⟩

end TenantRegistry.Yaml
