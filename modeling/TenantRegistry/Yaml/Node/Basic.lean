import TenantRegistry.Text.Utf8
import TenantRegistry.Yaml.Token.Basic

/-!
Documents as trees of nodes: scalars as written, sequences, mappings and aliases, each with
the place where it starts.

A text that breaks off or is malformed still has the nodes before the fault. The fault itself
is a node, so that a reader meets it exactly where the text gives out.
-/

namespace TenantRegistry.Yaml

/-- A tag with its handle resolved. Escapes may write octets that are no text. -/
structure Tag where
  octets : List UInt8
  deriving DecidableEq, Repr

namespace Tag

/-- The tag of the core schema with this name. -/
def core (name : String) : Tag :=
  ⟨Utf8.ofString ("tag:yaml.org,2002:" ++ name)⟩

/-- A tag that starts with `!` belongs to the application. -/
def isLocal (t : Tag) : Bool :=
  t.octets.head? == some 0x21

/-- The name of an application's tag: what follows the `!`, or the `!` itself if nothing
does. -/
def name? (t : Tag) : Option String :=
  match t.octets with
  | 0x21 :: [] => some "!"
  | 0x21 :: rest => Utf8.toString? rest
  | _ => none

end Tag

/-- What every node but an alias has. Anchors are numbered. -/
structure Properties where
  mark : Mark
  anchor : Option Nat
  tag : Option Tag
  deriving DecidableEq, Repr

inductive Node where
  | scalar (props : Properties) (style : ScalarStyle) (text : String)
  | sequence (props : Properties) (items : List Node)
  | mapping (props : Properties) (entries : List (Node × Node))
  | alias (mark : Mark) (anchor : Nat)
  /-- The text is malformed here. -/
  | fault
  deriving Repr

/-- One document: its root, the number of nodes and collection ends it is made of, and whether
the text is malformed between its root and its end. -/
structure Document where
  root : Node
  size : Nat
  faulty : Bool
  deriving Repr

mutual

/-- A node and all nodes below it, in the order of the text. -/
def Node.all : Node → List Node
  | .sequence props items => .sequence props items :: Node.allOfItems items
  | .mapping props entries => .mapping props entries :: Node.allOfEntries entries
  | n => [n]

def Node.allOfItems : List Node → List Node
  | [] => []
  | n :: rest => n.all ++ Node.allOfItems rest

def Node.allOfEntries : List (Node × Node) → List Node
  | [] => []
  | (k, v) :: rest => k.all ++ v.all ++ Node.allOfEntries rest

end

def Node.anchor? : Node → Option Nat
  | .scalar props .. => props.anchor
  | .sequence props _ => props.anchor
  | .mapping props _ => props.anchor
  | _ => none

/-- The anchored nodes of a document, the last one first. -/
def Document.anchored (d : Document) : List (Nat × Node) :=
  (d.root.all.filterMap fun n => n.anchor?.map (·, n)).reverse

end TenantRegistry.Yaml
