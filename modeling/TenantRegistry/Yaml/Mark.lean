/-!
Positions in a text: how many octets and lines lie before a character, and how many characters of
its line.
-/

namespace TenantRegistry.Yaml

/-- A position, counted from zero. The index counts octets, the column characters. -/
structure Mark where
  index : Nat
  line : Nat
  column : Nat
  deriving DecidableEq, Repr, Inhabited

namespace Mark

def start : Mark := ⟨0, 0, 0⟩

/-- The position after a character of the same line that takes `width` octets. -/
def next (m : Mark) (width : Nat) : Mark :=
  ⟨m.index + width, m.line, m.column + 1⟩

/-- The position after a line break of `width` octets. -/
def newLine (m : Mark) (width : Nat) : Mark :=
  ⟨m.index + width, m.line + 1, 0⟩

/-- The position as messages give it, counted from one; the very start is left out. -/
def suffix (m : Mark) : String :=
  if m.line = 0 ∧ m.column = 0 then ""
  else " at line " ++ toString (m.line + 1) ++ " column " ++ toString (m.column + 1)

end Mark
end TenantRegistry.Yaml
