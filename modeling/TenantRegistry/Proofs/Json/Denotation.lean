import TenantRegistry.Json.Reader
import TenantRegistry.Proofs.Json.Entries

/-!
What is written, as values.

`Denotes` says which value is written, apart from how it is read: a number as it is rounded, an
object as its last entries make it. What denotes a value is read as the value:
`value?_of_denotes`.
-/

namespace TenantRegistry.Json

open Written

mutual

/-- What is written is a value, its collections nested at most `depth` deep. Of an object that
starts with `rawKey` nothing is said. -/
inductive Denotes : (depth : Nat) → Written → Json → Prop
  | null {depth : Nat} : Denotes depth .null .null
  | bool {depth : Nat} {b : Bool} : Denotes depth (.bool b) (.bool b)
  | number {depth : Nat} {n : NumberText} {x : Number} : n.number? = some x →
      Denotes depth (.number n) (.number x)
  | string {depth : Nat} {s : String} : Denotes depth (.string (some s)) (.string s)
  | array {depth : Nat} {ws : List Written} {items : List Json} : DenotesItems depth ws items →
      Denotes (depth + 1) (.array ws) (.array items)
  | object {depth : Nat} {ws : List (Option String × Written)}
      {entries fields : List (String × Json)} : (∀ e ∈ ws.head?, e.1 ≠ some rawKey) →
      DenotesEntries depth ws entries → IsObjectOf entries fields →
      Denotes (depth + 1) (.object ws) (.object fields)

inductive DenotesItems : (depth : Nat) → List Written → List Json → Prop
  | nil {depth : Nat} : DenotesItems depth [] []
  | cons {depth : Nat} {w : Written} {x : Json} {ws : List Written} {xs : List Json} :
      Denotes depth w x → DenotesItems depth ws xs → DenotesItems depth (w :: ws) (x :: xs)

inductive DenotesEntries :
    (depth : Nat) → List (Option String × Written) → List (String × Json) → Prop
  | nil {depth : Nat} : DenotesEntries depth [] []
  | cons {depth : Nat} {k : String} {w : Written} {v : Json}
      {ws : List (Option String × Written)} {es : List (String × Json)} : Denotes depth w v →
      DenotesEntries depth ws es → DenotesEntries depth ((some k, w) :: ws) ((k, v) :: es)

end

section

variable {reread : String → Option Json}

theorem value?_object {depth : Nat} {ws : List (Option String × Written)}
    {es : List (String × Json)} (hfirst : ∀ e ∈ ws.head?, e.1 ≠ some rawKey)
    (h : entries? reread depth ws = some es) :
    value? reread (depth + 1) (.object ws) = some (ofEntries es) := by
  match ws with
  | [] | (none, v) :: rest => simp only [value?, h]; rfl
  | (some k, v) :: rest =>
    have hk : k ≠ rawKey := fun heq => hfirst _ rfl (congrArg some heq)
    simp only [value?, if_neg hk, h]
    rfl

mutual

/-- What denotes a value is read as the value. -/
theorem value?_of_denotes : ∀ {depth : Nat} {w : Written} {j : Json}, Denotes depth w j →
    value? reread depth w = some j
  | _, _, _, .null => by rw [value?]
  | _, _, _, .bool => by rw [value?]
  | _, _, _, .number h => by rw [value?, h, Option.map_some]
  | _, _, _, .string => by rw [value?, Option.map_some]
  | _, _, _, .array h => by
    simp only [value?, items?_of_denotes h]
    rfl
  | _, _, _, .object hfirst h hobject => by
    rw [value?_object hfirst (entries?_of_denotes h), ofEntries_of_isObjectOf hobject]

theorem items?_of_denotes : ∀ {depth : Nat} {ws : List Written} {xs : List Json},
    DenotesItems depth ws xs → items? reread depth ws = some xs
  | _, _, _, .nil => by rw [items?]
  | _, _, _, .cons hx hxs => by
    simp only [items?, value?_of_denotes hx, items?_of_denotes hxs]
    rfl

theorem entries?_of_denotes : ∀ {depth : Nat} {ws : List (Option String × Written)}
    {es : List (String × Json)}, DenotesEntries depth ws es → entries? reread depth ws = some es
  | _, _, _, .nil => by rw [entries?]
  | _, _, _, .cons hv hes => by
    simp only [entries?, value?_of_denotes hv, entries?_of_denotes hes]
    rfl

end

end

end TenantRegistry.Json
