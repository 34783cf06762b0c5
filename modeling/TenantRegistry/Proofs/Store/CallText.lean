import Mathlib.Data.List.Basic
import TenantRegistry.Store.Call
import TenantRegistry.Store.Column
import TenantRegistry.Text.Pieces

/-!
What a call is about, and what the text of a statement or query refers to.

`Call.key` and `Call.changes` say by columns which rows a call is about and what it changes in
them, `Insert.data` what a new row holds. A text refers to data by placeholders after a `$`;
`references` reads off it which column each placeholder stands beside, and `lists` what is
in its brackets.
-/

namespace TenantRegistry

/-! ## Data by columns -/

/-- What a column holds. -/
inductive Datum where
  | text (s : String)
  | absent
  | time (t : Timestamp)
  deriving DecidableEq

def Datum.ofOptional : Option String → Datum
  | some s => .text s
  | none => .absent

variable {k : Kind}

def Payload.data : {k : Kind} → Payload k → List (String × Datum)
  | _, .credential value => [("value", .text value)]
  | _, .exporter reference config =>
    [("credential", .ofOptional reference), ("config", .text config)]

/-- What a new row of a tenant holds. -/
def Insert.data (tenant : String) (i : Insert k) : List (String × Datum) :=
  [("tenant", .text tenant), ("name", .text i.name), ("type", .text i.type)] ++ i.payload.data ++
    [("created_at", .time i.createdAt), ("updated_at", .time i.updatedAt)]

namespace Call

/-- The rows that a call on stored rows is about: those of its tenant, or the one with a name. -/
def key : Call k → List (String × Datum)
  | .list tenant => [("tenant", .text tenant)]
  | .get tenant name => [("tenant", .text tenant), ("name", .text name)]
  | .insert _ _ => []
  | .update tenant u => [("tenant", .text tenant), ("name", .text u.name)]
  | .delete tenant name => [("tenant", .text tenant), ("name", .text name)]

/-- What a call changes in the rows it is about. -/
def changes : Call k → List (String × Datum)
  | .update _ u => u.payload.data ++ [("updated_at", .time u.updatedAt)]
  | _ => []

end Call

/-- The columns by which a verb finds rows. -/
def Verb.keyColumns : Verb → List String
  | .list => ["tenant"]
  | .insert => []
  | _ => ["tenant", "name"]

/-- The columns that a verb changes in the rows it finds. -/
def Verb.changedColumns (k : Kind) : Verb → List String
  | .update => Column.payload k ++ ["updated_at"]
  | _ => []

theorem Payload.map_data (p : Payload k) : p.data.map (·.1) = Column.payload k := by
  cases p <;> rfl

theorem Insert.map_data (tenant : String) (i : Insert k) :
    (i.data tenant).map (·.1) = Column.all k := by
  simp only [Insert.data, List.map_append, Payload.map_data]
  rfl

theorem Call.map_key (c : Call k) : c.key.map (·.1) = c.verb.keyColumns := by
  cases c <;> rfl

theorem Call.map_changes (c : Call k) : c.changes.map (·.1) = c.verb.changedColumns k := by
  cases c with
  | update tenant u =>
    rw [Call.changes, List.map_append, Payload.map_data]
    rfl
  | _ => rfl

/-! ## Reading texts -/

namespace CallText

open Text (pieces)

/-- What separates words. -/
def isSeparator (c : Char) : Bool :=
  " \n,:=()\x7b\x7d".toList.contains c

/-- The words of a text. `_eq`, which compares, is as little a word as an equals sign. -/
def words (cs : List Char) : List (List Char) :=
  (pieces isSeparator cs).filter fun word => word ≠ [] ∧ word ≠ "_eq".toList

/-- The placeholder that a word is. -/
def placeholder? : List Char → Option String
  | '$' :: cs => some (String.ofList cs)
  | _ => none

/-- The placeholders among words, each with the word right before it. -/
def references (ws : List (List Char)) : List (String × String) :=
  (ws.zip ws.tail).filterMap fun (word, next) =>
    (placeholder? next).map fun p => (String.ofList word, p)

/-- The items of a list, without the blanks before them. -/
def items (cs : List Char) : List String :=
  (pieces (· == ',') cs).map fun item => String.ofList (item.dropWhile (· == ' '))

/-- The lists in the brackets of a text. -/
def lists (cs : List Char) : List (List String) :=
  ((pieces (· == '(') cs).tail.map (·.takeWhile (· != ')'))).map items

/-! ## Lists in texts -/

theorem pieces_append {p : Char → Bool} {before after : List Char} {c : Char}
    (hbefore : ∀ x ∈ before, p x = false) (hc : p c = true) :
    pieces p (before ++ c :: after) = before :: pieces p after := by
  induction before with
  | nil => simp [pieces, hc]
  | cons x rest ih =>
    obtain ⟨hx, hrest⟩ := List.forall_mem_cons.mp hbefore
    simp [pieces, hx, ih hrest]

/-- A text that may stand between commas in brackets. -/
structure IsItem (cs : List Char) : Prop where
  noBlank : cs.head? ≠ some ' '
  noMark : ∀ c ∈ cs, c ≠ ',' ∧ c ≠ '(' ∧ c ≠ ')'

instance (cs : List Char) : Decidable (IsItem cs) :=
  decidable_of_iff (cs.head? ≠ some ' ' ∧ cs.all (fun c => c ≠ ',' ∧ c ≠ '(' ∧ c ≠ ')') = true)
    ⟨fun h => ⟨h.1, by simpa using h.2⟩, fun h => ⟨h.1, by simpa using h.2⟩⟩

theorem dropWhile_blanks {cs : List Char} (h : IsItem cs) (n : Nat) :
    (List.replicate n ' ' ++ cs).dropWhile (· == ' ') = cs := by
  induction n with
  | zero =>
    cases cs with
    | nil => rfl
    | cons c rest =>
      have hc : c ≠ ' ' := fun heq => h.noBlank (congrArg some heq)
      simp [hc]
  | succ n ih => simpa [List.replicate_succ] using ih

/-- The items of a written list are those that were written. -/
theorem items_intercalate {texts : List String} (hne : texts ≠ [])
    (h : ∀ t ∈ texts, IsItem t.toList) (n : Nat) :
    items (List.replicate n ' ' ++ [',', ' '].intercalate (texts.map String.toList)) = texts := by
  induction texts generalizing n with
  | nil => exact absurd rfl hne
  | cons t rest ih =>
    obtain ⟨ht, hrest⟩ := List.forall_mem_cons.mp h
    have hcomma : ∀ c ∈ List.replicate n ' ' ++ t.toList, (c == ',') = false := by
      intro c hc
      rcases List.mem_append.mp hc with hc | hc
      · rw [List.eq_of_mem_replicate hc]; rfl
      · simpa using (ht.noMark c hc).1
    cases rest with
    | nil =>
      simp only [List.map_cons, List.map_nil, List.intercalate_singleton, items,
        Text.pieces_of_forall_not hcomma, dropWhile_blanks ht, String.ofList_toList]
    | cons t' rest =>
      have hnext := ih (by simp) hrest 1
      simp only [items, List.map_cons, List.intercalate_cons_cons] at hnext ⊢
      rw [List.append_assoc, ← List.append_assoc, List.cons_append, pieces_append hcomma rfl,
        List.map_cons, dropWhile_blanks ht, String.ofList_toList]
      exact congrArg _ hnext

/-- A written list has no brackets in it. -/
theorem not_bracket_of_mem {texts : List String} (h : ∀ t ∈ texts, IsItem t.toList) {c : Char}
    (hc : c ∈ [',', ' '].intercalate (texts.map String.toList)) : c ≠ '(' ∧ c ≠ ')' := by
  induction texts with
  | nil => cases hc
  | cons t rest ih =>
    obtain ⟨ht, hrest⟩ := List.forall_mem_cons.mp h
    cases rest with
    | nil =>
      rw [List.map_cons, List.map_nil, List.intercalate_singleton] at hc
      exact (ht.noMark c hc).2
    | cons t' rest =>
      rw [List.map_cons, List.map_cons, List.intercalate_cons_cons, List.mem_append,
        List.mem_append] at hc
      rcases hc with (hc | hc) | hc
      · exact (ht.noMark c hc).2
      · simp only [List.mem_cons, List.not_mem_nil, or_false] at hc
        rcases hc with rfl | rfl <;> decide
      · exact ih hrest hc

theorem takeWhile_bracket {inside : List Char} (h : ∀ c ∈ inside, c ≠ ')') (after : List Char) :
    (inside ++ ')' :: after).takeWhile (· != ')') = inside := by
  induction inside with
  | nil => rfl
  | cons c rest ih =>
    obtain ⟨hc, hrest⟩ := List.forall_mem_cons.mp h
    simp [hc, ih hrest]

/-- The insides of brackets one after the other. -/
theorem insides_intercalate {insides : List (List Char)}
    (h : ∀ inside ∈ insides, ∀ c ∈ inside, c ≠ '(' ∧ c ≠ ')') {before : List Char}
    (hbefore : ∀ c ∈ before, c ≠ '(') :
    (pieces (· == '(') (before ++
      [',', ' '].intercalate (insides.map fun inside => '(' :: inside ++ [')']))).map
        (·.takeWhile (· != ')')) = before.takeWhile (· != ')') :: insides := by
  have hnot : ∀ {cs : List Char}, (∀ c ∈ cs, c ≠ '(') → ∀ c ∈ cs, (c == '(') = false :=
    fun hcs c hc => by simpa using hcs c hc
  induction insides generalizing before with
  | nil =>
    rw [List.map_nil, List.intercalate_nil, List.append_nil,
      Text.pieces_of_forall_not (hnot hbefore)]
    rfl
  | cons inside rest ih =>
    obtain ⟨hinside, hrest⟩ := List.forall_mem_cons.mp h
    -- What follows the bracket is the inside with what stands before the next bracket.
    have hnext : ∀ after : List Char, (∀ c ∈ after, c ≠ '(') →
        ∀ c ∈ inside ++ ')' :: after, c ≠ '(' := by
      intro after hafter c hc
      rcases List.mem_append.mp hc with hc | hc
      · exact (hinside c hc).1
      · rcases List.mem_cons.mp hc with rfl | hc
        · decide
        · exact hafter c hc
    have hclosed := fun after => takeWhile_bracket (fun c hc => (hinside c hc).2) after
    cases rest with
    | nil =>
      have hlast := ih hrest (hnext [] (by simp))
      rw [hclosed, List.map_nil, List.intercalate_nil, List.append_nil] at hlast
      rw [List.map_cons, List.map_nil, List.intercalate_singleton, List.cons_append,
        pieces_append (hnot hbefore) rfl, List.map_cons, hlast]
    | cons inside' rest =>
      have hlater := ih hrest (hnext [',', ' '] (by simp))
      rw [hclosed] at hlater
      rw [List.map_cons, List.map_cons, List.intercalate_cons_cons, List.cons_append,
        List.append_assoc, List.cons_append, pieces_append (hnot hbefore) rfl, List.map_cons]
      simp only [List.map_cons, List.append_assoc, List.cons_append, List.nil_append] at hlater ⊢
      rw [hlater]

end CallText
end TenantRegistry
