import Mathlib
import TenantRegistry.Proofs.Record.ContentRead
import TenantRegistry.Proofs.Yaml.Denotation

/-!
Which documents are records.

`HasRecord` says it of a document without saying how it is read: its root is a mapping, every key
is a field of the kind, no field is given twice, and every field holds what it must. `IsVoid` says
that the root stands for nothing. A document yields a record, nothing or an error accordingly
(`yielded_meaning`), and an error carries the number of items before it.
-/

namespace TenantRegistry

open Yaml (Denotes Document Node Path Properties Resolves Scalar Scope ScalarStyle Tag Tree)
open Yaml.Read (Exact bind_eq_ok_iff exact_fail exact_fail_bind exact_pure fail follow follow_exact
  tree_exact)

variable {k : Kind} {anchored : List (Nat × Node)}

/-! ## Nodes as fields -/

/-- A node that stands for nothing: a plain scalar that is empty or null without a tag, or null
under the tag that says so. -/
inductive StandsForNothing : Node → Prop
  | untagged {props : Properties} {text : String} : props.tag = none →
      (text.isEmpty || Scalar.isNull text) = true → StandsForNothing (.scalar props .plain text)
  | nullTag {props : Properties} {text : String} : props.tag = some (Tag.core "null") →
      Scalar.isNull text = true → StandsForNothing (.scalar props .plain text)

/-- A plain scalar whose tag says that it is null, while its text does not. -/
inductive IsFalseNull : Node → Prop
  | mk {props : Properties} {text : String} : props.tag = some (Tag.core "null") →
      Scalar.isNull text = false → IsFalseNull (.scalar props .plain text)

/-- A node is a scalar with this text, whatever its tag and style. -/
inductive HasText (anchored : List (Nat × Node)) : Node → String → Nat → Prop
  | mk {n : Node} {props : Properties} {style : ScalarStyle} {text : String} {a : Nat} :
      Resolves anchored n (.scalar props style text) a → HasText anchored n text a

/-- A node refers to a name or to nothing. -/
inductive HasReference (anchored : List (Nat × Node)) : Node → Option String → Nat → Prop
  | nothing {n m : Node} {a : Nat} : Resolves anchored n m a → StandsForNothing m →
      HasReference anchored n none a
  | text {n : Node} {props : Properties} {style : ScalarStyle} {text : String} {a : Nat} :
      Resolves anchored n (.scalar props style text) a →
      ¬ StandsForNothing (.scalar props style text) → ¬ IsFalseNull (.scalar props style text) →
        HasReference anchored n (some text) a

/-- A field of a record with what it holds. -/
inductive Part where
  | name (s : String)
  | type (s : String)
  | reference (r : Option String)
  | content (t : Tree)

def Part.field : Part → Field
  | .name _ => .name
  | .type _ => .type
  | .reference _ => .reference
  | .content _ => .content

/-- A node holds what a field must hold, and how many aliases are followed for it. -/
inductive Holds (anchored : List (Nat × Node)) : Node → Part → Nat → Prop
  | name {n : Node} {s : String} {a : Nat} : HasText anchored n s a → Holds anchored n (.name s) a
  | type {n : Node} {s : String} {a : Nat} : HasText anchored n s a → Holds anchored n (.type s) a
  | reference {n : Node} {r : Option String} {a : Nat} : HasReference anchored n r a →
      Holds anchored n (.reference r) a
  | content {n : Node} {t : Tree} {a : Nat} :
      Denotes anchored (Yaml.Read.depthLimit - 1) false n t a → Holds anchored n (.content t) a

/-- The entries of a mapping are fields of a kind, each holding what it must. -/
inductive HasParts (k : Kind) (anchored : List (Nat × Node)) : List (Node × Node) → List Part →
    Nat → Prop
  | nil : HasParts k anchored [] [] 0
  | cons {key value : Node} {label : String} {p : Part} {rest : List (Node × Node)}
      {ps : List Part} {a b c : Nat} : HasText anchored key label a → (label, p.field) ∈ k.fields →
      Holds anchored value p b → HasParts k anchored rest ps c →
        HasParts k anchored ((key, value) :: rest) (p :: ps) (a + (b + c))

/-! ## Records -/

/-- The reference of a content, if its kind has one. -/
def Content.reference? : {k : Kind} → Content k → Option (Option String)
  | _, .credential _ => none
  | _, .exporter reference _ => some reference

/-- A record carries exactly what its fields hold. None of them is given twice; name and content are
there, a type that is left out is empty, and a reference that is left out is none. -/
structure Submission.MadeOf (s : Submission k) (parts : List Part) : Prop where
  distinct : (parts.map Part.field).Nodup
  name : .name s.name ∈ parts
  type : .type s.type ∈ parts ∨ s.type = "" ∧ ∀ t, .type t ∉ parts
  reference : ∀ r, s.content.reference? = some r →
    .reference r ∈ parts ∨ r = none ∧ ∀ r, .reference r ∉ parts
  content : .content s.content.tree ∈ parts

/-- A document is a record: its root is a mapping whose entries are the parts of the record, and no
more aliases are followed than its size allows. -/
def HasRecord (d : Document) (s : Submission k) : Prop :=
  d.faulty = false ∧ ∃ props entries parts a b,
    Resolves d.anchored d.root (.mapping props entries) a ∧
      HasParts k d.anchored entries parts b ∧ s.MadeOf parts ∧ a + b ≤ d.size * 100

/-- A document is void: its root stands for nothing. -/
def IsVoid (d : Document) : Prop :=
  d.faulty = false ∧ ∃ n a, Resolves d.anchored d.root n a ∧ StandsForNothing n ∧ a ≤ d.size * 100

/-! ## Drafts -/

namespace Draft

def add (d : Draft) : Part → Draft
  | .name s => { d with name := some s }
  | .type s => { d with type := some s }
  | .reference r => { d with reference := some r }
  | .content t => { d with content := some t }

/-- What a draft has for a field. -/
def part? (d : Draft) : Field → Option Part
  | .name => d.name.map .name
  | .type => d.type.map .type
  | .reference => d.reference.map .reference
  | .content => d.content.map .content

theorem has_eq (d : Draft) (f : Field) : d.has f = (d.part? f).isSome := by
  cases f <;> simp [has, part?]

theorem part?_add (d : Draft) (p : Part) (f : Field) :
    (d.add p).part? f = if p.field = f then some p else d.part? f := by
  cases p <;> cases f <;> rfl

/-- What a draft has once parts with distinct fields are added to one that lacks them. -/
theorem part?_foldl {parts : List Part} {d : Draft} (hdistinct : (parts.map Part.field).Nodup)
    (hnew : ∀ p ∈ parts, d.part? p.field = none) {p : Part} :
    (parts.foldl add d).part? p.field = some p ↔ p ∈ parts ∨ d.part? p.field = some p := by
  induction parts generalizing d with
  | nil => simp
  | cons q rest ih =>
    obtain ⟨hq, hdistinct⟩ := List.nodup_cons.mp hdistinct
    obtain ⟨hqnew, hnew⟩ := List.forall_mem_cons.mp hnew
    have hother : ∀ r ∈ rest, q.field ≠ r.field := fun r hr heq =>
      hq (heq ▸ List.mem_map_of_mem hr)
    rw [List.foldl_cons, ih hdistinct fun r hr => by
      rw [part?_add, if_neg (hother r hr)]; exact hnew r hr]
    rw [part?_add, List.mem_cons]
    split
    · next heq => rw [← heq, hqnew]; simp [eq_comm, or_comm]
    · next hne =>
      have hpq : p ≠ q := fun h => hne (h ▸ rfl)
      simp [hpq]

theorem part?_empty (f : Field) : part? {} f = none := by
  cases f <;> rfl

end Draft

theorem submission_ext {s s' : Submission k} (hname : s.name = s'.name) (htype : s.type = s'.type)
    (htree : s.content.tree = s'.content.tree)
    (hreference : s.content.reference? = s'.content.reference?) : s = s' := by
  obtain ⟨name, type, content⟩ := s
  obtain ⟨name', type', content'⟩ := s'
  cases hname
  cases htype
  congr 1
  cases content <;> cases content' <;> simp_all [Content.tree, Content.reference?]

/-- What a field of a draft is for a record, given the parts: the part itself, or what stands for a
part that is left out. -/
theorem getD_eq_iff {α : Type} {o : Option α} {a x : α} {mem : α → Prop}
    (hmem : ∀ x, o = some x ↔ mem x) : o.getD a = x ↔ mem x ∨ x = a ∧ ∀ y, ¬ mem y := by
  cases o with
  | none =>
    have hnone : ∀ y, ¬ mem y := fun y hy => by cases (hmem y).mpr hy
    exact ⟨fun h => .inr ⟨h.symm, hnone⟩,
      fun h => h.elim (fun hx => absurd hx (hnone x)) fun h => h.1.symm⟩
  | some y =>
    have hy : mem y := (hmem y).mp rfl
    constructor
    · rintro rfl; exact .inl hy
    · rintro (hx | ⟨-, hnone⟩)
      · exact Option.some.inj ((hmem x).mpr hx)
      · exact absurd hy (hnone y)

theorem reference?_contentOf (d : Draft) (t : Tree) {r : Option String} :
    (d.contentOf t k).reference? = some r → d.reference.getD none = r := by
  cases k <;> simp [Draft.contentOf, Content.reference?]

/-- A draft is finished to the record that its parts make. -/
theorem finish_eq_ok_iff {parts : List Part} (hdistinct : (parts.map Part.field).Nodup)
    {s : Submission k} :
    (parts.foldl Draft.add {}).finish k = .ok s ↔ s.MadeOf parts := by
  have hpart : ∀ p : Part, (parts.foldl Draft.add {}).part? p.field = some p ↔ p ∈ parts := by
    intro p
    rw [Draft.part?_foldl hdistinct fun p _ => Draft.part?_empty _, Draft.part?_empty]
    simp
  generalize parts.foldl Draft.add {} = d at hpart
  have hname : ∀ s, d.name = some s ↔ .name s ∈ parts := fun s => by
    simpa [Draft.part?, Part.field] using hpart (.name s)
  have htype : ∀ s, d.type = some s ↔ .type s ∈ parts := fun s => by
    simpa [Draft.part?, Part.field] using hpart (.type s)
  have hreference : ∀ r, d.reference = some r ↔ .reference r ∈ parts := fun r => by
    simpa [Draft.part?, Part.field] using hpart (.reference r)
  have hcontent : ∀ t, d.content = some t ↔ .content t ∈ parts := fun t => by
    simpa [Draft.part?, Part.field] using hpart (.content t)
  constructor
  · intro h
    unfold Draft.finish at h
    split at h
    · next name t hn ht =>
      cases h
      refine ⟨hdistinct, (hname _).mp hn, (getD_eq_iff htype).mp rfl, fun r hr => ?_, ?_⟩
      · exact (getD_eq_iff hreference).mp (reference?_contentOf d t hr)
      · show Part.content (d.contentOf t k).tree ∈ parts
        rw [Draft.tree_contentOf]
        exact (hcontent t).mp ht
    · cases h
    · cases h
  · intro h
    simp only [Draft.finish, (hname _).mpr h.name, (hcontent _).mpr h.content]
    congr 1
    refine submission_ext rfl ((getD_eq_iff htype).mpr h.type) (Draft.tree_contentOf ..) ?_
    obtain ⟨_, _, content⟩ := s
    cases content with
    | credential value => rfl
    | exporter reference config =>
      exact congrArg some ((getD_eq_iff hreference).mpr (h.reference reference rfl))

namespace Read

variable {scope : Scope}

theorem plainText_exact (expected : String) (path : Path) (n : Node) (limit : Nat) :
    Exact limit (plainText expected path n) fun s a =>
      (∃ props style, n = .scalar props style s) ∧ a = 0 := by
  have hfail : ∀ {r : Yaml.Read String}, Exact limit r (fun _ _ => False) →
      (∀ props style text, n ≠ .scalar props style text) →
        Exact limit r fun s a => (∃ props style, n = .scalar props style s) ∧ a = 0 :=
    fun h hn => h.congr fun s a =>
      ⟨False.elim, fun ⟨⟨props, style, heq⟩, _⟩ => hn props style s heq⟩
  match n with
  | .scalar props style text =>
    refine (exact_pure text).congr fun s a => ⟨?_, ?_⟩
    · rintro ⟨rfl, rfl⟩; exact ⟨⟨props, style, rfl⟩, rfl⟩
    · rintro ⟨⟨_, _, heq⟩, rfl⟩; cases heq; exact ⟨rfl, rfl⟩
  | .sequence props _ => exact hfail ((exact_fail _).within _ _) fun _ _ _ h => by cases h
  | .mapping props _ => exact hfail ((exact_fail _).within _ _) fun _ _ _ h => by cases h
  | .alias _ _ => exact hfail (exact_fail _) fun _ _ _ h => by cases h
  | .fault => exact hfail (exact_fail _) fun _ _ _ h => by cases h

theorem text_exact (scope : Scope) (expected : String) (path : Path) (n : Node) :
    Exact scope.limit (text scope expected path n) fun s a => HasText scope.anchored n s a := by
  have hplain : ∀ n : Node, (∀ mark anchor, n ≠ .alias mark anchor) →
      Exact scope.limit (plainText expected path n) fun s a => HasText scope.anchored n s a := by
    intro n hn
    refine (plainText_exact expected path n _).congr fun s a => ⟨?_, ?_⟩
    · rintro ⟨⟨props, style, rfl⟩, rfl⟩
      exact .mk (.itself hn)
    · rintro (⟨hresolves⟩)
      cases hresolves with
      | itself => exact ⟨⟨_, _, rfl⟩, rfl⟩
      | followed => exact absurd rfl (hn _ _)
  match n with
  | .alias mark anchor =>
    refine Exact.within (((follow_exact scope anchor).bind fun n =>
      plainText_exact expected (.alias path) n _).congr fun s a => ⟨?_, ?_⟩) _ _
    · rintro ⟨_, _, _, ⟨rfl, b, hfind⟩, ⟨⟨props, style, rfl⟩, rfl⟩, rfl⟩
      exact .mk (.followed hfind)
    · rintro (⟨hresolves⟩)
      cases hresolves with
      | followed hfind => exact ⟨_, 1, 0, ⟨rfl, _, hfind⟩, ⟨⟨_, _, rfl⟩, rfl⟩, rfl⟩
  | .scalar props style text => exact hplain (.scalar props style text) fun _ _ h => by cases h
  | .sequence props children => exact hplain (.sequence props children) fun _ _ h => by cases h
  | .mapping props children => exact hplain (.mapping props children) fun _ _ h => by cases h
  | .fault => exact hplain .fault fun _ _ h => by cases h

theorem isAbsent_iff {n : Node} :
    (isAbsent n = .ok true ↔ StandsForNothing n) ∧
    (isAbsent n = .ok false ↔ ¬ StandsForNothing n ∧ ¬ IsFalseNull n) := by
  have hother : (∀ props text, n ≠ .scalar props .plain text) → isAbsent n = .ok false →
      (isAbsent n = .ok true ↔ StandsForNothing n) ∧
      (isAbsent n = .ok false ↔ ¬ StandsForNothing n ∧ ¬ IsFalseNull n) := by
    intro hn h
    have hnothing : ¬ StandsForNothing n := by
      rintro (_ | _) <;> exact hn _ _ rfl
    have hfalse : ¬ IsFalseNull n := by
      rintro ⟨⟩; exact hn _ _ rfl
    rw [h]
    simp [hnothing, hfalse]
  match n with
  | .scalar ⟨mark, anchor, tag⟩ style text =>
    cases style with
    | plain =>
      have hnothing : StandsForNothing (.scalar ⟨mark, anchor, tag⟩ .plain text) ↔
          tag = none ∧ (text.isEmpty || Scalar.isNull text) = true ∨
            tag = some (Tag.core "null") ∧ Scalar.isNull text = true :=
        ⟨fun h => by
          cases h with
          | untagged htag h => exact .inl ⟨htag, h⟩
          | nullTag htag h => exact .inr ⟨htag, h⟩,
          fun h => h.elim (fun h => .untagged h.1 h.2) fun h => .nullTag h.1 h.2⟩
      have hfalse : IsFalseNull (.scalar ⟨mark, anchor, tag⟩ .plain text) ↔
          tag = some (Tag.core "null") ∧ Scalar.isNull text = false :=
        ⟨fun ⟨htag, h⟩ => ⟨htag, h⟩, fun h => .mk h.1 h.2⟩
      rw [hnothing, hfalse]
      cases tag with
      | none => simp [isAbsent]
      | some t =>
        by_cases ht : t = Tag.core "null" <;> cases hnull : Scalar.isNull text <;>
          simp [isAbsent, ht, hnull]
    | singleQuoted => exact hother (fun _ _ h => by cases h) rfl
    | doubleQuoted => exact hother (fun _ _ h => by cases h) rfl
    | literal => exact hother (fun _ _ h => by cases h) rfl
    | folded => exact hother (fun _ _ h => by cases h) rfl
  | .sequence _ _ => exact hother (fun _ _ h => by cases h) rfl
  | .mapping _ _ => exact hother (fun _ _ h => by cases h) rfl
  | .alias _ _ => exact hother (fun _ _ h => by cases h) rfl
  | .fault => exact hother (fun _ _ h => by cases h) rfl

/-- What `optional` does with a node that is no alias. -/
def present {α : Type} (reader : Path → Node → Yaml.Read α) (path : Path) (n : Node) :
    Yaml.Read (Option α) :=
  match n, isAbsent n with
  | .fault, _ => fail .malformed
  | _, .error c => fail c
  | _, .ok true => return none
  | _, .ok false => do return some (← reader path n)

theorem optional_eq {α : Type} (scope : Scope) (reader : Path → Node → Yaml.Read α) (path : Path)
    (n : Node) : optional scope reader path n = match n with
      | .alias _ anchor => follow scope anchor >>= present reader (.alias path)
      | n => present reader path n := by
  cases n <;> rfl

/-- Nothing, or what `P` allows. -/
def Optionally {α : Type} (P : Node → α → Nat → Prop) (n : Node) (o : Option α) (a : Nat) : Prop :=
  (o = none ∧ StandsForNothing n ∧ a = 0) ∨
    ∃ x, o = some x ∧ ¬ StandsForNothing n ∧ ¬ IsFalseNull n ∧ P n x a

theorem present_exact {α : Type} {limit : Nat} {reader : Path → Node → Yaml.Read α}
    {P : Node → α → Nat → Prop} {path : Path} {n : Node}
    (hreader : Exact limit (reader path n) (P n)) (hfault : ∀ x a, ¬ P .fault x a) :
    Exact limit (present reader path n) (Optionally P n) := by
  unfold present
  split
  · refine (exact_fail _).congr fun o a => ⟨False.elim, ?_⟩
    rintro (⟨_, h, _⟩ | ⟨x, _, _, _, hx⟩)
    · cases h
    · exact hfault x a hx
  · next herror =>
    refine (exact_fail _).congr fun o a => ⟨False.elim, ?_⟩
    rintro (⟨_, h, _⟩ | ⟨x, _, hnothing, hfalse, _⟩)
    · cases herror.symm.trans (isAbsent_iff.1.mpr h)
    · cases herror.symm.trans (isAbsent_iff.2.mpr ⟨hnothing, hfalse⟩)
  · next htrue =>
    have hnothing := isAbsent_iff.1.mp htrue
    refine (exact_pure none).congr fun o a => ⟨?_, ?_⟩
    · rintro ⟨rfl, rfl⟩; exact .inl ⟨rfl, hnothing, rfl⟩
    · rintro (⟨rfl, _, rfl⟩ | ⟨x, _, hn, _⟩)
      · exact ⟨rfl, rfl⟩
      · exact absurd hnothing hn
  · next hpresent =>
    obtain ⟨hnothing, hfalse⟩ := isAbsent_iff.2.mp hpresent
    refine (hreader.bind fun x => exact_pure (some x)).congr fun o a => ⟨?_, ?_⟩
    · rintro ⟨x, m, _, hx, ⟨rfl, rfl⟩, rfl⟩
      exact .inr ⟨x, rfl, hnothing, hfalse, hx⟩
    · rintro (⟨_, h, _⟩ | ⟨x, rfl, _, _, hx⟩)
      · exact absurd h hnothing
      · exact ⟨x, a, 0, hx, ⟨rfl, rfl⟩, rfl⟩

/-- What `optional` reads, given what its reader reads of a node that is no alias. -/
theorem optional_exact {α : Type} (hscope : Yaml.Read.Anchoring scope.anchored)
    {reader : Path → Node → Yaml.Read α} {P : Node → α → Nat → Prop}
    (hreader : ∀ path n, (∀ mark anchor, n ≠ .alias mark anchor) →
      Exact scope.limit (reader path n) (P n))
    (hfault : ∀ x a, ¬ P .fault x a) (path : Path) (n : Node) :
    Exact scope.limit (optional scope reader path n) fun o a =>
      ∃ m b c, Resolves scope.anchored n m b ∧ Optionally P m o c ∧ a = b + c := by
  have hplain : ∀ {n : Node}, (∀ mark anchor, n ≠ .alias mark anchor) →
      Exact scope.limit (present reader path n) fun o a =>
        ∃ m b c, Resolves scope.anchored n m b ∧ Optionally P m o c ∧ a = b + c := by
    refine fun hn => (present_exact (hreader path _ hn) hfault).congr fun o a => ⟨fun h => ?_, ?_⟩
    · exact ⟨_, 0, a, .itself hn, h, by omega⟩
    · rintro ⟨m, b, c, hm, h, rfl⟩
      cases hm with
      | itself => rwa [Nat.zero_add]
      | followed => exact absurd rfl (hn _ _)
  rw [optional_eq]
  match n with
  | .alias mark anchor =>
    refine ((follow_exact scope anchor).bind_of fun n _ hfollow =>
      present_exact (hreader _ n ?_) hfault).congr fun o a => ⟨?_, ?_⟩
    · obtain ⟨_, a, hfind⟩ := hfollow
      exact hscope _ (List.mem_of_find?_eq_some hfind)
    · rintro ⟨m, _, c, ⟨rfl, b, hfind⟩, h, rfl⟩
      exact ⟨m, 1, c, .followed hfind, h, rfl⟩
    · rintro ⟨m, b, c, hm, h, rfl⟩
      cases hm with
      | itself hn => exact absurd rfl (hn _ _)
      | followed hfind => exact ⟨m, 1, c, ⟨rfl, _, hfind⟩, h, rfl⟩
  | .scalar props style text => exact hplain (n := .scalar props style text) fun _ _ h => by cases h
  | .sequence props children => exact hplain (n := .sequence props children) fun _ _ h => by cases h
  | .mapping props children => exact hplain (n := .mapping props children) fun _ _ h => by cases h
  | .fault => exact hplain (n := .fault) fun _ _ h => by cases h

/-- What an alias leads to is no alias. -/
theorem ne_alias_of_resolves (hanchored : Yaml.Read.Anchoring anchored) {n m : Node} {a : Nat}
    (h : Resolves anchored n m a) : ∀ mark anchor, m ≠ .alias mark anchor := by
  cases h with
  | itself hn => exact hn
  | followed hfind => exact hanchored _ (List.mem_of_find?_eq_some hfind)

theorem hasReference_iff (hanchored : Yaml.Read.Anchoring anchored) {n : Node} {r : Option String}
    {a : Nat} : HasReference anchored n r a ↔
      ∃ m b c, Resolves anchored n m b ∧ Optionally (HasText anchored) m r c ∧ a = b + c := by
  constructor
  · rintro (⟨hm, hnothing⟩ | ⟨hm, hnothing, hfalse⟩)
    · exact ⟨_, a, 0, hm, .inl ⟨rfl, hnothing, rfl⟩, rfl⟩
    · refine ⟨_, a, 0, hm, .inr ⟨_, rfl, hnothing, hfalse, .mk (.itself ?_)⟩, rfl⟩
      exact fun _ _ h => by cases h
  · rintro ⟨m, b, c, hm, ⟨rfl, hnothing, rfl⟩ | ⟨s, rfl, hnothing, hfalse, htext⟩, rfl⟩
    · exact .nothing hm hnothing
    · obtain ⟨hscalar⟩ := htext
      cases hscalar with
      | itself => exact .text hm hnothing hfalse
      | followed => exact absurd rfl (ne_alias_of_resolves hanchored hm _ _)

theorem not_hasText_fault {s : String} {a : Nat} : ¬ HasText anchored .fault s a := by
  rintro (⟨h⟩)
  cases h

/-- Reading a field adds the part that its node holds. -/
theorem field_exact (hscope : Yaml.Read.Anchoring scope.anchored) (path : Path) (d : Draft)
    (n : Node) (f : Field) :
    Exact scope.limit (field scope path d n f) fun d' a =>
      ∃ p, p.field = f ∧ Holds scope.anchored n p a ∧ d' = d.add p := by
  cases f with
  | name =>
    refine ((text_exact scope "a string" path n).bind fun s => exact_pure _).congr
      fun d' a => ⟨?_, ?_⟩
    · rintro ⟨s, m, _, hs, ⟨rfl, rfl⟩, rfl⟩
      exact ⟨.name s, rfl, .name hs, rfl⟩
    · rintro ⟨p, hp, hholds, rfl⟩
      cases hholds with
      | name hs => exact ⟨_, _, 0, hs, ⟨rfl, rfl⟩, rfl⟩
      | _ => cases hp
  | type =>
    refine ((text_exact scope "a string" path n).bind fun s => exact_pure _).congr
      fun d' a => ⟨?_, ?_⟩
    · rintro ⟨s, m, _, hs, ⟨rfl, rfl⟩, rfl⟩
      exact ⟨.type s, rfl, .type hs, rfl⟩
    · rintro ⟨p, hp, hholds, rfl⟩
      cases hholds with
      | type hs => exact ⟨_, _, 0, hs, ⟨rfl, rfl⟩, rfl⟩
      | _ => cases hp
  | reference =>
    refine ((optional_exact hscope (fun path n _ => text_exact scope "a string" path n)
      (fun _ _ => not_hasText_fault) path n).bind fun r => exact_pure _).congr fun d' a => ⟨?_, ?_⟩
    · rintro ⟨r, m, _, hr, ⟨rfl, rfl⟩, rfl⟩
      exact ⟨.reference r, rfl, .reference ((hasReference_iff hscope).mpr hr), rfl⟩
    · rintro ⟨p, hp, hholds, rfl⟩
      cases hholds with
      | reference hr => exact ⟨_, _, 0, (hasReference_iff hscope).mp hr, ⟨rfl, rfl⟩, rfl⟩
      | _ => cases hp
  | content =>
    refine ((tree_exact hscope (Yaml.Read.depthLimit - 1) false path n).bind
      fun t => exact_pure _).congr fun d' a => ⟨?_, ?_⟩
    · rintro ⟨t, m, _, ht, ⟨rfl, rfl⟩, rfl⟩
      exact ⟨.content t, rfl, .content ht, rfl⟩
    · rintro ⟨p, hp, hholds, rfl⟩
      cases hholds with
      | content ht => exact ⟨_, _, 0, ht, ⟨rfl, rfl⟩, rfl⟩
      | _ => cases hp

theorem find?_fields {name label : String} {f : Field} :
    k.fields.find? (·.1 == name) = some (label, f) ↔ label = name ∧ (name, f) ∈ k.fields := by
  constructor
  · intro h
    have hname : label = name := by simpa using List.find?_some h
    exact ⟨hname, hname ▸ List.mem_of_find?_eq_some h⟩
  · rintro ⟨rfl, h⟩
    cases k with
    | credential =>
      simp only [Kind.fields, List.mem_cons, List.not_mem_nil, or_false] at h
      rcases h with h | h | h <;> cases h <;> rfl
    | exporter =>
      simp only [Kind.fields, List.mem_cons, List.not_mem_nil, or_false] at h
      rcases h with h | h | h | h <;> cases h <;> rfl

/-- What an entry adds to a draft and what the entries after it add, `label` being its key. -/
def AddsFrom (k : Kind) (anchored : List (Nat × Node)) (d : Draft) (value : Node)
    (rest : List (Node × Node)) (label : String) (d' : Draft) (a : Nat) : Prop :=
  ∃ p parts b c, (label, p.field) ∈ k.fields ∧ d.part? p.field = none ∧ Holds anchored value p b ∧
    HasParts k anchored rest parts c ∧ (parts.map Part.field).Nodup ∧
      (∀ q ∈ parts, (d.add p).part? q.field = none) ∧ d' = parts.foldl Draft.add (d.add p) ∧
        a = b + c

theorem exists_hasParts_cons_iff {d d' : Draft} {key value : Node} {rest : List (Node × Node)}
    {a : Nat} :
    (∃ parts, HasParts k anchored ((key, value) :: rest) parts a ∧ (parts.map Part.field).Nodup ∧
      (∀ p ∈ parts, d.part? p.field = none) ∧ d' = parts.foldl Draft.add d) ↔
      ∃ label m m', HasText anchored key label m ∧ AddsFrom k anchored d value rest label d' m' ∧
        a = m + m' := by
  constructor
  · rintro ⟨_, hparts, hdistinct, hnew, rfl⟩
    cases hparts with
    | @cons _ _ label p _ ps m b c hkey hfield hholds hrest =>
      obtain ⟨hother, hdistinct⟩ := List.nodup_cons.mp hdistinct
      obtain ⟨hp, hnew⟩ := List.forall_mem_cons.mp hnew
      refine ⟨label, m, b + c, hkey, ⟨p, ps, b, c, hfield, hp, hholds, hrest, hdistinct, ?_, rfl,
        rfl⟩, rfl⟩
      intro q hq
      have hne : p.field ≠ q.field := fun h => hother (h ▸ List.mem_map_of_mem hq)
      rw [Draft.part?_add, if_neg hne]
      exact hnew q hq
  · rintro ⟨label, m, _, hkey, ⟨p, ps, b, c, hfield, hp, hholds, hrest, hdistinct, hnew, rfl, rfl⟩,
      rfl⟩
    -- A field that is missing once `p` is added is not that of `p`, and was missing before.
    have hnone : ∀ q ∈ ps, p.field ≠ q.field ∧ d.part? q.field = none := by
      intro q hq
      have h := hnew q hq
      rw [Draft.part?_add] at h
      split at h
      · cases h
      · next hne => exact ⟨hne, h⟩
    refine ⟨p :: ps, .cons hkey hfield hholds hrest,
      List.nodup_cons.mpr ⟨fun hmem => ?_, hdistinct⟩,
      List.forall_mem_cons.mpr ⟨hp, fun q hq => (hnone q hq).2⟩, rfl⟩
    obtain ⟨q, hq, heq⟩ := List.mem_map.mp hmem
    exact (hnone q hq).1 heq.symm

/-- Reading the entries of a record adds their parts, whose fields are new and distinct. -/
theorem draft_exact (hscope : Yaml.Read.Anchoring scope.anchored) (path : Path) (d : Draft)
    (entries : List (Node × Node)) :
    Exact scope.limit (draft scope k path d entries) fun d' a => ∃ parts,
      HasParts k scope.anchored entries parts a ∧ (parts.map Part.field).Nodup ∧
        (∀ p ∈ parts, d.part? p.field = none) ∧ d' = parts.foldl Draft.add d := by
  induction entries generalizing d with
  | nil =>
    refine (exact_pure d).congr fun d' a => ⟨?_, ?_⟩
    · rintro ⟨rfl, rfl⟩
      exact ⟨[], .nil, .nil, fun _ h => (by cases h), rfl⟩
    · rintro ⟨_, ⟨⟩, -, -, rfl⟩
      exact ⟨rfl, rfl⟩
  | cons entry rest ih =>
    obtain ⟨key, value⟩ := entry
    simp only [exists_hasParts_cons_iff]
    unfold draft
    dsimp only
    split
    · refine (exact_fail_bind _ _).congr fun d' a => ⟨False.elim, ?_⟩
      rintro ⟨label, m, m', hkey, -, -⟩
      exact not_hasText_fault hkey
    · refine (text_exact scope _ path key).bind fun label => ?_
      split
      · next hfind =>
        refine ((exact_fail _).within _ _).congr fun d' a => ⟨False.elim, ?_⟩
        rintro ⟨p, _, _, _, hfield, -⟩
        cases hfind.symm.trans (find?_fields.mpr ⟨rfl, hfield⟩)
      · next found f hfind =>
        obtain ⟨rfl, hmem⟩ := find?_fields.mp hfind
        -- The label belongs to one field only.
        have hfield : ∀ {p : Part}, (found, p.field) ∈ k.fields → p.field = f := fun h => by
          cases hfind.symm.trans (find?_fields.mpr ⟨rfl, h⟩)
          rfl
        split
        · next hhas =>
          refine (exact_fail _).congr fun d' a => ⟨False.elim, ?_⟩
          rintro ⟨p, _, _, _, hp, hnone, -⟩
          rw [Draft.has_eq, ← hfield hp, hnone] at hhas
          cases hhas
        · next hhas =>
          have hnone : d.part? f = none := by simpa [Draft.has_eq] using hhas
          refine ((field_exact hscope _ d value f).bind fun d' => ih d').congr fun d' a => ⟨?_, ?_⟩
          · rintro ⟨_, b, c, ⟨p, rfl, hholds, rfl⟩, ⟨ps, hps, hdistinct, hnew, rfl⟩, rfl⟩
            exact ⟨p, ps, b, c, hmem, hnone, hholds, hps, hdistinct, hnew, rfl, rfl⟩
          · rintro ⟨p, ps, b, c, hp, -, hholds, hps, hdistinct, hnew, rfl, rfl⟩
            exact ⟨_, b, c, ⟨p, hfield hp, hholds, rfl⟩, ⟨ps, hps, hdistinct, hnew, rfl⟩, rfl⟩

theorem finish_exact (d : Draft) (limit : Nat) :
    Exact limit (record.finish k d) fun s a => d.finish k = .ok s ∧ a = 0 := by
  unfold record.finish
  split
  · next s hs =>
    refine (exact_pure s).congr fun s' a => and_congr_left' ?_
    rw [hs, Except.ok.injEq, eq_comm]
  · next hc =>
    refine (exact_fail _).congr fun s a => ⟨False.elim, fun ⟨h, _⟩ => ?_⟩
    cases hc.symm.trans h

theorem scalarMismatch_exact {α : Type} (props : Properties) (style : ScalarStyle)
    (text expected : String) (limit : Nat) :
    Exact limit (scalarMismatch props style text expected : Yaml.Read α) fun _ _ => False := by
  unfold scalarMismatch
  split <;> exact exact_fail _

/-- A mapping is a record. -/
def IsRecord (k : Kind) (anchored : List (Nat × Node)) (n : Node) (s : Submission k) (a : Nat) :
    Prop :=
  ∃ props entries parts, n = .mapping props entries ∧ HasParts k anchored entries parts a ∧
    s.MadeOf parts

theorem record_exact (hscope : Yaml.Read.Anchoring scope.anchored) (path : Path) (n : Node) :
    Exact scope.limit (record scope k path n) (IsRecord k scope.anchored n) := by
  have hfail : ∀ {r : Yaml.Read (Submission k)}, Exact scope.limit r (fun _ _ => False) →
      (∀ props entries, n ≠ .mapping props entries) →
        Exact scope.limit r (IsRecord k scope.anchored n) :=
    fun h hn => h.congr fun s a =>
      ⟨False.elim, fun ⟨props, entries, _, heq, _⟩ => hn props entries heq⟩
  match n with
  | .mapping props entries =>
    refine Exact.within (((draft_exact hscope path {} entries).bind fun d =>
      finish_exact d _).congr fun s a => ⟨?_, ?_⟩) _ _
    · rintro ⟨_, m, _, ⟨parts, hparts, hdistinct, -, rfl⟩, ⟨hs, rfl⟩, rfl⟩
      exact ⟨props, entries, parts, rfl, hparts, (finish_eq_ok_iff hdistinct).mp hs⟩
    · rintro ⟨_, _, parts, heq, hparts, hs⟩
      cases heq
      exact ⟨_, a, 0, ⟨parts, hparts, hs.distinct, fun p _ => Draft.part?_empty _, rfl⟩,
        ⟨(finish_eq_ok_iff hs.distinct).mpr hs, rfl⟩, rfl⟩
  | .sequence props _ => exact hfail ((exact_fail _).within _ _) fun _ _ h => by cases h
  | .scalar props style text =>
    refine hfail (Exact.within ?_ _ _) fun _ _ h => by cases h
    split
    · -- A record without fields lacks a name.
      refine (finish_exact {} _).congr fun s a => ⟨fun ⟨h, _⟩ => ?_, False.elim⟩
      cases h
    · exact scalarMismatch_exact props style text _ _
  | .alias _ _ => exact hfail (exact_fail _) fun _ _ h => by cases h
  | .fault => exact hfail (exact_fail _) fun _ _ h => by cases h

end Read

/-! ## Documents -/

/-- A document is read exactly if it is well-formed to its end and its root is read within the
limit. -/
theorem read_eq_ok_iff {α : Type} {d : Document} {reader : Scope → Path → Node → Yaml.Read α}
    {P : α → Nat → Prop} (h : Exact d.scope.limit (reader d.scope .root d.root) P) {x : α} :
    d.read reader = .ok x ↔ d.faulty = false ∧ ∃ n, P x n ∧ n ≤ d.size * 100 := by
  have hroot := h 0 (Nat.zero_le _) x
  have hread : d.read reader = .ok x ↔
      d.faulty = false ∧ ∃ after, reader d.scope .root d.root 0 = .ok (x, after) := by
    unfold Document.read StateT.run
    cases reader d.scope .root d.root 0 with
    | error e => exact ⟨fun h => (by cases h), fun ⟨_, _, h⟩ => (by cases h)⟩
    | ok r =>
      obtain ⟨y, after⟩ := r
      cases d.faulty with
      | true => exact ⟨fun h => (by cases h), fun ⟨h, _⟩ => (by cases h)⟩
      | false =>
        exact ⟨fun h => (by cases h; exact ⟨rfl, _, rfl⟩), fun ⟨_, _, h⟩ => (by cases h; rfl)⟩
  rw [hread]
  refine and_congr_right' ⟨?_, ?_⟩
  · rintro ⟨after, hafter⟩
    obtain ⟨n, hn, rfl, hle⟩ := (hroot after).mp hafter
    rw [Nat.zero_add] at hle
    exact ⟨n, hn, hle⟩
  · rintro ⟨n, hn, hle⟩
    exact ⟨0 + n, (hroot _).mpr ⟨n, hn, rfl, (Nat.zero_add n).symm ▸ hle⟩⟩

theorem not_isRecord_fault {s : Submission k} {a : Nat} :
    ¬ Read.IsRecord k anchored .fault s a := by
  rintro ⟨_, _, _, h, _⟩
  cases h

theorem ofDocument_eq_ok_iff {d : Document} {o : Option (Submission k)} :
    Submission.ofDocument k d = .ok o ↔ d.faulty = false ∧ ∃ n,
      (∃ m b c, Resolves d.anchored d.root m b ∧
        Read.Optionally (Read.IsRecord k d.anchored) m o c ∧ n = b + c) ∧ n ≤ d.size * 100 := by
  have hexact := Read.optional_exact d.anchoring
    (fun path n _ => Read.record_exact (k := k) d.anchoring path n)
    (fun _ _ => not_isRecord_fault) .root d.root
  exact @read_eq_ok_iff _ d (fun scope => Read.optional scope (Read.record scope k)) _ hexact o

/-- A document is read as a record exactly if it is that record. -/
theorem ofDocument_eq_some_iff {d : Document} {s : Submission k} :
    Submission.ofDocument k d = .ok (some s) ↔ HasRecord d s := by
  rw [ofDocument_eq_ok_iff]
  refine and_congr_right' ⟨?_, ?_⟩
  · rintro ⟨_, ⟨m, b, c, hm, ⟨h, _⟩ | ⟨s, h, _, _, hs⟩, rfl⟩, hle⟩
    · cases h
    · cases h
      obtain ⟨props, entries, parts, rfl, hparts, hmade⟩ := hs
      exact ⟨props, entries, parts, b, c, hm, hparts, hmade, hle⟩
  · rintro ⟨props, entries, parts, b, c, hm, hparts, hmade, hle⟩
    refine ⟨b + c, ⟨_, b, c, hm, .inr ⟨s, rfl, ?_, ?_, props, entries, parts, rfl, hparts, hmade⟩,
      rfl⟩, hle⟩
    · rintro ⟨⟩
    · rintro ⟨⟩

theorem ofDocument_eq_none_iff {d : Document} :
    Submission.ofDocument k d = .ok none ↔ IsVoid d := by
  rw [ofDocument_eq_ok_iff]
  refine and_congr_right' ⟨?_, ?_⟩
  · rintro ⟨_, ⟨m, b, c, hm, ⟨_, hnothing, rfl⟩ | ⟨s, h, _⟩, rfl⟩, hle⟩
    · exact ⟨m, _, hm, hnothing, hle⟩
    · cases h
  · rintro ⟨m, b, hm, hnothing, hle⟩
    exact ⟨b, ⟨m, b, 0, hm, .inl ⟨rfl, hnothing, rfl⟩, rfl⟩, hle⟩

/-! ## What a batch yields -/

/-- What a document yields, `index` items having been yielded before it. -/
def yielded (k : Kind) (index : Nat) (d : Document) : List (Except RequestError (Submission k)) :=
  match Submission.ofDocument k d with
  | .ok (some s) => [.ok s]
  | .ok none => []
  | .error e => [.error (.decode k index e.message)]

/-- What some documents yield if reading goes on after one that cannot be read. A fault of the text
comes as the last document and is yielded once; whoever would ask the stream itself for more after
it would be given the same fault again and again. -/
def itemsOf (k : Kind) : (index : Nat) → List Document → List (Except RequestError (Submission k))
  | _, [] => []
  | index, d :: rest =>
    yielded k index d ++ itemsOf k (index + (yielded k index d).length) rest

/-- Everything up to the first failure and that failure. -/
def untilFailure {ε α : Type} : List (Except ε α) → List (Except ε α)
  | [] => []
  | .ok a :: rest => .ok a :: untilFailure rest
  | .error e :: _ => [.error e]

theorem itemsOf_append (index : Nat) (before after : List Document) :
    itemsOf k index (before ++ after) =
      itemsOf k index before ++ itemsOf k (index + (itemsOf k index before).length) after := by
  induction before generalizing index with
  | nil => rfl
  | cons d rest ih =>
    simp only [List.cons_append, itemsOf, ih, List.append_assoc, List.length_append, Nat.add_assoc]

theorem recordsOf_eq (index : Nat) (documents : List Document) :
    recordsOf k index documents = untilFailure (itemsOf k index documents) := by
  induction documents generalizing index with
  | nil => rfl
  | cons d rest ih =>
    cases hd : Submission.ofDocument k d with
    | error e =>
      have hown : yielded k index d = [.error (.decode k index e.message)] := by
        simp only [yielded, hd]
      rw [recordsOf, itemsOf, hown, hd]
      rfl
    | ok o =>
      cases o with
      | none =>
        have hown : yielded k index d = [] := by simp only [yielded, hd]
        rw [recordsOf, itemsOf, hown, hd]
        exact ih index
      | some s =>
        have hown : yielded k index d = [.ok s] := by simp only [yielded, hd]
        rw [recordsOf, itemsOf, hown, hd]
        exact congrArg (.ok s :: ·) (ih (index + 1))

theorem recordsOf_ends (index : Nat) (documents : List Document) :
    ∃ records : List (Submission k), recordsOf k index documents = records.map .ok ∨
      ∃ message, recordsOf k index documents =
        records.map .ok ++ [.error (.decode k (index + records.length) message)] := by
  induction documents generalizing index with
  | nil => exact ⟨[], .inl rfl⟩
  | cons d rest ih =>
    rw [recordsOf]
    cases Submission.ofDocument k d with
    | error e => exact ⟨[], .inr ⟨e.message, rfl⟩⟩
    | ok o =>
      cases o with
      | none => exact ih index
      | some s =>
        obtain ⟨records, h | ⟨message, h⟩⟩ := ih (index + 1)
        · exact ⟨s :: records, .inl (congrArg (.ok s :: ·) h)⟩
        · refine ⟨s :: records, .inr ⟨message, ?_⟩⟩
          rw [List.length_cons, Nat.add_comm records.length, ← Nat.add_assoc]
          exact congrArg (.ok s :: ·) h

/-- What a batch yields. A document yields a record exactly if it is that record, and nothing
exactly if it is void; any other document yields an error of its kind whose index is the number of
items before it. A batch is read up to its first error, whose index is the number of records before
it. -/
theorem yielded_meaning (k : Kind) (body : String) :
    (∀ before d after, itemsOf k 0 (before ++ d :: after) =
      itemsOf k 0 before ++ yielded k (itemsOf k 0 before).length d ++
        itemsOf k (itemsOf k 0 (before ++ [d])).length after) ∧
    (∀ index d s, yielded k index d = [.ok s] ↔ HasRecord d s) ∧
    (∀ index d, yielded k index d = [] ↔ IsVoid d) ∧
    (∀ index d, (∃ message, yielded k index d = [.error (.decode k index message)]) ↔
      ¬ IsVoid d ∧ ∀ s : Submission k, ¬ HasRecord d s) ∧
    decodeBatch k body = untilFailure (itemsOf k 0 (Document.ofText body)) ∧
    ∃ records : List (Submission k), decodeBatch k body = records.map .ok ∨
      ∃ message, decodeBatch k body =
        records.map .ok ++ [.error (.decode k records.length message)] := by
  refine ⟨fun before d after => ?_, fun index d s => ?_, fun index d => ?_, fun index d => ?_,
    recordsOf_eq 0 _, ?_⟩
  · simp only [itemsOf_append, itemsOf, List.append_nil, List.length_append, List.append_assoc,
      Nat.zero_add]
  · rw [← ofDocument_eq_some_iff, yielded]
    cases Submission.ofDocument k d with
    | error e => simp
    | ok o => cases o <;> simp
  · rw [← ofDocument_eq_none_iff (k := k), yielded]
    cases Submission.ofDocument k d with
    | error e => simp
    | ok o => cases o <;> simp
  · simp only [← ofDocument_eq_some_iff, ← ofDocument_eq_none_iff (k := k), yielded]
    cases Submission.ofDocument k d with
    | error e => simp
    | ok o => cases o <;> simp
  · simpa [decodeBatch] using recordsOf_ends (k := k) 0 (Document.ofText body)

/-! ## A record, a void document and one that misses a field -/

def threeBody : String :=
  "name: &n a\nvalue: *n\n--- ~\n---\nname: b"

/-- The record takes its content from its name. -/
def selfNamed : Submission .credential :=
  ⟨"a", "", .credential (.string "a")⟩

/-- The properties of a node without tag. -/
def untaggedAt (index line column : Nat) (anchor : Option Nat) : Properties :=
  ⟨⟨index, line, column⟩, anchor, none⟩

def selfNamedDocument : Document where
  root := .mapping (untaggedAt 0 0 0 none)
    [(.scalar (untaggedAt 0 0 0 none) .plain "name",
        .scalar (untaggedAt 6 0 6 (some 0)) .plain "a"),
      (.scalar (untaggedAt 11 1 0 none) .plain "value", .alias ⟨18, 1, 7⟩ 0)]
  size := 6
  faulty := false

def nullDocument : Document where
  root := .scalar (untaggedAt 25 2 4 none) .plain "~"
  size := 1
  faulty := false

def namedOnlyDocument : Document where
  root := .mapping (untaggedAt 31 4 0 none)
    [(.scalar (untaggedAt 31 4 0 none) .plain "name", .scalar (untaggedAt 37 4 6 none) .plain "b")]
  size := 4
  faulty := false

set_option maxRecDepth 100000 in
theorem ofText_threeBody :
    Document.ofText threeBody = [selfNamedDocument, nullDocument, namedOnlyDocument] := by
  cbv

/-- The void document does not shift the index of the error. -/
theorem yielded_meaning_three :
    HasRecord selfNamedDocument selfNamed ∧ IsVoid nullDocument ∧
    (∀ s : Submission .credential, ¬ HasRecord namedOnlyDocument s) ∧
    decodeBatch .credential threeBody = [.ok selfNamed, .error (.decode .credential 1
      "missing field \x60value\x60 at line 5 column 1")] := by
  obtain ⟨-, hrecord, hvoid, herror, hbatch, -⟩ := yielded_meaning .credential threeBody
  refine ⟨(hrecord 0 _ _).mp rfl, (hvoid 1 _).mp rfl, ((herror 1 _).mp ⟨_, rfl⟩).2, ?_⟩
  rw [hbatch, ofText_threeBody]
  rfl

/-! ## A null under a tag -/

/-- The only document of a text, if it is a scalar. -/
def soleScalar? : List Document → Option (Properties × ScalarStyle × String × Nat)
  | [⟨.scalar props style text, size, false⟩] => some (props, style, text, size)
  | _ => none

theorem eq_of_soleScalar? {documents : List Document} {props : Properties} {style : ScalarStyle}
    {text : String} {size : Nat} (h : soleScalar? documents = some (props, style, text, size)) :
    documents = [⟨.scalar props style text, size, false⟩] := by
  unfold soleScalar? at h
  split at h
  · cases h; rfl
  · cases h

/-- The properties of a node with the tag `!t` at the start of a text. -/
def taggedProps : Properties :=
  ⟨⟨0, 0, 0⟩, none, some ⟨[0x21, 0x74]⟩⟩

theorem ofText_taggedNull :
    Document.ofText "!t ~" = [⟨.scalar taggedProps .plain "~", 1, false⟩] := by
  refine eq_of_soleScalar? ?_
  decide +kernel

/-- A root that is null but has an application's tag stands for a value, and that is no record. -/
theorem decodeBatch_taggedNull :
    (∃ d props, Document.ofText "!t ~" = [d] ∧ d.faulty = false ∧
      d.root = .scalar props .plain "~" ∧ Scalar.isNull "~" = true) ∧
    decodeBatch .credential "!t ~" = [.error (.decode .credential 0
      "invalid type: unit value, expected struct CredentialSubmission")] := by
  refine ⟨⟨_, taggedProps, ofText_taggedNull, rfl, rfl, rfl⟩, ?_⟩
  rw [decodeBatch, ofText_taggedNull]
  rfl

end TenantRegistry
