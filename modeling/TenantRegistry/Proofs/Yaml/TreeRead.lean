import TenantRegistry.Proofs.Json.ReadBack
import TenantRegistry.Record.Reader

/-!
The trees that documents are read into.

Whatever a document says, the tree read from it has integers of 64 bits, mappings without repeated
keys, and collections nested no deeper than the reader allows: `tree_yields`. `Yields` says of a
reader what holds of all that it can return.
-/

namespace TenantRegistry.Yaml

/-! ## Readers -/

namespace Read

variable {α β : Type}

/-- All that a reader returns has the property. -/
def Yields (r : Read α) (P : α → Prop) : Prop :=
  ∀ count a after, r count = .ok (a, after) → P a

variable {P : α → Prop} {Q : β → Prop}

theorem yields_pure {a : α} (h : P a) : Yields (pure a : Read α) P := by
  intro count b after heq
  cases heq
  exact h

theorem yields_fail (c : Complaint) : Yields (fail c : Read α) P := by
  intro count b after heq
  cases heq

theorem Yields.bind {r : Read α} {f : α → Read β} (h : Yields r P)
    (hf : ∀ a, P a → Yields (f a) Q) : Yields (r >>= f) Q := by
  intro count b after heq
  cases hr : r count with
  | error e =>
    have herror : (r >>= f) count = .error e := by
      show (r count >>= fun x => f x.1 x.2) = .error e
      rw [hr]
      rfl
    rw [herror] at heq
    cases heq
  | ok x =>
    obtain ⟨a, middle⟩ := x
    have hok : (r >>= f) count = f a middle := by
      show (r count >>= fun x => f x.1 x.2) = f a middle
      rw [hr]
      rfl
    rw [hok] at heq
    exact hf a (h count a middle hr) middle b after heq

theorem yields_fail_bind (c : Complaint) (f : α → Read β) : Yields (fail c >>= f) Q := by
  intro count b after heq
  cases heq

theorem Yields.within {r : Read α} (h : Yields r P) (path : Path) (mark : Mark) :
    Yields (within path mark r) P := by
  intro count a after heq
  cases hr : r count with
  | error e => rw [Read.within, hr] at heq; cases heq
  | ok x =>
    rw [Read.within, hr] at heq
    cases heq
    exact h count a after hr

theorem yields_true (r : Read α) : Yields r fun _ => True :=
  fun _ _ _ _ => trivial

end Read

/-! ## Scalars -/

namespace Scalar

/-- An integer of a scalar has 64 bits. -/
def IsWord : Scalar → Prop
  | .number (.integer n) => Number.IsWord n
  | _ => True

theorem negative?_le {cs : List Char} {n : Int} (h : negative? cs = some n) : n ≤ 0 := by
  have hneg : ∀ m : Nat, -(m : Int) ≤ 0 := fun m => by omega
  unfold negative? at h
  split at h
  · split at h
    · next m _ => exact Option.some.inj h ▸ hneg m
    · split at h
      · cases h
      · obtain ⟨_, hdigits, hn⟩ := Option.map_eq_some_iff.mp h
        obtain ⟨m, _, hm⟩ := Option.bind_eq_some_iff.mp hdigits
        cases hm
        exact hn ▸ hneg m
  · cases h

theorem isWord_of_integer? {cs : List Char} {s : Scalar} (h : integer? cs = some s) :
    s.IsWord := by
  have h64 : Int.pow 2 64 = 2 ^ 64 := rfl
  have h63 : Int.pow 2 63 = 2 ^ 63 := rfl
  unfold integer? at h
  split at h
  · next n _ =>
    split at h
    · next hlt =>
      cases h
      have hless : n < 2 ^ 64 := hlt
      show Number.IsWord n
      constructor <;> omega
    · split at h
      · cases h; trivial
      · cases h
  · next n _ hnegative =>
    split at h
    · next hle =>
      cases h
      have hbound : -2 ^ 63 ≤ n := hle
      have hneg := negative?_le hnegative
      show Number.IsWord n
      constructor <;> omega
    · split at h
      · cases h; trivial
      · cases h
  · cases h

theorem isWord_ofPlain (s : String) : (ofPlain s).IsWord := by
  unfold ofPlain
  split
  · trivial
  · split
    · trivial
    · split
      · next n hn => exact isWord_of_integer? hn
      · split
        · trivial
        · split <;> trivial

theorem isWord_of_ofNode {tagged : Bool} {tag : Option Tag} {style : ScalarStyle} {text : String}
    {s : Scalar} (h : ofNode tagged tag style text = .ok s) : s.IsWord := by
  have huntagged : (if style = .plain then ofPlain text else .text text).IsWord := by
    split
    · exact isWord_ofPlain text
    · trivial
  simp only [ofNode] at h
  generalize (if style = .plain then ofPlain text else .text text) = untagged at h huntagged
  split at h
  · cases h; exact huntagged
  · split at h
    · cases h; exact huntagged
    · split at h
      · split at h
        · cases h; trivial
        · cases h
      · split at h
        · split at h
          · next n hn => cases h; exact isWord_of_integer? hn
          · cases h
        · split at h
          · split at h
            · cases h; trivial
            · cases h
          · split at h
            · split at h
              · cases h; trivial
              · cases h
            · split at h
              · cases h; exact huntagged
              · cases h; trivial

end Scalar

/-! ## Trees -/

namespace Tree

mutual

/-- What holds of any tree that is read where collections may be nested `depth` deep: integers have
64 bits and no mapping repeats a key. -/
def AsRead : (depth : Nat) → Tree → Prop
  | _, .null => True
  | _, .bool _ => True
  | _, .number (.integer n) => Number.IsWord n
  | _, .number (.float _) => True
  | _, .string _ => True
  | 0, .sequence _ => False
  | depth + 1, .sequence items => ItemsAsRead depth items
  | 0, .mapping _ => False
  | depth + 1, .mapping entries =>
    (entries.Pairwise fun a b => a.1.same b.1 = false) ∧ EntriesAsRead depth entries
  | depth, .tagged _ t => AsRead depth t

def ItemsAsRead (depth : Nat) : List Tree → Prop
  | [] => True
  | t :: rest => AsRead depth t ∧ ItemsAsRead depth rest

def EntriesAsRead (depth : Nat) : List (Tree × Tree) → Prop
  | [] => True
  | (k, v) :: rest => AsRead depth k ∧ AsRead depth v ∧ EntriesAsRead depth rest

end

theorem entriesAsRead_append {depth : Nat} {entries others : List (Tree × Tree)} :
    EntriesAsRead depth (entries ++ others) ↔
      EntriesAsRead depth entries ∧ EntriesAsRead depth others := by
  induction entries with
  | nil => simp [EntriesAsRead]
  | cons e rest ih =>
    obtain ⟨k, v⟩ := e
    simp only [List.cons_append, EntriesAsRead, ih, and_assoc]

end Tree

namespace Read

open Yaml.Tree (AsRead ItemsAsRead EntriesAsRead)

variable {depth : Nat}

theorem asRead_tag (name : Option String) {t : Tree} (h : AsRead depth t) :
    AsRead depth (tag name t) := by
  cases name with
  | none => exact h
  | some name => rw [tag, AsRead]; exact h

theorem asRead_scalarTree {s : Scalar} {t : Tree} (hs : s.IsWord) (h : scalarTree s = .ok t) :
    AsRead depth t := by
  cases s with
  | null => cases h; rw [AsRead]; trivial
  | bool b => cases h; rw [AsRead]; trivial
  | number n =>
    cases h
    cases n with
    | integer n => rw [AsRead]; exact hs
    | float x => rw [AsRead]; trivial
  | wide n => cases h
  | text s => cases h; rw [AsRead]; trivial

theorem items_yields {readItem : Path → Node → Read Tree}
    (h : ∀ path n, Yields (readItem path n) (AsRead depth)) (path : Path) (index : Nat)
    (children : List Node) : Yields (items readItem path index children) (ItemsAsRead depth) := by
  induction children generalizing index with
  | nil => exact yields_pure (by rw [ItemsAsRead]; trivial)
  | cons n rest ih =>
    refine (h _ n).bind fun t ht => (ih (index + 1)).bind fun ts hts => yields_pure ?_
    rw [ItemsAsRead]
    exact ⟨ht, hts⟩

/-- The entries read so far, last one first, are those of a mapping as it is read. -/
def EntriesSoFar (depth : Nat) (before : List (Tree × Tree)) : Prop :=
  (before.reverse.Pairwise fun a b => a.1.same b.1 = false) ∧ EntriesAsRead depth before.reverse

theorem entries_yields {readKey readValue : Path → Node → Read Tree}
    (hkey : ∀ path n, Yields (readKey path n) (AsRead depth))
    (hvalue : ∀ path n, Yields (readValue path n) (AsRead depth)) (path : Path)
    {before : List (Tree × Tree)} (hbefore : EntriesSoFar depth before)
    (children : List (Node × Node)) :
    Yields (entries readKey readValue path before children) fun es =>
      (es.Pairwise fun a b => a.1.same b.1 = false) ∧ EntriesAsRead depth es := by
  induction children generalizing before with
  | nil => exact yields_pure hbefore
  | cons child rest ih =>
    obtain ⟨k, v⟩ := child
    refine (hkey path k).bind fun key hk => ?_
    split
    · exact yields_fail _
    · next hnew =>
      refine (hvalue _ v).bind fun value hv => ih ⟨?_, ?_⟩
      · rw [List.reverse_cons, List.pairwise_append]
        refine ⟨hbefore.1, List.pairwise_singleton _ _, fun a ha b hb => ?_⟩
        rw [List.mem_singleton] at hb
        subst hb
        have hnot := List.find?_eq_none.mp hnew a (List.mem_reverse.mp ha)
        simpa using hnot
      · rw [List.reverse_cons, Tree.entriesAsRead_append]
        refine ⟨hbefore.2, ?_⟩
        simp only [EntriesAsRead]
        exact ⟨hk, hv, trivial⟩

theorem content_yields {readNode : Bool → Path → Node → Read Tree} {deep : Bool}
    (h : deep = false → ∃ d, depth = d + 1 ∧
      ∀ tagged path n, Yields (readNode tagged path n) (AsRead d))
    (tagged : Bool) (path : Path) (n : Node) :
    Yields (content readNode deep tagged path n) (AsRead depth) := by
  match n with
  | .scalar props style text =>
    refine Yields.within ?_ _ _
    dsimp only
    split
    · next s hs =>
      split
      · next t ht =>
        exact yields_pure (asRead_tag _ (asRead_scalarTree (Scalar.isWord_of_ofNode hs) ht))
      · exact yields_fail _
    · exact yields_fail _
  | .sequence props children =>
    refine Yields.within ?_ _ _
    cases hdeep : deep with
    | true => exact yields_fail_bind _ _
    | false =>
      obtain ⟨d, rfl, hread⟩ := h hdeep
      refine (items_yields (fun path n => hread false path n) path 0 children).bind fun ts hts => ?_
      refine yields_pure (asRead_tag _ ?_)
      rw [AsRead]
      exact hts
  | .mapping props children =>
    refine Yields.within ?_ _ _
    cases hdeep : deep with
    | true => exact yields_fail_bind _ _
    | false =>
      obtain ⟨d, rfl, hread⟩ := h hdeep
      have hnone : EntriesSoFar d [] := ⟨.nil, by rw [List.reverse_nil, EntriesAsRead]; trivial⟩
      refine (entries_yields (fun path n => hread _ path n) (fun path n => hread false path n) path
        hnone children).bind fun es hes => ?_
      refine yields_pure (asRead_tag _ ?_)
      rw [AsRead]
      exact hes
  | .alias mark anchor => exact yields_fail _
  | .fault => exact yields_fail _

theorem resolved_yields {readNode : Bool → Path → Node → Read Tree} {deep : Bool} (scope : Scope)
    (h : deep = false → ∃ d, depth = d + 1 ∧
      ∀ tagged path n, Yields (readNode tagged path n) (AsRead d))
    (tagged : Bool) (path : Path) (n : Node) :
    Yields (resolved scope readNode deep tagged path n) (AsRead depth) := by
  match n with
  | .alias mark anchor =>
    refine Yields.within ?_ _ _
    exact (yields_true (follow scope anchor)).bind fun n _ => content_yields h false _ n
  | .scalar props style text => exact content_yields h tagged path (.scalar props style text)
  | .sequence props children => exact content_yields h tagged path (.sequence props children)
  | .mapping props children => exact content_yields h tagged path (.mapping props children)
  | .fault => exact content_yields h tagged path .fault

/-- A tree is read with 64-bit integers, without repeated keys and nested no deeper than allowed. -/
theorem tree_yields (scope : Scope) (depth : Nat) (tagged : Bool) (path : Path) (n : Node) :
    Yields (tree scope depth tagged path n) (AsRead depth) := by
  induction depth generalizing tagged path n with
  | zero => exact resolved_yields scope (fun hfalse => by cases hfalse) tagged path n
  | succ depth ih => exact resolved_yields scope (fun _ => ⟨depth, rfl, ih⟩) tagged path n

end Read
/-- What is read from a document is something that the reader returns. -/
theorem Document.of_read {α : Type} {P : α → Prop} {d : Document}
    {reader : Scope → Path → Node → Read α} (h : ∀ scope path n, (reader scope path n).Yields P)
    {a : α} (hread : d.read reader = .ok a) : P a := by
  unfold Document.read at hread
  cases hr : (reader d.scope .root d.root).run 0 with
  | error e => rw [hr] at hread; cases hread
  | ok x =>
    obtain ⟨b, after⟩ := x
    have hb : P b := h d.scope .root d.root 0 b after hr
    rw [hr] at hread
    cases hfaulty : d.faulty with
    | true => rw [hfaulty] at hread; cases hread
    | false => rw [hfaulty] at hread; cases hread; exact hb

end TenantRegistry.Yaml
