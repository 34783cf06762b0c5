import TenantRegistry.Proofs.Yaml.TreeRead

/-!
What nodes stand for.

`Denotes` says which tree a node stands for, aliases and tags taken into account, without saying
how it is read: no order of steps, no path, no message. `Exact` says of a reader that it returns
just what a relation allows; the reader of trees is exact for `Denotes` (`tree_exact`), so a node
is readable exactly if it stands for something within the limits of nesting and repetition.
-/

namespace TenantRegistry.Yaml

open Yaml.Read (localTag scalarTree)

/-! ## The tree of a node -/

/-- A node and what is found there: itself, or the node that an alias stands for. -/
inductive Resolves (anchored : List (Nat × Node)) : Node → Node → Nat → Prop
  | itself {n : Node} : (∀ mark anchor, n ≠ .alias mark anchor) → Resolves anchored n n 0
  | followed {mark : Mark} {anchor a : Nat} {n : Node} :
      anchored.find? (·.1 == anchor) = some (a, n) → Resolves anchored (.alias mark anchor) n 1

mutual

/-- The tree that a node stands for, where collections may be nested `depth` deep, and how many
aliases are followed on the way. `tagged` says that the tag is already spoken for. -/
inductive Denotes (anchored : List (Nat × Node)) : (depth : Nat) → (tagged : Bool) → Node → Tree →
    Nat → Prop
  | scalar {depth : Nat} {tagged : Bool} {props : Properties} {style : ScalarStyle} {text : String}
      {s : Scalar} {t : Tree} :
      Scalar.ofNode (tagged || (localTag tagged props.tag).isSome) props.tag style text = .ok s →
      scalarTree s = .ok t →
        Denotes anchored depth tagged (.scalar props style text)
          (Read.tag (localTag tagged props.tag) t) 0
  | sequence {depth aliases : Nat} {tagged : Bool} {props : Properties} {children : List Node}
      {ts : List Tree} : DenotesItems anchored depth children ts aliases →
        Denotes anchored (depth + 1) tagged (.sequence props children)
          (Read.tag (localTag tagged props.tag) (.sequence ts)) aliases
  | mapping {depth aliases : Nat} {tagged : Bool} {props : Properties}
      {children : List (Node × Node)} {es : List (Tree × Tree)} :
      DenotesEntries anchored depth (tagged || (localTag tagged props.tag).isSome) children es
        aliases →
      (es.Pairwise fun a b => a.1.same b.1 = false) →
        Denotes anchored (depth + 1) tagged (.mapping props children)
          (Read.tag (localTag tagged props.tag) (.mapping es)) aliases
  | followed {depth aliases anchor a : Nat} {tagged : Bool} {mark : Mark} {n : Node} {t : Tree} :
      anchored.find? (·.1 == anchor) = some (a, n) → Denotes anchored depth false n t aliases →
        Denotes anchored depth tagged (.alias mark anchor) t (1 + aliases)

inductive DenotesItems (anchored : List (Nat × Node)) : (depth : Nat) → List Node → List Tree →
    Nat → Prop
  | nil {depth : Nat} : DenotesItems anchored depth [] [] 0
  | cons {depth a b : Nat} {n : Node} {t : Tree} {children : List Node} {ts : List Tree} :
      Denotes anchored depth false n t a → DenotesItems anchored depth children ts b →
        DenotesItems anchored depth (n :: children) (t :: ts) (a + b)

/-- The keys of a tagged mapping do not take tags of their own. -/
inductive DenotesEntries (anchored : List (Nat × Node)) : (depth : Nat) → (tagged : Bool) →
    List (Node × Node) → List (Tree × Tree) → Nat → Prop
  | nil {depth : Nat} {tagged : Bool} : DenotesEntries anchored depth tagged [] [] 0
  | cons {depth a b c : Nat} {tagged : Bool} {k v : Node} {key value : Tree}
      {children : List (Node × Node)} {es : List (Tree × Tree)} :
      Denotes anchored depth tagged k key a → Denotes anchored depth false v value b →
      DenotesEntries anchored depth tagged children es c →
        DenotesEntries anchored depth tagged ((k, v) :: children) ((key, value) :: es) (a + b + c)

end

/-! ## Exact readers -/

namespace Read

variable {α β : Type} {limit : Nat}

/-- As long as no more than `limit` aliases have been followed, a reader returns exactly what the
relation allows, together with the number of aliases followed for it. -/
def Exact (limit : Nat) (r : Read α) (P : α → Nat → Prop) : Prop :=
  ∀ count, count ≤ limit → ∀ a after,
    r count = .ok (a, after) ↔ ∃ n, P a n ∧ after = count + n ∧ after ≤ limit

variable {P Q : α → Nat → Prop}

theorem Exact.congr {r : Read α} (h : Exact limit r P) (hiff : ∀ a n, P a n ↔ Q a n) :
    Exact limit r Q := by
  intro count hcount a after
  rw [h count hcount a after]
  exact exists_congr fun n => and_congr_left' (hiff a n)

theorem exact_pure (a : α) : Exact limit (pure a) fun b n => b = a ∧ n = 0 := by
  intro count hcount b after
  constructor
  · intro h
    cases h
    exact ⟨0, ⟨rfl, rfl⟩, rfl, hcount⟩
  · rintro ⟨_, ⟨rfl, rfl⟩, rfl, -⟩
    rfl

theorem exact_fail (c : Complaint) : Exact limit (fail c : Read α) fun _ _ => False := by
  intro count _ a after
  exact ⟨fun h => (by cases h), fun ⟨_, h, _⟩ => h.elim⟩

theorem bind_eq_ok_iff {r : Read α} {f : α → Read β} {count after : Nat} {b : β} :
    (r >>= f) count = .ok (b, after) ↔
      ∃ a middle, r count = .ok (a, middle) ∧ f a middle = .ok (b, after) := by
  have hbind : (r >>= f) count = r count >>= fun x => f x.1 x.2 := rfl
  rw [hbind]
  cases hr : r count with
  | error e => exact ⟨fun h => (by cases h), fun ⟨_, _, h, _⟩ => (by cases h)⟩
  | ok x =>
    obtain ⟨a, middle⟩ := x
    exact ⟨fun h => ⟨a, middle, rfl, h⟩, fun ⟨_, _, h, hf⟩ => by cases h; exact hf⟩

/-- What comes after a reader has to be exact only for what that reader can return. -/
theorem Exact.bind_of {r : Read α} {f : α → Read β} {Q : α → β → Nat → Prop} (h : Exact limit r P)
    (hf : ∀ a m, P a m → Exact limit (f a) (Q a)) :
    Exact limit (r >>= f) fun b n => ∃ a m m', P a m ∧ Q a b m' ∧ n = m + m' := by
  intro count hcount b after
  rw [bind_eq_ok_iff]
  constructor
  · rintro ⟨a, middle, hr, hfa⟩
    obtain ⟨m, hm, rfl, hmiddle⟩ := (h count hcount a middle).mp hr
    obtain ⟨m', hm', rfl, hafter⟩ := (hf a m hm _ hmiddle b after).mp hfa
    exact ⟨m + m', ⟨a, m, m', hm, hm', rfl⟩, by omega, hafter⟩
  · rintro ⟨_, ⟨a, m, m', hm, hm', rfl⟩, rfl, hafter⟩
    have hmiddle : count + m ≤ limit := by omega
    exact ⟨a, count + m, (h count hcount a _).mpr ⟨m, hm, rfl, hmiddle⟩,
      (hf a m hm _ hmiddle b _).mpr ⟨m', hm', by omega, hafter⟩⟩

theorem Exact.bind {r : Read α} {f : α → Read β} {Q : α → β → Nat → Prop} (h : Exact limit r P)
    (hf : ∀ a, Exact limit (f a) (Q a)) :
    Exact limit (r >>= f) fun b n => ∃ a m m', P a m ∧ Q a b m' ∧ n = m + m' :=
  h.bind_of fun a _ _ => hf a

theorem Exact.within {r : Read α} (h : Exact limit r P) (path : Path) (mark : Mark) :
    Exact limit (within path mark r) P := by
  intro count hcount a after
  rw [← h count hcount a after, Read.within]
  cases r count with
  | error e => exact ⟨fun h => (by cases h), fun h => (by cases h)⟩
  | ok x => exact Iff.rfl

theorem exact_fail_bind (c : Complaint) (f : α → Read β) :
    Exact limit (fail c >>= f) fun _ _ => False := by
  intro count _ a after
  exact ⟨fun h => (by cases h), fun ⟨_, h, _⟩ => h.elim⟩

theorem follow_exact (scope : Scope) (anchor : Nat) :
    Exact scope.limit (follow scope anchor) fun n m =>
      m = 1 ∧ ∃ a, scope.anchored.find? (·.1 == anchor) = some (a, n) := by
  intro count hcount n after
  have hstep : ∀ found : Read Node, follow scope anchor count =
      (if scope.limit < count + 1 then fail .tooManyAliases >>= fun (_ : PUnit) => found else found)
        (count + 1) → (follow scope anchor count = .ok (n, after) ↔
          count + 1 ≤ scope.limit ∧ found (count + 1) = .ok (n, after)) := by
    intro found hfollow
    rw [hfollow]
    split
    · exact ⟨fun h => (by cases h), fun ⟨hle, _⟩ => by omega⟩
    · exact ⟨fun h => ⟨by omega, h⟩, fun h => h.2⟩
  cases hfind : scope.anchored.find? (·.1 == anchor) with
  | some x =>
    obtain ⟨a, n'⟩ := x
    rw [hstep (pure n') (by simp only [follow, hfind]; rfl)]
    constructor
    · rintro ⟨hle, h⟩
      cases h
      exact ⟨1, ⟨rfl, a, rfl⟩, rfl, hle⟩
    · rintro ⟨_, ⟨rfl, _, h⟩, rfl, hle⟩
      cases h
      exact ⟨hle, rfl⟩
  | none =>
    rw [hstep (fail .malformed) (by simp only [follow, hfind]; rfl)]
    exact ⟨fun ⟨_, h⟩ => (by cases h), fun ⟨_, ⟨_, _, h⟩, _⟩ => by cases h⟩

/-! ## The reader of trees -/

variable {anchored : List (Nat × Node)} {depth : Nat}

theorem items_exact {readItem : Path → Node → Read Tree}
    (h : ∀ path n, Exact limit (readItem path n) fun t a => Denotes anchored depth false n t a)
    (path : Path) (index : Nat) (children : List Node) :
    Exact limit (items readItem path index children) fun ts a =>
      DenotesItems anchored depth children ts a := by
  induction children generalizing index with
  | nil =>
    refine (exact_pure []).congr fun ts a => ⟨?_, ?_⟩
    · rintro ⟨rfl, rfl⟩; exact .nil
    · rintro ⟨⟩; exact ⟨rfl, rfl⟩
  | cons n rest ih =>
    refine ((h _ n).bind fun t => (ih (index + 1)).bind fun ts => exact_pure (t :: ts)).congr
      fun ts a => ⟨?_, ?_⟩
    · rintro ⟨t, m, m', ht, ⟨ts, b, b', hts, ⟨rfl, rfl⟩, rfl⟩, rfl⟩
      exact .cons ht hts
    · intro h
      cases h with
      | cons ht hts => exact ⟨_, _, _, ht, ⟨_, _, 0, hts, ⟨rfl, rfl⟩, rfl⟩, rfl⟩

/-- Later entries do not have the keys of `before`. -/
def Apart (before es : List (Tree × Tree)) : Prop :=
  ∀ b ∈ before, ∀ e ∈ es, b.1.same e.1 = false

/-- What is read after a key: nothing if the key has come before, and else its value and the entries
after it. -/
def ReadsAfter (anchored : List (Nat × Node)) (depth : Nat) (tagged : Bool)
    (before : List (Tree × Tree)) (v : Node) (rest : List (Node × Node)) (key : Tree)
    (all : List (Tree × Tree)) (n : Nat) : Prop :=
  (∀ b ∈ before, b.1.same key = false) ∧ ∃ value b c es,
    Denotes anchored depth false v value b ∧ DenotesEntries anchored depth tagged rest es c ∧
      all = before.reverse ++ (key, value) :: es ∧ (es.Pairwise fun a b => a.1.same b.1 = false) ∧
        Apart ((key, value) :: before) es ∧ n = b + c

theorem entries_exact {readKey readValue : Path → Node → Read Tree} {tagged : Bool}
    (hkey : ∀ path n, Exact limit (readKey path n) fun t a => Denotes anchored depth tagged n t a)
    (hvalue : ∀ path n,
      Exact limit (readValue path n) fun t a => Denotes anchored depth false n t a)
    (path : Path) (before : List (Tree × Tree)) (children : List (Node × Node)) :
    Exact limit (entries readKey readValue path before children) fun all a =>
      ∃ es, all = before.reverse ++ es ∧ DenotesEntries anchored depth tagged children es a ∧
        (es.Pairwise fun a b => a.1.same b.1 = false) ∧ Apart before es := by
  induction children generalizing before with
  | nil =>
    refine (exact_pure before.reverse).congr fun all a => ⟨?_, ?_⟩
    · rintro ⟨rfl, rfl⟩
      exact ⟨[], by simp, .nil, .nil, fun _ _ _ h => (by cases h)⟩
    · rintro ⟨_, rfl, ⟨⟩, -, -⟩
      exact ⟨by simp, rfl⟩
  | cons child rest ih =>
    obtain ⟨k, v⟩ := child
    refine ((hkey path k).bind (Q := ReadsAfter anchored depth tagged before v rest)
      fun key => ?_).congr fun all n => ⟨?_, ?_⟩
    · split
      · next same _ hfind =>
        refine (exact_fail _).congr fun all n => ⟨False.elim, fun ⟨hnew, _⟩ => ?_⟩
        have hsame := List.find?_some hfind
        rw [hnew _ (List.mem_of_find?_eq_some hfind)] at hsame
        cases hsame
      · next hfind =>
        refine ((hvalue _ v).bind fun value => ih ((key, value) :: before)).congr
          fun all n => ⟨?_, ?_⟩
        · rintro ⟨value, b, c, hv, ⟨es, rfl, hes, hpair, hapart⟩, rfl⟩
          refine ⟨fun e he => ?_, value, b, c, es, hv, hes, by simp, hpair, hapart, rfl⟩
          simpa using List.find?_eq_none.mp hfind e he
        · rintro ⟨_, value, b, c, es, hv, hes, rfl, hpair, hapart, rfl⟩
          exact ⟨value, b, c, hv, ⟨es, by simp, hes, hpair, hapart⟩, rfl⟩
    · rintro ⟨key, a, _, hk, ⟨hnew, value, b, c, es, hv, hes, rfl, hpair, hapart, rfl⟩, rfl⟩
      have hall : Apart before ((key, value) :: es) := fun e he =>
        List.forall_mem_cons.mpr ⟨hnew e he, hapart e (List.mem_cons_of_mem _ he)⟩
      refine ⟨_, rfl, ?_, List.pairwise_cons.mpr ⟨hapart _ List.mem_cons_self, hpair⟩, hall⟩
      rw [← Nat.add_assoc]
      exact .cons hk hv hes
    · rintro ⟨_, rfl, hes, hpair, hapart⟩
      cases hes with
      | @cons _ a b c _ _ _ key value _ es hk hv hes =>
        obtain ⟨hfirst, hpair⟩ := List.pairwise_cons.mp hpair
        refine ⟨key, a, b + c, hk, ⟨fun e he => hapart e he _ List.mem_cons_self, value, b, c, es,
          hv, hes, rfl, hpair, ?_, rfl⟩, by omega⟩
        exact List.forall_mem_cons.mpr
          ⟨hfirst, fun e he x hx => hapart e he x (List.mem_cons_of_mem _ hx)⟩

theorem content_exact {readNode : Bool → Path → Node → Read Tree} {deep : Bool}
    (hdeep : deep = true → depth = 0)
    (hread : deep = false → ∃ d, depth = d + 1 ∧ ∀ tagged path n,
      Exact limit (readNode tagged path n) fun t a => Denotes anchored d tagged n t a)
    (tagged : Bool) (path : Path) {n : Node} (hn : ∀ mark anchor, n ≠ .alias mark anchor) :
    Exact limit (content readNode deep tagged path n) fun t a =>
      Denotes anchored depth tagged n t a := by
  match n with
  | .scalar props style text =>
    refine Exact.within ?_ _ _
    dsimp only
    split
    · next s hs =>
      split
      · next t ht =>
        refine (exact_pure _).congr fun t' a => ⟨?_, ?_⟩
        · rintro ⟨rfl, rfl⟩; exact .scalar hs ht
        · rintro (⟨hs', ht'⟩)
          cases hs.symm.trans hs'
          cases ht.symm.trans ht'
          exact ⟨rfl, rfl⟩
      · next hc =>
        refine (exact_fail _).congr fun t a => ⟨False.elim, ?_⟩
        rintro (⟨hs', ht'⟩)
        cases hs.symm.trans hs'
        cases hc.symm.trans ht'
    · next hs =>
      refine (exact_fail _).congr fun t a => ⟨False.elim, ?_⟩
      rintro (⟨hs', ht'⟩)
      cases hs.symm.trans hs'
  | .sequence props children =>
    refine Exact.within ?_ _ _
    cases hd : deep with
    | true =>
      obtain rfl := hdeep hd
      refine (exact_fail_bind _ _).congr fun t a => ⟨False.elim, ?_⟩
      rintro ⟨⟩
    | false =>
      obtain ⟨d, rfl, hnode⟩ := hread hd
      refine ((items_exact (fun path n => hnode false path n) path 0 children).bind
        fun ts => exact_pure _).congr fun t a => ⟨?_, ?_⟩
      · rintro ⟨ts, m, _, hts, ⟨rfl, rfl⟩, rfl⟩; exact .sequence hts
      · intro h
        cases h with
        | sequence hts => exact ⟨_, _, 0, hts, ⟨rfl, rfl⟩, rfl⟩
  | .mapping props children =>
    refine Exact.within ?_ _ _
    cases hd : deep with
    | true =>
      obtain rfl := hdeep hd
      refine (exact_fail_bind _ _).congr fun t a => ⟨False.elim, ?_⟩
      rintro ⟨⟩
    | false =>
      obtain ⟨d, rfl, hnode⟩ := hread hd
      refine ((entries_exact (fun path n => hnode _ path n) (fun path n => hnode false path n) path
        [] children).bind fun es => exact_pure _).congr fun t a => ⟨?_, ?_⟩
      · rintro ⟨es, m, _, ⟨_, rfl, hes, hpair, -⟩, ⟨rfl, rfl⟩, rfl⟩
        exact .mapping hes hpair
      · intro h
        cases h with
        | mapping hes hpair =>
          exact ⟨_, _, 0, ⟨_, rfl, hes, hpair, fun _ h => (by cases h)⟩, ⟨rfl, rfl⟩, rfl⟩
  | .alias mark anchor => exact absurd rfl (hn mark anchor)
  | .fault =>
    refine (exact_fail _).congr fun t a => ⟨False.elim, ?_⟩
    rintro ⟨⟩

/-- What is anchored has an anchor of its own, so it is no alias. -/
def Anchoring (anchored : List (Nat × Node)) : Prop :=
  ∀ x ∈ anchored, ∀ mark anchor, x.2 ≠ .alias mark anchor

theorem resolved_exact {readNode : Bool → Path → Node → Read Tree} {deep : Bool} {scope : Scope}
    (hscope : Anchoring scope.anchored) (hdeep : deep = true → depth = 0)
    (hread : deep = false → ∃ d, depth = d + 1 ∧ ∀ tagged path n,
      Exact scope.limit (readNode tagged path n) fun t a => Denotes scope.anchored d tagged n t a)
    (tagged : Bool) (path : Path) (n : Node) :
    Exact scope.limit (resolved scope readNode deep tagged path n) fun t a =>
      Denotes scope.anchored depth tagged n t a := by
  match n with
  | .alias mark anchor =>
    refine Exact.within (((follow_exact scope anchor).bind_of fun n _ hfollow =>
      content_exact hdeep hread false _ ?_).congr fun t a => ⟨?_, ?_⟩) _ _
    · obtain ⟨_, a, hfind⟩ := hfollow
      exact hscope _ (List.mem_of_find?_eq_some hfind)
    · rintro ⟨n, _, m, ⟨rfl, a, hfind⟩, hn, rfl⟩
      exact .followed hfind hn
    · intro h
      cases h with
      | followed hfind hn => exact ⟨_, 1, _, ⟨rfl, _, hfind⟩, hn, rfl⟩
  | .scalar props style text =>
    exact content_exact (n := .scalar props style text) hdeep hread tagged path
      fun _ _ h => by cases h
  | .sequence props children =>
    exact content_exact (n := .sequence props children) hdeep hread tagged path
      fun _ _ h => by cases h
  | .mapping props children =>
    exact content_exact (n := .mapping props children) hdeep hread tagged path
      fun _ _ h => by cases h
  | .fault =>
    exact content_exact (n := .fault) hdeep hread tagged path fun _ _ h => by cases h

/-- The reader of trees returns exactly the tree that a node stands for. -/
theorem tree_exact {scope : Scope} (hscope : Anchoring scope.anchored) (depth : Nat) (tagged : Bool)
    (path : Path) (n : Node) :
    Exact scope.limit (tree scope depth tagged path n) fun t a =>
      Denotes scope.anchored depth tagged n t a := by
  induction depth generalizing tagged path n with
  | zero =>
    exact resolved_exact hscope (fun _ => rfl) (fun hfalse => by cases hfalse) tagged path n
  | succ depth ih =>
    exact resolved_exact hscope (fun htrue => by cases htrue) (fun _ => ⟨depth, rfl, ih⟩) tagged
      path n

end Read

theorem Document.anchoring (d : Document) : Read.Anchoring d.scope.anchored := by
  intro x hx mark anchor heq
  have hmem := List.mem_reverse.mp hx
  obtain ⟨n, -, hn⟩ := List.mem_filterMap.mp hmem
  obtain ⟨a, ha, rfl⟩ := Option.map_eq_some_iff.mp hn
  subst heq
  cases ha

end TenantRegistry.Yaml
