import TenantRegistry.Proofs.Json.Entries
import TenantRegistry.Proofs.Yaml.NormalForm

/-!
What normalization accepts, what it makes of it, and where it stops.

`Inside` says what stands in a tree and under how many collections. A tree has a JSON form exactly
if its keys are texts, its numbers are finite and its collections are nested no deeper than
allowed, wherever they stand. The form is then the tree without its tags (`Image`). Otherwise the
first site in document order that JSON cannot hold is the error: `sites` lists them all. The main
statement is `normalize_meaning`.
-/

namespace TenantRegistry.Yaml.Tree

/-! ## What stands in a tree -/

/-- `Inside d u t`: the tree `u` stands in `t`, with `d` collections around it. A tag is no
collection. -/
inductive Inside : Nat → Tree → Tree → Prop
  | self (t : Tree) : Inside 0 t t
  | item {d : Nat} {u t : Tree} {items : List Tree} :
      t ∈ items → Inside d u t → Inside (d + 1) u (.sequence items)
  | key {d : Nat} {u : Tree} {e : Tree × Tree} {entries : List (Tree × Tree)} :
      e ∈ entries → Inside d u e.1 → Inside (d + 1) u (.mapping entries)
  | value {d : Nat} {u : Tree} {e : Tree × Tree} {entries : List (Tree × Tree)} :
      e ∈ entries → Inside d u e.2 → Inside (d + 1) u (.mapping entries)
  | content {d : Nat} {u t : Tree} {tag : String} : Inside d u t → Inside d u (.tagged tag t)

/-- Every key of every mapping in the tree is a text without a tag. -/
def TextKeys (t : Tree) : Prop :=
  ∀ d entries, Inside d (.mapping entries) t → ∀ e ∈ entries, ∃ key, e.1 = .string key

def FiniteNumbers (t : Tree) : Prop :=
  ∀ d n, Inside d (.number n) t → n.isFinite = true

def IsCollection : Tree → Prop
  | .sequence _ => True
  | .mapping _ => True
  | _ => False

/-- No chain of collections, each in the one before, is longer than `maxDepth`. -/
def NestedWithin (maxDepth : Nat) (t : Tree) : Prop :=
  ∀ d u, Inside d u t → u.IsCollection → d + 1 ≤ maxDepth

/-- No mapping in the tree has a key twice. -/
def KeysDiffer (t : Tree) : Prop :=
  ∀ d entries, Inside d (.mapping entries) t → entries.Pairwise fun a b => a.1.same b.1 = false

/-! ## What a tree becomes -/

mutual

/-- `j` is `t` without its tags. An object has the entries of its mapping, each once, in the order
of their keys. -/
inductive Image : Tree → Json → Prop
  | null : Image .null .null
  | bool (b : Bool) : Image (.bool b) (.bool b)
  | number (n : Number) : Image (.number n) (.number n)
  | string (s : String) : Image (.string s) (.string s)
  | sequence {items : List Tree} {js : List Json} :
      ItemsImage items js → Image (.sequence items) (.array js)
  | mapping {entries : List (Tree × Tree)} {es object : List (String × Json)} :
      EntriesImage entries es → object.Perm es → (object.Pairwise fun a b => a.1 < b.1) →
      Image (.mapping entries) (.object object)
  | tagged {tag : String} {t : Tree} {j : Json} : Image t j → Image (.tagged tag t) j

inductive ItemsImage : List Tree → List Json → Prop
  | nil : ItemsImage [] []
  | cons {t : Tree} {j : Json} {ts : List Tree} {js : List Json} :
      Image t j → ItemsImage ts js → ItemsImage (t :: ts) (j :: js)

inductive EntriesImage : List (Tree × Tree) → List (String × Json) → Prop
  | nil : EntriesImage [] []
  | cons {key : String} {v : Tree} {j : Json} {entries : List (Tree × Tree)}
      {es : List (String × Json)} :
      Image v j → EntriesImage entries es →
      EntriesImage ((.string key, v) :: entries) ((key, j) :: es)

end

/-! ## Where normalization may stop -/

/-- What normalization looks at. -/
inductive Site where
  /-- A sequence or mapping with `depth` collections around it. -/
  | collection (depth : Nat)
  | key (key : Tree)
  | number (n : Number)

/-- Why JSON cannot hold what stands at a site. -/
def Site.problem? (maxDepth : Nat) : Site → Option NormalizeError
  | .collection depth => if depth < maxDepth then none else some (.tooDeep maxDepth)
  | .key (.string _) => none
  | .key k => some (.nonStringKey k.describe)
  | .number n => if n.isFinite then none else some (.nonFiniteNumber (String.ofList (numberText n)))

mutual

/-- The sites of a tree with `depth` collections around it, in document order: a collection comes
before what is in it, and the key of an entry before its value. -/
def sites (depth : Nat) : Tree → List Site
  | .null => []
  | .bool _ => []
  | .number n => [.number n]
  | .string _ => []
  | .sequence items => .collection depth :: itemsSites (depth + 1) items
  | .mapping entries => .collection depth :: entriesSites (depth + 1) entries
  | .tagged _ t => sites depth t

def itemsSites (depth : Nat) : List Tree → List Site
  | [] => []
  | t :: rest => sites depth t ++ itemsSites depth rest

def entriesSites (depth : Nat) : List (Tree × Tree) → List Site
  | [] => []
  | (k, v) :: rest => .key k :: sites depth v ++ entriesSites depth rest

end

theorem Site.problem?_of_lt {maxDepth depth : Nat} (h : depth < maxDepth) :
    (Site.collection depth).problem? maxDepth = none :=
  if_pos h

theorem Site.problem?_of_le {maxDepth depth : Nat} (h : maxDepth ≤ depth) :
    (Site.collection depth).problem? maxDepth = some (.tooDeep maxDepth) :=
  if_neg (not_lt.mpr h)

/-! ## The first problem -/

/-- The failure of a computation, if it fails. -/
def failure? {ε α : Type} : Except ε α → Option ε
  | .ok _ => none
  | .error e => some e

theorem failure?_eq_some {ε α : Type} {r : Except ε α} {e : ε} :
    failure? r = some e ↔ r = .error e := by
  cases r <;> simp [failure?]

theorem failure?_map {ε α β : Type} (r : Except ε α) (f : α → β) :
    failure? (r.map f) = failure? r := by
  cases r <;> rfl

/-- What fails first of two computations, one after the other. -/
theorem failure?_seq {ε α β γ : Type} (r : Except ε α) (s : Except ε β) (f : α → β → γ) :
    failure? (do let a ← r; return f a (← s)) = (failure? r).or (failure? s) := by
  cases r with
  | error e => rfl
  | ok a => cases s <;> rfl

mutual

theorem failure?_normalizeAt (maxDepth : Nat) : ∀ (t : Tree) (depth : Nat),
    failure? (normalizeAt maxDepth depth t) = (sites depth t).findSome? (·.problem? maxDepth)
  | .null, _ => rfl
  | .bool _, _ => rfl
  | .number n, _ => by
    simp only [normalizeAt, sites, List.findSome?_singleton, Site.problem?]
    split <;> rfl
  | .string _, _ => rfl
  | .sequence items, depth => by
    rw [normalizeAt, sites, List.findSome?_cons]
    rcases lt_or_ge depth maxDepth with hdepth | hdepth
    · rw [if_neg (not_le.mpr hdepth), Site.problem?_of_lt hdepth, failure?_map,
        failure?_normalizeItems maxDepth _ (depth + 1)]
    · rw [if_pos hdepth, Site.problem?_of_le hdepth]
      rfl
  | .mapping entries, depth => by
    rw [normalizeAt, sites, List.findSome?_cons]
    rcases lt_or_ge depth maxDepth with hdepth | hdepth
    · rw [if_neg (not_le.mpr hdepth), Site.problem?_of_lt hdepth, failure?_map,
        failure?_normalizeEntries maxDepth _ (depth + 1)]
    · rw [if_pos hdepth, Site.problem?_of_le hdepth]
      rfl
  | .tagged _ t, depth => by
    rw [normalizeAt, sites, failure?_normalizeAt maxDepth t depth]

theorem failure?_normalizeItems (maxDepth : Nat) : ∀ (items : List Tree) (depth : Nat),
    failure? (normalizeItems maxDepth depth items) =
      (itemsSites depth items).findSome? (·.problem? maxDepth)
  | [], _ => rfl
  | t :: rest, depth => by
    rw [normalizeItems, failure?_seq, itemsSites, List.findSome?_append,
      failure?_normalizeAt maxDepth t depth, failure?_normalizeItems maxDepth rest depth]

theorem failure?_normalizeEntries (maxDepth : Nat) : ∀ (entries : List (Tree × Tree)) (depth : Nat),
    failure? (normalizeEntries maxDepth depth entries) =
      (entriesSites depth entries).findSome? (·.problem? maxDepth)
  | [], _ => rfl
  | (k, v) :: rest, depth => by
    rw [entriesSites, List.cons_append, List.findSome?_cons, normalizeEntries.eq_def]
    cases k with
    | string key =>
      show failure? _ = (sites depth v ++ entriesSites depth rest).findSome? _
      rw [failure?_seq, List.findSome?_append, failure?_normalizeAt maxDepth v depth,
        failure?_normalizeEntries maxDepth rest depth]
    | _ => rfl

end

/-! ## Which trees have a form -/

theorem exists_of_normalizeItems {maxDepth depth : Nat} {items : List Tree} {js : List Json}
    (h : normalizeItems maxDepth depth items = .ok js) {t : Tree} (ht : t ∈ items) :
    ∃ j, normalizeAt maxDepth depth t = .ok j := by
  induction items generalizing js with
  | nil => cases ht
  | cons first rest ih =>
    obtain ⟨j, js', hj, hjs, _⟩ := of_normalizeItems_cons h
    rcases List.mem_cons.mp ht with rfl | ht
    · exact ⟨j, hj⟩
    · exact ih hjs ht

theorem exists_of_normalizeEntries {maxDepth depth : Nat} {entries : List (Tree × Tree)}
    {es : List (String × Json)} (h : normalizeEntries maxDepth depth entries = .ok es)
    {e : Tree × Tree} (he : e ∈ entries) :
    (∃ key, e.1 = .string key) ∧ ∃ j, normalizeAt maxDepth depth e.2 = .ok j := by
  induction entries generalizing es with
  | nil => cases he
  | cons first rest ih =>
    obtain ⟨key, j, es', hkey, hj, hes, _⟩ := of_normalizeEntries_cons h
    rcases List.mem_cons.mp he with rfl | he
    · exact ⟨⟨key, hkey⟩, j, hj⟩
    · exact ih hes he

theorem of_normalizeAt_sequence {maxDepth depth : Nat} {items : List Tree} {j : Json}
    (h : normalizeAt maxDepth depth (.sequence items) = .ok j) :
    depth < maxDepth ∧
      ∃ js, normalizeItems maxDepth (depth + 1) items = .ok js ∧ j = .array js := by
  rw [normalizeAt] at h
  split at h
  · cases h
  · next hdepth =>
    obtain ⟨js, hjs, rfl⟩ := exists_of_map_eq_ok h
    exact ⟨not_le.mp hdepth, js, hjs, rfl⟩

theorem of_normalizeAt_mapping {maxDepth depth : Nat} {entries : List (Tree × Tree)} {j : Json}
    (h : normalizeAt maxDepth depth (.mapping entries) = .ok j) :
    depth < maxDepth ∧
      ∃ es, normalizeEntries maxDepth (depth + 1) entries = .ok es ∧ j = .ofEntries es := by
  rw [normalizeAt] at h
  split at h
  · cases h
  · next hdepth =>
    obtain ⟨es, hes, rfl⟩ := exists_of_map_eq_ok h
    exact ⟨not_le.mp hdepth, es, hes, rfl⟩

theorem eq_of_inside_string {d : Nat} {u : Tree} {s : String} (h : Inside d u (.string s)) :
    u = .string s := by
  cases h
  rfl

/-- All that stands in a tree with a form has one in its place. -/
theorem exists_of_inside {maxDepth d : Nat} {u t : Tree} (h : Inside d u t) {depth : Nat} {j : Json}
    (hj : normalizeAt maxDepth depth t = .ok j) :
    ∃ j', normalizeAt maxDepth (depth + d) u = .ok j' := by
  induction h generalizing depth j with
  | self t => exact ⟨j, hj⟩
  | @item d u _ _ hmem _ ih =>
    obtain ⟨_, js, hjs, _⟩ := of_normalizeAt_sequence hj
    obtain ⟨j', hj'⟩ := exists_of_normalizeItems hjs hmem
    show ∃ j', normalizeAt maxDepth (depth + d + 1) u = .ok j'
    rw [Nat.add_right_comm]
    exact ih hj'
  | key hmem hinside _ =>
    -- The key is a text, in which nothing stands but itself.
    obtain ⟨_, es, hes, _⟩ := of_normalizeAt_mapping hj
    obtain ⟨⟨key, hkey⟩, _⟩ := exists_of_normalizeEntries hes hmem
    rw [hkey] at hinside
    rw [eq_of_inside_string hinside]
    exact ⟨.string key, rfl⟩
  | @value d u _ _ hmem _ ih =>
    obtain ⟨_, es, hes, _⟩ := of_normalizeAt_mapping hj
    obtain ⟨_, j', hj'⟩ := exists_of_normalizeEntries hes hmem
    show ∃ j', normalizeAt maxDepth (depth + d + 1) u = .ok j'
    rw [Nat.add_right_comm]
    exact ih hj'
  | content _ ih =>
    rw [normalizeAt] at hj
    exact ih hj

/-- A tree with `depth` collections around it is one that JSON can hold. -/
structure Fits (maxDepth depth : Nat) (t : Tree) : Prop where
  keys : t.TextKeys
  numbers : t.FiniteNumbers
  nested : ∀ d u, Inside d u t → u.IsCollection → depth + d < maxDepth

theorem fits_of_normalizeAt {maxDepth depth : Nat} {t : Tree} {j : Json}
    (h : normalizeAt maxDepth depth t = .ok j) : Fits maxDepth depth t where
  keys d entries hinside e he := by
    obtain ⟨j', hj'⟩ := exists_of_inside hinside h
    obtain ⟨_, es, hes, _⟩ := of_normalizeAt_mapping hj'
    exact (exists_of_normalizeEntries hes he).1
  numbers d n hinside := by
    obtain ⟨j', hj'⟩ := exists_of_inside hinside h
    rw [normalizeAt] at hj'
    split at hj'
    · assumption
    · cases hj'
  nested d u hinside hcollection := by
    obtain ⟨j', hj'⟩ := exists_of_inside hinside h
    cases u with
    | sequence items => exact (of_normalizeAt_sequence hj').1
    | mapping entries => exact (of_normalizeAt_mapping hj').1
    | _ => cases hcollection

namespace Fits

variable {maxDepth depth : Nat}

theorem item {items : List Tree} (h : Fits maxDepth depth (.sequence items)) {t : Tree}
    (ht : t ∈ items) : Fits maxDepth (depth + 1) t where
  keys d entries hinside := h.keys _ entries (.item ht hinside)
  numbers d n hinside := h.numbers _ n (.item ht hinside)
  nested d u hinside hcollection := by
    rw [Nat.add_right_comm]
    exact h.nested _ u (.item ht hinside) hcollection

theorem value {entries : List (Tree × Tree)} (h : Fits maxDepth depth (.mapping entries))
    {e : Tree × Tree} (he : e ∈ entries) : Fits maxDepth (depth + 1) e.2 where
  keys d es hinside := h.keys _ es (.value he hinside)
  numbers d n hinside := h.numbers _ n (.value he hinside)
  nested d u hinside hcollection := by
    rw [Nat.add_right_comm]
    exact h.nested _ u (.value he hinside) hcollection

theorem content {tag : String} {t : Tree} (h : Fits maxDepth depth (.tagged tag t)) :
    Fits maxDepth depth t where
  keys d entries hinside := h.keys d entries (.content hinside)
  numbers d n hinside := h.numbers d n (.content hinside)
  nested d u hinside := h.nested d u (.content hinside)

end Fits

mutual

theorem exists_of_fits {maxDepth : Nat} : ∀ (t : Tree) {depth : Nat}, Fits maxDepth depth t →
    ∃ j, normalizeAt maxDepth depth t = .ok j
  | .null, _, _ => ⟨_, rfl⟩
  | .bool _, _, _ => ⟨_, rfl⟩
  | .number n, _, h => ⟨.number n, by rw [normalizeAt, if_pos (h.numbers 0 n (.self _))]⟩
  | .string _, _, _ => ⟨_, rfl⟩
  | .sequence items, depth, h => by
    have hdepth : depth < maxDepth := h.nested 0 _ (.self _) trivial
    obtain ⟨js, hjs⟩ := exists_items_of_fits items fun t ht => h.item ht
    rw [normalizeAt, if_neg (not_le.mpr hdepth), hjs]
    exact ⟨_, rfl⟩
  | .mapping entries, depth, h => by
    have hdepth : depth < maxDepth := h.nested 0 _ (.self _) trivial
    obtain ⟨es, hes⟩ := exists_entries_of_fits entries (h.keys 0 entries (.self _))
      fun e he => h.value he
    rw [normalizeAt, if_neg (not_le.mpr hdepth), hes]
    exact ⟨_, rfl⟩
  | .tagged _ t, _, h => by
    rw [normalizeAt]
    exact exists_of_fits t h.content

theorem exists_items_of_fits {maxDepth : Nat} : ∀ (items : List Tree) {depth : Nat},
    (∀ t ∈ items, Fits maxDepth depth t) → ∃ js, normalizeItems maxDepth depth items = .ok js
  | [], _, _ => ⟨_, rfl⟩
  | t :: rest, depth, h => by
    obtain ⟨ht, hrest⟩ := List.forall_mem_cons.mp h
    obtain ⟨j, hj⟩ := exists_of_fits t ht
    obtain ⟨js, hjs⟩ := exists_items_of_fits rest hrest
    rw [normalizeItems, hj, hjs]
    exact ⟨_, rfl⟩

theorem exists_entries_of_fits {maxDepth : Nat} : ∀ (entries : List (Tree × Tree)) {depth : Nat},
    (∀ e ∈ entries, ∃ key, e.1 = .string key) → (∀ e ∈ entries, Fits maxDepth depth e.2) →
      ∃ es, normalizeEntries maxDepth depth entries = .ok es
  | [], _, _, _ => ⟨_, rfl⟩
  | (k, v) :: rest, depth, hkeys, h => by
    obtain ⟨⟨key, rfl⟩, hkeysRest⟩ := List.forall_mem_cons.mp hkeys
    obtain ⟨hv, hrest⟩ := List.forall_mem_cons.mp h
    obtain ⟨j, hj⟩ := exists_of_fits v hv
    obtain ⟨es, hes⟩ := exists_entries_of_fits rest hkeysRest hrest
    rw [normalizeEntries, hj, hes]
    exact ⟨_, rfl⟩

end

/-! ## The form -/

theorem KeysDiffer.item {items : List Tree} (h : KeysDiffer (.sequence items)) {t : Tree}
    (ht : t ∈ items) : t.KeysDiffer :=
  fun _ entries hinside => h _ entries (.item ht hinside)

theorem KeysDiffer.value {entries : List (Tree × Tree)} (h : KeysDiffer (.mapping entries))
    {e : Tree × Tree} (he : e ∈ entries) : e.2.KeysDiffer :=
  fun _ es hinside => h _ es (.value he hinside)

theorem KeysDiffer.content {tag : String} {t : Tree} (h : KeysDiffer (.tagged tag t)) :
    t.KeysDiffer :=
  fun d entries hinside => h d entries (.content hinside)

mutual

theorem image_of_normalizeAt {maxDepth : Nat} : ∀ (t : Tree) {depth : Nat} {j : Json},
    t.KeysDiffer → normalizeAt maxDepth depth t = .ok j → Image t j
  | .null, _, _, _, h => by cases h; exact .null
  | .bool b, _, _, _, h => by cases h; exact .bool b
  | .number n, _, _, _, h => by
    rw [normalizeAt] at h
    split at h
    · cases h; exact .number n
    · cases h
  | .string s, _, _, _, h => by cases h; exact .string s
  | .sequence items, _, _, hkeys, h => by
    obtain ⟨_, js, hjs, rfl⟩ := of_normalizeAt_sequence h
    exact .sequence (itemsImage_of_normalizeItems items (fun t ht => hkeys.item ht) hjs)
  | .mapping entries, _, _, hkeys, h => by
    obtain ⟨_, es, hes, rfl⟩ := of_normalizeAt_mapping h
    have hnodup := nodup_keys (hkeys 0 entries (.self _)) (keys_of_normalizeEntries hes)
    obtain ⟨object, heq, hordered⟩ := Json.exists_ofEntries es
    rw [heq]
    exact .mapping (entriesImage_of_normalizeEntries entries (fun e he => hkeys.value he) hes)
      (Json.perm_ofEntries hnodup heq) hordered
  | .tagged _ t, _, _, hkeys, h => by
    rw [normalizeAt] at h
    exact .tagged (image_of_normalizeAt t hkeys.content h)

theorem itemsImage_of_normalizeItems {maxDepth : Nat} : ∀ (items : List Tree) {depth : Nat}
    {js : List Json}, (∀ t ∈ items, t.KeysDiffer) → normalizeItems maxDepth depth items = .ok js →
      ItemsImage items js
  | [], _, _, _, h => by cases h; exact .nil
  | t :: rest, _, _, hkeys, h => by
    obtain ⟨ht, hrest⟩ := List.forall_mem_cons.mp hkeys
    obtain ⟨j, js, hj, hjs, rfl⟩ := of_normalizeItems_cons h
    exact .cons (image_of_normalizeAt t ht hj) (itemsImage_of_normalizeItems rest hrest hjs)

theorem entriesImage_of_normalizeEntries {maxDepth : Nat} : ∀ (entries : List (Tree × Tree))
    {depth : Nat} {es : List (String × Json)}, (∀ e ∈ entries, e.2.KeysDiffer) →
      normalizeEntries maxDepth depth entries = .ok es → EntriesImage entries es
  | [], _, _, _, h => by cases h; exact .nil
  | (k, v) :: rest, _, _, hkeys, h => by
    obtain ⟨hv, hrest⟩ := List.forall_mem_cons.mp hkeys
    obtain ⟨key, j, es, rfl, hj, hes, rfl⟩ := of_normalizeEntries_cons h
    exact .cons (image_of_normalizeAt v hv hj) (entriesImage_of_normalizeEntries rest hrest hes)

end

/-! ## More depth -/

mutual

/-- A form is the same wherever more nesting is allowed. -/
theorem normalizeAt_of_le {maxDepth larger : Nat} (hle : maxDepth ≤ larger) :
    ∀ (t : Tree) {depth : Nat} {j : Json}, normalizeAt maxDepth depth t = .ok j →
      normalizeAt larger depth t = .ok j
  | .null, _, _, h => h
  | .bool _, _, _, h => h
  | .number _, _, _, h => h
  | .string _, _, _, h => h
  | .sequence items, _, _, h => by
    obtain ⟨hdepth, js, hjs, rfl⟩ := of_normalizeAt_sequence h
    rw [normalizeAt, if_neg (not_le.mpr (lt_of_lt_of_le hdepth hle)),
      normalizeItems_of_le hle items hjs]
    rfl
  | .mapping entries, _, _, h => by
    obtain ⟨hdepth, es, hes, rfl⟩ := of_normalizeAt_mapping h
    rw [normalizeAt, if_neg (not_le.mpr (lt_of_lt_of_le hdepth hle)),
      normalizeEntries_of_le hle entries hes]
    rfl
  | .tagged _ t, _, _, h => by
    rw [normalizeAt] at h ⊢
    exact normalizeAt_of_le hle t h

theorem normalizeItems_of_le {maxDepth larger : Nat} (hle : maxDepth ≤ larger) :
    ∀ (items : List Tree) {depth : Nat} {js : List Json},
      normalizeItems maxDepth depth items = .ok js → normalizeItems larger depth items = .ok js
  | [], _, _, h => h
  | t :: rest, _, _, h => by
    obtain ⟨j, js, hj, hjs, rfl⟩ := of_normalizeItems_cons h
    rw [normalizeItems, normalizeAt_of_le hle t hj, normalizeItems_of_le hle rest hjs]
    rfl

theorem normalizeEntries_of_le {maxDepth larger : Nat} (hle : maxDepth ≤ larger) :
    ∀ (entries : List (Tree × Tree)) {depth : Nat} {es : List (String × Json)},
      normalizeEntries maxDepth depth entries = .ok es →
        normalizeEntries larger depth entries = .ok es
  | [], _, _, h => h
  | (k, v) :: rest, _, _, h => by
    obtain ⟨key, j, es, rfl, hj, hes, rfl⟩ := of_normalizeEntries_cons h
    rw [normalizeEntries, normalizeAt_of_le hle v hj, normalizeEntries_of_le hle rest hes]
    rfl

end

/-! ## Normalization -/

theorem fits_zero_iff {maxDepth : Nat} {t : Tree} :
    Fits maxDepth 0 t ↔ t.TextKeys ∧ t.FiniteNumbers ∧ t.NestedWithin maxDepth := by
  constructor
  · intro h
    refine ⟨h.keys, h.numbers, fun d u hinside hcollection => ?_⟩
    have := h.nested d u hinside hcollection
    omega
  · rintro ⟨hkeys, hnumbers, hnested⟩
    refine ⟨hkeys, hnumbers, fun d u hinside hcollection => ?_⟩
    have := hnested d u hinside hcollection
    omega

/-- What normalization does. A tree has a form exactly if its keys are texts, its numbers finite and
its collections nested no deeper than `maxDepth`; the form is the tree without its tags, and the
same where more nesting is allowed. Otherwise the error is that of the first site, in document
order, that has a problem. -/
theorem normalize_meaning (t : Tree) (maxDepth : Nat) :
    ((∃ j, t.normalize maxDepth = .ok j) ↔
      t.TextKeys ∧ t.FiniteNumbers ∧ t.NestedWithin maxDepth) ∧
    (t.KeysDiffer → ∀ j, t.normalize maxDepth = .ok j → Image t j) ∧
    (∀ e, t.normalize maxDepth = .error e ↔
      ∃ before site after, t.sites 0 = before ++ site :: after ∧
        site.problem? maxDepth = some e ∧ ∀ s ∈ before, s.problem? maxDepth = none) ∧
    ∀ j larger, maxDepth ≤ larger → t.normalize maxDepth = .ok j → t.normalize larger = .ok j := by
  refine ⟨?_, fun hkeys j h => image_of_normalizeAt t hkeys h, fun e => ?_,
    fun j larger hle h => normalizeAt_of_le hle t h⟩
  · rw [← fits_zero_iff]
    exact ⟨fun ⟨j, h⟩ => fits_of_normalizeAt h, fun h => exists_of_fits t h⟩
  · rw [normalize, ← failure?_eq_some, failure?_normalizeAt, List.findSome?_eq_some_iff]

/-! ## A tree with tags -/

/-- A tagged mapping with its keys out of order, two collections deep. -/
def limits : Tree :=
  .tagged "limits" (.mapping [(.string "soft", .sequence [.number (.integer 1), .null]),
    (.string "hard", .tagged "most" (.string "x"))])

def limitsForm : Json :=
  .object [("hard", .string "x"), ("soft", .array [.number (.integer 1), .null])]

theorem normalize_limits : limits.normalize 2 = .ok limitsForm := by
  cbv

theorem keysDiffer_limits : limits.KeysDiffer := by
  intro d entries h
  cases h with
  | content h =>
    cases h with
    | self => simp [same]
    | key hmem h =>
      simp only [List.mem_cons, List.not_mem_nil, or_false] at hmem
      rcases hmem with rfl | rfl <;> cases eq_of_inside_string h
    | value hmem h =>
      simp only [List.mem_cons, List.not_mem_nil, or_false] at hmem
      rcases hmem with rfl | rfl
      · cases h with
        | item hmem h =>
          simp only [List.mem_cons, List.not_mem_nil, or_false] at hmem
          rcases hmem with rfl | rfl <;> cases h
      · cases h with
        | content h => cases eq_of_inside_string h

theorem normalize_meaning_limits : limits.KeysDiffer ∧ 2 ≤ 5 ∧ Image limits limitsForm ∧
    limits.normalize 5 = .ok limitsForm ∧ limits.normalize 1 = .error (.tooDeep 1) := by
  obtain ⟨_, himage, _, hlarger⟩ := normalize_meaning limits 2
  obtain ⟨_, _, hfirst, _⟩ := normalize_meaning limits 1
  exact ⟨keysDiffer_limits, by decide, himage keysDiffer_limits _ normalize_limits,
    hlarger _ 5 (by decide) normalize_limits,
    (hfirst _).mpr ⟨[.collection 0, .key (.string "soft")], .collection 1, _, rfl, rfl,
      by simp [Site.problem?]⟩⟩

end TenantRegistry.Yaml.Tree
