import Mathlib.Data.List.Perm.Subperm
import TenantRegistry.Proofs.Yaml.TreeRead
import TenantRegistry.Yaml.Tree.Normalize

/-!
The JSON forms of trees as they are read.

`Form` says what a tree without tags and its JSON form have in common. The form of a tree is one
that a text can keep (`kept_of_form`), and two trees have the same form exactly if they are the
same up to the order of mappings (`form_eq_iff`).
-/

namespace TenantRegistry.Yaml.Tree

/-! ## Trees without tags, numbers without floats -/

mutual

/-- A tree without the tags in it. -/
def stripped : Tree → Tree
  | .null => .null
  | .bool b => .bool b
  | .number n => .number n
  | .string s => .string s
  | .sequence items => .sequence (itemsStripped items)
  | .mapping entries => .mapping (entriesStripped entries)
  | .tagged _ t => t.stripped

def itemsStripped : List Tree → List Tree
  | [] => []
  | t :: rest => t.stripped :: itemsStripped rest

def entriesStripped : List (Tree × Tree) → List (Tree × Tree)
  | [] => []
  | (k, v) :: rest => (k.stripped, v.stripped) :: entriesStripped rest

end

mutual

/-- No number of a tree is a float. -/
def isFloatFree : Tree → Bool
  | .null => true
  | .bool _ => true
  | .number (.integer _) => true
  | .number (.float _) => false
  | .string _ => true
  | .sequence items => itemsFloatFree items
  | .mapping entries => entriesFloatFree entries
  | .tagged _ t => t.isFloatFree

def itemsFloatFree : List Tree → Bool
  | [] => true
  | t :: rest => t.isFloatFree && itemsFloatFree rest

def entriesFloatFree : List (Tree × Tree) → Bool
  | [] => true
  | (k, v) :: rest => k.isFloatFree && v.isFloatFree && entriesFloatFree rest

end

/-! ## Forms -/

mutual

/-- `j` is the JSON form of `t`, a tree without tags and floats that is read with at most `depth`
collections nested. -/
inductive Form : (depth : Nat) → (t : Tree) → (j : Json) → Prop
  | null {depth : Nat} : Form depth .null .null
  | bool {depth : Nat} (b : Bool) : Form depth (.bool b) (.bool b)
  | integer {depth : Nat} {n : Int} : Number.IsWord n →
      Form depth (.number (.integer n)) (.number (.integer n))
  | string {depth : Nat} (s : String) : Form depth (.string s) (.string s)
  | sequence {depth : Nat} {items : List Tree} {js : List Json} : ItemsForm depth items js →
      Form (depth + 1) (.sequence items) (.array js)
  | mapping {depth : Nat} {entries : List (Tree × Tree)} {es : List (String × Json)} :
      EntriesForm depth entries es → (es.map (·.1)).Nodup →
      Form (depth + 1) (.mapping entries) (.ofEntries es)

inductive ItemsForm : (depth : Nat) → List Tree → List Json → Prop
  | nil {depth : Nat} : ItemsForm depth [] []
  | cons {depth : Nat} {t : Tree} {j : Json} {ts : List Tree} {js : List Json} :
      Form depth t j → ItemsForm depth ts js → ItemsForm depth (t :: ts) (j :: js)

inductive EntriesForm : (depth : Nat) → List (Tree × Tree) → List (String × Json) → Prop
  | nil {depth : Nat} : EntriesForm depth [] []
  | cons {depth : Nat} {key : String} {v : Tree} {j : Json} {entries : List (Tree × Tree)}
      {es : List (String × Json)} :
      Form depth v j → EntriesForm depth entries es →
      EntriesForm depth ((.string key, v) :: entries) ((key, j) :: es)

end

/-! ## From trees to forms -/

theorem of_normalizeItems_cons {maxDepth under : Nat} {t : Tree} {rest : List Tree}
    {js : List Json} (h : normalizeItems maxDepth under (t :: rest) = .ok js) :
    ∃ j js', normalizeAt maxDepth under t = .ok j ∧
      normalizeItems maxDepth under rest = .ok js' ∧ js = j :: js' := by
  unfold normalizeItems at h
  cases hj : normalizeAt maxDepth under t with
  | error e => rw [hj] at h; cases h
  | ok j =>
    cases hjs : normalizeItems maxDepth under rest with
    | error e => rw [hj, hjs] at h; cases h
    | ok js' => rw [hj, hjs] at h; cases h; exact ⟨j, js', rfl, rfl, rfl⟩

/-- Where normalization succeeds, keys are texts. -/
theorem of_normalizeEntries_cons {maxDepth under : Nat} {k v : Tree} {rest : List (Tree × Tree)}
    {es : List (String × Json)} (h : normalizeEntries maxDepth under ((k, v) :: rest) = .ok es) :
    ∃ key j es', k = .string key ∧ normalizeAt maxDepth under v = .ok j ∧
      normalizeEntries maxDepth under rest = .ok es' ∧ es = (key, j) :: es' := by
  unfold normalizeEntries at h
  split at h
  · next key =>
    cases hj : normalizeAt maxDepth under v with
    | error e => rw [hj] at h; cases h
    | ok j =>
      cases hes : normalizeEntries maxDepth under rest with
      | error e => rw [hj, hes] at h; cases h
      | ok es' => rw [hj, hes] at h; cases h; exact ⟨key, j, es', rfl, rfl, rfl, rfl⟩
  · cases h

theorem keys_of_normalizeEntries {maxDepth under : Nat} {entries : List (Tree × Tree)}
    {es : List (String × Json)} (h : normalizeEntries maxDepth under entries = .ok es) :
    entries.map (·.1) = es.map fun e => .string e.1 := by
  induction entries generalizing es with
  | nil => cases h; rfl
  | cons e rest ih =>
    obtain ⟨key, j, es', hkey, _, hes, rfl⟩ := of_normalizeEntries_cons h
    rw [List.map_cons, List.map_cons, ih hes, hkey]

theorem nodup_keys {entries : List (Tree × Tree)} {es : List (String × Json)}
    (h : entries.Pairwise fun a b => a.1.same b.1 = false)
    (hkeys : entries.map (·.1) = es.map fun e => .string e.1) : (es.map (·.1)).Nodup := by
  have hpairs : (entries.map (·.1)).Pairwise fun a b => a.same b = false := List.pairwise_map.mpr h
  rw [hkeys, List.pairwise_map] at hpairs
  refine List.pairwise_map.mpr (hpairs.imp fun {a b} hab heq => ?_)
  rw [heq] at hab
  simp [same] at hab

theorem exists_of_map_eq_ok {α β ε : Type} {r : Except ε α} {f : α → β} {b : β}
    (h : r.map f = .ok b) : ∃ a, r = .ok a ∧ f a = b := by
  cases r with
  | error e => cases h
  | ok a => cases h; exact ⟨a, rfl, rfl⟩

mutual

/-- A tree that is read and has a JSON form is of that form without its tags. -/
theorem form_of_normalizeAt {maxDepth : Nat} : ∀ (t : Tree) {depth under : Nat} {j : Json},
    t.AsRead depth → t.isFloatFree = true → normalizeAt maxDepth under t = .ok j →
      Form depth t.stripped j
  | .null, _, _, _, _, _, h => by cases h; exact .null
  | .bool b, _, _, _, _, _, h => by cases h; exact .bool b
  | .number (.integer n), _, _, _, hread, _, h => by
    rw [AsRead] at hread
    cases h
    exact .integer hread
  | .number (.float _), _, _, _, _, hfloat, _ => by cases hfloat
  | .string s, _, _, _, _, _, h => by cases h; exact .string s
  | .sequence items, 0, _, _, hread, _, _ => by rw [AsRead] at hread; cases hread
  | .sequence items, depth + 1, under, j, hread, hfloat, h => by
    rw [AsRead] at hread
    unfold normalizeAt at h
    split at h
    · cases h
    · obtain ⟨js, hjs, rfl⟩ := exists_of_map_eq_ok h
      exact .sequence (itemsForm_of_normalizeItems items hread hfloat hjs)
  | .mapping entries, 0, _, _, hread, _, _ => by rw [AsRead] at hread; cases hread
  | .mapping entries, depth + 1, under, j, hread, hfloat, h => by
    rw [AsRead] at hread
    unfold normalizeAt at h
    split at h
    · cases h
    · obtain ⟨es, hes, rfl⟩ := exists_of_map_eq_ok h
      exact .mapping (entriesForm_of_normalizeEntries entries hread.2 hfloat hes)
        (nodup_keys hread.1 (keys_of_normalizeEntries hes))
  | .tagged _ t, depth, under, j, hread, hfloat, h => by
    rw [AsRead] at hread
    rw [normalizeAt] at h
    exact form_of_normalizeAt t hread hfloat h

theorem itemsForm_of_normalizeItems {maxDepth : Nat} : ∀ (ts : List Tree) {depth under : Nat}
    {js : List Json}, ItemsAsRead depth ts → itemsFloatFree ts = true →
      normalizeItems maxDepth under ts = .ok js → ItemsForm depth (itemsStripped ts) js
  | [], _, _, _, _, _, h => by cases h; exact .nil
  | t :: rest, depth, under, js, hread, hfloat, h => by
    rw [ItemsAsRead] at hread
    rw [itemsFloatFree, Bool.and_eq_true] at hfloat
    obtain ⟨j, js', hj, hjs, rfl⟩ := of_normalizeItems_cons h
    exact .cons (form_of_normalizeAt t hread.1 hfloat.1 hj)
      (itemsForm_of_normalizeItems rest hread.2 hfloat.2 hjs)

theorem entriesForm_of_normalizeEntries {maxDepth : Nat} : ∀ (entries : List (Tree × Tree))
    {depth under : Nat} {es : List (String × Json)}, EntriesAsRead depth entries →
      entriesFloatFree entries = true → normalizeEntries maxDepth under entries = .ok es →
        EntriesForm depth (entriesStripped entries) es
  | [], _, _, _, _, _, h => by cases h; exact .nil
  | (k, v) :: rest, depth, under, es, hread, hfloat, h => by
    rw [EntriesAsRead] at hread
    rw [entriesFloatFree, Bool.and_eq_true, Bool.and_eq_true] at hfloat
    obtain ⟨key, j, es', rfl, hj, hes, rfl⟩ := of_normalizeEntries_cons h
    exact .cons (form_of_normalizeAt v hread.2.1 hfloat.1.2 hj)
      (entriesForm_of_normalizeEntries rest hread.2.2 hfloat.2 hes)

end

/-! ## What forms are -/

mutual

theorem kept_of_form : ∀ {depth : Nat} {t : Tree} {j : Json}, Form depth t j → j.Kept depth
  | _, _, _, .null => by rw [Json.Kept]; trivial
  | _, _, _, .bool b => by rw [Json.Kept]; trivial
  | _, _, _, .integer h => by rw [Json.Kept]; exact h
  | _, _, _, .string s => by rw [Json.Kept]; trivial
  | _, _, _, .sequence h => by rw [Json.Kept]; exact keptItems_of_form h
  | _, _, _, .mapping h hnodup => by
    obtain ⟨es, heq, hordered⟩ := Json.exists_ofEntries _
    have hkept := Json.keptEntries_iff.mp (keptEntries_of_form h)
    rw [heq, Json.Kept]
    refine ⟨hordered, Json.keptEntries_iff.mpr fun e he => hkept e ?_⟩
    exact (Json.perm_ofEntries hnodup heq).mem_iff.mp he

theorem keptItems_of_form : ∀ {depth : Nat} {ts : List Tree} {js : List Json},
    ItemsForm depth ts js → Json.KeptItems depth js
  | _, _, _, .nil => by rw [Json.KeptItems]; trivial
  | _, _, _, .cons h hrest => by
    rw [Json.KeptItems]
    exact ⟨kept_of_form h, keptItems_of_form hrest⟩

theorem keptEntries_of_form : ∀ {depth : Nat} {entries : List (Tree × Tree)}
    {es : List (String × Json)}, EntriesForm depth entries es → Json.KeptEntries depth es
  | _, _, _, .nil => by rw [Json.KeptEntries]; trivial
  | _, _, _, .cons h hrest => by
    rw [Json.KeptEntries]
    exact ⟨kept_of_form h, keptEntries_of_form hrest⟩

end

/-! ## The same form -/

/-- An entry is among others as trees exactly if it is as JSON. -/
theorem any_same_iff (key : String) {v : Tree} {j : Json}
    (hv : ∀ {depth : Nat} {t : Tree} {j' : Json}, Form depth t j' → (j = j' ↔ v.same t = true))
    {depth : Nat} {entries : List (Tree × Tree)} {es : List (String × Json)}
    (h : EntriesForm depth entries es) :
    (entries.any fun e => same (.string key) e.1 && same v e.2) = true ↔ (key, j) ∈ es := by
  induction entries generalizing es with
  | nil => cases h; simp
  | cons e rest ih =>
    cases h with
    | cons hform hrest =>
      rw [List.any_cons, Bool.or_eq_true, Bool.and_eq_true, ih hrest, List.mem_cons, Prod.mk.injEq,
        hv hform]
      simp [same]

theorem length_of_form {depth : Nat} {entries : List (Tree × Tree)} {es : List (String × Json)}
    (h : EntriesForm depth entries es) : entries.length = es.length := by
  induction entries generalizing es with
  | nil => cases h; rfl
  | cons e rest ih =>
    cases h with
    | cons _ hrest => rw [List.length_cons, List.length_cons, ih hrest]

/-- One of two lists without repetition is the other in another order if they are as long and all of
the one is in the other. -/
theorem perm_iff_of_nodup {es es' : List (String × Json)} (h : es.Nodup) :
    es.Perm es' ↔ es.length = es'.length ∧ ∀ e ∈ es, e ∈ es' := by
  constructor
  · exact fun hperm => ⟨hperm.length_eq, fun e he => hperm.mem_iff.mp he⟩
  · rintro ⟨hlength, hsubset⟩
    exact (List.subperm_of_subset h hsubset).perm_of_length_le (le_of_eq hlength.symm)

mutual

/-- Trees have one form exactly if they are the same. -/
theorem form_eq_iff : ∀ {depth depth' : Nat} {t t' : Tree} {j j' : Json},
    Form depth t j → Form depth' t' j' → (j = j' ↔ t.same t' = true)
  | _, _, _, _, _, _, .null, h' => by cases h' <;> simp [same, Json.ofEntries]
  | _, _, _, _, _, _, .bool b, h' => by cases h' <;> simp [same, Json.ofEntries]
  | _, _, _, _, _, _, .integer _, h' => by cases h' <;> simp [same, Number.same, Json.ofEntries]
  | _, _, _, _, _, _, .string s, h' => by cases h' <;> simp [same, Json.ofEntries]
  | _, _, _, _, _, _, .sequence h, h' => by
    cases h' with
    | sequence h' => rw [Json.array.injEq, itemsForm_eq_iff h h', same]
    | _ => simp [same, Json.ofEntries]
  | _, _, _, _, _, _, .mapping h hnodup, h' => by
    cases h' with
    | mapping h' hnodup' =>
      rw [Json.ofEntries_eq_iff hnodup hnodup', perm_iff_of_nodup hnodup.of_map,
        ← entriesWithin_iff h h', same, Bool.and_eq_true, beq_iff_eq, length_of_form h,
        length_of_form h']
    | _ => simp [same, Json.ofEntries]

theorem itemsForm_eq_iff : ∀ {depth depth' : Nat} {ts ts' : List Tree} {js js' : List Json},
    ItemsForm depth ts js → ItemsForm depth' ts' js' → (js = js' ↔ sameItems ts ts' = true)
  | _, _, _, _, _, _, .nil, h' => by cases h' <;> simp [sameItems]
  | _, _, _, _, _, _, .cons h hrest, h' => by
    cases h' with
    | nil => simp [sameItems]
    | cons h' hrest' =>
      rw [List.cons.injEq, form_eq_iff h h', itemsForm_eq_iff hrest hrest', sameItems,
        Bool.and_eq_true]

theorem entriesWithin_iff : ∀ {depth depth' : Nat} {entries entries' : List (Tree × Tree)}
    {es es' : List (String × Json)},
    EntriesForm depth entries es → EntriesForm depth' entries' es' →
      (entriesWithin entries entries' = true ↔ ∀ e ∈ es, e ∈ es')
  | _, _, _, _, _, _, .nil, _ => by simp [entriesWithin]
  | _, _, _, _, _, _, .cons h hrest, h' => by
    rw [List.forall_mem_cons, ← any_same_iff _ (fun {_ _ _} hform => form_eq_iff h hform) h',
      ← entriesWithin_iff hrest h', entriesWithin, Bool.and_eq_true]

end

end TenantRegistry.Yaml.Tree
