import TenantRegistry.Proofs.Json.CompactText
import TenantRegistry.Proofs.Json.Denotation

/-!
Which values come back from their compact texts.

A value is `Kept` if its integers have 64 bits, its objects are in order and it is not nested too
deep. Read back, such a value is the same again exactly if it is literal, which means that none of
its objects starts with `rawKey`: `value?_written_iff`. An object that does stands for another
text, and no text is worth an object with `rawKey` alone.
-/

namespace TenantRegistry

/-- An integer that 64 bits hold, with or without a sign. -/
def Number.IsWord (n : Int) : Prop :=
  -Int.pow 2 63 ≤ n ∧ n < Int.pow 2 64

namespace Json

open Written

/-! ## Integers -/

theorem digitChar_value : ∀ d < 10, (Nat.digitChar d).toNat - '0'.toNat = d := by
  decide

theorem significand_append {n m : Nat} {cs ds : List Char} (h : significand n cs = (m, [])) :
    significand n (cs ++ ds) = significand m ds := by
  induction cs generalizing n with
  | nil => cases h; rfl
  | cons c cs ih =>
    simp only [List.cons_append, significand] at h ⊢
    split at h
    · cases h
    · next hle => rw [if_neg hle]; exact ih h

theorem significand_toDigits {n : Nat} (h : n ≤ maxNatural) :
    significand 0 (Nat.toDigits 10 n) = (n, []) := by
  induction n using Nat.strongRecOn with
  | ind n ih =>
    by_cases hn : n < 10
    · rw [Nat.toDigits_of_lt_base hn]
      simp only [significand, digitChar_value n hn]
      rw [if_neg (by omega), Nat.zero_mul, Nat.zero_add]
    · rw [Nat.toDigits_of_base_le (by decide) (by omega),
        significand_append (ih (n / 10) (by omega) (by omega))]
      simp only [significand, digitChar_value (n % 10) (by omega)]
      have hsum : n / 10 * 10 + n % 10 = n := by omega
      rw [hsum, if_neg (by omega)]

/-- A 64-bit integer is read as itself. -/
theorem number?_ofInt {n : Int} (h : Number.IsWord n) :
    (NumberText.ofInt n).number? = some (.integer n) := by
  obtain ⟨hlow, hhigh⟩ := h
  have h63 : Int.pow 2 63 = 2 ^ 63 := rfl
  have h64 : Int.pow 2 64 = 2 ^ 64 := rfl
  have hnatural : maxNatural = 2 ^ 64 - 1 := rfl
  have hpow : Nat.pow 2 63 = 2 ^ 63 := rfl
  have hmax : n.natAbs ≤ maxNatural := by omega
  have hinteger : (NumberText.ofInt n).integer? = some n := by
    simp only [NumberText.integer?, NumberText.ofInt, significand_toDigits hmax, decide_eq_true_eq]
    split
    · next hneg =>
      rw [if_pos (by omega)]
      congr 1
      omega
    · congr 1
      omega
  rw [NumberText.number?, hinteger]

/-! ## Values -/

mutual

/-- What a text can keep, of a value nested at most `depth` deep: integers of 64 bits and objects in
the order of their keys. -/
def Kept : (depth : Nat) → Json → Prop
  | _, .null => True
  | _, .bool _ => True
  | _, .number (.integer n) => Number.IsWord n
  | _, .number (.float _) => False
  | _, .string _ => True
  | 0, .array _ => False
  | depth + 1, .array items => KeptItems depth items
  | 0, .object _ => False
  | depth + 1, .object entries =>
    (entries.Pairwise fun a b => a.1 < b.1) ∧ KeptEntries depth entries

def KeptItems (depth : Nat) : List Json → Prop
  | [] => True
  | x :: xs => x.Kept depth ∧ KeptItems depth xs

def KeptEntries (depth : Nat) : List (String × Json) → Prop
  | [] => True
  | (_, v) :: rest => v.Kept depth ∧ KeptEntries depth rest

end

theorem keptEntries_iff {depth : Nat} {entries : List (String × Json)} :
    KeptEntries depth entries ↔ ∀ e ∈ entries, e.2.Kept depth := by
  induction entries with
  | nil => simp [KeptEntries]
  | cons e rest ih =>
    obtain ⟨k, v⟩ := e
    rw [KeptEntries, ih, List.forall_mem_cons]

mutual

/-- No object of a value starts with `rawKey`. -/
def isLiteral : Json → Bool
  | .null => true
  | .bool _ => true
  | .number _ => true
  | .string _ => true
  | .array items => itemsLiteral items
  | .object entries => (entries.head?.all fun e => e.1 != rawKey) && entriesLiteral entries

def itemsLiteral : List Json → Bool
  | [] => true
  | x :: xs => x.isLiteral && itemsLiteral xs

def entriesLiteral : List (String × Json) → Bool
  | [] => true
  | (_, v) :: rest => v.isLiteral && entriesLiteral rest

end

mutual

/-- A kept value that is literal is what its compact text writes. -/
theorem denotes_written : ∀ {depth : Nat} (j : Json), j.Kept depth → j.isLiteral = true →
    Denotes depth j.written j
  | _, .null, _, _ => .null
  | _, .bool b, _, _ => .bool
  | _, .number (.integer n), h, _ => by
    rw [Kept] at h
    exact .number (number?_ofInt h)
  | _, .number (.float x), h, _ => by rw [Kept] at h; cases h
  | _, .string s, _, _ => .string
  | depth + 1, .array items, h, hlit => by
    rw [Kept] at h
    exact .array (denotesItems_written items h hlit)
  | depth + 1, .object [], _, _ =>
    .object (fun _ he => by cases he) .nil (isObjectOf_of_ordered .nil)
  | depth + 1, .object ((k, v) :: rest), h, hlit => by
    rw [Kept] at h
    simp only [isLiteral, List.head?_cons, Option.all_some, bne_iff_ne, Bool.and_eq_true] at hlit
    refine .object ?_ (denotesEntries_written ((k, v) :: rest) h.2 hlit.2)
      (isObjectOf_of_ordered h.1)
    rintro e ⟨⟩
    exact fun heq => hlit.1 (Option.some.inj heq)
  | 0, .array items, h, _ => by rw [Kept] at h; cases h
  | 0, .object entries, h, _ => by rw [Kept] at h; cases h

theorem denotesItems_written : ∀ {depth : Nat} (items : List Json), KeptItems depth items →
    itemsLiteral items = true → DenotesItems depth (writtenItems items) items
  | _, [], _, _ => .nil
  | _, x :: xs, h, hlit => by
    rw [KeptItems] at h
    rw [itemsLiteral, Bool.and_eq_true] at hlit
    exact .cons (denotes_written x h.1 hlit.1) (denotesItems_written xs h.2 hlit.2)

theorem denotesEntries_written : ∀ {depth : Nat} (entries : List (String × Json)),
    KeptEntries depth entries → entriesLiteral entries = true →
      DenotesEntries depth (writtenEntries entries) entries
  | _, [], _, _ => .nil
  | _, (k, v) :: rest, h, hlit => by
    rw [KeptEntries] at h
    rw [entriesLiteral, Bool.and_eq_true] at hlit
    exact .cons (denotes_written v h.1 hlit.1) (denotesEntries_written rest h.2 hlit.2)

end

section

variable {reread : String → Option Json}

theorem value?_written {depth : Nat} {j : Json} (h : j.Kept depth) (hlit : j.isLiteral = true) :
    value? reread depth j.written = some j :=
  value?_of_denotes (denotes_written j h hlit)

/-! ## What does not come back -/

theorem keys_of_entries? {depth : Nat} {entries es : List (String × Json)}
    (h : entries? reread depth (writtenEntries entries) = some es) :
    es.map (·.1) = entries.map (·.1) := by
  induction entries generalizing es with
  | nil => rw [writtenEntries, entries?] at h; cases h; rfl
  | cons e rest ih =>
    obtain ⟨k, v⟩ := e
    simp only [writtenEntries, entries?, Option.bind_eq_bind, Option.bind_some,
      Option.bind_eq_some_iff] at h
    obtain ⟨_, _, es', hes', heq⟩ := h
    cases heq
    rw [List.map_cons, List.map_cons, ih hes']

theorem ordered_of_entries? {depth : Nat} {entries es : List (String × Json)}
    (hordered : entries.Pairwise fun a b => a.1 < b.1)
    (h : entries? reread depth (writtenEntries entries) = some es) :
    es.Pairwise fun a b => a.1 < b.1 := by
  have hkeys := List.pairwise_map.mpr hordered
  rw [← keys_of_entries? h] at hkeys
  exact List.pairwise_map.mp hkeys

theorem written_eq_string {j : Json} {s : String} (h : j.written = .string (some s)) :
    j = .string s := by
  cases j with
  | string s' => rw [written] at h; cases h; rfl
  | number n => cases n <;> simp only [written] at h <;> cases h
  | _ => rw [written] at h; cases h

theorem writtenEntries_eq_nil {entries : List (String × Json)} (h : writtenEntries entries = []) :
    entries = [] := by
  cases entries with
  | nil => rfl
  | cons e rest => obtain ⟨k, v⟩ := e; rw [writtenEntries] at h; cases h

mutual

theorem isLiteral_of_value? (hreread : ∀ s t, reread s ≠ some (.object [(rawKey, t)])) :
    ∀ {depth : Nat} (j : Json), j.Kept depth → value? reread depth j.written = some j →
      j.isLiteral = true
  | _, .null, _, _ => rfl
  | _, .bool b, _, _ => rfl
  | _, .number n, _, _ => rfl
  | _, .string s, _, _ => rfl
  | depth + 1, .array items, h, hread => by
    rw [Kept] at h
    simp only [written, value?, Option.bind_eq_bind, Option.bind_eq_some_iff] at hread
    obtain ⟨items', hitems, heq⟩ := hread
    cases heq
    exact itemsLiteral_of_items? hreread items h hitems
  | depth + 1, .object [], _, _ => rfl
  | depth + 1, .object ((k, v) :: rest), h, hread => by
    rw [Kept] at h
    by_cases hk : k = rawKey
    · simp only [written, writtenEntries, value?, if_pos hk] at hread
      split at hread
      · next s hv hrest =>
        cases written_eq_string hv
        cases writtenEntries_eq_nil hrest
        exact absurd (hk ▸ hread) (hreread s (.string s))
      · cases hread
    · simp only [written, writtenEntries, value?, if_neg hk, Option.bind_eq_bind,
        Option.bind_eq_some_iff] at hread
      obtain ⟨es, hes, heq⟩ := hread
      rw [← writtenEntries] at hes
      rw [ofEntries_of_ordered (ordered_of_entries? h.1 hes)] at heq
      cases heq
      have hentries := entriesLiteral_of_entries? hreread ((k, v) :: rest) h.2 hes
      simp only [isLiteral, List.head?_cons, Option.all_some, hentries, Bool.and_true, bne_iff_ne]
      exact hk
  | 0, .array items, h, _ => by rw [Kept] at h; cases h
  | 0, .object entries, h, _ => by rw [Kept] at h; cases h

theorem itemsLiteral_of_items? (hreread : ∀ s t, reread s ≠ some (.object [(rawKey, t)])) :
    ∀ {depth : Nat} (items : List Json), KeptItems depth items →
      items? reread depth (writtenItems items) = some items → itemsLiteral items = true
  | _, [], _, _ => rfl
  | depth, x :: xs, h, hread => by
    rw [KeptItems] at h
    simp only [writtenItems, items?, Option.bind_eq_bind, Option.bind_eq_some_iff] at hread
    obtain ⟨x', hx, xs', hxs, heq⟩ := hread
    cases heq
    rw [itemsLiteral, isLiteral_of_value? hreread x h.1 hx,
      itemsLiteral_of_items? hreread xs h.2 hxs]
    rfl

theorem entriesLiteral_of_entries? (hreread : ∀ s t, reread s ≠ some (.object [(rawKey, t)])) :
    ∀ {depth : Nat} (entries : List (String × Json)), KeptEntries depth entries →
      entries? reread depth (writtenEntries entries) = some entries → entriesLiteral entries = true
  | _, [], _, _ => rfl
  | depth, (k, v) :: rest, h, hread => by
    rw [KeptEntries] at h
    simp only [writtenEntries, entries?, Option.bind_eq_bind, Option.bind_some,
      Option.bind_eq_some_iff] at hread
    obtain ⟨v', hv, rest', hrest, heq⟩ := hread
    cases heq
    rw [entriesLiteral, isLiteral_of_value? hreread v h.1 hv,
      entriesLiteral_of_entries? hreread rest h.2 hrest]
    rfl

end

/-- A value that stands for a text is not `rawKey` alone, if no text is worth that. -/
theorem value?_ne_raw (hreread : ∀ s t, reread s ≠ some (.object [(rawKey, t)])) (depth : Nat)
    (w : Written) (t : Json) : value? reread depth w ≠ some (.object [(rawKey, t)]) := by
  intro h
  cases w with
  | null => rw [value?] at h; cases h
  | bool b => rw [value?] at h; cases h
  | number n =>
    rw [value?, Option.map_eq_some_iff] at h
    obtain ⟨_, _, h⟩ := h
    cases h
  | string s =>
    rw [value?, Option.map_eq_some_iff] at h
    obtain ⟨_, _, h⟩ := h
    cases h
  | array items =>
    cases depth with
    | zero => rw [value?] at h; cases h
    | succ depth =>
      simp only [value?, Option.bind_eq_bind, Option.bind_eq_some_iff] at h
      obtain ⟨_, _, h⟩ := h
      cases h
  | object entries =>
    cases depth with
    | zero => rw [value?] at h; cases h
    | succ depth =>
      match entries with
      | [] => cases h
      | (none, v) :: rest => simp [value?, entries?] at h
      | (some k, v) :: rest =>
        by_cases hk : k = rawKey
        · simp only [value?, if_pos hk] at h
          split at h
          · exact hreread _ t h
          · cases h
        · -- The first key written is among those of the object.
          simp only [value?, if_neg hk, entries?, Option.bind_eq_bind, Option.bind_some,
            Option.bind_eq_some_iff] at h
          obtain ⟨_, ⟨v', _, es, _, hentries⟩, heq⟩ := h
          cases hentries
          have hobject : insertAll [] ((k, v') :: es) = [(rawKey, t)] :=
            Json.object.inj (Option.some.inj heq)
          have hmem : k ∈ (insertAll [] ((k, v') :: es)).map (·.1) :=
            mem_keys_insertAll.mpr (.inr List.mem_cons_self)
          rw [hobject] at hmem
          exact hk (List.mem_singleton.mp hmem)

theorem ofTextWithin_ne_raw (fuel : Nat) (s : String) (t : Json) :
    ofTextWithin fuel s ≠ some (.object [(rawKey, t)]) := by
  induction fuel generalizing s t with
  | zero => rw [ofTextWithin]; exact (Option.some_ne_none _).symm
  | succ fuel ih =>
    rw [ofTextWithin]
    cases Written.ofText? s.toList with
    | none => exact (Option.some_ne_none _).symm
    | some w => exact value?_ne_raw ih depthLimit w t

end

/-- A kept value comes back from its text exactly if it is literal. -/
theorem value?_written_iff {depth : Nat} {j : Json} (h : j.Kept depth) :
    value? reread depth j.written = some j ↔ j.isLiteral = true :=
  ⟨isLiteral_of_value? (fun s t => ofTextWithin_ne_raw _ s t) j h, value?_written h⟩

/-! ## Texts -/

mutual

theorem isFloatFree_of_kept : ∀ {depth : Nat} (j : Json), j.Kept depth → j.isFloatFree = true
  | _, .null, _ => rfl
  | _, .bool b, _ => rfl
  | _, .number (.integer n), _ => rfl
  | _, .number (.float x), h => by rw [Kept] at h; cases h
  | _, .string s, _ => rfl
  | depth + 1, .array items, h => by
    rw [Kept] at h
    exact itemsFloatFree_of_kept items h
  | depth + 1, .object entries, h => by
    rw [Kept] at h
    exact entriesFloatFree_of_kept entries h.2
  | 0, .array items, h => by rw [Kept] at h; cases h
  | 0, .object entries, h => by rw [Kept] at h; cases h

theorem itemsFloatFree_of_kept : ∀ {depth : Nat} (items : List Json), KeptItems depth items →
    itemsFloatFree items = true
  | _, [], _ => rfl
  | _, x :: xs, h => by
    rw [KeptItems] at h
    rw [itemsFloatFree, isFloatFree_of_kept x h.1, itemsFloatFree_of_kept xs h.2]
    rfl

theorem entriesFloatFree_of_kept : ∀ {depth : Nat} (entries : List (String × Json)),
    KeptEntries depth entries → entriesFloatFree entries = true
  | _, [], _ => rfl
  | _, (k, v) :: rest, h => by
    rw [KeptEntries] at h
    rw [entriesFloatFree, isFloatFree_of_kept v h.1, entriesFloatFree_of_kept rest h.2]
    rfl

end

theorem ofText?_text {depth : Nat} {j : Json} (h : j.Kept depth) :
    Written.ofText? j.text.toList = some j.written := by
  rw [text, String.toList_ofList, ofText?_compact (isFloatFree_of_kept j h)]

/-- The text of a kept object reads back as the object exactly if its entries are literal. -/
theorem objectOfText?_text_iff {entries : List (String × Json)}
    (h : (Json.object entries).Kept depthLimit) :
    objectOfText? (Json.object entries).text = some entries ↔ entriesLiteral entries = true := by
  have hread := ofText?_text h
  rw [written] at hread
  obtain ⟨hordered, hkept⟩ : (entries.Pairwise fun a b => a.1 < b.1) ∧
      KeptEntries (depthLimit - 1) entries := h
  simp only [objectOfText?, hread, Option.bind_eq_bind, Option.bind_some]
  constructor
  · intro hentries
    cases hes : entries? reread (depthLimit - 1) (writtenEntries entries) with
    | none => rw [hes] at hentries; cases hentries
    | some es =>
      rw [hes] at hentries
      rw [Option.bind_some, ofEntries_of_ordered (ordered_of_entries? hordered hes)] at hentries
      cases hentries
      exact entriesLiteral_of_entries? (fun s t => ofTextWithin_ne_raw _ s t) entries hkept hes
  · intro hliteral
    rw [entries?_of_denotes (denotesEntries_written entries hkept hliteral), Option.bind_some, ofEntries_of_ordered hordered]

/-- An object with a literal value's text under `rawKey` alone is read as that value. -/
theorem value?_rawKey {depth : Nat} {j : Json} (h : j.Kept depthLimit)
    (hliteral : j.isLiteral = true) :
    value? reread (depth + 1) (Json.object [(rawKey, .string j.text)]).written = some j := by
  simp only [written, writtenEntries, value?, if_true]
  rw [reread, ofTextWithin, ofText?_text h]
  exact value?_written h hliteral

/-- An object that holds such an object is read as one that holds the value. -/
theorem objectOfText?_rawKey {key : String} {j : Json} (h : j.Kept depthLimit)
    (hliteral : j.isLiteral = true) :
    objectOfText? (Json.object [(key, .object [(rawKey, .string j.text)])]).text =
      some [(key, j)] := by
  have hread :
      Written.ofText? (Json.object [(key, .object [(rawKey, .string j.text)])]).text.toList =
        some (Json.object [(key, .object [(rawKey, .string j.text)])]).written := by
    rw [text, String.toList_ofList, ofText?_compact rfl]
  have hvalue : value? reread (depthLimit - 1) (Json.object [(rawKey, .string j.text)]).written =
      some j := value?_rawKey h hliteral
  have hentries : entries? reread (depthLimit - 1)
      (writtenEntries [(key, .object [(rawKey, .string j.text)])]) = some [(key, j)] := by
    simp only [writtenEntries, entries?, Option.bind_eq_bind, Option.bind_some, hvalue]
    rfl
  rw [written] at hread
  simp only [objectOfText?, hread, Option.bind_eq_bind, Option.bind_some, hentries]
  rfl

theorem ofInt_injective {m n : Int} (h : NumberText.ofInt m = NumberText.ofInt n) : m = n := by
  simp only [NumberText.ofInt, NumberText.mk.injEq, decide_eq_decide] at h
  have habs : m.natAbs = n.natAbs := by
    have hread := congrArg (Nat.ofDigitChars 10 · 0) h.2.1
    simpa [Nat.ofDigitChars_ten_toDigits] using hread
  omega

mutual

/-- What is written tells the value. -/
theorem eq_of_written_eq : ∀ (j j' : Json), j.isFloatFree = true → j'.isFloatFree = true →
    j.written = j'.written → j = j'
  | .number (.float x), _, h, _, _ => by cases h
  | .null, j', _, h', heq => by
    rcases j' with _ | _ | (_ | _) | _ | _ | _ <;> simp [written, isFloatFree] at heq h' ⊢
  | .bool b, j', _, h', heq => by
    rcases j' with _ | _ | (_ | _) | _ | _ | _ <;> simp [written, isFloatFree] at heq h' ⊢
    exact heq
  | .number (.integer n), j', _, h', heq => by
    rcases j' with _ | _ | (_ | _) | _ | _ | _ <;> simp [written, isFloatFree] at heq h' ⊢
    exact ofInt_injective heq
  | .string s, j', _, h', heq => by
    rcases j' with _ | _ | (_ | _) | _ | _ | _ <;> simp [written, isFloatFree] at heq h' ⊢
    exact heq
  | .array items, j', h, h', heq => by
    rcases j' with _ | _ | (_ | _) | _ | _ | _ <;> simp [written, isFloatFree] at heq h' ⊢
    exact eq_of_writtenItems_eq items _ h h' heq
  | .object entries, j', h, h', heq => by
    rcases j' with _ | _ | (_ | _) | _ | _ | _ <;> simp [written, isFloatFree] at heq h' ⊢
    exact eq_of_writtenEntries_eq entries _ h h' heq

theorem eq_of_writtenItems_eq : ∀ (xs ys : List Json), itemsFloatFree xs = true →
    itemsFloatFree ys = true → writtenItems xs = writtenItems ys → xs = ys
  | [], [], _, _, _ => rfl
  | [], _ :: _, _, _, heq => by simp [writtenItems] at heq
  | _ :: _, [], _, _, heq => by simp [writtenItems] at heq
  | x :: xs, y :: ys, hx, hy, heq => by
    simp only [itemsFloatFree, Bool.and_eq_true] at hx hy
    simp only [writtenItems, List.cons.injEq] at heq
    rw [eq_of_written_eq x y hx.1 hy.1 heq.1, eq_of_writtenItems_eq xs ys hx.2 hy.2 heq.2]

theorem eq_of_writtenEntries_eq : ∀ (es fs : List (String × Json)), entriesFloatFree es = true →
    entriesFloatFree fs = true → writtenEntries es = writtenEntries fs → es = fs
  | [], [], _, _, _ => rfl
  | [], _ :: _, _, _, heq => by simp [writtenEntries] at heq
  | _ :: _, [], _, _, heq => by simp [writtenEntries] at heq
  | (k, v) :: es, (k', v') :: fs, he, hf, heq => by
    simp only [entriesFloatFree, Bool.and_eq_true] at he hf
    simp only [writtenEntries, List.cons.injEq, Prod.mk.injEq, Option.some.injEq] at heq
    rw [heq.1.1, eq_of_written_eq v v' he.1 hf.1 heq.1.2,
      eq_of_writtenEntries_eq es fs he.2 hf.2 heq.2]

end

/-- Values without floats that have one text are one. -/
theorem eq_of_text_eq {j j' : Json} (h : j.isFloatFree = true) (h' : j'.isFloatFree = true)
    (heq : j.text = j'.text) : j = j' := by
  have hread := ofText?_compact h
  have hchars : j.compact = j'.compact := String.ofList_inj.mp heq
  rw [hchars, ofText?_compact h', Option.some.injEq] at hread
  exact (eq_of_written_eq j' j h' h hread).symm

end Json
end TenantRegistry
