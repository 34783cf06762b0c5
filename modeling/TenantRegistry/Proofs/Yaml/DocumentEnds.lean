import TenantRegistry.Proofs.Yaml.WrittenLines

/-!
The line break at the end of a document.

A document ends with a line feed that is added, or with the break that a literal block ends with
if the text written last is one (`Tree.closing`). Such a break is a line feed or one of U+2028 and
U+2029, which literal blocks hold as they are.
-/

namespace TenantRegistry.Yaml.Tree

open ScalarText (form endsWith literalLines)

mutual

/-- The text that is written last of a value, if that is a text. -/
def lastText? : Tree → Option String
  | .string s => some s
  | .sequence items => lastOfItems? items
  | .mapping entries => lastOfEntries? entries
  | .tagged _ value => value.lastText?
  | _ => none

def lastOfItems? : List Tree → Option String
  | [] => none
  | [t] => t.lastText?
  | _ :: t :: ts => lastOfItems? (t :: ts)

def lastOfEntries? : List (Tree × Tree) → Option String
  | [] => none
  | [(_, v)] => v.lastText?
  | _ :: e :: es => lastOfEntries? (e :: es)

end

/-- The line break that ends a literal block, if a text is written as one. -/
def literalEnd? (text : String) : Option Char :=
  if form false text = .literal then text.toList.getLast?.filter isBreakChar else none

/-- The break at the end of a value. -/
def ownEnd? (t : Tree) : Option Char :=
  t.lastText?.bind literalEnd?

@[simp]
theorem ownEnd?_sequence_single (t : Tree) : ownEnd? (.sequence [t]) = t.ownEnd? := rfl

@[simp]
theorem ownEnd?_sequence_cons (t t' : Tree) (ts : List Tree) :
    ownEnd? (.sequence (t :: t' :: ts)) = ownEnd? (.sequence (t' :: ts)) := rfl

@[simp]
theorem ownEnd?_mapping_single (k v : Tree) : ownEnd? (.mapping [(k, v)]) = v.ownEnd? := rfl

@[simp]
theorem ownEnd?_mapping_cons (e e' : Tree × Tree) (es : List (Tree × Tree)) :
    ownEnd? (.mapping (e :: e' :: es)) = ownEnd? (.mapping (e' :: es)) := rfl

theorem ownEnd?_mapping_append (es : List (Tree × Tree)) (k v : Tree) :
    ownEnd? (.mapping (es ++ [(k, v)])) = v.ownEnd? := by
  induction es with
  | nil => rfl
  | cons e rest ih =>
    cases rest with
    | nil => rfl
    | cons => exact ih

/-- The line break at the end of a document. -/
def closing (t : Tree) : Char :=
  t.ownEnd?.getD '\n'

theorem simpleKey_valuePlace (k : Tree) : (valuePlace k).simpleKey = false := by
  unfold valuePlace
  split <;> rfl

/-- Output ends with a break, if there is one, and says so. -/
structure Ends (last? : Option Char) (out : Output) : Prop where
  ended : out.ended = last?.isSome
  last : ∀ c ∈ last?, out.text.getLast? = some c

theorem Ends.line (text : List Char) : Ends none (.line text) :=
  ⟨rfl, nofun⟩

theorem Ends.after {last? : Option Char} {out : Output} (h : Ends last? out) (before : List Char) :
    Ends last? ⟨before ++ out.text, out.ended⟩ where
  ended := h.ended
  last c hc := by rw [List.getLast?_append, h.last c hc]; rfl

theorem getLast?_literalLines (indent : Nat) (afterBreak : Bool) (cs : List Char) :
    (literalLines indent afterBreak cs).getLast? = cs.getLast? := by
  induction cs generalizing afterBreak with
  | nil => rfl
  | cons c rest ih =>
    unfold literalLines
    split
    · rw [List.getLast?_cons, List.getLast?_cons, ih]
    · rw [List.getLast?_append, List.getLast?_cons, List.getLast?_cons, ih]
      rfl

theorem ends_scalar (pl : Place) (indent : Nat) (text : String) :
    let written := ScalarText.write (form false text) indent text.toList
    Ends (literalEnd? text) ⟨lead pl ++ written.1, written.2⟩ := by
  unfold literalEnd?
  cases hform : form false text with
  | literal =>
    refine ⟨?_, fun c hc => ?_⟩
    · simp only [ScalarText.write, if_true, endsWith]
      cases text.toList.getLast? <;> simp [Option.filter, apply_ite]
    · simp only [if_true, Option.mem_def, Option.filter_eq_some_iff] at hc
      simp only [ScalarText.write, List.getLast?_append, List.getLast?_cons,
        getLast?_literalLines, hc.1]
      rfl
  | plain | single | double => exact ⟨rfl, nofun⟩

theorem Ends.entry {last? : Option Char} {value : Output} (h : Ends last? value) (simple : Bool)
    (indent : Nat) (key : Output) : Ends last? (Output.entry simple indent key value) := by
  unfold Output.entry
  split
  · simpa using h.after (key.text ++ [':'])
  · simpa using h.after ('?' :: key.text ++ Output.newLine key.ended indent ++ [':'])

mutual

theorem ends_write : ∀ (t : Tree) {indent : Option Nat} {pl : Place} {out : Output},
    write indent pl t = some out → pl.simpleKey = false → Ends t.ownEnd? out
  | .null, _, _, _, h, _ => by cases h; exact .line _
  | .bool b, _, _, _, h, _ => by cases h; exact .line _
  | .number n, _, _, _, h, _ => by cases h; exact .line _
  | .string text, indent, pl, _, h, hkey => by
    rw [write, hkey] at h
    cases h
    exact ends_scalar pl _ text
  | .sequence [], _, _, _, h, _ => by cases h; exact .line _
  | .sequence (t :: ts), indent, pl, _, h, _ => by
    simp only [write, Option.bind_eq_bind, Option.bind_eq_some_iff] at h
    obtain ⟨first, hfirst, rest, hrest, hout⟩ := h
    cases hout
    simpa using ends_items ts (blockLead pl _ ++ ['-']) (ends_write t hfirst rfl) hrest
  | .mapping [], _, _, _, h, _ => by cases h; exact .line _
  | .mapping ((k, v) :: es), indent, pl, _, h, _ => by
    simp only [write, Option.bind_eq_bind, Option.bind_eq_some_iff] at h
    obtain ⟨key, hkey, value, hvalue, rest, hrest, hout⟩ := h
    cases hout
    exact ends_entries es _ ((ends_write v hvalue (simpleKey_valuePlace k)).entry _ _ _) hrest
  | .tagged tag value, indent, pl, _, h, hkey => by
    obtain ⟨inner, hinner, rfl⟩ := write_tagged h
    exact (ends_write value hinner hkey).after _

/-- The last of some items ends their output. -/
theorem ends_items : ∀ (ts : List Tree) {t : Tree} {indent : Nat} {first rest : Output}
    (before : List Char), Ends t.ownEnd? first → writeItems indent first.ended ts = some rest →
      Ends (ownEnd? (.sequence (t :: ts))) ⟨before ++ first.text ++ rest.text, rest.ended⟩
  | [], _, _, _, _, before, hfirst, h => by
    cases h
    simpa using hfirst.after before
  | t' :: ts, t, indent, first, _, before, hfirst, h => by
    simp only [writeItems, Option.bind_eq_bind, Option.bind_eq_some_iff] at h
    obtain ⟨first', hfirst', rest', hrest', hout⟩ := h
    cases hout
    simpa using (ends_items ts (Output.newLine first.ended indent ++ ['-'])
      (ends_write t' hfirst' rfl) hrest').after (before ++ first.text)

/-- The value of the last of some entries ends their output. -/
theorem ends_entries : ∀ (es : List (Tree × Tree)) {k v : Tree} {indent : Nat}
    {first rest : Output} (before : List Char), Ends v.ownEnd? first →
      writeEntries indent first.ended es = some rest →
      Ends (ownEnd? (.mapping ((k, v) :: es))) ⟨before ++ first.text ++ rest.text, rest.ended⟩
  | [], _, _, _, _, _, before, hfirst, h => by
    cases h
    simpa using hfirst.after before
  | (k', v') :: es, k, v, indent, first, _, before, hfirst, h => by
    simp only [writeEntries, Option.bind_eq_bind, Option.bind_eq_some_iff] at h
    obtain ⟨key, hkey, value, hvalue, rest', hrest', hout⟩ := h
    cases hout
    simpa using (ends_entries es (Output.newLine first.ended indent)
      ((ends_write v' hvalue (simpleKey_valuePlace k')).entry _ _ _) hrest').after
        (before ++ first.text)

end

theorem getLast?_render {t : Tree} {cs : List Char} (h : t.render = some cs) :
    cs.getLast? = some t.closing := by
  obtain ⟨out, hout, hcs⟩ := Option.bind_eq_some_iff.mp h
  have hends := ends_write t hout rfl
  cases hcs
  unfold closing
  cases hlast : t.ownEnd? with
  | none =>
    have hended : out.ended = false := by rw [hends.ended, hlast]; rfl
    rw [hended]
    simp
  | some c =>
    have hended : out.ended = true := by rw [hends.ended, hlast]; rfl
    rw [hended]
    exact hends.last c hlast

theorem literalEnd?_mem {text : String} {c : Char} (h : literalEnd? text = some c) :
    c ∈ ['\n', '\u2028', '\u2029'] := by
  unfold literalEnd? at h
  split at h
  · next hform =>
    rw [Option.filter_eq_some_iff] at h
    obtain ⟨hlast, hbreak⟩ := h
    have hallowed := (ScalarText.literal_of_form hform).2
    simp only [ScalarText.literalAllowed, Bool.and_eq_true] at hallowed
    have hprintable : ScalarText.isPrintable c = true :=
      List.all_eq_true.mp hallowed.2 c (List.mem_of_getLast? hlast)
    simp only [isBreakChar, Bool.or_eq_true, beq_iff_eq] at hbreak
    -- CR and NEL are not printable, so texts with them are in double quotes.
    rcases hbreak with (((rfl | rfl) | rfl) | rfl) | rfl <;> first | decide | cases hprintable
  · cases h

/-- What ends a document is a line feed or one of the two breaks that texts may hold as they
are. -/
theorem closing_mem (t : Tree) : t.closing ∈ ['\n', '\u2028', '\u2029'] := by
  unfold closing
  cases hlast : t.ownEnd? with
  | none => simp
  | some c =>
    obtain ⟨text, -, hend⟩ := Option.bind_eq_some_iff.mp hlast
    exact literalEnd?_mem hend

theorem isBreakChar_closing (t : Tree) : isBreakChar t.closing = true := by
  have hmem := t.closing_mem
  simp only [List.mem_cons, List.not_mem_nil, or_false] at hmem
  rcases hmem with h | h | h <;> rw [h] <;> rfl

end TenantRegistry.Yaml.Tree
