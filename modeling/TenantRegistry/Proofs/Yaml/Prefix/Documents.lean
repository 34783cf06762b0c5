import TenantRegistry.Proofs.Yaml.Prefix.Nodes

/-!
Documents of a text, read in a longer one.

`Document.ofText_parted`: if a text that ends with a line has no malformed document, its documents
are the first ones of the text that goes on with a line `---`. A text without content is set apart,
since it stands for one empty document on its own and for none before others.
-/

namespace TenantRegistry.Yaml

namespace Reader

variable {ts ls : List Token} {fuel fuel' : Nat}

theorem follows_explicitContent (h : fuel ≤ fuel') :
    Follows (explicitContent fuel) (explicitContent fuel') := by
  refine .look (fun _ _ _ => rfl) fun t u hal ts ls hs as n hparted => ?_
  cases hal with
  | ends m stop => exact (follows_nothing m).here hparted
  | same t =>
    exact (Follows.ite (fun _ => follows_nothing _) fun _ => (keeps h).node true false).here hparted

/-- A document that is not malformed is read from the long text as well. -/
theorem document_parted {root : Nat → StateM Reader Node}
    (hroot : ∀ {fuel fuel' : Nat}, fuel ≤ fuel' → Follows (root fuel) (root fuel'))
    {handles : List (List Char × List UInt8)} (hp : Parted ts ls)
    (h : (document handles ts root).1.faulty = false) :
    (document handles ls root).1 = (document handles ts root).1 ∧
      Parted (document handles ts root).2 (document handles ls root).2 := by
  have hle : 4 * ts.length + 4 ≤ 4 * ls.length + 4 := by
    have hlength := hp.length_le
    omega
  have hleft : (root (4 * ts.length + 4) ⟨ts, handles, [], 0⟩).2.tokens ≠ [] :=
    List.isEmpty_eq_false_iff.mp h
  obtain ⟨hvalue, hm⟩ := (hroot hle).here hp hleft
  refine ⟨?_, hm.tokens⟩
  have hempty : ∀ {tokens : List Token}, tokens ≠ [] → tokens.isEmpty = false :=
    List.isEmpty_eq_false_iff.mpr
  change Document.mk _ _ (List.isEmpty _) = Document.mk _ _ (List.isEmpty _)
  rw [hempty hleft, hempty (hm.tokens.ne_nil hleft)]
  exact congrArg₂ (Document.mk · · false) hvalue hm.size

theorem directives_parted {handles handles' : List (List Char × List UInt8)} {versioned : Bool}
    {rest : List Token} (hp : Parted ts ls)
    (h : directives handles versioned ts = some (handles', rest)) (hrest : rest ≠ []) :
    ∃ rest', directives handles versioned ls = some (handles', rest') ∧ Parted rest rest' := by
  induction hp generalizing handles versioned with
  | cut later =>
    cases h
    exact absurd rfl hrest
  | ends m stop later =>
    cases h
    exact ⟨_, rfl, .ends m stop later⟩
  | cons t hp ih =>
    obtain ⟨start, stop, kind⟩ := t
    cases kind with
    | versionDirective major minor =>
      rw [directives] at h ⊢
      split at h
      · cases h
      · next hunderstood =>
        rw [if_neg hunderstood]
        exact ih h
    | tagDirective handle tagPrefix =>
      rw [directives] at h ⊢
      split at h
      · cases h
      · next hnew =>
        rw [if_neg hnew]
        exact ih h
    | _ =>
      cases h
      exact ⟨_, rfl, .cons _ hp⟩

theorem skipEnds_parted (hp : Parted ts ls) : Parted (skipEnds ts) (skipEnds ls) := by
  induction hp with
  | cut later => exact .cut _
  | ends m stop later => exact .ends m stop later
  | cons t hp ih =>
    rw [skipEnds, skipEnds, List.dropWhile_cons, List.dropWhile_cons]
    split
    · exact ih
    · exact .cons t hp

/-- A document and what is read after it, which is nothing if the document is malformed. -/
theorem document_then {root : Nat → StateM Reader Node}
    (hroot : ∀ {fuel fuel' : Nat}, fuel ≤ fuel' → Follows (root fuel) (root fuel'))
    {handles : List (List Char × List UInt8)} {later later' : List Token → List Document}
    (hlater : ∀ {ts ls : List Token}, Parted ts ls → (∀ d ∈ later ts, d.faulty = false) →
      ∃ more, later' ls = later ts ++ more) (hp : Parted ts ls)
    (h : ∀ d ∈ (if (document handles ts root).1.faulty then [(document handles ts root).1]
      else (document handles ts root).1 :: later (document handles ts root).2), d.faulty = false) :
    ∃ more, (if (document handles ls root).1.faulty then [(document handles ls root).1]
      else (document handles ls root).1 :: later' (document handles ls root).2) =
        (if (document handles ts root).1.faulty then [(document handles ts root).1]
          else (document handles ts root).1 :: later (document handles ts root).2) ++ more := by
  have hfaulty : (document handles ts root).1.faulty = false := by
    split at h
    · exact h _ List.mem_cons_self
    · exact h _ List.mem_cons_self
  obtain ⟨hsame, hafter⟩ := document_parted hroot hp hfaulty
  rw [hfaulty, if_neg Bool.false_ne_true] at h
  obtain ⟨more, hmore⟩ := hlater hafter (List.forall_mem_cons.mp h).2
  exact ⟨more, by rw [hsame, hfaulty, hmore]; rfl⟩

/-- A later document starts with `---`, after its directives. -/
theorem laterDocuments_of_start {handles : List (List Char × List UInt8)} {m stop : Mark}
    {rest : List Token}
    (h : directives [] false (skipEnds ts) = some (handles, ⟨m, stop, .documentStart⟩ :: rest)) :
    laterDocuments (fuel + 1) ts =
      if (document handles rest explicitContent).1.faulty then
        [(document handles rest explicitContent).1]
      else (document handles rest explicitContent).1 ::
        laterDocuments fuel (document handles rest explicitContent).2 := by
  rw [laterDocuments]
  split
  · next heq =>
    rw [heq] at h
    cases h
  · rw [h]

/-- After a document comes the end, the start of another one or a fault. -/
theorem laterDocuments_cases (h : ∀ d ∈ laterDocuments (fuel + 1) ts, d.faulty = false) :
    laterDocuments (fuel + 1) ts = [] ∨ ∃ handles m stop rest,
      directives [] false (skipEnds ts) = some (handles, ⟨m, stop, .documentStart⟩ :: rest) := by
  rw [laterDocuments] at h ⊢
  split at h
  · exact .inl rfl
  · split at h
    · next handles m stop rest hdirectives => exact .inr ⟨handles, m, stop, rest, hdirectives⟩
    · exact Bool.noConfusion (h _ List.mem_cons_self)

/-- The documents from some place on are the first ones of the long text from there on. -/
theorem laterDocuments_parted (hle : fuel ≤ fuel') (hp : Parted ts ls)
    (h : ∀ d ∈ laterDocuments fuel ts, d.faulty = false) :
    ∃ more, laterDocuments fuel' ls = laterDocuments fuel ts ++ more := by
  induction fuel generalizing fuel' ts ls with
  | zero => exact Bool.noConfusion (h _ List.mem_cons_self)
  | succ fuel ih =>
    obtain ⟨fuel', rfl⟩ := Nat.exists_eq_add_of_le' (Nat.one_le_of_lt hle)
    rcases laterDocuments_cases h with hnone | ⟨handles, m, stop, rest, hdirectives⟩
    · exact ⟨_, by rw [hnone]; rfl⟩
    · obtain ⟨_, hlong, hrest⟩ := directives_parted (skipEnds_parted hp) hdirectives
        (List.cons_ne_nil _ _)
      cases hrest with
      | cons t hrest =>
        rw [laterDocuments_of_start hdirectives] at h ⊢
        rw [laterDocuments_of_start hlong]
        exact document_then follows_explicitContent (ih (Nat.le_of_succ_le_succ hle)) hrest h

end Reader

/-- The document that a text without content stands for. -/
def Document.void (m : Mark) : Document :=
  ⟨.scalar ⟨m, none, none⟩ .plain "", 1, false⟩

open Reader in
/-- The documents of the short text are those that the long text starts with, if none of them is
malformed. -/
theorem Document.ofText_parted {short long : String}
    (hp : Parted (Token.ofText short.toList).1 (Token.ofText long.toList).1)
    (h : ∀ d ∈ Document.ofText short, d.faulty = false) :
    (∃ m, Document.ofText short = [.void m]) ∨
      ∃ more, Document.ofText long = Document.ofText short ++ more := by
  have hroot : ∀ {fuel fuel' : Nat}, fuel ≤ fuel' →
      Follows (node true false fuel) (node true false fuel') := fun hle => (keeps hle).node _ _
  unfold Document.ofText at h ⊢
  generalize Token.ofText short.toList = first at h hp
  generalize Token.ofText long.toList = second at hp
  obtain ⟨ts, _⟩ := first
  obtain ⟨ls, _⟩ := second
  have hle := Nat.succ_le_succ hp.length_le
  dsimp only at hp h hle ⊢
  cases hp with
  | cut later => exact Bool.noConfusion (h _ List.mem_cons_self)
  | ends m stop later => exact .inl ⟨m, rfl⟩
  | cons t hp =>
    obtain ⟨start, stop, kind⟩ := t
    have hall := Parted.cons ⟨start, stop, kind⟩ hp
    cases kind with
    | streamEnd => exact .inl ⟨start, rfl⟩
    | versionDirective | tagDirective | documentStart =>
      exact .inr (laterDocuments_parted hle hall h)
    | _ => exact .inr (document_then hroot (laterDocuments_parted hle) hall h)

end TenantRegistry.Yaml
