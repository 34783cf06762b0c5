import Mathlib
import TenantRegistry.Text.Blank

/-!
What is left of a text by trimming.

A text is what is left of it between two runs of what is trimmed away (`exists_trimBy`), and
nothing else is left of a text in two such runs (`trimBy_append`). Letters are no white space.
-/

namespace TenantRegistry.Text

theorem head?_dropWhile_of_mem {p : Char → Bool} {cs : List Char} {c : Char}
    (h : c ∈ (cs.dropWhile p).head?) : p c = false := by
  have hnot := List.head?_dropWhile_not p cs
  rw [Option.mem_def.mp h] at hnot
  simpa using hnot

/-- A text is what is left of it by trimming, between two runs of what is trimmed away. -/
theorem exists_trimBy (p : Char → Bool) (cs : List Char) :
    ∃ before after, cs = before ++ trimBy p cs ++ after ∧
      (∀ c ∈ before ++ after, p c = true) ∧ (∀ c ∈ (trimBy p cs).head?, p c = false) ∧
      ∀ c ∈ (trimBy p cs).getLast?, p c = false := by
  set rest := cs.dropWhile p with hrest
  have hsplit : rest = trimBy p cs ++ (rest.reverse.takeWhile p).reverse := by
    rw [trimBy, ← hrest, ← List.reverse_append, List.takeWhile_append_dropWhile,
      List.reverse_reverse]
  refine ⟨cs.takeWhile p, (rest.reverse.takeWhile p).reverse, ?_, ?_, ?_, ?_⟩
  · rw [List.append_assoc, ← hsplit, hrest, List.takeWhile_append_dropWhile]
  · intro c hc
    rcases List.mem_append.mp hc with hc | hc
    · exact List.mem_takeWhile_imp hc
    · exact List.mem_takeWhile_imp (List.mem_reverse.mp hc)
  · intro c hc
    have hhead : c ∈ (cs.dropWhile p).head? := by
      rw [← hrest, hsplit, List.head?_append, Option.mem_def.mp hc]
      rfl
    exact head?_dropWhile_of_mem hhead
  · intro c hc
    rw [trimBy, List.getLast?_reverse] at hc
    exact head?_dropWhile_of_mem hc

theorem dropWhile_append_of_head {p : Char → Bool} {before rest : List Char}
    (hbefore : ∀ c ∈ before, p c = true) (hhead : ∀ c ∈ rest.head?, p c = false) :
    (before ++ rest).dropWhile p = rest := by
  rw [List.dropWhile_append_of_pos hbefore]
  cases rest with
  | nil => rfl
  | cons c rest => rw [List.dropWhile_cons_of_neg (by simp [hhead c rfl])]

/-- What is between two runs of what is trimmed away, and has none of it at its ends, is left. -/
theorem trimBy_append {p : Char → Bool} {before core after : List Char}
    (hends : ∀ c ∈ before ++ after, p c = true) (hhead : ∀ c ∈ core.head?, p c = false)
    (hlast : ∀ c ∈ core.getLast?, p c = false) (hne : core ≠ []) :
    trimBy p (before ++ core ++ after) = core := by
  obtain ⟨hbefore, hafter⟩ := List.forall_mem_append.mp hends
  have hhead' : ∀ c ∈ (core ++ after).head?, p c = false := by
    obtain ⟨c, rest, rfl⟩ := List.exists_cons_of_ne_nil hne
    exact hhead
  have hlast' : ∀ c ∈ core.reverse.head?, p c = false := by
    rwa [List.head?_reverse]
  rw [trimBy, List.append_assoc, dropWhile_append_of_head hbefore hhead', List.reverse_append,
    dropWhile_append_of_head (fun c hc => hafter c (List.mem_reverse.mp hc)) hlast',
    List.reverse_reverse]

/-- A letter of ASCII is no white space. -/
theorem isBlank_of_isAlpha {c : Char} (h : c.isAlpha = true) : isBlank c = false := by
  have hcode : (65 ≤ c.toNat ∧ c.toNat ≤ 90) ∨ (97 ≤ c.toNat ∧ c.toNat ≤ 122) := by
    simpa [Char.isAlpha, Char.isUpper, Char.isLower, UInt32.le_iff_toNat_le] using h
  rw [Bool.eq_false_iff]
  intro hblank
  simp only [isBlank, Bool.or_eq_true, Bool.and_eq_true, decide_eq_true_eq,
    beq_iff_eq] at hblank
  omega

end TenantRegistry.Text
