/-!
The pieces of a text between separators.
-/

namespace TenantRegistry.Text

/-- The pieces between the characters that `p` holds of: always one more than there are such
characters. -/
def pieces (p : Char → Bool) : List Char → List (List Char)
  | [] => [[]]
  | c :: rest =>
    if p c then [] :: pieces p rest
    else
      match pieces p rest with
      | [] => [[c]]
      | piece :: others => (c :: piece) :: others

theorem pieces_of_forall_not {p : Char → Bool} {cs : List Char} (h : ∀ c ∈ cs, p c = false) :
    pieces p cs = [cs] := by
  induction cs with
  | nil => rfl
  | cons c rest ih =>
    have hc : p c = false := h c (by simp)
    have hr := ih fun d hd => h d (by simp [hd])
    simp [pieces, hc, hr]

end TenantRegistry.Text
