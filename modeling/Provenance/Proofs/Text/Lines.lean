import Provenance.Text.Lines

/-!
Lines of a text: it is split at its first line break, and is one line if there is none.
-/
namespace Provenance.Text

variable {cs ds : List Char} {s t : String}

theorem linesOf_ne_nil (cs : List Char) : linesOf cs ≠ [] := by
  cases cs with
  | nil => exact List.cons_ne_nil _ _
  | cons c cs =>
    unfold linesOf
    split
    · exact List.cons_ne_nil _ _
    · split <;> exact List.cons_ne_nil _ _

theorem linesOf_of_not_mem (h : '\n' ∉ cs) : linesOf cs = [cs] := by
  induction cs with
  | nil => rfl
  | cons c cs ih =>
    rw [List.mem_cons, not_or] at h
    simp [linesOf, ih h.2, Ne.symm h.1]

theorem linesOf_append_break (h : '\n' ∉ cs) : linesOf (cs ++ '\n' :: ds) = cs :: linesOf ds := by
  induction cs with
  | nil =>
    obtain ⟨l, ls, hds⟩ := List.exists_cons_of_ne_nil (linesOf_ne_nil ds)
    simp [linesOf, hds]
  | cons c cs ih =>
    rw [List.mem_cons, not_or] at h
    simp [linesOf, ih h.2, Ne.symm h.1]

theorem lines_of_not_mem (h : '\n' ∉ s.toList) : lines s = [s] := by
  simp [lines, linesOf_of_not_mem h]

theorem lines_append_break (h : '\n' ∉ s.toList) : lines (s ++ "\n" ++ t) = s :: lines t := by
  simp [lines, linesOf_append_break h]

example : lines "a\nb\n" = ["a", "b", ""] := by decide

end Provenance.Text
