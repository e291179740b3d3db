import Provenance.Proofs.Command.Reports
import Provenance.Proofs.Text.Lines

/-!
What stands on the streams. A text with line breaks is seen as several lines, so a line that a command does not print
may stand inside of one that it does.
-/
namespace Provenance.Command

namespace Output

variable {o : Output} {style : LogStyle} {t line success failure : String} {verified attested : Prop}

theorem mem_texts_iff : t ∈ o.texts style ↔
    .text t ∈ o.printed ∨ ∃ i, ∃ h : i < o.printed.length, ∃ e, o.printed[i] = .entry e ∧ style.render i e = t := by
  simp only [texts, List.mem_mapIdx, List.mem_iff_getElem (a := Printed.text t)]
  constructor
  · rintro ⟨i, hi, h⟩
    cases hx : o.printed[i] with
    | text t' =>
      rw [hx] at h
      obtain rfl : t' = t := h
      exact .inl ⟨i, hi, hx⟩
    | entry e =>
      rw [hx] at h
      exact .inr ⟨i, hi, e, hx, h⟩
  · rintro (⟨i, hi, hx⟩ | ⟨i, hi, e, hx, h⟩)
    · exact ⟨i, hi, by rw [hx]⟩
    · exact ⟨i, hi, by rw [hx]; exact h⟩

/-- One of the lines on the two streams. -/
def Shows (o : Output) (style : LogStyle) (line : String) : Prop :=
  ∃ t ∈ o.texts style ++ o.err, line ∈ Text.lines t

/-- One of several lines that were printed at a time. -/
def Embeds (o : Output) (style : LogStyle) (line : String) : Prop :=
  ∃ t ∈ o.texts style ++ o.err, '\n' ∈ t.toList ∧ line ∈ Text.lines t

/-- A line without colons is neither an entry nor a reason. -/
theorem shows_iff (hline : ':' ∉ line.toList ∧ '\n' ∉ line.toList) (herr : ∀ t ∈ o.err, ':' ∈ t.toList) :
    o.Shows style line ↔ .text line ∈ o.printed ∨ o.Embeds style line := by
  constructor
  · rintro ⟨t, ht, hl⟩
    by_cases hbreak : '\n' ∈ t.toList
    · exact .inr ⟨t, ht, hbreak, hl⟩
    · rw [Text.lines_of_not_mem hbreak, List.mem_singleton] at hl
      subst hl
      left
      rcases List.mem_append.mp ht with ht | ht
      · obtain ht | ⟨i, -, e, -, rfl⟩ := mem_texts_iff.mp ht
        · exact ht
        · exact absurd (style.marked i e) hline.1
      · exact absurd (herr line ht) hline.1
  · rintro (ht | ⟨t, ht, -, hl⟩)
    · refine ⟨line, List.mem_append_left _ (mem_texts_iff.mpr (.inl ht)), ?_⟩
      rw [Text.lines_of_not_mem hline.2]
      exact List.mem_cons_self
    · exact ⟨t, ht, hl⟩

/-- Success is told in a text of its own, after all else, exactly if what was to be verified is, and else it is told why
not. The line is seen without being told only where it stands in a text with line breaks. No text is printed of what is
not attested. -/
structure Reports (o : Output) (success failure : String) (verified attested : Prop) : Prop where
  told : .text success ∈ o.printed ↔ verified
  last : verified → o.printed.getLast? = some (.text success)
  fine : o.err = [] ↔ verified
  refused : ¬ verified → ∃ why : String, o.err = [s!"{failure}: {why}"]
  seen (style : LogStyle) : o.Shows style success ↔ verified ∨ o.Embeds style success
  silent : ∀ t, .text t ∈ o.printed → attested

theorem colon_mem_reason (failure why : String) : ':' ∈ s!"{failure}: {why}".toList := by
  simp [toString]

theorem reports_ofReport {r : Report Unit} (hsuccess : ':' ∉ success.toList ∧ '\n' ∉ success.toList)
    (h : r.Tells (fun _ => verified) fun t => t ≠ success ∧ attested) (hle : verified → attested) (verbose : Bool) :
    (Output.ofReport verbose r [success] failure).Reports success failure verified attested := by
  obtain ⟨said, hsaid, hall⟩ := h.prints []
  have hgives := h.gives [] ()
  have htext {t : String} (ht : .text t ∈ said.filter (Printed.isShown verbose)) : t ≠ success ∧ attested :=
    hall (.text t) (List.mem_filter.mp ht).1
  have hnot : .text success ∉ said.filter (Printed.isShown verbose) := fun hmem => (htext hmem).1 rfl
  unfold Output.ofReport
  rcases hrun : r.run.run [] with ⟨why | ⟨⟩, printed⟩
  · rw [hrun] at hsaid hgives
    obtain rfl : printed = said := hsaid
    have hno : ¬ verified := fun hv => nomatch hgives.mpr hv
    have herr : ∀ t ∈ [s!"{failure}: {why}"], ':' ∈ t.toList := by
      rw [List.forall_mem_singleton]
      exact colon_mem_reason failure why
    exact {
      told := iff_of_false hnot hno
      last := fun hv => absurd hv hno
      fine := iff_of_false (List.cons_ne_nil _ _) hno
      refused := fun _ => ⟨why, rfl⟩
      seen := fun style => (shows_iff hsuccess herr).trans (or_congr_left (iff_of_false hnot hno))
      silent := fun t ht => (htext ht).2 }
  · rw [hrun] at hsaid hgives
    obtain rfl : printed = said := hsaid
    have hv : verified := hgives.mp rfl
    have hmem : .text success ∈ printed.filter (Printed.isShown verbose) ++ [Printed.text success] :=
      List.mem_append_right _ List.mem_cons_self
    exact {
      told := iff_of_true hmem hv
      last := fun _ => List.getLast?_concat
      fine := iff_of_true rfl hv
      refused := fun hno => absurd hv hno
      seen := fun style => (shows_iff hsuccess (List.forall_mem_nil _)).trans (or_congr_left (iff_of_true hmem hv))
      silent := fun _ _ => hle hv }

section Refusals

variable {α : Type} (verbose : Bool) (r : Report α) (why : String) (success : List String) (failure : String)

/-- What is printed before a report breaks off does not depend on why it does. -/
theorem printed_ofReport_refusal (why' : String) :
    (Output.ofReport verbose (r >>= fun _ => throw why) success failure).printed =
      (Output.ofReport verbose (r >>= fun _ => throw why') success failure).printed := by
  unfold Output.ofReport
  rw [Report.Tells.run_bind, Report.Tells.run_bind]
  rcases r.run.run [] with ⟨e | a, printed⟩ <;> rfl

theorem err_ofReport_refusal {R : α → Prop} {p : String → Prop} (h : r.Tells R p) {a : α} (ha : R a) :
    (Output.ofReport verbose (r >>= fun _ => throw why) success failure).err = [s!"{failure}: {why}"] := by
  have hgives := (h.gives [] a).mpr ha
  unfold Output.ofReport
  rw [Report.Tells.run_bind]
  rcases hrun : r.run.run [] with ⟨e | a, printed⟩
  · rw [hrun] at hgives
    cases hgives
  · rfl

end Refusals

end Output

end Provenance.Command
