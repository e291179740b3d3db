import Provenance.Command.Report
import Provenance.Proofs.Outcome
import Provenance.Proofs.Text

/-!
What a report says and whether it breaks off, put together from its steps. A step leaves what is printed before it as
it is.
-/
namespace Provenance.Command

variable {α β : Type} {p : String → Prop} {R : α → Prop} {S : α → β → Prop}

/-- A property of texts, which entries do not have to have. -/
def Printed.Says (p : String → Prop) : Printed → Prop
  | text t => p t
  | entry _ => True

/-- The report gives exactly the results that the relation holds of and breaks off if there are none, and all texts that
it prints have the property, also when it breaks off. -/
structure Report.Tells (r : Report α) (R : α → Prop) (p : String → Prop) : Prop where
  gives (before : List Printed) (a : α) : (r.run.run before).1 = .ok a ↔ R a
  prints (before : List Printed) : ∃ said, (r.run.run before).2 = before ++ said ∧ ∀ x ∈ said, x.Says p

namespace Report.Tells

variable {r : Report α} {f : α → Report β}

theorem result (a : α) : Tells (pure a) (· = a) p where
  gives _ b := by
    change Except.ok a = .ok b ↔ b = a
    rw [Except.ok.injEq, eq_comm]
  prints before := ⟨[], (List.append_nil before).symm, List.forall_mem_nil _⟩

theorem refusal (why : String) : Tells (throw why : Report α) (fun _ => False) p where
  gives _ _ := ⟨nofun, nofun⟩
  prints before := ⟨[], (List.append_nil before).symm, List.forall_mem_nil _⟩

theorem say {t : String} (ht : p t) : Tells (Report.say t) (fun _ => True) p where
  gives _ _ := ⟨fun _ => trivial, fun _ => rfl⟩
  prints _ := ⟨[.text t], rfl, List.forall_mem_singleton.mpr ht⟩

theorem note (log : Log) : Tells (Report.note log) (fun _ => True) p where
  gives _ _ := ⟨fun _ => trivial, fun _ => rfl⟩
  prints _ := ⟨log.map .entry, rfl, List.forall_mem_map.mpr fun _ _ => trivial⟩

theorem run_bind (r : Report α) (f : α → Report β) (before : List Printed) :
    (r >>= f).run.run before = match r.run.run before with
      | (.ok a, printed) => (f a).run.run printed
      | (.error e, printed) => (.error e, printed) := by
  rw [ExceptT.run_bind, StateT.run_bind]
  rcases r.run.run before with ⟨e | a, printed⟩ <;> rfl

/-- What comes after a step may rely on what the step gave. -/
theorem bind (hr : Tells r R p) (hf : ∀ a, R a → Tells (f a) (S a) p) :
    Tells (r >>= f) (fun b => ∃ a, R a ∧ S a b) p where
  gives before b := by
    have hgives := hr.gives before
    rw [run_bind]
    generalize r.run.run before = x at hgives
    rcases x with ⟨e | a, printed⟩
    · constructor
      · rintro ⟨⟩
      · rintro ⟨a, ha, -⟩
        cases (hgives a).mpr ha
    · have ha : R a := (hgives a).mp rfl
      change ((f a).run.run printed).1 = .ok b ↔ _
      rw [(hf a ha).gives printed b]
      constructor
      · exact fun hb => ⟨a, ha, hb⟩
      · rintro ⟨a', ha', hb⟩
        cases (hgives a').mpr ha'
        exact hb
  prints before := by
    obtain ⟨said, hprinted, hsaid⟩ := hr.prints before
    have hgives := hr.gives before
    rw [run_bind]
    rcases hrun : r.run.run before with ⟨e | a, printed⟩
    · rw [hrun] at hprinted
      exact ⟨said, hprinted, hsaid⟩
    · rw [hrun] at hprinted hgives
      obtain ⟨more, hmore, hall⟩ := (hf a ((hgives a).mp rfl)).prints printed
      refine ⟨said ++ more, ?_, List.forall_mem_append.mpr ⟨hsaid, hall⟩⟩
      change ((f a).run.run printed).2 = _
      rw [hmore, ← List.append_assoc, ← hprinted]

theorem congr {R' : α → Prop} (h : Tells r R p) (hR : ∀ a, R a ↔ R' a) : Tells r R' p where
  gives before a := (h.gives before a).trans (hR a)
  prints := h.prints

theorem after {Q : Unit → Prop} {T : β → Prop} {step : Report Unit} {rest : Report β} (hstep : Tells step Q p)
    (hrest : Q () → Tells rest T p) : Tells (step >>= fun _ => rest) (fun b => Q () ∧ T b) p :=
  (hstep.bind fun _ hQ => hrest hQ).congr fun _ => ⟨fun ⟨_, h⟩ => h, fun h => ⟨(), h⟩⟩

theorem ofOutcome (x : Outcome α) : Tells (Report.ofOutcome x) (x = .ok ·) p := by
  cases x with
  | ok a => exact (result a).congr fun b => by rw [Except.ok.injEq, eq_comm]
  | error e => exact (refusal e.message).congr fun b => ⟨False.elim, nofun⟩

theorem ofFile (s : Surroundings) (path : String) : Tells (Report.ofFile s path) (s.file path = .ok ·) p := by
  unfold Report.ofFile
  split
  · next b hb => exact (result b).congr fun b' => by rw [hb, Except.ok.injEq, eq_comm]
  · next e he => exact (refusal e).congr fun b => ⟨False.elim, fun h => nomatch he.symm.trans h⟩

theorem ofTextFile (s : Surroundings) (path : String) :
    Tells (Report.ofTextFile s path) (fun t => s.file path = .ok (Text.octets t)) p := by
  unfold Report.ofTextFile
  refine ((ofFile s path).bind (S := fun b t => Text.octets t = b) fun b _ => ?_).congr fun t => by simp
  simp only [← Text.ofOctets?_eq_some_iff]
  split
  · next t ht => exact (result t).congr fun t' => by rw [ht, Option.some_inj, eq_comm]
  · next h => exact (refusal _).congr fun t => by simp [h]

theorem forM {f : α → Report Unit} {as : List α} (h : ∀ a ∈ as, Tells (f a) (fun _ => R a) p) :
    Tells (as.forM f) (fun _ => ∀ a ∈ as, R a) p := by
  induction as with
  | nil => exact (result ()).congr fun _ => by simp
  | cons a as ih =>
    obtain ⟨ha, has⟩ := List.forall_mem_cons.mp h
    exact (ha.after fun _ => ih has).congr fun _ => List.forall_mem_cons.symm

theorem forM? {f : α → Report Unit} {o : Option α} (h : ∀ a ∈ o, Tells (f a) (fun _ => R a) p) :
    Tells (o.forM f) (fun _ => ∀ a ∈ o, R a) p := by
  cases o with
  | none => exact (result ()).congr fun _ => by simp
  | some a => exact (h a rfl).congr fun _ => by simp

theorem mapM? {f : α → Report β} {o : Option α} (h : ∀ a ∈ o, Tells (f a) (S a) p) :
    Tells (o.mapM f) (Option.Rel S o) p := by
  cases o with
  | none => exact (result none).congr fun o' => by cases o' <;> simp
  | some a =>
    refine ((h a rfl).bind fun b _ => result (some b)).congr fun o' => ?_
    cases o' <;> simp

end Report.Tells

end Provenance.Command
