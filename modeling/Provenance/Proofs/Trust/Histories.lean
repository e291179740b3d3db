import Mathlib.Data.List.Nodup
import Mathlib.Data.List.Induction
import Mathlib.Data.Option.Basic
import Provenance.Proofs.Trust.Stores

/-!
Histories: a store, whatever was done to it, holds under each identifier what was put there last, unless that was
dropped since.
-/
namespace Provenance.AnchorStore

/-- What an operation does to the store, one certificate at a time. -/
inductive Write
  | put (c : Certificate)
  | drop (c : Certificate)

namespace Write

def key? : Write → Option Octets
  | put c | drop c => c.ski?

/-- What is found under the key afterwards. -/
def left? : Write → Option Certificate
  | put c => some c
  | drop _ => none

def apply (s : AnchorStore) : Write → AnchorStore
  | put c => (s.add c).toOption.getD s
  | drop c => (s.remove c).2

theorem lookup_apply (s : AnchorStore) (w : Write) (k : Octets) :
    (w.apply s).lookup k = if w.key? = some k then w.left? else s.lookup k := by
  cases w with
  | drop c => exact lookup_remove s c k
  | put c =>
    cases hc : c.ski? with
    | none => simp [apply, key?, add_of_no_ski s hc, hc, Except.toOption]
    | some l =>
      have hadd := lookup_add (add_of_ski s hc) k
      simpa [apply, key?, left?, add_of_ski s hc, hc, Except.toOption] using hadd

end Write

/-- A load puts what it adds before it fails. -/
def Operation.writes : Operation → List Write
  | add c => (addable [c]).map .put
  | remove c => [.drop c]
  | load b => (addable (b.certificates.toOption.getD [])).map .put

theorem addAll_eq_foldl (s : AnchorStore) (cs : List Certificate) :
    (s.addAll cs).2 = ((addable cs).map .put).foldl Write.apply s := by
  induction cs generalizing s with
  | nil => rfl
  | cons c cs ih =>
    cases hc : c.ski? with
    | none => simp [addAll, add_of_no_ski s hc, addable, hc]
    | some k =>
      have hrest : addable (c :: cs) = c :: addable cs := by simp [addable, hc]
      rw [hrest, List.map_cons, List.foldl_cons, addAll, add_of_ski s hc, Write.apply, add_of_ski s hc]
      exact ih _

theorem Operation.run_eq_foldl (s : AnchorStore) (o : Operation) : o.run s = o.writes.foldl Write.apply s := by
  cases o with
  | add c =>
    cases hc : c.ski? with
    | none => simp [run, writes, add_of_no_ski s hc, addable, hc, Except.toOption]
    | some k => simp [run, writes, addable, hc, Write.apply]
  | remove c => rfl
  | load b =>
    rw [run, Bundle.loadInto_eq, writes]
    cases b.certificates with
    | error e => rfl
    | ok cs => exact addAll_eq_foldl s cs

theorem after_eq_foldl (ops : List Operation) : after ops = (ops.flatMap Operation.writes).foldl Write.apply empty := by
  rw [after, List.foldl_flatMap]
  congr 1
  funext s o
  exact o.run_eq_foldl s

/-- The certificate was put under the key, and nothing was put there or dropped since. -/
def Stands (ws : List Write) (k : Octets) (c : Certificate) : Prop :=
  ∃ earlier later, ws = earlier ++ .put c :: later ∧ c.ski? = some k ∧ ∀ w ∈ later, w.key? ≠ some k

theorem not_stands_nil {k : Octets} {c : Certificate} : ¬ Stands [] k c := by
  rintro ⟨earlier, later, h, -⟩
  simp at h

theorem stands_concat_iff {ws : List Write} {w : Write} {k : Octets} {c : Certificate} :
    Stands (ws ++ [w]) k c ↔ if w.key? = some k then w.left? = some c else Stands ws k c := by
  constructor
  · rintro ⟨earlier, later, h, hc, hlater⟩
    obtain rfl | ⟨later, v, rfl⟩ := List.eq_nil_or_concat later
    · obtain ⟨rfl, hw⟩ := List.append_inj' h rfl
      obtain rfl := List.singleton_inj.mp hw
      rw [if_pos (show Write.key? (.put c) = some k from hc)]
      rfl
    · rw [List.concat_eq_append] at h hlater
      rw [← List.cons_append, ← List.append_assoc] at h
      obtain ⟨rfl, hw⟩ := List.append_inj' h rfl
      obtain rfl := List.singleton_inj.mp hw
      rw [if_neg (hlater w (by simp))]
      exact ⟨earlier, later, rfl, hc, fun u hu => hlater u (List.mem_append_left _ hu)⟩
  · intro h
    split at h
    · next hw =>
      cases w with
      | drop d => cases h
      | put d =>
        cases h
        exact ⟨ws, [], rfl, hw, List.forall_mem_nil _⟩
    · next hw =>
      obtain ⟨earlier, later, rfl, hc, hlater⟩ := h
      refine ⟨earlier, later ++ [w], by simp, hc, ?_⟩
      intro u hu
      obtain hu | hu := List.mem_append.mp hu
      · exact hlater u hu
      · rwa [List.mem_singleton.mp hu]

theorem lookup_foldl_iff_stands (ws : List Write) (k : Octets) (c : Certificate) :
    (ws.foldl Write.apply empty).lookup k = some c ↔ Stands ws k c := by
  induction ws using List.reverseRecOn with
  | nil => simp [lookup_empty, not_stands_nil]
  | append_singleton ws w ih =>
    rw [List.foldl_append, List.foldl_cons, List.foldl_nil, Write.lookup_apply, stands_concat_iff]
    split
    · rfl
    · exact ih

theorem Keyed.nodup_certificates {s : AnchorStore} (hs : s.Keyed) : s.certificates.Nodup := by
  have hskis : s.certificates.map Certificate.ski? = s.anchors.keys.map some := by
    rw [certificates, List.map_map, ← Std.ExtTreeMap.map_fst_toList_eq_keys, List.map_map]
    apply List.map_congr_left
    intro e he
    exact hs e.1 e.2 (Std.ExtTreeMap.mem_toList_iff_getElem?_eq_some.mp he)
  apply List.Nodup.of_map Certificate.ski?
  rw [hskis]
  exact Std.ExtTreeMap.nodup_keys.map (Option.some_injective Octets)

theorem isAnchor_iff {s : AnchorStore} {c : Certificate} :
    s.isAnchor c = true ↔ ∃ k anchor, c.ski? = some k ∧ s.lookup k = some anchor ∧ anchor.der = c.der := by
  simp only [isAnchor, Option.any_eq_true, Option.bind_eq_some_iff, Certificate.same, decide_eq_true_eq,
    eq_comm (a := c.der)]
  constructor
  · rintro ⟨anchor, ⟨k, hc, hk⟩, hsame⟩
    exact ⟨k, anchor, hc, hk, hsame⟩
  · rintro ⟨k, anchor, hc, hk, hsame⟩
    exact ⟨anchor, ⟨k, hc, hk⟩, hsame⟩

theorem add_eq_error_iff {s : AnchorStore} {c : Certificate} : (∃ e, s.add c = .error e) ↔ c.ski? = none := by
  cases hc : c.ski? with
  | none => simp [add_of_no_ski s hc]
  | some k => simp [add_of_ski s hc]

theorem run_add_of_no_ski (s : AnchorStore) {c : Certificate} (hc : c.ski? = none) :
    Operation.run s (.add c) = s := by
  simp [Operation.run, add_of_no_ski s hc, Except.toOption]

theorem remove_eq_true_iff {s : AnchorStore} {c : Certificate} :
    (s.remove c).1 = true ↔ ∃ k anchor, c.ski? = some k ∧ s.lookup k = some anchor := by
  cases hc : c.ski? with
  | none => simp [remove, hc]
  | some k =>
    simp only [remove, hc, lookup, Std.ExtTreeMap.contains_eq_isSome_getElem?, Option.isSome_iff_exists,
      Option.some.injEq, exists_and_left, exists_eq_left']

/-- A store is the map that its writes make, with the last one under a key deciding, and every question to the store is
answered from that map. -/
structure Follows (s : AnchorStore) (ws : List Write) : Prop where
  keyed : ∀ k c, s.lookup k = some c → c.ski? = some k
  stands : ∀ k c, s.lookup k = some c ↔ Stands ws k c
  listed : ∀ c, c ∈ s.certificates ↔ ∃ k, s.lookup k = some c
  once : s.certificates.Nodup
  counted : s.size = s.certificates.length
  recognised : ∀ c, s.isAnchor c = true ↔ ∃ k anchor, c.ski? = some k ∧ s.lookup k = some anchor ∧ anchor.der = c.der
  refused : ∀ c, (∃ e, s.add c = .error e) ↔ c.ski? = none
  unchanged : ∀ c, c.ski? = none → Operation.run s (.add c) = s
  removed : ∀ c, (s.remove c).1 = true ↔ ∃ k anchor, c.ski? = some k ∧ s.lookup k = some anchor

/-- Whatever is done to a store that starts empty, it is a map in which the last write wins. -/
theorem after_follows_writes (ops : List Operation) : (after ops).Follows (ops.flatMap Operation.writes) where
  keyed := keyed_after ops
  stands k c := by rw [after_eq_foldl]; exact lookup_foldl_iff_stands _ k c
  listed _ := mem_certificates_iff
  once := (keyed_after ops).nodup_certificates
  counted := length_certificates.symm
  recognised _ := isAnchor_iff
  refused _ := add_eq_error_iff
  unchanged _ hc := run_add_of_no_ski _ hc
  removed _ := remove_eq_true_iff

end Provenance.AnchorStore
