import Provenance.Proofs.Trust.Appended
import Provenance.Proofs.Trust.Stability

/-!
What a verdict looks up in the store. Stores that agree there give the same verdict, so all other anchors may come and
go without any influence on it.
-/
namespace Provenance

open Calendar (Instant)

namespace AnchorStore

variable {s u : AnchorStore} {c : Certificate} {k : Octets}

theorem isAnchor_congr (h : ∀ k, c.ski? = some k → u.lookup k = s.lookup k) : u.isAnchor c = s.isAnchor c := by
  rw [isAnchor, isAnchor, Option.bind_congr h]

theorem issuer?_congr (h : ∀ k, c.aki? = some k → u.lookup k = s.lookup k) : u.issuer? c = s.issuer? c :=
  Option.bind_congr h

theorem above?_congr (h : ∀ k, c.aki? = some k → u.lookup k = s.lookup k) : u.above? c = s.above? c := by
  rw [above?, above?, issuer?_congr h]

/-- The ascent in one store is that in another which agrees with it wherever the ascent looks. -/
theorem ascend_congr {n : Nat}
    (h : ∀ d ∈ c :: (s.ascend n c).1, ∀ k, d.aki? = some k → u.lookup k = s.lookup k) :
    u.ascend n c = s.ascend n c := by
  induction n generalizing c with
  | zero =>
    have habove := above?_congr (h c List.mem_cons_self)
    cases hc : s.above? c with
    | none => rw [ascend_top hc, ascend_top (habove.trans hc)]
    | some d => rw [ascend_zero hc, ascend_zero (habove.trans hc)]
  | succ n ih =>
    have habove := above?_congr (h c List.mem_cons_self)
    cases hc : s.above? c with
    | none => rw [ascend_top hc, ascend_top (habove.trans hc)]
    | some d =>
      rw [ascend_succ hc] at h
      rw [ascend_succ hc, ascend_succ (habove.trans hc), ih fun e he => h e (List.mem_cons_of_mem c he)]

theorem lookup_foldl_apply {ws : List Write} (h : ∀ w ∈ ws, w.key? ≠ some k) :
    (ws.foldl Write.apply s).lookup k = s.lookup k := by
  induction ws generalizing s with
  | nil => rfl
  | cons w ws ih =>
    rw [List.forall_mem_cons] at h
    rw [List.foldl_cons, ih h.2, Write.lookup_apply, if_neg h.1]

/-- Under an identifier that no operation writes to, all operations leave what was there. -/
theorem lookup_foldl_run {ops : List Operation} (h : ∀ o ∈ ops, ∀ w ∈ o.writes, w.key? ≠ some k) :
    (ops.foldl Operation.run s).lookup k = s.lookup k := by
  induction ops generalizing s with
  | nil => rfl
  | cons o ops ih =>
    rw [List.forall_mem_cons] at h
    rw [List.foldl_cons, ih h.2, Operation.run_eq_foldl, lookup_foldl_apply h.1]

end AnchorStore

namespace TrustPolicy

variable {p q : TrustPolicy} {cs : List Certificate}

/-- The identifiers on which a verdict may depend. -/
inductive Consults (p : TrustPolicy) (cs : List Certificate) : Octets → Prop
  | subject {last : Certificate} {k : Octets} : cs.getLast? = some last → last.ski? = some k → p.Consults cs k
  | issuer {last : Certificate} {k : Octets} : cs.getLast? = some last → last.aki? = some k → p.Consults cs k
  | above {c : Certificate} {k : Octets} : c ∈ p.appended cs → c.aki? = some k → p.Consults cs k

theorem complete_congr (hbound : q.maxDepth = p.maxDepth)
    (h : ∀ k, p.Consults cs k → q.store.lookup k = p.store.lookup k) : q.complete cs = p.complete cs := by
  cases hl : cs.getLast? with
  | none => simp [complete, hl]
  | some last =>
    have hanchor : q.store.isAnchor last = p.store.isAnchor last :=
      AnchorStore.isAnchor_congr fun k hk => h k (.subject hl hk)
    have hissuer : q.store.issuer? last = p.store.issuer? last :=
      AnchorStore.issuer?_congr fun k hk => h k (.issuer hl hk)
    cases ha : p.store.isAnchor last with
    | true => rw [complete_anchor p hl ha, complete_anchor q hl (hanchor.trans ha)]
    | false =>
      cases hi : p.store.issuer? last with
      | none => simp [complete, hl, hanchor, hissuer, ha, hi]
      | some root =>
        have hascend : q.store.ascend (p.maxDepth - 1) root = p.store.ascend (p.maxDepth - 1) root := by
          apply AnchorStore.ascend_congr
          intro c hc k hk
          rw [← appended_of_issuer hl ha hi] at hc
          exact h k (.above hc hk)
        rw [complete_ascent p hl ha hi, complete_ascent q hl (hanchor.trans ha) (hissuer.trans hi), hbound, hascend]

/-- A verdict is the same in every store that has the same anchors under the identifiers of the last certificate and its
issuer and of the issuers of all certificates that were appended. So it is the same after any operations that put and
drop certificates with other identifiers only. -/
theorem unrelated_anchors (s : AnchorStore) (bound : Nat) (P : Provider) (cs : List Certificate) (vs : List Validator)
    (t : Instant) :
    let p : TrustPolicy := ⟨s, bound⟩
    let v := p.verify P cs vs t
    (∀ u : AnchorStore, (∀ k, p.Consults cs k → u.lookup k = s.lookup k) → verify ⟨u, bound⟩ P cs vs t = v) ∧
      ∀ ops : List AnchorStore.Operation,
        (∀ o ∈ ops, ∀ w ∈ o.writes, ∀ k, w.key? = some k → ¬ p.Consults cs k) →
          verify ⟨ops.foldl AnchorStore.Operation.run s, bound⟩ P cs vs t = v := by
  intro p v
  have hagree (u : AnchorStore) (h : ∀ k, p.Consults cs k → u.lookup k = s.lookup k) :
      verify ⟨u, bound⟩ P cs vs t = v :=
    verify_congr (complete_congr (p := p) (q := ⟨u, bound⟩) rfl h) P vs t
  refine ⟨hagree, ?_⟩
  intro ops hops
  apply hagree
  intro k hk
  apply AnchorStore.lookup_foldl_run
  intro o ho w hw hkey
  exact hops o ho w hw k hkey hk

theorem unrelated_anchors_other :
    ∃ leaf root other, issuedBundle.certificates = .ok [leaf, root, other] ∧
      let s : AnchorStore := .after [.add root]
      let ops : List AnchorStore.Operation := [.add other, .remove other, .add other]
      appended ⟨s, 10⟩ [leaf] = [root] ∧
        verify ⟨ops.foldl AnchorStore.Operation.run s, 10⟩ .standard [leaf] [] .epoch =
          verify ⟨s, 10⟩ .standard [leaf] [] .epoch := by
  obtain ⟨leaf, root, other, hcs, hleaf, hissued, hski, htop, hother⟩ := exists_issuedBundle
  refine ⟨leaf, root, other, hcs, ?_⟩
  intro s ops
  have happended : appended ⟨s, 10⟩ [leaf] = [root] := appended_of_only_anchor hleaf hissued hski htop 10
  refine ⟨happended, (unrelated_anchors s 10 .standard [leaf] [] .epoch).2 ops ?_⟩
  have hunrelated : ¬ Consults ⟨s, 10⟩ [leaf] [2] := by
    rintro (⟨hl, hk⟩ | ⟨hl, hk⟩ | ⟨hc, hk⟩)
    · cases hl
      cases hleaf.symm.trans hk
    · cases hl
      cases hissued.symm.trans hk
    · rw [happended, List.mem_singleton] at hc
      subst hc
      cases htop.symm.trans hk
  have hkeys : ∀ w ∈ ops.flatMap AnchorStore.Operation.writes, w.key? = some [2] := by
    simp [ops, AnchorStore.Operation.writes, AnchorStore.addable, AnchorStore.Write.key?, hother]
  intro o ho w hw k hk
  cases hk.symm.trans (hkeys w (List.mem_flatMap.mpr ⟨o, ho, hw⟩))
  exact hunrelated

end TrustPolicy

end Provenance
