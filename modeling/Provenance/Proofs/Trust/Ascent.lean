import Mathlib.Data.List.Nodup
import Mathlib.Data.List.Perm.Subperm
import Provenance.Proofs.Trust.Verdicts

/-!
Ascents: which anchors complete a chain, where an ascent ends, and that one which a bound as large as the store cuts off
has come to a cycle.
-/
namespace Provenance

open Calendar (Instant)

namespace AnchorStore

def climb (s : AnchorStore) (c : Certificate) : (steps : Nat) → Option Certificate
  | 0 => some c
  | n + 1 => (climb s c n).bind s.above?

variable (s : AnchorStore)

/-- The anchors above a certificate that is none itself, the nearest first. -/
def ancestor? (c : Certificate) (i : Nat) : Option Certificate := (s.issuer? c).bind (s.climb · i)

def Cyclic (c : Certificate) : Prop := ∃ n, 0 < n ∧ s.climb c n = some c

variable {s} {c d : Certificate}

theorem climb_add (m n : Nat) : s.climb c (m + n) = (s.climb c m).bind (s.climb · n) := by
  induction n with
  | zero => simp [climb]
  | succ n ih => rw [← Nat.add_assoc, climb, ih, Option.bind_assoc]; rfl

theorem climb_succ (n : Nat) : s.climb c (n + 1) = (s.above? c).bind (s.climb · n) := by
  rw [Nat.add_comm, climb_add]
  simp [climb]

theorem climb_ne_none_of_le {m n : Nat} (h : s.climb c n ≠ none) (hmn : m ≤ n) : s.climb c m ≠ none := by
  obtain ⟨k, rfl⟩ := Nat.exists_eq_add_of_le hmn
  rw [climb_add] at h
  intro hm
  simp [hm] at h

theorem ancestor?_zero : s.ancestor? c 0 = s.issuer? c := by simp [ancestor?, climb]

theorem ancestor?_add (m n : Nat) : s.ancestor? c (m + n) = (s.ancestor? c m).bind (s.climb · n) := by
  simp only [ancestor?, climb_add, Option.bind_assoc]

theorem ancestor?_ne_none_of_le {m n : Nat} (h : s.ancestor? c n ≠ none) (hmn : m ≤ n) : s.ancestor? c m ≠ none := by
  obtain ⟨k, rfl⟩ := Nat.exists_eq_add_of_le hmn
  rw [ancestor?_add] at h
  intro hm
  simp [hm] at h

theorem lookup_of_climb {n : Nat} (hc : ∃ k, s.lookup k = some c) (h : s.climb c n = some d) :
    ∃ k, s.lookup k = some d := by
  cases n with
  | zero => cases h; exact hc
  | succ n =>
    obtain ⟨e, -, he⟩ := Option.bind_eq_some_iff.mp h
    exact lookup_of_above? he

theorem mem_certificates_of_ancestor? {i : Nat} (h : s.ancestor? c i = some d) : d ∈ s.certificates := by
  obtain ⟨root, hr, hd⟩ := Option.bind_eq_some_iff.mp h
  exact mem_certificates_iff.mpr (lookup_of_climb (lookup_of_issuer? hr) hd)

/-- On a cycle one can climb for ever. -/
theorem Cyclic.climb_ne_none (h : s.Cyclic c) (n : Nat) : s.climb c n ≠ none := by
  obtain ⟨m, hm, hc⟩ := h
  have hround : ∀ k, s.climb c (k * m) = some c := by
    intro k
    induction k with
    | zero => simp [climb]
    | succ k ih => rw [Nat.succ_mul, climb_add, ih]; exact hc
  have hle : n ≤ n * m := Nat.le_mul_of_pos_right n hm
  exact climb_ne_none_of_le (by simp [hround]) hle

theorem cyclic_of_ancestor?_eq {i j : Nat} (hij : i < j) (hi : s.ancestor? c i = some d)
    (hj : s.ancestor? c j = some d) : s.Cyclic d := by
  obtain ⟨k, rfl⟩ := Nat.exists_eq_add_of_lt hij
  refine ⟨k + 1, k.succ_pos, ?_⟩
  rw [Nat.add_assoc, ancestor?_add, hi] at hj
  exact hj

theorem exists_list_of_ancestor?_ne_none {n : Nat} (h : ∀ i < n, s.ancestor? c i ≠ none) :
    ∃ as : List Certificate, as.length = n ∧ ∀ i < n, s.ancestor? c i = as[i]? := by
  induction n with
  | zero => exact ⟨[], rfl, nofun⟩
  | succ n ih =>
    obtain ⟨as, hlen, has⟩ := ih fun i hi => h i (Nat.lt_succ_of_lt hi)
    obtain ⟨top, htop⟩ := Option.ne_none_iff_exists'.mp (h n n.lt_succ_self)
    refine ⟨as ++ [top], by simp [hlen], ?_⟩
    intro i hi
    obtain hi | rfl := Nat.lt_succ_iff_lt_or_eq.mp hi
    · rw [has i hi, List.getElem?_append_left (by omega)]
    · rw [htop, ← hlen, List.getElem?_concat_length]

/-- More ancestors than there are anchors are not all different. -/
theorem exists_cyclic_of_size_le {n : Nat} (hn : s.size ≤ n) (h : s.ancestor? c n ≠ none) :
    ∃ i d, s.ancestor? c i = some d ∧ s.Cyclic d := by
  obtain ⟨as, hlen, has⟩ := exists_list_of_ancestor?_ne_none (n := n + 1) fun i hi =>
    ancestor?_ne_none_of_le h (Nat.lt_succ_iff.mp hi)
  have hsub : as ⊆ s.certificates := by
    intro d hd
    obtain ⟨i, hi, rfl⟩ := List.mem_iff_getElem.mp hd
    apply mem_certificates_of_ancestor? (i := i)
    rw [has i (by omega), List.getElem?_eq_getElem hi]
  have hdup : ¬ as.Nodup := by
    intro hnodup
    have hle := (List.subperm_of_subset hnodup hsub).length_le
    rw [length_certificates] at hle
    omega
  rw [List.nodup_iff_getElem?_ne_getElem?] at hdup
  push Not at hdup
  obtain ⟨i, j, hij, hj, heq⟩ := hdup
  have hai := has i (by omega)
  have haj := has j (by omega)
  rw [List.getElem?_eq_getElem hj] at heq haj
  exact ⟨i, as[j], hai.trans heq, cyclic_of_ancestor?_eq hij (hai.trans heq) haj⟩

theorem ascend_top {n : Nat} (h : s.above? c = none) : s.ascend n c = ([], true) := by
  unfold ascend
  simp [h]

theorem ascend_zero (h : s.above? c = some d) : s.ascend 0 c = ([], false) := by
  unfold ascend
  simp [h]

theorem ascend_succ {n : Nat} (h : s.above? c = some d) :
    s.ascend (n + 1) c = (d :: (s.ascend n d).1, (s.ascend n d).2) := by
  rw [ascend]
  simp [h]

theorem climb_eq_ascend (n i : Nat) (h : i < (s.ascend n c).1.length) :
    s.climb c (i + 1) = (s.ascend n c).1[i]? := by
  induction n generalizing c i with
  | zero =>
    cases hc : s.above? c with
    | none => simp [ascend_top hc] at h
    | some d => simp [ascend_zero hc] at h
  | succ n ih =>
    cases hc : s.above? c with
    | none => simp [ascend_top hc] at h
    | some d =>
      rw [ascend_succ hc] at h ⊢
      rw [climb_succ, hc, Option.bind_some]
      cases i with
      | zero => rfl
      | succ i => exact ih i (Nat.lt_of_succ_lt_succ h)

theorem ascend_cases (n : Nat) (c : Certificate) :
    ((s.ascend n c).2 = true ∧ (s.ascend n c).1.length ≤ n ∧ s.climb c ((s.ascend n c).1.length + 1) = none) ∨
      ((s.ascend n c).2 = false ∧ (s.ascend n c).1.length = n ∧ s.climb c (n + 1) ≠ none) := by
  induction n generalizing c with
  | zero =>
    cases hc : s.above? c with
    | none => simp [ascend_top hc, climb_succ, hc]
    | some d => simp [ascend_zero hc, hc, climb]
  | succ n ih =>
    cases hc : s.above? c with
    | none => simp [ascend_top hc, climb_succ, hc]
    | some d =>
      rw [ascend_succ hc]
      simp only [climb_succ, hc, Option.bind_some, List.length_cons, Nat.add_le_add_iff_right, Nat.add_right_cancel_iff]
      simpa only [climb_succ] using ih d

variable (s)

/-- These are all anchors above a certificate. -/
def Ancestors (c : Certificate) (as : List Certificate) : Prop := ∀ i, s.ancestor? c i = as[i]?

/-- These are the nearest anchors above a certificate, and there is a further one. -/
structure SomeAncestors (c : Certificate) (as : List Certificate) : Prop where
  nearest : ∀ i < as.length, s.ancestor? c i = as[i]?
  further : s.ancestor? c as.length ≠ none

variable {s} {as bs : List Certificate}

theorem Ancestors.unique (ha : s.Ancestors c as) (hb : s.Ancestors c bs) : as = bs :=
  List.ext_getElem? fun i => (ha i).symm.trans (hb i)

theorem Ancestors.exists_first (ha : s.Ancestors c as) (hne : as ≠ []) : s.ancestor? c 0 ≠ none := by
  rw [ha, ← List.head?_eq_getElem?]
  exact mt List.head?_eq_none_iff.mp hne

theorem SomeAncestors.exists_first (ha : s.SomeAncestors c as) : s.ancestor? c 0 ≠ none :=
  ancestor?_ne_none_of_le ha.further (Nat.zero_le _)

theorem SomeAncestors.lt_length (ha : s.SomeAncestors c as) (hb : s.Ancestors c bs) : as.length < bs.length := by
  have h := ha.further
  rw [hb] at h
  exact lt_of_not_ge fun hle => h (List.getElem?_eq_none hle)

theorem SomeAncestors.unique (ha : s.SomeAncestors c as) (hb : s.SomeAncestors c bs) (hl : as.length = bs.length) :
    as = bs := by
  apply List.ext_getElem?
  intro i
  by_cases hi : i < as.length
  · rw [← ha.nearest i hi, ← hb.nearest i (hl ▸ hi)]
  · rw [List.getElem?_eq_none (not_lt.mp hi), List.getElem?_eq_none (hl ▸ not_lt.mp hi)]

theorem ancestors_or_more {root : Certificate} (n : Nat) (hr : s.issuer? c = some root) :
    let as := root :: (s.ascend n root).1
    ((s.ascend n root).2 = true ∧ as.length ≤ n + 1 ∧ s.Ancestors c as) ∨
      ((s.ascend n root).2 = false ∧ as.length = n + 1 ∧ s.SomeAncestors c as) := by
  intro as
  have hclimb : ∀ i, s.ancestor? c i = s.climb root i := fun i => by rw [ancestor?, hr, Option.bind_some]
  have hnear : ∀ i < as.length, s.ancestor? c i = as[i]? := by
    intro i hi
    rw [hclimb]
    cases i with
    | zero => rfl
    | succ i => exact climb_eq_ascend n i (Nat.lt_of_succ_lt_succ hi)
  obtain ⟨hall, hlen, htop⟩ | ⟨hall, hlen, hmore⟩ := ascend_cases (s := s) n root
  · refine .inl ⟨hall, Nat.succ_le_succ hlen, ?_⟩
    intro i
    by_cases hi : i < as.length
    · exact hnear i hi
    · rw [List.getElem?_eq_none (not_lt.mp hi)]
      by_contra h
      rw [hclimb] at h
      exact climb_ne_none_of_le h (not_lt.mp hi) htop
  · have hlast : as.length = n + 1 := congrArg (· + 1) hlen
    refine .inr ⟨hall, hlast, hnear, ?_⟩
    rw [hclimb, hlast]
    exact hmore

end AnchorStore

/-- A chain could not be completed; all other faults are those of a check. -/
def TrustFault.OfCompletion : TrustFault → Prop
  | emptyChain | noTrustedRoot _ | pathTooLong _ => True
  | _ => False

namespace Check

variable {P : Provider} {e : TrustFault}

theorem not_ofCompletion_of_require {b : Bool} {f : TrustFault} (h : require b f = .error e)
    (hf : ¬ f.OfCompletion) : ¬ e.OfCompletion := by
  cases b <;> cases h
  exact hf

theorem not_ofCompletion_of_use {α : Type} {c : Certificate} {x : Outcome α} (h : use c x = .error e) :
    ¬ e.OfCompletion := by
  cases x <;> cases h
  exact not_false

theorem not_ofCompletion_of_run {k : Check} (h : k.run P = .error e) : ¬ e.OfCompletion := by
  cases k with
  | validity c t =>
    obtain h | ⟨b, -, h⟩ := bind_eq_error_iff.mp h
    · exact not_ofCompletion_of_use h
    · exact not_ofCompletion_of_require h not_false
  | signature c d =>
    obtain h | ⟨k, -, h⟩ := bind_eq_error_iff.mp h
    · exact not_ofCompletion_of_use h
    · exact not_ofCompletion_of_require h not_false
  | validator v c =>
    simp only [run] at h
    split at h <;> cases h
    exact not_false
  | _ => exact not_ofCompletion_of_require h not_false

theorem not_ofCompletion_of_runAll {ks : List Check} (h : runAll P ks = .error e) : ¬ e.OfCompletion := by
  induction ks with
  | nil => cases h
  | cons k ks ih =>
    have hcons : runAll P (k :: ks) = (k.run P >>= fun _ => runAll P ks) := by simp [runAll]
    rw [hcons] at h
    obtain h | ⟨_, -, h⟩ := bind_eq_error_iff.mp h
    · exact not_ofCompletion_of_run h
    · exact ih h

end Check

namespace TrustPolicy

variable {p : TrustPolicy} {cs chain : List Certificate} {last : Certificate}

theorem verify_eq_iff_complete {e : TrustFault} (he : e.OfCompletion) (P : Provider) (vs : List Validator)
    (t : Instant) : p.verify P cs vs t = .untrusted chain e ↔ p.complete cs = .error (chain, e) := by
  unfold verify
  cases p.complete cs with
  | error f => simp [Prod.ext_iff]
  | ok built =>
    cases hr : Check.runAll P (Check.chain vs t built) with
    | ok _ => simp [hr]
    | error f =>
      have hf := Check.not_ofCompletion_of_runAll hr
      simp only [hr, Verdict.untrusted_inj, reduceCtorEq, iff_false, not_and]
      rintro - rfl
      exact hf he

theorem complete_cases (hn : 0 < p.maxDepth) (hl : cs.getLast? = some last) (ha : p.store.isAnchor last = false) :
    (p.store.ancestor? last 0 = none ∧ p.complete cs = .error ([], .noTrustedRoot last.subject)) ∨
      (∃ as, as ≠ [] ∧ as.length ≤ p.maxDepth ∧ p.store.Ancestors last as ∧ p.complete cs = .ok (cs ++ as)) ∨
      ∃ as, as.length = p.maxDepth ∧ p.store.SomeAncestors last as ∧
        p.complete cs = .error (cs ++ as, .pathTooLong p.maxDepth) := by
  cases hi : p.store.issuer? last with
  | none => exact .inl ⟨AnchorStore.ancestor?_zero.trans hi, by simp [complete, hl, ha, hi]⟩
  | some root =>
    have hbound : p.maxDepth - 1 + 1 = p.maxDepth := by omega
    rw [complete_ascent p hl ha hi]
    obtain ⟨hall, hlen, has⟩ | ⟨hall, hlen, has⟩ := AnchorStore.ancestors_or_more (p.maxDepth - 1) hi
    · exact .inr (.inl ⟨_, List.cons_ne_nil _ _, hlen.trans_eq hbound, has, if_pos hall⟩)
    · exact .inr (.inr ⟨_, hlen.trans hbound, has, if_neg (by simp [hall])⟩)

theorem complete_eq_noTrustedRoot_iff (hn : 0 < p.maxDepth) (hl : cs.getLast? = some last)
    (ha : p.store.isAnchor last = false) :
    p.complete cs = .error ([], .noTrustedRoot last.subject) ↔ p.store.ancestor? last 0 = none := by
  obtain ⟨hnone, h⟩ | ⟨as, hne, -, has, h⟩ | ⟨as, -, has, h⟩ := complete_cases hn hl ha
  · simp [h, hnone]
  · simp [h, has.exists_first hne]
  · simp [h, has.exists_first]

theorem complete_eq_ok_iff (hn : 0 < p.maxDepth) (hl : cs.getLast? = some last)
    (ha : p.store.isAnchor last = false) :
    p.complete cs = .ok chain ↔
      ∃ as, as ≠ [] ∧ as.length ≤ p.maxDepth ∧ p.store.Ancestors last as ∧ chain = cs ++ as := by
  constructor
  · intro hc
    obtain ⟨-, h⟩ | ⟨as, hne, hlen, has, h⟩ | ⟨as, -, -, h⟩ := complete_cases hn hl ha
    · cases hc.symm.trans h
    · exact ⟨as, hne, hlen, has, Except.ok.inj (hc.symm.trans h)⟩
    · cases hc.symm.trans h
  · rintro ⟨as, hne, hlen, has, rfl⟩
    obtain ⟨hnone, -⟩ | ⟨bs, -, -, hbs, h⟩ | ⟨bs, hfull, hbs, -⟩ := complete_cases hn hl ha
    · exact absurd hnone (has.exists_first hne)
    · rw [h, has.unique hbs]
    · have hlt := hbs.lt_length has
      omega

theorem complete_eq_pathTooLong_iff (hn : 0 < p.maxDepth) (hl : cs.getLast? = some last)
    (ha : p.store.isAnchor last = false) :
    p.complete cs = .error (chain, .pathTooLong p.maxDepth) ↔
      ∃ as, as.length = p.maxDepth ∧ p.store.SomeAncestors last as ∧ chain = cs ++ as := by
  constructor
  · intro hc
    obtain ⟨-, h⟩ | ⟨as, -, -, -, h⟩ | ⟨as, hlen, has, h⟩ := complete_cases hn hl ha
    · cases hc.symm.trans h
    · cases hc.symm.trans h
    · exact ⟨as, hlen, has, (Prod.ext_iff.mp (Except.error.inj (hc.symm.trans h))).1⟩
  · rintro ⟨as, hlen, has, rfl⟩
    obtain ⟨hnone, -⟩ | ⟨bs, -, hle, hbs, -⟩ | ⟨bs, hfull, hbs, h⟩ := complete_cases hn hl ha
    · exact absurd hnone has.exists_first
    · have hlt := has.lt_length hbs
      omega
    · rw [h, has.unique hbs (hlen.trans hfull.symm)]

theorem exists_pathTooLong_iff_cyclic (hn : 0 < p.maxDepth) (hsize : p.store.size ≤ p.maxDepth)
    (hl : cs.getLast? = some last) (ha : p.store.isAnchor last = false) :
    (∃ chain, p.complete cs = .error (chain, .pathTooLong p.maxDepth)) ↔
      ∃ i c, p.store.ancestor? last i = some c ∧ p.store.Cyclic c := by
  constructor
  · rintro ⟨chain, h⟩
    obtain ⟨as, hlen, has, -⟩ := (complete_eq_pathTooLong_iff hn hl ha).mp h
    exact AnchorStore.exists_cyclic_of_size_le hsize (hlen ▸ has.further)
  · rintro ⟨i, c, hi, hc⟩
    -- an ascent that comes to a cycle has no end
    have hlong : ∀ j, p.store.ancestor? last j ≠ none := by
      intro j
      apply AnchorStore.ancestor?_ne_none_of_le (n := i + j) _ (Nat.le_add_left j i)
      rw [AnchorStore.ancestor?_add, hi]
      exact hc.climb_ne_none j
    obtain ⟨hnone, -⟩ | ⟨as, -, -, has, -⟩ | ⟨as, -, -, h⟩ := complete_cases hn hl ha
    · exact absurd hnone (hlong 0)
    · have hend := hlong as.length
      rw [has, List.getElem?_eq_none (Nat.le_refl _)] at hend
      exact absurd rfl hend
    · exact ⟨_, h⟩

theorem fault?_eq_iff_complete {e : TrustFault} (he : e.OfCompletion) (P : Provider) (vs : List Validator)
    (t : Instant) : (p.verify P cs vs t).fault? = some e ↔ ∃ chain, p.complete cs = .error (chain, e) := by
  simp only [← verify_eq_iff_complete he P vs t]
  constructor
  · intro h
    obtain ⟨chain, hv⟩ | ⟨chain, f, hv⟩ := p.verify_cases P cs vs t
    · rw [hv] at h
      cases h
    · rw [hv] at h
      cases h
      exact ⟨chain, hv⟩
  · rintro ⟨chain, h⟩
    rw [h, Verdict.fault?_untrusted]

/-- A chain that ends at an anchor is complete. Any other is completed with all anchors above it if there are some and
no more than the bound; without any, or beyond the bound, the verdict says so. A bound that is not below the number of
anchors is exceeded only on a cycle. -/
theorem ascent_exact (p : TrustPolicy) (P : Provider) (front : List Certificate) (last : Certificate)
    (vs : List Validator) (t : Instant) :
    let s := p.store
    let n := p.maxDepth
    let cs := front ++ [last]
    let v := p.verify P cs vs t
    (s.isAnchor last = true → p.complete cs = .ok cs ∧ v.chain = cs) ∧
      (s.isAnchor last = false → 0 < n →
        (v = .untrusted [] (.noTrustedRoot last.subject) ↔ s.ancestor? last 0 = none) ∧
        (∀ chain, p.complete cs = .ok chain ↔
          ∃ as, as ≠ [] ∧ as.length ≤ n ∧ s.Ancestors last as ∧ chain = cs ++ as) ∧
        (∀ chain, v = .untrusted chain (.pathTooLong n) ↔
          ∃ as, as.length = n ∧ s.SomeAncestors last as ∧ chain = cs ++ as) ∧
        (s.ancestor? last 0 ≠ none → (∀ chain, p.complete cs ≠ .ok chain) → v.fault? = some (.pathTooLong n)) ∧
        (s.size ≤ n →
          (v.fault? = some (.pathTooLong n) ↔ ∃ i c, s.ancestor? last i = some c ∧ s.Cyclic c) ∧
            ((∀ c ∈ s.certificates, ¬ s.Cyclic c) → v.fault? ≠ some (.pathTooLong n)))) := by
  intro s n cs v
  have hl : cs.getLast? = some last := List.getLast?_concat
  have hroot : (TrustFault.noTrustedRoot last.subject).OfCompletion := trivial
  have hlong : (TrustFault.pathTooLong n).OfCompletion := trivial
  constructor
  · intro ha
    have hc := complete_anchor p hl ha
    exact ⟨hc, (verify_of_complete hc P vs t).1⟩
  · intro ha hn
    have hcycle (hsize : s.size ≤ n) :
        v.fault? = some (.pathTooLong n) ↔ ∃ i c, s.ancestor? last i = some c ∧ s.Cyclic c :=
      (fault?_eq_iff_complete hlong P vs t).trans (exists_pathTooLong_iff_cyclic hn hsize hl ha)
    refine ⟨?_, fun _ => complete_eq_ok_iff hn hl ha, ?_, ?_, fun hsize => ⟨hcycle hsize, ?_⟩⟩
    · exact (verify_eq_iff_complete hroot P vs t).trans (complete_eq_noTrustedRoot_iff hn hl ha)
    · intro chain
      exact (verify_eq_iff_complete hlong P vs t).trans (complete_eq_pathTooLong_iff hn hl ha)
    · intro hfirst hnever
      obtain ⟨hnone, -⟩ | ⟨as, -, -, -, h⟩ | ⟨as, -, -, h⟩ := complete_cases hn hl ha
      · exact absurd hnone hfirst
      · exact absurd h (hnever _)
      · exact (fault?_eq_iff_complete hlong P vs t).mpr ⟨_, h⟩
    · intro hfree h
      obtain ⟨i, c, hi, hc⟩ := (hcycle hsize).mp h
      exact hfree c (AnchorStore.mem_certificates_of_ancestor? hi) hc

end TrustPolicy

end Provenance
