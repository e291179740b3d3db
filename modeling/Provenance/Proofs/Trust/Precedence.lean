import Mathlib.Data.Prod.Lex
import Mathlib.Data.List.Pairwise
import Provenance.Proofs.Trust.Ascent

/-!
Which fault is reported: checks have places in an order, and of all that fail on a chain the first decides.
-/
namespace Provenance

open Calendar (Instant)

section Enumerates

variable {ι α : Type} [Preorder ι] {due due' : ι → α → Prop} {xs ys : List α}

/-- A list holds what is due at all places, in their order. -/
def Enumerates (due : ι → α → Prop) (xs : List α) : Prop :=
  ∃ ps : List (ι × α), ps.map Prod.snd = xs ∧ (ps.Pairwise fun p q => p.1 < q.1) ∧ ∀ i x, due i x ↔ (i, x) ∈ ps

theorem Enumerates.congr (h : Enumerates due xs) (hdue : ∀ i x, due' i x ↔ due i x) : Enumerates due' xs := by
  obtain rfl : due' = due := funext fun i => funext fun x => propext (hdue i x)
  exact h

theorem enumerates_nil (h : ∀ i x, ¬ due i x) : Enumerates due [] :=
  ⟨[], rfl, .nil, fun i x => by simp [h i x]⟩

theorem enumerates_singleton (i : ι) (x : α) : Enumerates (fun j y => j = i ∧ y = x) [x] :=
  ⟨[(i, x)], rfl, List.pairwise_singleton _ _, fun j y => by simp⟩

theorem Enumerates.append (hx : Enumerates due xs) (hy : Enumerates due' ys)
    (h : ∀ i x j y, due i x → due' j y → i < j) : Enumerates (fun i x => due i x ∨ due' i x) (xs ++ ys) := by
  obtain ⟨ps, rfl, hps, hdue⟩ := hx
  obtain ⟨qs, rfl, hqs, hdue'⟩ := hy
  refine ⟨ps ++ qs, List.map_append, ?_, fun i x => by simp only [List.mem_append, hdue, hdue']⟩
  rw [List.pairwise_append]
  refine ⟨hps, hqs, ?_⟩
  intro p hp q hq
  exact h p.1 p.2 q.1 q.2 ((hdue _ _).mpr hp) ((hdue' _ _).mpr hq)

theorem Enumerates.cons {i : ι} {x : α} (hx : Enumerates due xs) (h : ∀ j y, due j y → i < j) :
    Enumerates (fun j y => (j = i ∧ y = x) ∨ due j y) (x :: xs) :=
  (enumerates_singleton i x).append hx fun j y k z hj hz => by
    obtain ⟨rfl, rfl⟩ := hj
    exact h k z hz

theorem Enumerates.place {κ : Type} [Preorder κ] (hx : Enumerates due xs) {f : ι → κ} (hf : StrictMono f) :
    Enumerates (fun k x => ∃ i, k = f i ∧ due i x) xs := by
  obtain ⟨ps, rfl, hps, hdue⟩ := hx
  refine ⟨ps.map fun p => (f p.1, p.2), by rw [List.map_map]; rfl, ?_, ?_⟩
  · exact List.pairwise_map.mpr (hps.imp fun hpq => hf hpq)
  · intro k x
    simp only [hdue, List.mem_map, Prod.mk.injEq, Prod.exists]
    constructor
    · rintro ⟨i, rfl, hi⟩
      exact ⟨i, x, hi, rfl, rfl⟩
    · rintro ⟨i, y, hi, rfl, rfl⟩
      exact ⟨i, rfl, hi⟩

theorem Enumerates.first_iff (hx : Enumerates due xs) {good bad : α → Prop} :
    (∃ before x after, xs = before ++ x :: after ∧ (∀ y ∈ before, good y) ∧ bad x) ↔
      ∃ i x, due i x ∧ bad x ∧ ∀ j y, due j y → j < i → good y := by
  obtain ⟨ps, rfl, hps, hdue⟩ := hx
  constructor
  · rintro ⟨before, x, after, h, hgood, hbad⟩
    obtain ⟨ps, qs, rfl, rfl, hqs⟩ := List.map_eq_append_iff.mp h
    obtain ⟨⟨i, x⟩, rs, rfl, rfl, rfl⟩ := List.map_eq_cons_iff.mp hqs
    refine ⟨i, x, (hdue i x).mpr (by simp), hbad, ?_⟩
    intro j y hj hlt
    obtain ⟨-, hrest, -⟩ := List.pairwise_append.mp hps
    -- what stands at an earlier place is neither the element itself nor behind it
    have hlater := (List.pairwise_cons.mp hrest).1
    obtain hm | hm := List.mem_append.mp ((hdue j y).mp hj)
    · exact hgood y (List.mem_map_of_mem hm)
    · obtain heq | hm := List.mem_cons.mp hm
      · cases heq
        exact absurd hlt (lt_irrefl _)
      · exact absurd hlt (hlater _ hm).asymm
  · rintro ⟨i, x, hi, hbad, hgood⟩
    obtain ⟨before, after, rfl⟩ := List.append_of_mem ((hdue i x).mp hi)
    refine ⟨before.map Prod.snd, x, after.map Prod.snd, by simp, ?_, hbad⟩
    intro y hy
    obtain ⟨⟨j, y⟩, hm, rfl⟩ := List.mem_map.mp hy
    have hlt := (List.pairwise_append.mp hps).2.2 _ hm _ List.mem_cons_self
    exact hgood j y ((hdue j y).mpr (List.mem_append_left _ hm)) hlt

end Enumerates

namespace Check

/-- When a check refuses a chain, and what its fault says. -/
inductive Refuses (P : Provider) : Check → TrustFault → Prop
  | signatureUse {c : Certificate} (h : c.allowsSignature = false) :
      Refuses P (.signatureUse c) (.noSignatureUse c.subject)
  | authority {c : Certificate} (h : c.isAuthority = false) : Refuses P (.authority c) (.noAuthority c.subject)
  | certSignUse {c : Certificate} (h : c.allowsCertSign = false) : Refuses P (.certSignUse c) (.noCertSignUse c.subject)
  | issuerName {c d : Certificate} (h : c.rawIssuer ≠ d.rawSubject) :
      Refuses P (.issuerName c d) (.wrongIssuer c.subject c.issuer d.subject)
  | issuerKey {c d : Certificate} {aki ski : Octets} (ha : c.aki? = some aki) (hs : d.ski? = some ski)
      (h : aki ≠ ski) : Refuses P (.issuerKey c d) (.wrongIssuerKey c.subject d.subject)
  | validity {c : Certificate} {t : Instant} (h : c.isValidAt t = .ok false) :
      Refuses P (.validity c t) (.notValidAt c.subject t)
  | noTime {c : Certificate} {t : Instant} {f : Fault} (h : c.isValidAt t = .error f) :
      Refuses P (.validity c t) (.unusable c.subject f)
  | signature {c d : Certificate} {k : NativeKey} (hk : d.nativeKey P = .ok k) (h : c.isSignedBy P k = false) :
      Refuses P (.signature c d) (.notSignedBy c.subject d.subject)
  | noKey {c d : Certificate} {f : Fault} (h : d.nativeKey P = .error f) :
      Refuses P (.signature c d) (.unusable d.subject f)
  | validator {v : Validator} {c : Certificate} {r : String} (h : v.reason? c = some r) :
      Refuses P (.validator v c) (.rejected c.subject r)

variable {P : Provider} {vs : List Validator} {t : Instant} {k : Check} {e : TrustFault}

theorem require_eq_error_iff {b : Bool} {f : TrustFault} : require b f = .error e ↔ b = false ∧ e = f := by
  cases b <;> simp [require, eq_comm]

theorem use_eq_error_iff {α : Type} {c : Certificate} {x : Outcome α} :
    use c x = .error e ↔ ∃ f, x = .error f ∧ e = .unusable c.subject f := by
  cases x <;> simp [use, Except.mapError, eq_comm]

theorem use_eq_ok_iff {α : Type} {c : Certificate} {x : Outcome α} {a : α} : use c x = .ok a ↔ x = .ok a :=
  mapError_eq_ok_iff

theorem issuerKeyFits_eq_false_iff {c d : Certificate} :
    issuerKeyFits c d = false ↔ ∃ aki ski, c.aki? = some aki ∧ d.ski? = some ski ∧ aki ≠ ski := by
  rw [← Bool.not_eq_true, issuerKeyFits_iff]
  push Not
  rfl

theorem run_eq_error_iff : k.run P = .error e ↔ k.Refuses P e := by
  constructor
  · intro h
    cases k with
    | signatureUse c =>
      obtain ⟨hb, rfl⟩ := require_eq_error_iff.mp h
      exact .signatureUse hb
    | authority c =>
      obtain ⟨hb, rfl⟩ := require_eq_error_iff.mp h
      exact .authority hb
    | certSignUse c =>
      obtain ⟨hb, rfl⟩ := require_eq_error_iff.mp h
      exact .certSignUse hb
    | issuerName c d =>
      obtain ⟨hb, rfl⟩ := require_eq_error_iff.mp h
      exact .issuerName (of_decide_eq_false hb)
    | issuerKey c d =>
      obtain ⟨hb, rfl⟩ := require_eq_error_iff.mp h
      obtain ⟨aki, ski, ha, hs, hne⟩ := issuerKeyFits_eq_false_iff.mp hb
      exact .issuerKey ha hs hne
    | validity c t =>
      obtain h | ⟨b, hv, h⟩ := bind_eq_error_iff.mp h
      · obtain ⟨f, hf, rfl⟩ := use_eq_error_iff.mp h
        exact .noTime hf
      · obtain ⟨rfl, rfl⟩ := require_eq_error_iff.mp h
        exact .validity (use_eq_ok_iff.mp hv)
    | signature c d =>
      obtain h | ⟨key, hk, h⟩ := bind_eq_error_iff.mp h
      · obtain ⟨f, hf, rfl⟩ := use_eq_error_iff.mp h
        exact .noKey hf
      · obtain ⟨hb, rfl⟩ := require_eq_error_iff.mp h
        exact .signature (use_eq_ok_iff.mp hk) hb
    | validator v c =>
      simp only [run] at h
      split at h
      · cases h
      · next r hr =>
        cases h
        exact .validator hr
  · intro h
    cases h with
    | signatureUse h => exact require_eq_error_iff.mpr ⟨h, rfl⟩
    | authority h => exact require_eq_error_iff.mpr ⟨h, rfl⟩
    | certSignUse h => exact require_eq_error_iff.mpr ⟨h, rfl⟩
    | issuerName h => exact require_eq_error_iff.mpr ⟨decide_eq_false h, rfl⟩
    | issuerKey ha hs hne => exact require_eq_error_iff.mpr ⟨issuerKeyFits_eq_false_iff.mpr ⟨_, _, ha, hs, hne⟩, rfl⟩
    | validity h => exact bind_eq_error_iff.mpr (.inr ⟨false, use_eq_ok_iff.mpr h, rfl⟩)
    | noTime h => exact bind_eq_error_iff.mpr (.inl (use_eq_error_iff.mpr ⟨_, h, rfl⟩))
    | signature hk h =>
      exact bind_eq_error_iff.mpr (.inr ⟨_, use_eq_ok_iff.mpr hk, require_eq_error_iff.mpr ⟨h, rfl⟩⟩)
    | noKey h => exact bind_eq_error_iff.mpr (.inl (use_eq_error_iff.mpr ⟨_, h, rfl⟩))
    | validator h => simp only [run, h]

/-- The checks on a leaf, by their ranks. -/
inductive OnLeaf (vs : List Validator) (t : Instant) (c : Certificate) : (rank : Nat) → Check → Prop
  | use : OnLeaf vs t c 0 (.signatureUse c)
  | validity : OnLeaf vs t c 1 (.validity c t)
  | validator {j : Nat} {v : Validator} (hv : vs[j]? = some v) : OnLeaf vs t c (2 + j) (.validator v c)

/-- The checks on the issuer that comes next to a certificate, by their ranks. -/
inductive OnIssuer (vs : List Validator) (t : Instant) (c d : Certificate) : (rank : Nat) → Check → Prop
  | authority : OnIssuer vs t c d 0 (.authority d)
  | certSignUse : OnIssuer vs t c d 1 (.certSignUse d)
  | issuerName : OnIssuer vs t c d 2 (.issuerName c d)
  | issuerKey : OnIssuer vs t c d 3 (.issuerKey c d)
  | validity : OnIssuer vs t c d 4 (.validity d t)
  | signature : OnIssuer vs t c d 5 (.signature c d)
  | validator {j : Nat} {v : Validator} (hv : vs[j]? = some v) : OnIssuer vs t c d (6 + j) (.validator v d)

/-- The checks on a chain by their places: how far up the certificate is that a check is about, and its rank there. -/
inductive Due (vs : List Validator) (t : Instant) (cs : List Certificate) : (place : Nat ×ₗ Nat) → Check → Prop
  | leaf {c : Certificate} {r : Nat} {k : Check} (hc : cs[0]? = some c) (hk : OnLeaf vs t c r k) :
      Due vs t cs (toLex (0, r)) k
  | issuer {i r : Nat} {c d : Certificate} {k : Check} (hc : cs[i]? = some c) (hd : cs[i + 1]? = some d)
      (hk : OnIssuer vs t c d r k) : Due vs t cs (toLex (i + 1, r)) k
  | terminal {c : Certificate} (hc : cs.getLast? = some c) (hs : c.isSelfIssued = true) :
      Due vs t cs (toLex (cs.length, 0)) (.signature c c)

theorem enumerates_validators (n : Nat) (vs : List Validator) (c : Certificate) :
    Enumerates (fun r k => ∃ j v, vs[j]? = some v ∧ r = n + j ∧ k = .validator v c) (validators vs c) := by
  induction vs generalizing n with
  | nil => exact enumerates_nil (by simp)
  | cons v vs ih =>
    have hcons := (ih (n + 1)).cons (i := n) (x := .validator v c) fun j y hj => by
      obtain ⟨i, w, -, rfl, -⟩ := hj
      omega
    refine hcons.congr fun r k => ?_
    constructor
    · rintro ⟨_ | j, w, hw, rfl, rfl⟩
      · cases hw
        exact .inl ⟨rfl, rfl⟩
      · exact .inr ⟨j, w, hw, by omega, rfl⟩
    · rintro (⟨rfl, rfl⟩ | ⟨j, w, hw, rfl, rfl⟩)
      · exact ⟨0, v, rfl, rfl, rfl⟩
      · exact ⟨j + 1, w, hw, by omega, rfl⟩

section Enumerates

variable (vs t)

theorem enumerates_leaf (c : Certificate) : Enumerates (OnLeaf vs t c) (leaf vs t c) := by
  have hvalidators := enumerates_validators 2 vs c
  have hvalidity := hvalidators.cons (i := 1) (x := .validity c t) fun j y ⟨i, w, _, hj, _⟩ => by omega
  have huse := hvalidity.cons (i := 0) (x := .signatureUse c) fun j y hj => by
    obtain ⟨rfl, -⟩ | ⟨i, w, -, rfl, -⟩ := hj <;> omega
  refine huse.congr fun r k => ?_
  constructor
  · rintro (_ | _ | hv)
    · exact .inl ⟨rfl, rfl⟩
    · exact .inr (.inl ⟨rfl, rfl⟩)
    · exact .inr (.inr ⟨_, _, hv, rfl, rfl⟩)
  · rintro (⟨rfl, rfl⟩ | ⟨rfl, rfl⟩ | ⟨j, v, hv, rfl, rfl⟩)
    · exact .use
    · exact .validity
    · exact .validator hv

theorem enumerates_link (c d : Certificate) : Enumerates (OnIssuer vs t c d) (link vs t c d) := by
  have hvalidators := enumerates_validators 6 vs d
  have hfixed : Enumerates (fun r k => r < 6 ∧ OnIssuer vs t c d r k) [.authority d, .certSignUse d, .issuerName c d,
      .issuerKey c d, .validity d t, .signature c d] := by
    refine ⟨[(0, .authority d), (1, .certSignUse d), (2, .issuerName c d), (3, .issuerKey c d), (4, .validity d t),
      (5, .signature c d)], rfl, by simp, fun r k => ?_⟩
    constructor
    · rintro ⟨hr, h⟩
      cases h with
      | validator hv => omega
      | _ => simp
    · intro h
      simp only [List.mem_cons, Prod.mk.injEq, List.not_mem_nil, or_false] at h
      obtain ⟨rfl, rfl⟩ | ⟨rfl, rfl⟩ | ⟨rfl, rfl⟩ | ⟨rfl, rfl⟩ | ⟨rfl, rfl⟩ | ⟨rfl, rfl⟩ := h
      all_goals exact ⟨by decide, by constructor⟩
  refine (hfixed.append hvalidators fun r k q l hr hq => ?_).congr fun r k => ?_
  · obtain ⟨j, v, -, rfl, -⟩ := hq
    omega
  · constructor
    · intro h
      cases h with
      | validator hv => exact .inr ⟨_, _, hv, rfl, rfl⟩
      | _ => exact .inl ⟨by decide, by constructor⟩
    · rintro (⟨-, h⟩ | ⟨j, v, hv, rfl, rfl⟩)
      · exact h
      · exact .validator hv

theorem place_strictMono (i : Nat) : StrictMono fun r : Nat => (toLex (i, r) : Nat ×ₗ Nat) := fun _ _ h =>
  Prod.Lex.toLex_lt_toLex.mpr (.inr ⟨rfl, h⟩)

-- the chain is what remains of one from its `n`-th certificate on
theorem enumerates_links (n : Nat) (cs : List Certificate) :
    Enumerates (fun p k => ∃ i r c d, cs[i]? = some c ∧ cs[i + 1]? = some d ∧ OnIssuer vs t c d r k ∧
      p = (toLex (n + i + 1, r) : Nat ×ₗ Nat)) (links vs t cs) := by
  induction cs generalizing n with
  | nil => exact enumerates_nil (by simp)
  | cons c cs ih =>
    cases cs with
    | nil => exact enumerates_nil (by simp)
    | cons d cs =>
      have hlink := (enumerates_link vs t c d).place (place_strictMono (n + 1))
      refine (hlink.append (ih (n + 1)) fun p k q l hp hq => ?_).congr fun p k => ?_
      · obtain ⟨r, rfl, -⟩ := hp
        obtain ⟨i, s, -, -, -, -, -, rfl⟩ := hq
        exact Prod.Lex.toLex_lt_toLex.mpr (.inl (by omega))
      · constructor
        · rintro ⟨_ | i, r, a, b, ha, hb, hk, rfl⟩
          · cases ha
            cases hb
            exact .inl ⟨r, rfl, hk⟩
          · exact .inr ⟨i, r, a, b, ha, hb, hk, by rw [Nat.add_right_comm n 1 i, Nat.add_assoc n i 1]⟩
        · rintro (⟨r, rfl, hk⟩ | ⟨i, r, a, b, ha, hb, hk, rfl⟩)
          · exact ⟨0, r, c, d, rfl, rfl, hk, rfl⟩
          · exact ⟨i + 1, r, a, b, ha, hb, hk, by rw [Nat.add_right_comm n 1 i, Nat.add_assoc n i 1]⟩

theorem enumerates_terminal (n : Nat) (c : Certificate) :
    Enumerates (fun p k => c.isSelfIssued = true ∧ p = (toLex (n, 0) : Nat ×ₗ Nat) ∧ k = .signature c c)
      (terminal c) := by
  unfold terminal
  cases hc : c.isSelfIssued with
  | true => exact (enumerates_singleton (toLex (n, 0)) (signature c c)).congr fun p k => by simp
  | false => exact enumerates_nil (by simp)

theorem enumerates_chain (cs : List Certificate) : Enumerates (Due vs t cs) (chain vs t cs) := by
  cases cs with
  | nil => exact enumerates_nil fun p k h => by cases h <;> simp_all
  | cons c cs =>
    obtain ⟨last, hlast⟩ : ∃ last, (c :: cs).getLast? = some last :=
      ⟨_, List.getLast?_eq_some_getLast (List.cons_ne_nil c cs)⟩
    have hchain : chain vs t (c :: cs) = leaf vs t c ++ (links vs t (c :: cs) ++ terminal last) := by
      simp [chain, hlast]
    have hleaf := (enumerates_leaf vs t c).place (place_strictMono 0)
    have habove := (enumerates_links vs t 0 (c :: cs)).append
      (enumerates_terminal (c :: cs).length last) fun p k q l hp hq => by
        obtain ⟨i, r, a, b, -, hb, -, rfl⟩ := hp
        obtain ⟨-, rfl, -⟩ := hq
        have hi := (List.getElem?_eq_some_iff.mp hb).1
        exact Prod.Lex.toLex_lt_toLex.mpr (.inl (by omega))
    rw [hchain]
    refine (hleaf.append habove fun p k q l hp hq => ?_).congr fun p k => ?_
    · obtain ⟨r, rfl, -⟩ := hp
      obtain ⟨i, s, a, b, -, -, -, rfl⟩ | ⟨-, rfl, -⟩ := hq
      · exact Prod.Lex.toLex_lt_toLex.mpr (.inl (by omega))
      · exact Prod.Lex.toLex_lt_toLex.mpr (.inl (Nat.succ_pos _))
    · constructor
      · intro h
        cases h with
        | leaf hc hk =>
          cases hc
          exact .inl ⟨_, rfl, hk⟩
        | @issuer i r a b k ha hb hk => exact .inr (.inl ⟨i, r, a, b, ha, hb, hk, by rw [Nat.zero_add]⟩)
        | terminal hc hs =>
          cases hlast.symm.trans hc
          exact .inr (.inr ⟨hs, rfl, rfl⟩)
      · rintro (⟨r, rfl, hk⟩ | ⟨i, r, a, b, ha, hb, hk, rfl⟩ | ⟨hs, rfl, rfl⟩)
        · exact .leaf rfl hk
        · rw [Nat.zero_add]
          exact .issuer ha hb hk
        · exact .terminal hlast hs

end Enumerates

theorem runAll_eq_error_iff {ks : List Check} :
    runAll P ks = .error e ↔ ∃ before k after, ks = before ++ k :: after ∧ (∀ l ∈ before, l.Holds P) ∧ k.Refuses P e := by
  rw [runAll, forM_eq_error_iff]
  simp only [run_eq_ok_iff, run_eq_error_iff]

variable (P vs t) in
/-- The first check on the chain that does not hold is refused with the fault. -/
def FirstRefused (cs : List Certificate) (e : TrustFault) : Prop :=
  ∃ p k, Due vs t cs p k ∧ k.Refuses P e ∧ ∀ q l, Due vs t cs q l → q < p → l.Holds P

theorem runAll_chain_eq_error_iff {cs : List Certificate} :
    runAll P (chain vs t cs) = .error e ↔ FirstRefused P vs t cs e := by
  rw [runAll_eq_error_iff, (enumerates_chain vs t cs).first_iff]
  rfl

end Check

/-- There is no anchor to complete a chain with that ends at this certificate. -/
structure AnchorStore.Rootless (s : AnchorStore) (last : Certificate) : Prop where
  unstored : s.isAnchor last = false
  unissued : ∀ aki, last.aki? = some aki → s.lookup aki = none

theorem AnchorStore.issuer?_eq_none_iff {s : AnchorStore} {c : Certificate} :
    s.issuer? c = none ↔ ∀ aki, c.aki? = some aki → s.lookup aki = none := by
  rw [issuer?, Option.bind_eq_none_iff]

namespace TrustPolicy

variable {p : TrustPolicy} {cs chain : List Certificate} {e : TrustFault}

/-- A chain that is not empty keeps its certificates, unless there is no anchor to complete it with. -/
theorem complete_kept (p : TrustPolicy) (cs : List Certificate) :
    (cs = [] ∧ p.complete cs = .error ([], .emptyChain)) ∨
      (∃ last, cs.getLast? = some last ∧ p.store.Rootless last ∧
        p.complete cs = .error ([], .noTrustedRoot last.subject)) ∨
      ∃ last above, cs.getLast? = some last ∧ ¬ p.store.Rootless last ∧
        (p.complete cs = .ok (cs ++ above) ∨ p.complete cs = .error (cs ++ above, .pathTooLong p.maxDepth)) := by
  cases hl : cs.getLast? with
  | none => exact .inl ⟨List.getLast?_eq_none_iff.mp hl, by simp [complete, hl]⟩
  | some last =>
    cases ha : p.store.isAnchor last with
    | true =>
      refine .inr (.inr ⟨last, [], rfl, ?_, .inl ?_⟩)
      · intro h
        exact Bool.noConfusion (ha.symm.trans h.unstored)
      · rw [List.append_nil]
        exact complete_anchor p hl ha
    | false =>
      cases hi : p.store.issuer? last with
      | none =>
        refine .inr (.inl ⟨last, rfl, ⟨ha, AnchorStore.issuer?_eq_none_iff.mp hi⟩, ?_⟩)
        simp [complete, hl, ha, hi]
      | some root =>
        refine .inr (.inr ⟨last, root :: (p.store.ascend (p.maxDepth - 1) root).1, rfl, ?_, ?_⟩)
        · intro h
          cases hi.symm.trans (AnchorStore.issuer?_eq_none_iff.mpr h.unissued)
        · rw [complete_ascent p hl ha hi]
          cases (p.store.ascend (p.maxDepth - 1) root).2 <;> simp

theorem ofCompletion_of_complete (h : p.complete cs = .error (chain, e)) : e.OfCompletion := by
  obtain ⟨-, hc⟩ | ⟨last, -, -, hc⟩ | ⟨last, above, -, -, hc | hc⟩ := p.complete_kept cs
  all_goals
    cases hc.symm.trans h
    try exact trivial

section Verify

variable (P : Provider) (vs : List Validator) (t : Instant)

theorem fault?_eq_emptyChain_iff : (p.verify P cs vs t).fault? = some .emptyChain ↔ cs = [] := by
  rw [fault?_eq_iff_complete (show TrustFault.emptyChain.OfCompletion from trivial)]
  constructor
  · rintro ⟨chain, h⟩
    obtain ⟨hcs, -⟩ | ⟨last, -, -, hc⟩ | ⟨last, above, -, -, hc | hc⟩ := p.complete_kept cs
    · exact hcs
    all_goals cases hc.symm.trans h
  · rintro rfl
    exact ⟨[], rfl⟩

theorem fault?_eq_noTrustedRoot_iff {s : String} :
    (p.verify P cs vs t).fault? = some (.noTrustedRoot s) ↔
      ∃ last, cs.getLast? = some last ∧ p.store.Rootless last ∧ s = last.subject := by
  rw [fault?_eq_iff_complete (show (TrustFault.noTrustedRoot s).OfCompletion from trivial)]
  obtain ⟨rfl, hc⟩ | ⟨last, hl, hr, hc⟩ | ⟨last, above, hl, hr, hc⟩ := p.complete_kept cs
  · simp [hc]
  · simp [hc, hl, hr, eq_comm]
  · obtain hc | hc := hc <;> simp [hc, hl, hr]

theorem chain_cases (p : TrustPolicy) (cs : List Certificate) :
    ((cs = [] ∨ ∃ last, cs.getLast? = some last ∧ p.store.Rootless last) ∧ (p.verify P cs vs t).chain = []) ∨
      ∃ last above, cs.getLast? = some last ∧ ¬ p.store.Rootless last ∧ (p.verify P cs vs t).chain = cs ++ above := by
  obtain ⟨hcs, hc⟩ | ⟨last, hl, hr, hc⟩ | ⟨last, above, hl, hr, hc | hc⟩ := p.complete_kept cs
  · exact .inl ⟨.inl hcs, by simp [verify, hc]⟩
  · exact .inl ⟨.inr ⟨last, hl, hr⟩, by simp [verify, hc]⟩
  · exact .inr ⟨last, above, hl, hr, (verify_of_complete hc P vs t).1⟩
  · exact .inr ⟨last, above, hl, hr, by simp [verify, hc]⟩

theorem chain_eq_nil_iff :
    (p.verify P cs vs t).chain = [] ↔ cs = [] ∨ ∃ last, cs.getLast? = some last ∧ p.store.Rootless last := by
  obtain ⟨h, hchain⟩ | ⟨last, above, hl, hr, hchain⟩ := chain_cases P vs t p cs
  · simp only [hchain, h]
  · have hne : cs ≠ [] := by
      rintro rfl
      cases hl
    simp [hchain, hne, hl, hr]

theorem prefix_chain (h : (p.verify P cs vs t).chain ≠ []) : cs <+: (p.verify P cs vs t).chain := by
  obtain ⟨-, hchain⟩ | ⟨last, above, -, -, hchain⟩ := chain_cases P vs t p cs
  · exact absurd hchain h
  · exact ⟨above, hchain.symm⟩

theorem fault?_eq_iff_firstRefused (he : ¬ e.OfCompletion) :
    (p.verify P cs vs t).fault? = some e ↔
      p.complete cs = .ok (p.verify P cs vs t).chain ∧ Check.FirstRefused P vs t (p.verify P cs vs t).chain e := by
  rw [← Check.runAll_chain_eq_error_iff]
  unfold verify
  cases hc : p.complete cs with
  | error f =>
    obtain ⟨chain, f⟩ := f
    have hf := ofCompletion_of_complete hc
    simp only [Verdict.fault?_untrusted, Option.some.injEq, reduceCtorEq, false_and, iff_false]
    rintro rfl
    exact he hf
  | ok chain => cases hr : Check.runAll P (Check.chain vs t chain) <;> simp [hr]

end Verify

/-- A verdict has a fault unless the chain is trusted. Its chain is empty exactly if none was supplied, or none of the
anchors can complete it, which are faults of their own, and else begins with the chain supplied. All further faults but
that of a path beyond the bound are those of the first check that fails. -/
theorem fault_located (p : TrustPolicy) (P : Provider) (cs : List Certificate) (vs : List Validator) (t : Instant) :
    let v := p.verify P cs vs t
    (v.isTrusted = true ↔ v.fault? = none) ∧
      (v.fault? = some .emptyChain ↔ cs = []) ∧
      (∀ s, v.fault? = some (.noTrustedRoot s) ↔
        ∃ last, cs.getLast? = some last ∧ p.store.Rootless last ∧ s = last.subject) ∧
      (v.chain = [] ↔ v.fault? = some .emptyChain ∨ ∃ s, v.fault? = some (.noTrustedRoot s)) ∧
      (v.chain ≠ [] → cs <+: v.chain) ∧
      ∀ e : TrustFault, ¬ e.OfCompletion →
        (v.fault? = some e ↔ p.complete cs = .ok v.chain ∧ Check.FirstRefused P vs t v.chain e) := by
  intro v
  refine ⟨isTrusted_iff_fault? P cs vs t, fault?_eq_emptyChain_iff P vs t,
    fun s => fault?_eq_noTrustedRoot_iff P vs t, ?_, prefix_chain P vs t,
    fun e he => fault?_eq_iff_firstRefused P vs t he⟩
  have hroot : (∃ s, v.fault? = some (.noTrustedRoot s)) ↔ ∃ last, cs.getLast? = some last ∧ p.store.Rootless last := by
    simp only [v, fault?_eq_noTrustedRoot_iff]
    constructor
    · rintro ⟨s, last, hl, hr, -⟩
      exact ⟨last, hl, hr⟩
    · rintro ⟨last, hl, hr⟩
      exact ⟨_, last, hl, hr, rfl⟩
  rw [hroot, fault?_eq_emptyChain_iff]
  exact chain_eq_nil_iff P vs t

end TrustPolicy

end Provenance
