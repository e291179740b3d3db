import Provenance.Certificate.Basic
import Provenance.Proofs.Octets
import Provenance.Proofs.Outcome

/-!
Signatures under matching keys: what a key signs turns out right under its public half, whichever way that half came
about.
-/
namespace Provenance

open Crypto (Group)

def NativeKey.OnCurve (P : Primitives) : NativeKey → Prop
  | point g x y => P.onCurve g x y = true
  | _ => True

/-- What is relied on of a provider: signatures verify under the point or the octets that belong to the secret, and the
key of a certificate is a point of its curve, if it is a point. -/
structure Provider.Lawful (P : Provider) : Prop where
  ecdsa {g : Group} {d r s : Nat} {h : DigestAlgorithm} {m : Octets} :
    P.ecdsaSign g d h m = some (r, s) → P.onCurve g (P.pointOf g d).1 (P.pointOf g d).2 = true →
      P.ecdsaVerify g (P.pointOf g d).1 (P.pointOf g d).2 h m r s = some true
  eddsa {c : Curve} {e : EdwardsScheme} (b m : Octets) :
    c.scheme? = some e → P.eddsaVerify e (P.octetsOf c b) m (P.eddsaSign e b m) = some true
  certified {k : SubjectKey} {n : NativeKey} : P.subjectKey k = some n → n.OnCurve P.toPrimitives

namespace SubjectKey

variable {p : Primitives} {n : NativeKey}

theorem onCurve_of_point? {g : Group} {x y : Nat} (h : point? p g x y = some n) : n.OnCurve p := by
  unfold point? at h
  split at h
  · next hon =>
    cases h
    exact hon
  · cases h

theorem onCurve_of_pointOf? {g : Group} {b : Octets} (h : pointOf? p g b = some n) : n.OnCurve p := by
  unfold pointOf? at h
  split at h
  · cases h
  simp only at h
  split at h
  · exact onCurve_of_point? h
  split at h
  · exact onCurve_of_point? h
  split at h
  · obtain ⟨y, -, h⟩ := Option.bind_eq_some_iff.mp h
    exact onCurve_of_point? h
  · cases h

theorem onCurve_of_octets? {c : Curve} {k : SubjectKey} (h : octets? c k = some n) : n.OnCurve p := by
  unfold octets? at h
  split at h
  · cases h
    trivial
  · cases h

theorem onCurve_of_rsa? {b : Octets} (h : rsa? b = some n) : n.OnCurve p := by
  obtain ⟨⟨e, r⟩, -, h⟩ := Option.bind_eq_some_iff.mp h
  obtain ⟨es, -, h⟩ := Option.bind_eq_some_iff.mp h
  split at h
  · split at h
    · cases h
      trivial
    · cases h
  · cases h

theorem onCurve_of_native? {k : SubjectKey} (h : native? p k = some n) : n.OnCurve p := by
  unfold native? at h
  split at h
  · obtain ⟨g, -, h⟩ := Option.bind_eq_some_iff.mp h
    exact onCurve_of_pointOf? h
  split at h
  · exact onCurve_of_rsa? h
  · obtain ⟨c, -, h⟩ := Option.bind_eq_some_iff.mp h
    exact onCurve_of_octets? h

end SubjectKey

/-- A signature that was made once, and the secret that it was made with. -/
structure Recording where
  secret : Octets
  message : Octets
  signature : Octets

/-- Primitives for EdDSA that repeat the signatures they were told of, for any keys that belong to the secrets. -/
def Primitives.recorded (keyOf : Octets → Octets) (rs : List Recording) : Primitives where
  digest _ _ := []
  onCurve _ _ _ := false
  lift _ _ _ := none
  pointOf _ _ := (0, 0)
  octetsOf _ := keyOf
  ecdsaSign _ _ _ _ := none
  ecdsaVerify _ _ _ _ _ _ _ := none
  eddsaSign _ b m := ((rs.find? fun r => r.secret = b ∧ r.message = m).map Recording.signature).getD []
  eddsaVerify _ key m s := some (s = [] ∨ ∃ r ∈ rs, keyOf r.secret = key ∧ r.message = m ∧ r.signature = s)
  rsaVerify _ _ _ _ := false

def Provider.recorded (keyOf : Octets → Octets) (rs : List Recording) : Provider :=
  (Primitives.recorded keyOf rs).provider

section Recorded

variable (keyOf : Octets → Octets) (rs : List Recording) (e : EdwardsScheme) (c : Curve) (b m s : Octets)

@[simp] theorem octetsOf_recorded : (Provider.recorded keyOf rs).octetsOf c b = keyOf b := rfl

@[simp] theorem eddsaSign_recorded : (Provider.recorded keyOf rs).eddsaSign e b m =
    ((rs.find? fun r => r.secret = b ∧ r.message = m).map Recording.signature).getD [] := rfl

theorem eddsaVerify_recorded_iff : (Provider.recorded keyOf rs).eddsaVerify e b m s = some true ↔
    s = [] ∨ ∃ r ∈ rs, keyOf r.secret = b ∧ r.message = m ∧ r.signature = s := by
  simp [Provider.recorded, Primitives.provider, Primitives.recorded]

end Recorded

theorem lawful_recorded (keyOf : Octets → Octets) (rs : List Recording) : (Provider.recorded keyOf rs).Lawful where
  ecdsa h := nomatch h
  eddsa := by
    intro c e b m hc
    rw [eddsaVerify_recorded_iff, octetsOf_recorded, eddsaSign_recorded]
    cases h : rs.find? fun r => r.secret = b ∧ r.message = m with
    | none => exact .inl rfl
    | some r =>
      have hr := List.find?_some h
      simp only [decide_eq_true_eq] at hr
      obtain ⟨rfl, rfl⟩ := hr
      exact .inr ⟨r, List.mem_of_find?_eq_some h, rfl, rfl, rfl⟩
  certified := SubjectKey.onCurve_of_native?

section Padding

variable {w r s n : Nat} {b : Octets}

theorem padded_eq_ok_iff : padded w n = .ok b ↔ n < 256 ^ w ∧ Octets.ofNat w n = b := by
  rw [← Octets.width_le_iff]
  unfold padded Octets.padded?
  split
  · next hn => simp only [hn, true_and, Option.map_some, Option.getD_some, pure, Except.pure, Except.ok.injEq]
  · next hn => simp only [hn, false_and, Option.map_none, Option.getD_none, reduceCtorEq]

theorem joinHalves_eq_ok_iff :
    joinHalves w r s = .ok b ↔ r < 256 ^ w ∧ s < 256 ^ w ∧ Octets.ofNat w r ++ Octets.ofNat w s = b := by
  simp only [joinHalves, bind_eq_ok_iff, padded_eq_ok_iff, pure, Except.pure, Except.ok.injEq]
  constructor
  · rintro ⟨_, ⟨hr, rfl⟩, _, ⟨hs, rfl⟩, rfl⟩
    exact ⟨hr, hs, rfl⟩
  · rintro ⟨hr, hs, rfl⟩
    exact ⟨_, ⟨hr, rfl⟩, _, ⟨hs, rfl⟩, rfl⟩

theorem splitHalves?_of_joinHalves (h : joinHalves w r s = .ok b) : splitHalves? w b = some (r, s) := by
  obtain ⟨hr, hs, rfl⟩ := joinHalves_eq_ok_iff.mp h
  have hlen : (Octets.ofNat w r ++ Octets.ofNat w s).length = 2 * w := by
    rw [List.length_append, Octets.length_ofNat, Octets.length_ofNat]
    omega
  rw [splitHalves?, if_pos hlen, List.take_left' (Octets.length_ofNat w r),
    List.drop_left' (Octets.length_ofNat w r), Octets.toNat_ofNat hr, Octets.toNat_ofNat hs]

end Padding

/-- A number belongs to one curve that is known here, and a curve that is not has none of these numbers. -/
theorem Crypto.Group.eq_of_number? {g g' : Group} {n : Nat} (hn : n ∈ knownGroups) (h : g.number? = some n)
    (h' : g'.number? = some n) : g = g' := by
  have hforeign {f : ForeignGroup} (hf : f.number? = some n) : False := f.foreign n hf hn
  cases g with
  | other f => exact (hforeign h).elim
  | _ =>
    cases h
    cases g' with
    | other f => exact (hforeign h').elim
    | _ => first
      | rfl
      | cases h'

namespace Curve

theorem size_eq_width {c : Curve} {g : Group} (h : c.group? = some g) : c.size = g.width := by
  cases c <;> cases h <;> rfl

theorem mem_knownGroups {c : Curve} {n : Nat} (h : c.number? = some n) : n ∈ Crypto.knownGroups := by
  cases c <;> cases h <;> decide

theorem group?_of_ofGroup {c : Curve} {g : Group} (h : ofGroup g = .ok c) : c.group? = some g := by
  unfold ofGroup ofNumber at h
  split at h
  · next n hn =>
    split at h
    · next c' hc =>
      cases h
      have hnumber : c.number? = some n := by simpa using List.find?_some hc
      obtain ⟨g', hg', hn'⟩ := Option.bind_eq_some_iff.mp hnumber
      rw [hg', Crypto.Group.eq_of_number? (mem_knownGroups hnumber) hn' hn]
    · cases h
  · cases h

theorem isOkp_eq_false {c : Curve} {g : Group} (h : c.group? = some g) : c.isOkp = false := by
  rw [isOkp, h]
  rfl

end Curve

namespace PublicKey

variable {P : Provider} {n : NativeKey} {k : PublicKey}

theorem checkCoordinate_eq_ok_iff {c : Curve} {name : String} {b : Octets} :
    checkCoordinate c name b = .ok () ↔ b.length = c.size := by
  unfold checkCoordinate
  split <;> simp_all

theorem point_eq_ok_iff {c : Curve} {x y : Octets} :
    point c x y = .ok k ↔ c.isOkp = false ∧ x.length = c.size ∧ y.length = c.size ∧ affine c x y = k := by
  simp only [point, refuse_eq_ok_iff, then_eq_ok_iff, checkCoordinate_eq_ok_iff, Bool.not_eq_true, pure, Except.pure,
    Except.ok.injEq]

theorem okp_eq_ok_iff {c : Curve} {x : Octets} :
    okp c x = .ok k ↔ c.isOkp = true ∧ x.length = c.size ∧ single c x = k := by
  simp only [okp, refuse_eq_ok_iff, then_eq_ok_iff, checkCoordinate_eq_ok_iff, Bool.not_eq_true', Bool.not_eq_false,
    pure, Except.pure, Except.ok.injEq]

theorem ofNative_point_eq_ok_iff {g : Group} {x y : Nat} :
    ofNative (.point g x y) = .ok k ↔ ∃ c, c.group? = some g ∧ x < 256 ^ c.size ∧ y < 256 ^ c.size ∧
      affine c (Octets.ofNat c.size x) (Octets.ofNat c.size y) = k := by
  rw [ofNative, bind_eq_ok_iff]
  simp only [bind_eq_ok_iff, padded_eq_ok_iff, point_eq_ok_iff]
  constructor
  · rintro ⟨c, hc, _, ⟨hx, rfl⟩, _, ⟨hy, rfl⟩, -, -, -, hk⟩
    exact ⟨c, Curve.group?_of_ofGroup hc, hx, hy, hk⟩
  · rintro ⟨c, hc, hx, hy, hk⟩
    have hlen (n : Nat) : (Octets.ofNat c.size n).length = c.size := Octets.length_ofNat c.size n
    exact ⟨c, Curve.ofGroup_group? hc, _, ⟨hx, rfl⟩, _, ⟨hy, rfl⟩, Curve.isOkp_eq_false hc, hlen x, hlen y, hk⟩

/-- A key is got back from what it is written as, provided that it is on its curve. -/
theorem native_eq_ok_iff {m : NativeKey} (h : ofNative m = .ok k) :
    k.native P = .ok n ↔ m.OnCurve P.toPrimitives ∧ m = n := by
  cases m with
  | point g x y =>
    obtain ⟨c, hc, hx, hy, rfl⟩ := ofNative_point_eq_ok_iff.mp h
    simp only [native, hc, Octets.toNat_ofNat hx, Octets.toNat_ofNat hy, NativeKey.OnCurve]
    split <;> simp_all
  | octets c b =>
    obtain ⟨hc, hb, rfl⟩ := okp_eq_ok_iff.mp h
    simp [native, hc, hb, NativeKey.OnCurve]
  | rsa => cases h
  | other => cases h

end PublicKey

namespace Certificate

variable {P : Provider}

theorem subjectKey_of_nativeKey {c : Certificate} {n : NativeKey} (h : c.nativeKey P = .ok n) :
    P.subjectKey c.layout.part.key = some n := by
  unfold nativeKey at h
  split at h
  · next hn =>
    cases h
    exact hn
  · cases h

theorem native_of_publicKey (hP : P.Lawful) {c : Certificate} {k : PublicKey} (h : c.publicKey P = .ok k) :
    ∃ n, k.native P = .ok n := by
  obtain ⟨n, hn, hk⟩ := bind_eq_ok_iff.mp h
  have hon := hP.certified (subjectKey_of_nativeKey hn)
  exact ⟨n, (PublicKey.native_eq_ok_iff hk).mpr ⟨hon, rfl⟩⟩

end Certificate

namespace PrivateKey

variable {P : Provider}

theorem verify_native (hP : P.Lawful) {k : PrivateKey} {a : Algorithm} {m signature : Octets}
    (hk : (k.native P).OnCurve P.toPrimitives) (h : sign P k a m = .ok signature) :
    verify P (k.native P) a m signature = .ok true := by
  unfold sign at h
  split at h
  · next d g e hd =>
    split at h
    · next r s hs =>
      simp only [verify, native, hd, splitHalves?_of_joinHalves h, hP.ecdsa hs hk, Option.getD_some]
    · cases h
  · next c b hd =>
    split at h
    · next e he =>
      cases h
      simp only [verify, native, hd, he, hP.eddsa b m he, Option.getD_some]
    · cases h
  · cases h

/-- What is signed verifies under the public key, if that can be used at all. -/
theorem verify_of_sign (hP : P.Lawful) {k : PrivateKey} {q : PublicKey} {n : NativeKey} {a : Algorithm}
    {m signature : Octets} (hk : k.publicKey P = .ok q) (hn : q.native P = .ok n)
    (h : sign P k a m = .ok signature) : verify P n a m signature = .ok true := by
  obtain ⟨hon, rfl⟩ := (PublicKey.native_eq_ok_iff hk).mp hn
  exact verify_native hP hon h

end PrivateKey

end Provenance
