import Provenance.Proofs.Cbor.Rearranging
import Provenance.Proofs.Cbor.RoundTrip
import Provenance.Proofs.Faults
import Provenance.Proofs.Key.Matching

/-!
Maps that hold a public key: the first entry under each label of the key is the one that is written for it. Other
labels have no influence, so that a key is got back from its map.
-/
namespace Provenance

open Cbor
open Cbor.Item (StandsAt)

namespace Cbor

variable {x y : Item} {i : Int}

theorem Item.int?_eq_some_toNat_iff {n : UInt64} : x.int? = some (n.toNat : Int) ↔ x = .unsigned n := by
  constructor
  · intro h
    exact Entries.int?_inj h rfl
  · rintro rfl
    rfl

theorem Item.int?_eq_of_alike (h : x.alike y = true) : x.int? = y.int? := by
  cases x <;> cases y <;> simp_all [Item.alike, Item.int?]

namespace Entries

variable {es : Entries}

/-- What the first entry under an integer holds. -/
def FirstUnder (es : Entries) (i : Int) (y : Item) : Prop :=
  ∃ before k after, es = before ++ (k, y) :: after ∧ k.int? = some i ∧ ∀ e ∈ before, e.1.int? ≠ some i

theorem label?_eq_some_iff : es.label? i = some y ↔ es.FirstUnder i y := by
  unfold label? FirstUnder
  simp only [Option.map_eq_some_iff, List.find?_eq_some_iff_append, decide_eq_true_eq, Bool.not_eq_true',
    decide_eq_false_iff_not]
  constructor
  · rintro ⟨⟨k, _⟩, ⟨hk, before, after, rfl, hbefore⟩, rfl⟩
    exact ⟨before, k, after, rfl, hk, hbefore⟩
  · rintro ⟨before, k, after, rfl, hk, hbefore⟩
    exact ⟨(k, y), ⟨hk, before, after, rfl, hbefore⟩, rfl⟩

theorem label?_cons (e : Item × Item) :
    label? (e :: es) i = if e.1.int? = some i then some e.2 else es.label? i := by
  unfold label?
  rw [List.find?_cons]
  by_cases h : e.1.int? = some i <;> simp [h]

theorem label?_put_of_ne {k : Item} (h : k.int? ≠ some i) (y : Item) : (es.put k y).label? i = es.label? i := by
  induction es with
  | nil => simp [put, label?_cons, h]
  | cons e es ih =>
    obtain ⟨l, z⟩ := e
    rw [put]
    split
    · next hl =>
      have hne : l.int? ≠ some i := by rwa [Item.int?_eq_of_alike hl]
      simp [label?_cons, hne]
    · simp only [label?_cons, ih]

theorem label?_foldl_put {fs : Entries} (h : ∀ e ∈ fs, e.1.int? ≠ some i) :
    label? (fs.foldl (fun es e => put es e.1 e.2) es) i = es.label? i := by
  induction fs generalizing es with
  | nil => rfl
  | cons e fs ih =>
    rw [List.forall_mem_cons] at h
    rw [List.foldl_cons, ih h.2, label?_put_of_ne h.1]

end Entries

end Cbor

namespace Curve

/-- The curves in Montgomery and in Edwards form; all others are in Weierstrass form. -/
def singleCoordinate : List Curve := [x25519, x448, ed25519, ed448]

theorem isOkp_iff {c : Curve} : c.isOkp = true ↔ c ∈ singleCoordinate := by cases c <;> decide

theorem ofId_eq_ok_iff {i : Int} {c : Curve} : ofId i = .ok c ↔ i = c.id := by
  constructor
  · intro h
    unfold ofId at h
    split at h
    · next d hd =>
      cases h
      have hid := List.find?_some hd
      exact (of_decide_eq_true hid).symm
    · cases h
  · rintro rfl
    exact ofId_id c

theorem toNat_ofNat_id (c : Curve) : ((UInt64.ofNat c.id.toNat).toNat : Int) = c.id := by cases c <;> rfl

end Curve

namespace PublicKey

variable {k : PublicKey} {x : Item} {es : Entries}

/-- The key has the coordinates that keys of its curve have, each of the size that the curve has. -/
def WellFormed : PublicKey → Prop
  | affine c x y => c ∉ Curve.singleCoordinate ∧ x.length = c.size ∧ y.length = c.size
  | single c x => c ∈ Curve.singleCoordinate ∧ x.length = c.size

def reserved : List Int := [1, -1, -2, -3]

/-- The labels of key type, curve and coordinates. -/
def labels : PublicKey → List Int
  | affine .. => [1, -1, -2, -3]
  | single .. => [1, -1, -2]

theorem required_eq_ok_iff {name : String} {label : Int64} :
    required es name label = .ok x ↔ es.label? label.toInt = some x := by
  unfold required
  cases es.label? label.toInt <;> simp

theorem point_eq_ok_iff_wellFormed {c : Curve} {x y : Octets} :
    point c x y = .ok k ↔ (affine c x y).WellFormed ∧ affine c x y = k := by
  rw [point_eq_ok_iff, WellFormed, ← Curve.isOkp_iff, Bool.not_eq_true, and_assoc, and_assoc]

theorem okp_eq_ok_iff_wellFormed {c : Curve} {x : Octets} :
    okp c x = .ok k ↔ (single c x).WellFormed ∧ single c x = k := by
  rw [okp_eq_ok_iff, WellFormed, ← Curve.isOkp_iff, and_assoc]

/-- Under each label of the key the entries hold first what is written for it. -/
def HeldBy (k : PublicKey) (es : Entries) : Prop :=
  ∀ i ∈ k.labels, ∃ y, k.ownEntries.label? i = some y ∧ es.label? i = some y

def curveItem (c : Curve) : Item := .unsigned (.ofNat c.id.toNat)

theorem heldBy_affine_iff {c : Curve} {x y : Octets} (h : (affine c x y).WellFormed) :
    (affine c x y).HeldBy es ↔ es.label? 1 = some (.unsigned 2) ∧ es.label? (-1) = some (curveItem c) ∧
      es.label? (-2) = some (.bytes x) ∧ es.label? (-3) = some (.bytes y) := by
  have htype : c.keyType = 2 := by
    rw [Curve.keyType, if_neg (mt Curve.isOkp_iff.mp h.1)]
  have hkty : (affine c x y).ownEntries.label? 1 = some (.unsigned c.keyType) := rfl
  have hcrv : (affine c x y).ownEntries.label? (-1) = some (curveItem c) := rfl
  have hx : (affine c x y).ownEntries.label? (-2) = some (.bytes x) := rfl
  have hy : (affine c x y).ownEntries.label? (-3) = some (.bytes y) := rfl
  simp only [HeldBy, labels, List.forall_mem_cons, List.not_mem_nil, false_implies, implies_true, and_true, hkty, hcrv,
    hx, hy, htype, Option.some_inj, exists_eq_left']

theorem heldBy_single_iff {c : Curve} {x : Octets} (h : (single c x).WellFormed) :
    (single c x).HeldBy es ↔ es.label? 1 = some (.unsigned 1) ∧ es.label? (-1) = some (curveItem c) ∧
      es.label? (-2) = some (.bytes x) := by
  have htype : c.keyType = 1 := by
    rw [Curve.keyType, if_pos (Curve.isOkp_iff.mpr h.1)]
  have hkty : (single c x).ownEntries.label? 1 = some (.unsigned c.keyType) := rfl
  have hcrv : (single c x).ownEntries.label? (-1) = some (curveItem c) := rfl
  have hx : (single c x).ownEntries.label? (-2) = some (.bytes x) := rfl
  simp only [HeldBy, labels, List.forall_mem_cons, List.not_mem_nil, false_implies, implies_true, and_true, hkty, hcrv,
    hx, htype, Option.some_inj, exists_eq_left']

theorem int?_eq_id_iff {c : Curve} : x.int? = some c.id ↔ x = curveItem c := by
  rw [curveItem, ← Item.int?_eq_some_toNat_iff, Curve.toNat_ofNat_id]

theorem ofMap_eq_ok_iff : ofMap (.map es) = .ok k ↔ k.WellFormed ∧ k.HeldBy es := by
  simp only [ofMap, Field.map_map, ok_bind]
  simp only [bind_eq_ok_iff, required_eq_ok_iff, Field.int_eq_ok_iff, Curve.ofId_eq_ok_iff, Field.bytes_eq_ok_iff,
    exists_eq_right, int?_eq_id_iff]
  constructor
  · rintro ⟨kty, ⟨t, ht, hkty⟩, c, hc, x, hx, h⟩
    split at h
    case isTrue htwo =>
      obtain rfl : t = .unsigned 2 := Item.int?_eq_some_toNat_iff.mp (hkty.trans (congrArg some htwo))
      obtain ⟨y, hy, h⟩ := bind_eq_ok_iff.mp h
      rw [required_eq_ok_iff] at hy
      split at h
      · cases h
      · obtain ⟨b, hb, h⟩ := bind_eq_ok_iff.mp h
        rw [Field.bytes_eq_ok_iff.mp hb] at hy
        obtain ⟨hk, rfl⟩ := point_eq_ok_iff_wellFormed.mp h
        exact ⟨hk, (heldBy_affine_iff hk).mpr ⟨ht, hc, hx, hy⟩⟩
    case isFalse =>
      split at h
      · next hone =>
        obtain rfl : t = .unsigned 1 := Item.int?_eq_some_toNat_iff.mp (hkty.trans (congrArg some hone))
        obtain ⟨hk, rfl⟩ := okp_eq_ok_iff_wellFormed.mp h
        exact ⟨hk, (heldBy_single_iff hk).mpr ⟨ht, hc, hx⟩⟩
      · cases h
  · rintro ⟨hk, hes⟩
    cases k with
    | affine c x y =>
      obtain ⟨ht, hc, hx, hy⟩ := (heldBy_affine_iff hk).mp hes
      refine ⟨2, ⟨_, ht, rfl⟩, c, hc, x, hx, ?_⟩
      rw [if_pos rfl, required_eq_ok_iff.mpr hy]
      exact point_eq_ok_iff_wellFormed.mpr ⟨hk, rfl⟩
    | single c x =>
      obtain ⟨ht, hc, hx⟩ := (heldBy_single_iff hk).mp hes
      exact ⟨1, ⟨_, ht, rfl⟩, c, hc, x, hx, okp_eq_ok_iff_wellFormed.mpr ⟨hk, rfl⟩⟩

theorem labels_subset_reserved (k : PublicKey) : k.labels ⊆ reserved := by cases k <;> simp [labels, reserved]

theorem heldBy_ownEntries (k : PublicKey) : k.HeldBy k.ownEntries := by
  cases k with
  | affine c x y =>
    simp only [HeldBy, labels, List.forall_mem_cons]
    exact ⟨⟨_, rfl, rfl⟩, ⟨_, rfl, rfl⟩, ⟨_, rfl, rfl⟩, ⟨_, rfl, rfl⟩, nofun⟩
  | single c x =>
    simp only [HeldBy, labels, List.forall_mem_cons]
    exact ⟨⟨_, rfl, rfl⟩, ⟨_, rfl, rfl⟩, ⟨_, rfl, rfl⟩, nofun⟩

theorem ofMap_toMap {additional : Entries} (hk : k.WellFormed)
    (h : ∀ e ∈ additional, ∀ i ∈ reserved, e.1.int? ≠ some i) : ofMap (k.toMap additional) = .ok k := by
  apply ofMap_eq_ok_iff.mpr
  refine ⟨hk, ?_⟩
  intro i hi
  obtain ⟨y, hy, -⟩ := k.heldBy_ownEntries i hi
  -- None of the entries that are put is under the label.
  rw [Entries.label?_foldl_put fun e he => h e he i (k.labels_subset_reserved hi)]
  exact ⟨y, hy, hy⟩

/-- A key is read from a map exactly if it is well formed and under each of its labels the map holds first what is
written for it. So it is got back from its map, whatever is added under other labels, and from the octets of the map. -/
theorem ofMap_exact :
    (∀ x k, ofMap x = .ok k ↔ k.WellFormed ∧ ∃ es own : Entries, x = .map es ∧ k.toMap [] = .map own ∧
        ∀ i ∈ k.labels, ∃ y, own.FirstUnder i y ∧ es.FirstUnder i y) ∧
      (∀ (k : PublicKey) additional, k.WellFormed → (∀ e ∈ additional, ∀ i ∈ reserved, e.1.int? ≠ some i) →
        ofMap (k.toMap additional) = .ok k ∧
          ∀ b, Cbor.encode (k.toMap additional) = .ok b → b.length < 2 ^ 64 →
            (∀ y n, StandsAt y n (k.toMap additional) → n ≤ maxNesting) → (Cbor.decode b >>= ofMap) = .ok k) ∧
      ∀ x f, ofMap x = .error f → f.isFormat = true := by
  refine ⟨?_, ?_, formal_ofMap⟩
  · intro x k
    constructor
    · intro h
      obtain ⟨es, hes, -⟩ := bind_eq_ok_iff.mp h
      obtain rfl := Field.map_eq_ok_iff.mp hes
      obtain ⟨hk, hes⟩ := ofMap_eq_ok_iff.mp h
      simp only [HeldBy, Entries.label?_eq_some_iff] at hes
      exact ⟨hk, es, k.ownEntries, rfl, rfl, hes⟩
    · rintro ⟨hk, es, _, rfl, ⟨⟩, hes⟩
      simp only [← Entries.label?_eq_some_iff] at hes
      exact ofMap_eq_ok_iff.mpr ⟨hk, hes⟩
  · intro k additional hk h
    refine ⟨ofMap_toMap hk h, ?_⟩
    intro b hb hlen hn
    rw [decode_of_fits hb hlen (Item.fits_iff_le.mpr hn), ok_bind, ofMap_toMap hk h]

def sampleKey : PublicKey := .single .ed25519 (List.replicate 32 7)

def sampleMore : Entries := [(.unsigned 2, .bytes [0x31]), (.text "kid", .null)]

theorem fits_sampleMap : (sampleKey.toMap sampleMore).Fits (maxNesting + 1) := by
  have leaf {x : Item} (hx : x.Leaf) : x.Fits (127 + 1) := Item.fits_of_leaf hx
  have hmap : sampleKey.toMap sampleMore = .map (sampleKey.ownEntries ++ sampleMore) := rfl
  change (sampleKey.toMap sampleMore).Fits (127 + 1 + 1)
  rw [hmap, Item.fits_map_iff]
  simp only [sampleKey, ownEntries, sampleMore, List.forall_mem_append, List.forall_mem_cons]
  exact ⟨⟨⟨leaf trivial, leaf trivial⟩, ⟨leaf trivial, leaf trivial⟩, ⟨leaf trivial, leaf trivial⟩, nofun⟩,
    ⟨leaf trivial, leaf trivial⟩, ⟨leaf trivial, leaf trivial⟩, nofun⟩

theorem ofMap_exact_sample :
    ∃ b, Cbor.encode (sampleKey.toMap sampleMore) = .ok b ∧ (Cbor.decode b >>= ofMap) = .ok sampleKey := by
  have hkey : sampleKey.WellFormed := ⟨by decide, rfl⟩
  have hmore : ∀ e ∈ sampleMore, ∀ i ∈ reserved, e.1.int? ≠ some i := by decide
  have hencode : Cbor.encode (sampleKey.toMap sampleMore) = .ok (sampleKey.toMap sampleMore).octets := rfl
  have hlen : (sampleKey.toMap sampleMore).octets.length < 2 ^ 64 := by decide
  exact ⟨_, hencode, (ofMap_exact.2.1 sampleKey sampleMore hkey hmore).2 _ hencode hlen
    (Item.fits_iff_le.mp fits_sampleMap)⟩

end PublicKey

end Provenance
