import Provenance.Proofs.Cbor.Merging
import Provenance.Proofs.Key.Maps

/-!
Adding entries to the map of a key: when what was given is in it and when it is encoded. Both fail on floats alone,
since they are put into the map as numbers and written as bits.
-/
namespace Provenance

open Cbor
open Cbor.Entries (merged Spelled)

namespace Cbor

namespace Item

variable {x y : Item} {i : Int}

theorem alike_of_int? (h : x.int? = some i) : x.alike x = true := by
  cases x with
  | unsigned | negative => exact decide_eq_true rfl
  | _ => cases h

theorem spells_of_int? (h : x.int? = some i) : Spells x.octets x := by
  have hcount : x.reserved? = none ∧ x.Leaf ∧ x.count = 0 := by
    cases x with
    | unsigned | negative => exact ⟨rfl, trivial, rfl⟩
    | _ => cases h
  obtain ⟨hres, hleaf, hcount⟩ := hcount
  exact spells_of_counted hres ((throughout_leaf_iff hleaf).mpr (hcount.trans_lt (by decide)))

theorem eq_of_alike_int (h : x.alike y = true) (hy : y.int? = some i) : x = y :=
  Entries.int?_inj ((int?_eq_of_alike h).trans hy) hy

end Item

namespace Entries

variable {es fs : Entries}

def Labelled (es : Entries) : Prop := ∀ e ∈ es, ∃ i, e.1.int? = some i

theorem Labelled.spelled (h : es.Labelled) : es.Spelled := by
  intro e he
  obtain ⟨i, hi⟩ := h e he
  exact Item.spells_of_int? hi

theorem Labelled.not_hasNan (h : es.Labelled) {e : Item × Item} (he : e ∈ es) : ¬ e.1.HasNan := by
  obtain ⟨i, hi⟩ := h e he
  exact Item.alike_self_iff.mp (Item.alike_of_int? hi)

theorem nansOnce_append_iff (h : es.Labelled) (hfs : fs.Spelled) : (es ++ fs).NansOnce ↔ fs.NansOnce := by
  have hunder {e : Item × Item} (he : e ∈ fs) (hnan : e.1.HasNan) :
      (es ++ fs).under e.1.octets = fs.under e.1.octets := by
    have hnone : es.under e.1.octets = [] := by
      apply under_eq_nil
      intro f hf hfe
      exact h.not_hasNan hf (Spells.octets_inj (h.spelled f hf) (hfs e he) hfe ▸ hnan)
    rw [under_append, hnone, List.nil_append]
  constructor
  · intro honce e he hnan
    rw [← hunder he hnan]
    exact honce e (List.mem_append_right _ he) hnan
  · intro honce e he hnan
    obtain he | he := List.mem_append.mp he
    · exact absurd hnan (h.not_hasNan he)
    · rw [hunder he hnan]
      exact honce e he hnan

theorem zerosApart_append_iff (h : es.Labelled) : (es ++ fs).ZerosApart ↔ fs.ZerosApart := by
  simp only [zerosApart_iff]
  constructor
  · intro hzeros e he f hf
    exact hzeros e (List.mem_append_right _ he) f (List.mem_append_right _ hf)
  · intro hzeros e he f hf halike
    obtain he' | he := List.mem_append.mp he
    · obtain ⟨i, hi⟩ := h e he'
      exact (Item.eq_of_alike_int (Item.alike_symm halike) hi).symm
    · obtain hf' | hf := List.mem_append.mp hf
      · obtain ⟨i, hi⟩ := h f hf'
        exact Item.eq_of_alike_int halike hi
      · exact hzeros e he f hf halike

end Entries

end Cbor

namespace PublicKey

variable {additional : Entries}

theorem labelled_ownEntries (k : PublicKey) : k.ownEntries.Labelled := by
  cases k with
  | affine c x y =>
    simp only [Entries.Labelled, ownEntries, List.forall_mem_cons]
    exact ⟨⟨_, rfl⟩, ⟨_, rfl⟩, ⟨_, rfl⟩, ⟨_, rfl⟩, List.forall_mem_nil _⟩
  | single c x =>
    simp only [Entries.Labelled, ownEntries, List.forall_mem_cons]
    exact ⟨⟨_, rfl⟩, ⟨_, rfl⟩, ⟨_, rfl⟩, List.forall_mem_nil _⟩

theorem under_ownEntries (k : PublicKey) : ∀ e ∈ k.ownEntries, k.ownEntries.under e.1.octets = [e.2] := by
  cases k with
  | affine c x y =>
    simp only [ownEntries, List.forall_mem_cons]
    exact ⟨rfl, rfl, rfl, rfl, List.forall_mem_nil _⟩
  | single c x =>
    simp only [ownEntries, List.forall_mem_cons]
    exact ⟨rfl, rfl, rfl, List.forall_mem_nil _⟩

theorem exists_encode_ownEntries (k : PublicKey) :
    ∀ e ∈ k.ownEntries, (∃ b, encode e.1 = .ok b) ∧ ∃ b, encode e.2 = .ok b := by
  cases k with
  | affine c x y =>
    simp only [ownEntries, List.forall_mem_cons]
    exact ⟨⟨⟨_, rfl⟩, _, rfl⟩, ⟨⟨_, rfl⟩, _, rfl⟩, ⟨⟨_, rfl⟩, _, rfl⟩, ⟨⟨_, rfl⟩, _, rfl⟩, List.forall_mem_nil _⟩
  | single c x =>
    simp only [ownEntries, List.forall_mem_cons]
    exact ⟨⟨⟨_, rfl⟩, _, rfl⟩, ⟨⟨_, rfl⟩, _, rfl⟩, ⟨⟨_, rfl⟩, _, rfl⟩, List.forall_mem_nil _⟩

theorem toMap_eq_merged (k : PublicKey) (additional : Entries) :
    k.toMap additional = .map (merged (k.ownEntries ++ additional)) := by
  have hown : merged k.ownEntries = k.ownEntries := by cases k <;> rfl
  rw [toMap, merged, List.foldl_append]
  exact congrArg (fun es => Item.map (additional.foldl _ es)) hown.symm

theorem spelled_append (k : PublicKey) (h : additional.Spelled) : (k.ownEntries ++ additional).Spelled :=
  List.forall_mem_append.mpr ⟨k.labelled_ownEntries.spelled, h⟩

theorem under_toMap_own (k : PublicKey) (h : additional.Spelled) {e : Item × Item} (he : e ∈ k.ownEntries)
    (hfree : additional.under e.1.octets = []) : (merged (k.ownEntries ++ additional)).under e.1.octets = [e.2] := by
  obtain ⟨i, hi⟩ := k.labelled_ownEntries e he
  have halone : ∀ f ∈ k.ownEntries ++ additional, f.1.alike e.1 = true → f.1 = e.1 :=
    fun f _ hf => Item.eq_of_alike_int hf hi
  rw [Entries.under_merged_of_alone (k.spelled_append h) (Item.spells_of_int? hi)
    (k.labelled_ownEntries.not_hasNan he) halone, Entries.under_append, k.under_ownEntries e he, hfree]
  rfl

theorem holds_last_toMap_iff (k : PublicKey) (h : additional.Spelled) :
    (∀ b v, (additional.under b).getLast? = some v → (merged (k.ownEntries ++ additional)).under b = [v]) ↔
      additional.NansOnce ∧ additional.ZerosApart := by
  rw [← Entries.nansOnce_append_iff k.labelled_ownEntries h, ← Entries.zerosApart_append_iff k.labelled_ownEntries,
    ← Entries.holds_last_iff (k.spelled_append h)]
  simp only [Entries.under_append, List.getLast?_append]
  constructor
  · intro hlast b v hv
    cases hmore : (additional.under b).getLast? with
    | some w =>
      rw [hmore, Option.some_or] at hv
      exact hlast b v (hmore.trans hv)
    | none =>
      -- What is given has nothing under the octets, so that they are those of a label of the key.
      rw [hmore, Option.none_or] at hv
      obtain ⟨l, hl, rfl⟩ := Entries.mem_under_iff.mp (List.mem_of_getLast? hv)
      rw [k.under_ownEntries _ hl] at hv
      cases hv
      exact k.under_toMap_own h hl (List.getLast?_eq_none_iff.mp hmore)
  · intro hlast b v hv
    apply hlast b v
    rw [hv, Option.some_or]

theorem exists_encode_toMap_iff (k : PublicKey) (h : additional.Spelled)
    (hencode : ∀ e ∈ additional, (∃ b, encode e.1 = .ok b) ∧ ∃ b, encode e.2 = .ok b) :
    (∃ b, encode (k.toMap additional) = .ok b) ↔ additional.NansOnce := by
  have hall := List.forall_mem_append.mpr ⟨k.exists_encode_ownEntries, hencode⟩
  have hmerged : ∀ e ∈ merged (k.ownEntries ++ additional), (∃ b, encode e.1 = .ok b) ∧ ∃ b, encode e.2 = .ok b := by
    intro e he
    obtain ⟨hk, hv⟩ := Entries.mem_merged he
    obtain ⟨f, hf, hfk⟩ := List.mem_map.mp hk
    obtain ⟨g, hg, hgv⟩ := List.mem_map.mp hv
    rw [← hfk, ← hgv]
    exact ⟨(hall f hf).1, (hall g hg).2⟩
  rw [toMap_eq_merged, Entries.exists_encode_map_iff hmerged, Entries.length_under_merged_le_iff (k.spelled_append h),
    Entries.nansOnce_append_iff k.labelled_ownEntries h]

/-- Where all that is added can be encoded, each label of the key that is not among the keys added keeps its value. The
map is encoded exactly if no key with a NaN in it is added twice, and it has the value added last under each key exactly
if, besides, no two of the keys differ in the signs of zeros alone. Counts in the keys are those that a machine with
words of 64 bits can hold. -/
theorem toMap_merges (k : PublicKey) (additional : Entries)
    (hkeys : ∀ e ∈ additional, e.1.Counted ∧ ∃ b, encode e.1 = .ok b)
    (hvalues : ∀ e ∈ additional, ∃ b, encode e.2 = .ok b) :
    ∃ es : Entries, k.toMap additional = .map es ∧
      (∀ e ∈ k.ownEntries, additional.under e.1.octets = [] → es.under e.1.octets = [e.2]) ∧
      ((∃ b, encode (.map es) = .ok b) ↔ additional.NansOnce) ∧
      ((∀ b v, (additional.under b).getLast? = some v → es.under b = [v]) ↔
        additional.NansOnce ∧ additional.ZerosApart) := by
  have hspelled : additional.Spelled := by
    intro e he
    obtain ⟨hcounted, b, hb⟩ := hkeys e he
    exact spells_of_counted (encode_eq_ok_iff.mp hb).1 hcounted
  have hmap := k.toMap_eq_merged additional
  refine ⟨_, hmap, ?_, ?_, k.holds_last_toMap_iff hspelled⟩
  · intro e he
    exact k.under_toMap_own hspelled he
  · rw [← hmap]
    exact k.exists_encode_toMap_iff hspelled fun e he => ⟨(hkeys e he).2, hvalues e he⟩

def nan : Item := .float 0x7ff8000000000000

/-- A NaN, a key given twice, and another value for the curve of a key. -/
def mergedSample : Entries :=
  [(nan, .null), (.unsigned 2, .text "kid"), (.negative 0, .unsigned 99), (.unsigned 2, .bytes [0x31])]

theorem mergedSample_encodable :
    ∀ e ∈ mergedSample, (e.1.Counted ∧ ∃ b, encode e.1 = .ok b) ∧ ∃ b, encode e.2 = .ok b := by
  have leaf {x : Item} (hx : x.Leaf) (hcount : x.count = 0) : x.Counted :=
    (Item.throughout_leaf_iff hx).mpr (hcount.trans_lt (by decide))
  simp only [mergedSample, List.forall_mem_cons]
  exact ⟨⟨⟨leaf trivial rfl, _, rfl⟩, _, rfl⟩, ⟨⟨leaf trivial rfl, _, rfl⟩, _, rfl⟩,
    ⟨⟨leaf trivial rfl, _, rfl⟩, _, rfl⟩, ⟨⟨leaf trivial rfl, _, rfl⟩, _, rfl⟩, List.forall_mem_nil _⟩

theorem mergedSample_apart : mergedSample.NansOnce ∧ mergedSample.ZerosApart := by
  have numbers {i : Int} {x : Item} (hx : x.int? = some i) : ¬ x.HasNan :=
    Item.alike_self_iff.mp (Item.alike_of_int? hx)
  constructor
  · simp only [mergedSample, Entries.NansOnce, List.forall_mem_cons]
    exact ⟨fun _ => by decide, fun h => absurd h (numbers rfl), fun h => absurd h (numbers rfl),
      fun h => absurd h (numbers rfl), List.forall_mem_nil _⟩
  · simp only [mergedSample, Entries.zerosApart_iff, List.forall_mem_cons]
    simp [nan, Item.alike, Item.sameNumber]

theorem toMap_merges_sample :
    ∃ es : Entries, sampleKey.toMap mergedSample = .map es ∧ (∃ b, encode (.map es) = .ok b) ∧
      es.under [0x01] = [.unsigned 1] ∧ es.under [0x02] = [.bytes [0x31]] ∧ es.under [0x20] = [.unsigned 99] := by
  obtain ⟨es, hes, hown, hencode, hlast⟩ := toMap_merges sampleKey mergedSample
    (fun e he => (mergedSample_encodable e he).1) (fun e he => (mergedSample_encodable e he).2)
  have hheld := hlast.mpr mergedSample_apart
  exact ⟨es, hes, hencode.mpr mergedSample_apart.1, hown _ List.mem_cons_self rfl, hheld _ _ rfl, hheld _ _ rfl⟩

def repeatedNan : Entries := [(nan, .unsigned 0), (nan, .unsigned 1)]

def signedZeros : Entries := [(.float 0, .unsigned 0), (.float 0x8000000000000000, .unsigned 1)]

/-- A NaN added twice is there twice, so that the map is refused. Of a zero and a negative zero the first is there
alone, with the value of the second. -/
theorem floats_added_amiss :
    (∀ e ∈ repeatedNan ++ signedZeros, (∃ b, encode e.1 = .ok b) ∧ ∃ b, encode e.2 = .ok b) ∧
      encode (sampleKey.toMap repeatedNan) = .error (Flaw.fault 0 (.duplicateKey nan)) ∧
      (signedZeros.under [0xf9, 0x00, 0x00] = [.unsigned 0] ∧ signedZeros.under [0xf9, 0x80, 0x00] = [.unsigned 1]) ∧
      ∃ es : Entries, sampleKey.toMap signedZeros = .map es ∧ es.under [0xf9, 0x00, 0x00] = [.unsigned 1] ∧
        es.under [0xf9, 0x80, 0x00] = [] := by
  refine ⟨?_, rfl, ⟨rfl, rfl⟩, _, rfl, rfl, rfl⟩
  simp only [repeatedNan, signedZeros, List.forall_mem_append, List.forall_mem_cons]
  exact ⟨⟨⟨⟨_, rfl⟩, _, rfl⟩, ⟨⟨_, rfl⟩, _, rfl⟩, List.forall_mem_nil _⟩, ⟨⟨_, rfl⟩, _, rfl⟩, ⟨⟨_, rfl⟩, _, rfl⟩,
    List.forall_mem_nil _⟩

end PublicKey

end Provenance
