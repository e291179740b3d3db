import Provenance.Proofs.Cbor.RoundTrip
import Provenance.Proofs.SecurityObject.Schema

/-!
The digests that an object keeps are those that stand in the item it was read from: none is lost, none takes the place
of another, and each stays in its namespace under its number.
-/
namespace Provenance

open Cbor

namespace Cbor

theorem Entries.mem_iff_of_mem {es : Entries} (hn : (es.map Prod.fst).Nodup) {k x y : Item} (hx : (k, x) ∈ es) :
    (k, y) ∈ es ↔ y = x := by
  constructor
  · intro hy
    exact congrArg Prod.snd (List.inj_on_of_nodup_map hn hy hx rfl)
  · rintro rfl
    exact hx

namespace Item

section Tabulates

variable {κ β : Type} [Ord κ] [Std.TransOrd κ] {key : κ → Item} {R : Item → β → Prop} {es : Entries}
  {m : Std.ExtTreeMap κ β}

theorem Tabulates.getElem?_eq_none_iff (h : (map es).Tabulates key R m) (hkey : Function.Injective key) {k : κ} :
    m[k]? = none ↔ ∀ y, (key k, y) ∉ es := by
  obtain ⟨_, ⟨⟩, hentries, htable⟩ := h
  constructor
  · intro hnone y hy
    obtain ⟨l, b, hl, -, hget⟩ := hentries _ hy
    rw [hkey hl, hget] at hnone
    cases hnone
  · intro hall
    cases hget : m[k]? with
    | none => rfl
    | some b =>
      obtain ⟨y, hy, -⟩ := htable k b hget
      exact absurd hy (hall y)

variable [Std.LawfulEqOrd κ]

/-- A table of values that say what they were read from has the entries of the map in its own order. -/
theorem Tabulates.perm {value : β → Item} {P : β → Prop}
    (h : (map es).Tabulates key (fun y b => y = value b ∧ P b) m) (hkey : Function.Injective key)
    (hn : (es.map Prod.fst).Nodup) : es.Perm (m.toList.map fun e => (key e.1, value e.2)) := by
  obtain ⟨_, ⟨⟩, hentries, htable⟩ := h
  have hkeys : ((m.toList.map fun e => (key e.1, value e.2)).map Prod.fst).Nodup := by
    have hfst : (m.toList.map fun e => (key e.1, value e.2)).map Prod.fst = m.keys.map key := by
      rw [← Std.ExtTreeMap.map_fst_toList_eq_keys, List.map_map, List.map_map]
      rfl
    rw [hfst]
    exact Std.ExtTreeMap.nodup_keys.map hkey
  rw [List.perm_ext_iff_of_nodup hn.of_map hkeys.of_map]
  intro e
  simp only [List.mem_map, Prod.exists, Std.ExtTreeMap.mem_toList_iff_getElem?_eq_some]
  constructor
  · intro he
    obtain ⟨k, b, hk, ⟨hb, -⟩, hget⟩ := hentries e he
    exact ⟨k, b, hget, Prod.ext hk.symm hb.symm⟩
  · rintro ⟨k, b, hget, rfl⟩
    obtain ⟨y, hy, rfl, -⟩ := htable k b hget
    exact hy

end Tabulates

end Item

end Cbor

namespace SecurityObject

/-- The item of an object in octets: the one that they are or, if that is octets kept encoded, the one in these. -/
inductive HeldIn (x : Item) : Octets → Prop
  | bare {b : Octets} (h : Cbor.decode b = .ok x) (hx : ∀ y, x ≠ .tag 24 y) : HeldIn x b
  | encoded {b c : Octets} (h : Cbor.decode b = .ok (.tag 24 (.bytes c))) (hx : Cbor.decode c = .ok x) : HeldIn x b

variable {b : Octets} {o : SecurityObject} {x y : Item}

theorem HeldIn.unique (hx : HeldIn x b) (hy : HeldIn y b) : x = y := by
  cases hx with
  | bare h hne =>
    cases hy with
    | bare h' _ => exact Except.ok.inj (h.symm.trans h')
    | encoded h' _ => exact absurd (Except.ok.inj (h.symm.trans h')) (hne _)
  | encoded h hc =>
    cases hy with
    | bare h' hne => exact absurd (Except.ok.inj (h'.symm.trans h)) (hne _)
    | encoded h' hc' =>
      cases h.symm.trans h'
      exact Except.ok.inj (hc.symm.trans hc')

theorem HeldIn.distinctKeys (h : HeldIn x b) : x.DistinctKeys := by
  cases h with
  | bare h => exact distinctKeys_of_decode h
  | encoded _ hx => exact distinctKeys_of_decode hx

theorem encoded_eq_ok_iff {name : String} {c : Octets} : Field.encoded name (.tag 24 x) = .ok c ↔ x = .bytes c := by
  cases x <;> simp [Field.encoded, Field.mustBe]

theorem decode_eq_ok_iff : decode b = .ok o ↔ ∃ x, HeldIn x b ∧ ofItem x = .ok o := by
  rw [decode, bind_eq_ok_iff]
  constructor
  · rintro ⟨y, hy, ho⟩
    unfold ofOuter at ho
    split at ho
    · next z =>
      simp only [bind_eq_ok_iff, encoded_eq_ok_iff] at ho
      obtain ⟨x, ⟨c, rfl, hx⟩, ho⟩ := ho
      exact ⟨x, .encoded hy hx, ho⟩
    · next hne => exact ⟨y, .bare hy hne, ho⟩
  · rintro ⟨x, h, ho⟩
    cases h with
    | bare h hne =>
      refine ⟨x, h, ?_⟩
      unfold ofOuter
      split
      · next z => exact absurd rfl (hne z)
      · exact ho
    | @encoded c h hx =>
      refine ⟨_, h, ?_⟩
      simp only [ofOuter, bind_eq_ok_iff, encoded_eq_ok_iff]
      exact ⟨x, ⟨c, rfl, hx⟩, ho⟩

/-- The entries of a digest map that say what a table of digests holds. -/
def digestEntries (ids : DigestIds) : Entries := ids.toList.map fun e => (.unsigned e.1, .bytes e.2)

theorem unsigned_injective : Function.Injective Item.unsigned := fun _ _ h => Item.unsigned.inj h

theorem text_injective : Function.Injective Item.text := fun _ _ h => Item.text.inj h

/-- What the digests of a namespace are to the entries that they were read from. -/
structure Keeps (size : Nat) (ids : DigestIds) (ds : Entries) : Prop where
  perm : ds.Perm (digestEntries ids)
  count : ids.size = ds.length
  sized : ∀ (id : UInt64) d, ids[id]? = some d → d.length = size

variable {size : Nat} {ids : DigestIds} {ds : Entries}

theorem keeps_of_tabulates
    (h : (Item.map ds).Tabulates .unsigned (fun z d => z = .bytes d ∧ d.length = size) ids)
    (hn : (ds.map Prod.fst).Nodup) : Keeps size ids ds := by
  have hperm : ds.Perm (digestEntries ids) := h.perm unsigned_injective hn
  refine ⟨hperm, ?_, (Item.tabulates_and_iff.mp h).2⟩
  rw [hperm.length_eq, digestEntries, List.length_map, Std.ExtTreeMap.length_toList]

theorem Keeps.mem_iff (h : Keeps size ids ds) {id : UInt64} {d : Octets} :
    (.unsigned id, .bytes d) ∈ ds ↔ ids[id]? = some d := by
  rw [h.perm.mem_iff, digestEntries, List.mem_map]
  simp [Std.ExtTreeMap.mem_toList_iff_getElem?_eq_some]

theorem checkDigest_eq_true_iff {P : Provider} {ns : String} {id : UInt64} {item : Octets} :
    o.checkDigest P ns id item = true ↔
      ∃ ids, o.digestIds? ns = some ids ∧ ids[id]? = some (P.digest o.digestAlgorithm item) := by
  unfold checkDigest
  cases o.digestIds? ns with
  | none => simp
  | some ids =>
    cases hd : ids[id]? with
    | none => simp [hd]
    | some d => simp [hd, eq_comm]

/-- An object has the namespaces of the item in the octets, each with the digests that stand under it, and compares
with these and nothing else. -/
theorem digests_exact (P : Provider) (h : decode b = .ok o) :
    ∃ es vds, (∀ x, HeldIn x b ↔ x = .map es) ∧
      (∀ y, (.text "digestAlgorithm", y) ∈ es ↔ y = .text o.digestAlgorithm.name) ∧
      (∀ y, (.text "valueDigests", y) ∈ es ↔ y = .map vds) ∧
      (∀ e ∈ vds, ∃ ns ds, e = (.text ns, .map ds)) ∧
      (∀ ns, o.digestIds? ns = none ↔ ∀ y, (.text ns, y) ∉ vds) ∧
      (∀ ns ids, o.digestIds? ns = some ids →
        ∃ ds, (∀ y, (.text ns, y) ∈ vds ↔ y = .map ds) ∧ Keeps o.digestAlgorithm.size ids ds) ∧
      ∀ ns id item, o.checkDigest P ns id item = true ↔
        ∃ ds, (.text ns, .map ds) ∈ vds ∧ (.unsigned id, .bytes (P.digest o.digestAlgorithm item)) ∈ ds := by
  obtain ⟨x, hheld, ho⟩ := decode_eq_ok_iff.mp h
  have hx := hheld.distinctKeys
  have hstated := (ofItem_eq_ok_iff hx).mp ho
  obtain ⟨es, y, rfl, hy, hdigests⟩ := hstated.valueDigests
  obtain ⟨_, _, ⟨⟩, halgorithm, rfl⟩ := hstated.digestAlgorithm
  obtain ⟨vds, rfl, hentries, htable⟩ := id hdigests
  have hvds : (Item.map vds).DistinctKeys := hx.value hy
  have hread (ns : String) (ids : DigestIds) (hget : o.digestIds? ns = some ids) :
      ∃ ds, (∀ y, (.text ns, y) ∈ vds ↔ y = .map ds) ∧ Keeps o.digestAlgorithm.size ids ds := by
    obtain ⟨z, hz, hids⟩ := htable ns ids hget
    obtain ⟨ds, rfl, -⟩ := id hids
    exact ⟨ds, fun y => Entries.mem_iff_of_mem hvds.nodup hz, keeps_of_tabulates hids (hvds.value hz).nodup⟩
  refine ⟨es, vds, ?_, fun y => Entries.mem_iff_of_mem hx.nodup halgorithm,
    fun y => Entries.mem_iff_of_mem hx.nodup hy, ?_, ?_, hread, ?_⟩
  · intro x
    constructor
    · exact fun hx => hx.unique hheld
    · rintro rfl
      exact hheld
  · intro e he
    obtain ⟨ns, ids, hns, ⟨ds, hds, -⟩, -⟩ := hentries e he
    exact ⟨ns, ds, Prod.ext hns hds⟩
  · exact fun ns => hdigests.getElem?_eq_none_iff text_injective
  · intro ns id item
    rw [checkDigest_eq_true_iff]
    constructor
    · rintro ⟨ids, hget, hd⟩
      obtain ⟨ds, hds, hkeeps⟩ := hread ns ids hget
      exact ⟨ds, (hds _).mpr rfl, hkeeps.mem_iff.mpr hd⟩
    · rintro ⟨ds, hds, hd⟩
      obtain ⟨_, ids, ⟨⟩, -, hget⟩ := hentries _ hds
      obtain ⟨ds', hds', hkeeps⟩ := hread _ ids hget
      obtain rfl := Item.map.inj ((hds' _).mp hds)
      exact ⟨ids, hget, hkeeps.mem_iff.mp hd⟩

/-- A namespace with one digest and a namespace without any. -/
def sampleDigests : Entries := [(.text "name", .map [(.unsigned 0, .bytes (List.replicate 32 7))]), (.text "age", .map [])]

def sampleObject : Item :=
  let key : Item := .map [(.unsigned 1, .unsigned 1), (.negative 0, .unsigned 6), (.negative 1, .bytes (List.replicate 32 9))]
  let dated (s : String) : Item := .tag 0 (.text s)
  .map [(.text "version", .text "1.0"), (.text "digestAlgorithm", .text "SHA-256"), (.text "docType", .text "mDL"),
    (.text "valueDigests", .map sampleDigests), (.text "deviceKeyInfo", .map [(.text "deviceKey", key)]),
    (.text "validityInfo", .map [(.text "signed", dated "2024-01-01T00:00:00Z"),
      (.text "validFrom", dated "2024-01-01T00:00:00Z"), (.text "validUntil", dated "2025-01-01T00:00:00Z")])]

/-- A provider whose digests are all alike. -/
def alikeProvider : Provider := { Provider.standard with digest := fun _ _ => List.replicate 32 7 }

theorem fits_sampleObject : sampleObject.Fits (maxNesting + 1) := by
  have text (s : String) (n : Nat) : (Item.text s).Fits (n + 1) := Item.fits_of_leaf (by trivial)
  have bytes (b : Octets) (n : Nat) : (Item.bytes b).Fits (n + 1) := Item.fits_of_leaf (by trivial)
  have unsigned (k : UInt64) (n : Nat) : (Item.unsigned k).Fits (n + 1) := Item.fits_of_leaf (by trivial)
  have negative (k : UInt64) (n : Nat) : (Item.negative k).Fits (n + 1) := Item.fits_of_leaf (by trivial)
  change sampleObject.Fits (125 + 1 + 1 + 1 + 1)
  simp [sampleObject, sampleDigests, Item.fits_map_iff, Item.fits_tag_iff, text, bytes, unsigned, negative]

theorem decode_sampleObject : Cbor.decode sampleObject.octets = .ok sampleObject := by
  have hencode : encode sampleObject = .ok sampleObject.octets := by
    rw [← toOption_eq_some_iff]
    decide +kernel
  exact decode_of_fits hencode (by decide +kernel) fits_sampleObject

theorem digests_exact_sample :
    ∃ o, decode sampleObject.octets = .ok o ∧ o.digestIds? "weight" = none ∧
      (∃ ids, o.digestIds? "age" = some ids ∧ ids.size = 0) ∧ o.checkDigest alikeProvider "name" 0 [] = true ∧
      o.checkDigest alikeProvider "name" 1 [] = false := by
  obtain ⟨o, ho⟩ : ∃ o, decode sampleObject.octets = .ok o := by
    have h : (decode sampleObject.octets).toOption.isSome = true := by decide +kernel
    obtain ⟨o, ho⟩ := Option.isSome_iff_exists.mp h
    exact ⟨o, toOption_eq_some_iff.mp ho⟩
  obtain ⟨es, vds, hes, -, hvds, -, hnone, hread, hcheck⟩ := digests_exact alikeProvider ho
  obtain rfl : es = _ := (Item.map.inj ((hes sampleObject).mp (.bare decode_sampleObject nofun))).symm
  obtain rfl : vds = sampleDigests := by
    have hmem := (hvds (.map sampleDigests)).mp (by simp)
    exact (Item.map.inj hmem).symm
  refine ⟨o, ho, (hnone _).mpr (by simp [sampleDigests]), ?_, (hcheck _ _ _).mpr ?_, ?_⟩
  · have hage : (.text "age", .map []) ∈ sampleDigests := by simp [sampleDigests]
    cases hget : o.digestIds? "age" with
    | none => exact absurd hage ((hnone _).mp hget _)
    | some ids =>
      obtain ⟨ds, hds, hkeeps⟩ := hread _ _ hget
      obtain rfl : [] = ds := Item.map.inj ((hds _).mp hage)
      exact ⟨ids, rfl, hkeeps.count⟩
  · exact ⟨[(.unsigned 0, .bytes (List.replicate 32 7))], by simp [sampleDigests], List.mem_singleton.mpr rfl⟩
  · rw [← Bool.not_eq_true, hcheck]
    simp [sampleDigests]

end SecurityObject

end Provenance
