import Mathlib.Tactic.MkIffOfInductiveProp
import Provenance.Proofs.Cbor.Records
import Provenance.SecurityObject

/-!
The schema of security objects: which items state one, said by what stands under each key, and that an object is read
from an item exactly if the item states it.
-/
namespace Provenance

open Cbor
open Cbor.Field (MadeOf Slot)

namespace KeyAuthorizations

def Lists (x : Item) (ss : List String) : Prop := x = .array (ss.map .text)

@[mk_iff]
structure StatedBy (a : KeyAuthorizations) (x : Item) : Prop where
  entries : ∃ es, x = .map es
  nameSpaces : x.MayHave "nameSpaces" Lists a.nameSpaces?
  dataElements : x.MayHave "dataElements" (Item.Tabulates .text Lists) a.dataElements?

def readDataElements (x : Item) : Outcome (Std.ExtTreeMap String (List String)) :=
  Field.table "dataElements" (Field.text "dataElements namespace") Field.texts x

def slots : List (Slot KeyAuthorizations) :=
  [.stored "nameSpaces" (Field.texts "nameSpaces") nameSpaces? (fun a ss => { a with nameSpaces? := some ss })
      fun _ _ => rfl,
    .stored "dataElements" readDataElements dataElements? (fun a m => { a with dataElements? := some m })
      fun _ _ => rfl]

theorem madeOf_slots : MadeOf put {} slots where
  start := by simp [slots]
  own := by simp [slots, Slot.enter_stored, put, readDataElements]
  other a k? y h := by
    unfold put
    split <;> simp_all [slots]
  apart := by simp [slots]
  ext s t h := by
    cases s
    cases t
    simpa [slots] using h

theorem readDataElements_eq_ok_iff {m : Std.ExtTreeMap String (List String)} {x : Item} (hx : x.DistinctKeys) :
    readDataElements x = .ok m ↔ x.Tabulates .text Lists m :=
  Field.table_eq_ok_iff (fun _ _ => Field.text_eq_ok_iff) (fun _ _ _ _ => Field.texts_eq_ok_iff) hx

theorem holds_slots_iff {a : KeyAuthorizations} {es : Entries} (hx : (Item.map es).DistinctKeys) :
    (∀ f ∈ slots, f.Holds (es.text? f.key) (f.get a)) ↔ (Item.map es).MayHave "nameSpaces" Lists a.nameSpaces? ∧
      (Item.map es).MayHave "dataElements" (Item.Tabulates .text Lists) a.dataElements? := by
  rw [slots, List.forall_mem_cons, List.forall_mem_singleton]
  apply and_congr
  · exact Slot.holds_stored_iff hx fun _ _ _ => Field.texts_eq_ok_iff
  · exact Slot.holds_stored_iff hx fun _ hy _ => readDataElements_eq_ok_iff hy

theorem ofItem_eq_ok_iff {a : KeyAuthorizations} {x : Item} (hx : x.DistinctKeys) : ofItem x = .ok a ↔ a.StatedBy x := by
  rw [ofItem, madeOf_slots.record_eq_ok_iff hx]
  constructor
  · rintro ⟨es, rfl, h⟩
    obtain ⟨hnames, helements⟩ := (holds_slots_iff hx).mp h
    exact ⟨⟨es, rfl⟩, hnames, helements⟩
  · rintro ⟨⟨es, rfl⟩, hnames, helements⟩
    exact ⟨es, rfl, (holds_slots_iff hx).mpr ⟨hnames, helements⟩⟩

end KeyAuthorizations

namespace DeviceKeyInfo

@[mk_iff]
structure StatedBy (d : DeviceKeyInfo) (x : Item) : Prop where
  deviceKey : x.Has "deviceKey" (PublicKey.ofMap · = .ok d.deviceKey)
  authorizations : x.MayHave "keyAuthorizations" (fun y a => a.StatedBy y) d.authorizations?
  info : x.MayHave "keyInfo" (fun y es => y = .map es) d.info?

def slots : List (Slot Draft) :=
  [.stored "deviceKey" PublicKey.ofMap Draft.deviceKey? (fun d k => { d with deviceKey? := some k }) fun _ _ => rfl,
    .stored "keyAuthorizations" KeyAuthorizations.ofItem Draft.authorizations?
      (fun d a => { d with authorizations? := some a }) fun _ _ => rfl,
    .stored "keyInfo" (Field.map "keyInfo") Draft.info? (fun d es => { d with info? := some es }) fun _ _ => rfl]

theorem madeOf_slots : MadeOf Draft.put {} slots where
  start := by simp [slots]
  own := by simp [slots, Slot.enter_stored, Draft.put]
  other d k? y h := by
    unfold Draft.put
    split <;> simp_all [slots]
  apart := by simp [slots]
  ext s t h := by
    cases s
    cases t
    simpa [slots] using h

theorem holds_slots_iff {d : Draft} {es : Entries} (hx : (Item.map es).DistinctKeys) :
    (∀ f ∈ slots, f.Holds (es.text? f.key) (f.get d)) ↔
      (Item.map es).MayHave "deviceKey" (PublicKey.ofMap · = .ok ·) d.deviceKey? ∧
      (Item.map es).MayHave "keyAuthorizations" (fun y a => a.StatedBy y) d.authorizations? ∧
      (Item.map es).MayHave "keyInfo" (fun y es => y = .map es) d.info? := by
  simp only [slots, List.forall_mem_cons, List.not_mem_nil, false_implies, implies_true, and_true]
  apply and_congr
  · exact Slot.holds_stored_iff hx fun _ _ _ => .rfl
  apply and_congr
  · exact Slot.holds_stored_iff hx fun _ hy _ => KeyAuthorizations.ofItem_eq_ok_iff hy
  · exact Slot.holds_stored_iff hx fun _ _ _ => Field.map_eq_ok_iff

theorem ofItem_eq_ok_iff {d : DeviceKeyInfo} {x : Item} (hx : x.DistinctKeys) : ofItem x = .ok d ↔ d.StatedBy x := by
  simp only [ofItem, bind_eq_ok_iff, Field.required_eq_ok_iff, madeOf_slots.record_eq_ok_iff hx]
  constructor
  · rintro ⟨r, ⟨es, rfl, h⟩, deviceKey, hkey, ⟨⟩⟩
    obtain ⟨hdevice, hauthorizations, hinfo⟩ := (holds_slots_iff hx).mp h
    rw [hkey] at hdevice
    exact ⟨hdevice, hauthorizations, hinfo⟩
  · intro h
    obtain ⟨es, _, rfl, -⟩ := h.deviceKey
    refine ⟨⟨some d.deviceKey, d.authorizations?, d.info?⟩, ⟨es, rfl, ?_⟩, d.deviceKey, rfl, rfl⟩
    exact (holds_slots_iff hx).mpr ⟨h.deviceKey, h.authorizations, h.info⟩

end DeviceKeyInfo

namespace ValidityInfo

@[mk_iff]
structure StatedBy (v : ValidityInfo) (x : Item) : Prop where
  signed : x.Has "signed" (Field.date "signed" · = .ok v.signed)
  validFrom : x.Has "validFrom" (Field.date "validFrom" · = .ok v.validFrom)
  validUntil : x.Has "validUntil" (Field.date "validUntil" · = .ok v.validUntil)
  expectedUpdate : x.MayHave "expectedUpdate" (Field.date "expectedUpdate" · = .ok ·) v.expectedUpdate?

def slots : List (Slot Draft) :=
  [.stored "signed" (Field.date "signed") Draft.signed? (fun d t => { d with signed? := some t }) fun _ _ => rfl,
    .stored "validFrom" (Field.date "validFrom") Draft.validFrom? (fun d t => { d with validFrom? := some t })
      fun _ _ => rfl,
    .stored "validUntil" (Field.date "validUntil") Draft.validUntil? (fun d t => { d with validUntil? := some t })
      fun _ _ => rfl,
    .stored "expectedUpdate" (Field.date "expectedUpdate") Draft.expectedUpdate?
      (fun d t => { d with expectedUpdate? := some t }) fun _ _ => rfl]

theorem madeOf_slots : MadeOf Draft.put {} slots where
  start := by simp [slots]
  own := by simp [slots, Slot.enter_stored, Draft.put]
  other d k? y h := by
    unfold Draft.put
    split <;> simp_all [slots]
  apart := by simp [slots]
  ext s t h := by
    cases s
    cases t
    simpa [slots] using h

theorem holds_slots_iff {d : Draft} {es : Entries} (hx : (Item.map es).DistinctKeys) :
    (∀ f ∈ slots, f.Holds (es.text? f.key) (f.get d)) ↔
      (Item.map es).MayHave "signed" (Field.date "signed" · = .ok ·) d.signed? ∧
      (Item.map es).MayHave "validFrom" (Field.date "validFrom" · = .ok ·) d.validFrom? ∧
      (Item.map es).MayHave "validUntil" (Field.date "validUntil" · = .ok ·) d.validUntil? ∧
      (Item.map es).MayHave "expectedUpdate" (Field.date "expectedUpdate" · = .ok ·) d.expectedUpdate? := by
  simp only [slots, List.forall_mem_cons, List.not_mem_nil, false_implies, implies_true, and_true]
  refine and_congr ?_ (and_congr ?_ (and_congr ?_ ?_))
  all_goals exact Slot.holds_stored_iff hx fun _ _ _ => .rfl

theorem ofItem_eq_ok_iff {v : ValidityInfo} {x : Item} (hx : x.DistinctKeys) : ofItem x = .ok v ↔ v.StatedBy x := by
  simp only [ofItem, bind_eq_ok_iff, Field.required_eq_ok_iff, madeOf_slots.record_eq_ok_iff hx]
  constructor
  · rintro ⟨d, ⟨es, rfl, h⟩, signed, hsigned, validFrom, hvalidFrom, validUntil, hvalidUntil, ⟨⟩⟩
    rw [holds_slots_iff hx, hsigned, hvalidFrom, hvalidUntil] at h
    exact ⟨h.1, h.2.1, h.2.2.1, h.2.2.2⟩
  · intro h
    obtain ⟨es, _, rfl, -⟩ := h.signed
    let d : Draft := ⟨some v.signed, some v.validFrom, some v.validUntil, v.expectedUpdate?⟩
    refine ⟨d, ⟨es, rfl, ?_⟩, _, rfl, _, rfl, _, rfl, rfl⟩
    exact (holds_slots_iff hx).mpr ⟨h.signed, h.validFrom, h.validUntil, h.expectedUpdate⟩

end ValidityInfo

theorem DigestAlgorithm.ofName_eq_ok_iff {s : String} {a : DigestAlgorithm} : ofName s = .ok a ↔ s = a.name := by
  constructor
  · intro h
    rw [ofName] at h
    cases hd : all.find? (·.name = s) with
    | none =>
      rw [hd] at h
      cases h
    | some d =>
      rw [hd] at h
      cases h
      have hname := List.find?_some hd
      exact (of_decide_eq_true hname).symm
  · rintro rfl
    cases a <;> rfl

namespace SecurityObject

/-- Octet strings of a size under numbers, under the names of their namespaces. -/
def StatesDigests (size : Nat) : Item → ValueDigests → Prop :=
  Item.Tabulates .text fun y ids => y.Tabulates .unsigned (fun z d => z = .bytes d ∧ d.length = size) ids

@[mk_iff]
structure StatedBy (o : SecurityObject) (x : Item) : Prop where
  version : x.Has "version" (· = .text o.version)
  digestAlgorithm : x.Has "digestAlgorithm" (· = .text o.digestAlgorithm.name)
  valueDigests : x.Has "valueDigests" (StatesDigests o.digestAlgorithm.size · o.valueDigests)
  device : x.Has "deviceKeyInfo" o.device.StatedBy
  docType : x.Has "docType" (· = .text o.docType)
  validity : x.Has "validityInfo" o.validity.StatedBy

def slots : List (Slot Draft) :=
  [.stored "version" (Field.text "version") Draft.version? (fun d s => { d with version? := some s }) fun _ _ => rfl,
    .stored "digestAlgorithm" (Field.text "digestAlgorithm") Draft.digestName?
      (fun d s => { d with digestName? := some s }) fun _ _ => rfl,
    .stored "valueDigests" digests Draft.valueDigests? (fun d m => { d with valueDigests? := some m }) fun _ _ => rfl,
    .stored "deviceKeyInfo" DeviceKeyInfo.ofItem Draft.device? (fun d i => { d with device? := some i })
      fun _ _ => rfl,
    .stored "docType" (Field.text "docType") Draft.docType? (fun d s => { d with docType? := some s }) fun _ _ => rfl,
    .stored "validityInfo" ValidityInfo.ofItem Draft.validity? (fun d v => { d with validity? := some v })
      fun _ _ => rfl]

theorem madeOf_slots : MadeOf Draft.put {} slots where
  start := by simp [slots]
  own := by simp [slots, Slot.enter_stored, Draft.put]
  other d k? y h := by
    unfold Draft.put
    split <;> simp_all [slots]
  apart := by simp [slots]
  ext s t h := by
    cases s
    cases t
    simpa [slots] using h

def TabulatesDigests : Item → ValueDigests → Prop :=
  Item.Tabulates .text (Item.Tabulates .unsigned fun z d => z = .bytes d)

theorem digestIds_eq_ok_iff {ns : String} {m : DigestIds} {x : Item} (hx : x.DistinctKeys) :
    digestIds ns x = .ok m ↔ x.Tabulates .unsigned (fun z d => z = .bytes d) m :=
  Field.table_eq_ok_iff (fun _ _ => Field.uint_eq_ok_iff) (fun _ _ _ _ => Field.bytes_eq_ok_iff) hx

theorem digests_eq_ok_iff {m : ValueDigests} {x : Item} (hx : x.DistinctKeys) :
    digests x = .ok m ↔ TabulatesDigests x m :=
  Field.table_eq_ok_iff (fun _ _ => Field.text_eq_ok_iff) (fun _ hy _ _ => digestIds_eq_ok_iff hy) hx

theorem holds_slots_iff {d : Draft} {es : Entries} (hx : (Item.map es).DistinctKeys) :
    (∀ f ∈ slots, f.Holds (es.text? f.key) (f.get d)) ↔
      (Item.map es).MayHave "version" (fun y s => y = .text s) d.version? ∧
      (Item.map es).MayHave "digestAlgorithm" (fun y s => y = .text s) d.digestName? ∧
      (Item.map es).MayHave "valueDigests" TabulatesDigests d.valueDigests? ∧
      (Item.map es).MayHave "deviceKeyInfo" (fun y i => i.StatedBy y) d.device? ∧
      (Item.map es).MayHave "docType" (fun y s => y = .text s) d.docType? ∧
      (Item.map es).MayHave "validityInfo" (fun y v => v.StatedBy y) d.validity? := by
  simp only [slots, List.forall_mem_cons, List.not_mem_nil, false_implies, implies_true, and_true]
  refine and_congr ?_ (and_congr ?_ (and_congr ?_ (and_congr ?_ (and_congr ?_ ?_))))
  · exact Slot.holds_stored_iff hx fun _ _ _ => Field.text_eq_ok_iff
  · exact Slot.holds_stored_iff hx fun _ _ _ => Field.text_eq_ok_iff
  · exact Slot.holds_stored_iff hx fun _ hy _ => digests_eq_ok_iff hy
  · exact Slot.holds_stored_iff hx fun _ hy _ => DeviceKeyInfo.ofItem_eq_ok_iff hy
  · exact Slot.holds_stored_iff hx fun _ _ _ => Field.text_eq_ok_iff
  · exact Slot.holds_stored_iff hx fun _ hy _ => ValidityInfo.ofItem_eq_ok_iff hy

def Sized (size : Nat) (m : ValueDigests) : Prop :=
  ∀ (ns : String) ids, m[ns]? = some ids → ∀ (id : UInt64) d, ids[id]? = some d → d.length = size

theorem checkSizes_eq_ok_iff {a : DigestAlgorithm} {m : ValueDigests} :
    checkSizes a m = .ok () ↔ Sized a.size m := by
  have hcheck (ns : String) (id : UInt64) (d : Octets) : checkSize a ns id d = .ok () ↔ d.length = a.size := by
    rw [checkSize]
    split <;> simp_all
  simp only [checkSizes, forM_eq_ok_iff, hcheck, Prod.forall, Std.ExtTreeMap.mem_toList_iff_getElem?_eq_some, Sized]

theorem statesDigests_iff {size : Nat} {m : ValueDigests} {x : Item} :
    StatesDigests size x m ↔ TabulatesDigests x m ∧ Sized size m := by
  have hids (y : Item) (ids : DigestIds) : y.Tabulates .unsigned (fun z d => z = .bytes d ∧ d.length = size) ids ↔
      y.Tabulates .unsigned (fun z d => z = .bytes d) ids ∧ ∀ (id : UInt64) d, ids[id]? = some d → d.length = size :=
    Item.tabulates_and_iff
  simp only [StatesDigests, hids, Item.tabulates_and_iff, TabulatesDigests, Sized]

theorem Draft.finish_eq_ok_iff {d : Draft} {o : SecurityObject} :
    d.finish = .ok o ↔ d = ⟨some o.version, some o.digestAlgorithm.name, some o.valueDigests, some o.device,
      some o.docType, some o.validity⟩ ∧ Sized o.digestAlgorithm.size o.valueDigests := by
  rcases d with ⟨version?, name?, digests?, device?, docType?, validity?⟩
  simp only [finish, bind_eq_ok_iff, Field.required_eq_ok_iff, DigestAlgorithm.ofName_eq_ok_iff]
  constructor
  · rintro ⟨version, rfl, name, rfl, m, rfl, device, rfl, docType, rfl, validity, rfl, a, rfl, ⟨⟩, hsized, ⟨⟩⟩
    exact ⟨rfl, checkSizes_eq_ok_iff.mp hsized⟩
  · rintro ⟨⟨⟩, hsized⟩
    exact ⟨_, rfl, _, rfl, _, rfl, _, rfl, _, rfl, _, rfl, _, rfl, (), checkSizes_eq_ok_iff.mpr hsized, rfl⟩

theorem ofItem_eq_ok_iff {o : SecurityObject} {x : Item} (hx : x.DistinctKeys) : ofItem x = .ok o ↔ o.StatedBy x := by
  simp only [ofItem, bind_eq_ok_iff, Draft.finish_eq_ok_iff, madeOf_slots.record_eq_ok_iff hx]
  constructor
  · rintro ⟨d, ⟨es, rfl, h⟩, rfl, hsized⟩
    obtain ⟨hversion, hname, ⟨_, y, ⟨⟩, hy, hdigests⟩, hdevice, hdocType, hvalidity⟩ := (holds_slots_iff hx).mp h
    have hstates := statesDigests_iff.mpr ⟨hdigests, hsized⟩
    exact ⟨hversion, hname, ⟨es, y, rfl, hy, hstates⟩, hdevice, hdocType, hvalidity⟩
  · rintro ⟨hversion, hname, ⟨es, y, rfl, hy, hstates⟩, hdevice, hdocType, hvalidity⟩
    obtain ⟨hdigests, hsized⟩ := statesDigests_iff.mp hstates
    -- The draft is the one that `finish` makes the object of.
    refine ⟨_, ⟨es, rfl, ?_⟩, rfl, hsized⟩
    exact (holds_slots_iff hx).mpr ⟨hversion, hname, ⟨es, y, rfl, hy, hdigests⟩, hdevice, hdocType, hvalidity⟩

end SecurityObject

end Provenance
