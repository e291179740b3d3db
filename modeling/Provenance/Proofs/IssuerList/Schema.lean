import Mathlib.Tactic.MkIffOfInductiveProp
import Provenance.IssuerList.Basic
import Provenance.Proofs.Cbor.Records

/-!
The schema of issuer lists: which items state one, said by what stands under each key, and that a list is read from an
item exactly if the item states it.
-/
namespace Provenance

open Cbor
open Cbor.Field (MadeOf Slot)

namespace IssuerEntry

/-- An array of the texts of a set, in any order and any number. -/
def TextSet (x : Item) (s : Std.ExtTreeSet String) : Prop :=
  ∃ ss : List String, x = .array (ss.map .text) ∧ ∀ t, t ∈ s ↔ t ∈ ss

@[mk_iff]
structure StatedBy (e : IssuerEntry) (x : Item) : Prop where
  certificate : x.Has "certificate" (· = .bytes e.certificate)
  docTypes : x.Has "docType" (TextSet · e.docTypes)
  profiles : x.MayHave "certificateProfile" (fun y ss => y = .array (ss.map .text)) e.profiles?
  serialNumber : x.HasOnly "serialNumber" fun y => ∃ b, Field.bignum "serialNumber" y = .ok b
  ski : x.HasOnly "ski" fun y => ∃ b, y = .bytes b

def readDocTypes (x : Item) : Outcome (Std.ExtTreeSet String) := do
  return .ofList (← Field.texts "docType" x)

def slots : List (Slot Draft) :=
  [.stored "certificate" (Field.bytes "certificate") Draft.certificate? (fun d b => { d with certificate? := some b })
      fun _ _ => rfl,
    .checked "serialNumber" (Field.bignum "serialNumber"),
    .checked "ski" (Field.bytes "ski"),
    .stored "docType" readDocTypes Draft.docTypes? (fun d s => { d with docTypes? := some s }) fun _ _ => rfl,
    .stored "certificateProfile" (Field.texts "certificateProfile") Draft.profiles?
      (fun d ss => { d with profiles? := some ss }) fun _ _ => rfl]

theorem madeOf_slots : MadeOf Draft.put {} slots where
  start := by simp [slots]
  own := by simp [slots, Slot.enter_stored, Slot.enter_checked, Draft.put, readDocTypes]
  other d k? y h := by
    unfold Draft.put
    split <;> simp_all [slots]
  apart := by simp [slots]
  ext s t h := by
    cases s
    cases t
    simpa [slots] using h

theorem readDocTypes_eq_ok_iff {s : Std.ExtTreeSet String} {x : Item} : readDocTypes x = .ok s ↔ TextSet x s := by
  simp only [readDocTypes, bind_eq_ok_iff, Field.texts_eq_ok_iff, pure, Except.pure, Except.ok.injEq, TextSet]
  constructor
  · rintro ⟨ss, rfl, rfl⟩
    exact ⟨ss, rfl, by simp [Std.ExtTreeSet.mem_ofList]⟩
  · rintro ⟨ss, rfl, h⟩
    refine ⟨ss, rfl, ?_⟩
    apply Std.ExtTreeSet.ext_mem
    simp [Std.ExtTreeSet.mem_ofList, h]

theorem holds_slots_iff {d : Draft} {es : Entries} (hx : (Item.map es).DistinctKeys) :
    (∀ f ∈ slots, f.Holds (es.text? f.key) (f.get d)) ↔
      (Item.map es).MayHave "certificate" (fun y b => y = .bytes b) d.certificate? ∧
      (Item.map es).HasOnly "serialNumber" (fun y => ∃ b, Field.bignum "serialNumber" y = .ok b) ∧
      (Item.map es).HasOnly "ski" (fun y => ∃ b, y = .bytes b) ∧
      (Item.map es).MayHave "docType" TextSet d.docTypes? ∧
      (Item.map es).MayHave "certificateProfile" (fun y ss => y = .array (ss.map .text)) d.profiles? := by
  have hbytes (y : Item) : (∃ b, y = .bytes b) ↔ ∃ b, Field.bytes "ski" y = .ok b := by
    simp only [Field.bytes_eq_ok_iff]
  simp only [slots, List.forall_mem_cons, List.not_mem_nil, false_implies, implies_true, and_true, hbytes]
  refine and_congr ?_ (and_congr ?_ (and_congr ?_ (and_congr ?_ ?_)))
  · exact Slot.holds_stored_iff hx fun _ _ _ => Field.bytes_eq_ok_iff
  · exact Slot.holds_checked_iff hx.nodup
  · exact Slot.holds_checked_iff hx.nodup
  · exact Slot.holds_stored_iff hx fun _ _ _ => readDocTypes_eq_ok_iff
  · exact Slot.holds_stored_iff hx fun _ _ _ => Field.texts_eq_ok_iff

theorem ofItem_eq_ok_iff {name : String} {e : IssuerEntry} {x : Item} (hx : x.DistinctKeys) :
    ofItem name x = .ok e ↔ e.StatedBy x := by
  simp only [ofItem, bind_eq_ok_iff, Field.required_eq_ok_iff, madeOf_slots.record_eq_ok_iff hx]
  constructor
  · rintro ⟨d, ⟨es, rfl, h⟩, certificate, hcertificate, docTypes, hdocTypes, ⟨⟩⟩
    rw [holds_slots_iff hx, hcertificate, hdocTypes] at h
    obtain ⟨hcertificate, hserial, hski, hdocTypes, hprofiles⟩ := h
    exact ⟨hcertificate, hdocTypes, hprofiles, hserial, hski⟩
  · intro h
    obtain ⟨es, _, rfl, -⟩ := h.certificate
    refine ⟨⟨some e.certificate, some e.docTypes, e.profiles?⟩, ⟨es, rfl, ?_⟩, _, rfl, _, rfl, rfl⟩
    exact (holds_slots_iff hx).mpr ⟨h.certificate, h.serialNumber, h.ski, h.docTypes, h.profiles⟩

end IssuerEntry

namespace IssuerList

/-- An array of items that state the entries, one each and in their order. -/
def StatesEntries (x : Item) (es : List IssuerEntry) : Prop :=
  ∃ xs, x = .array xs ∧ List.Forall₂ (fun y e => e.StatedBy y) xs es

@[mk_iff]
structure StatedBy (l : IssuerList) (x : Item) : Prop where
  version : x.Has "version" (· = .text l.version)
  provider : x.Has "vicalProvider" (· = .text l.provider)
  date : x.Has "date" (Field.date "date" · = .ok l.date)
  nextUpdate : x.MayHave "nextUpdate" (Field.date "nextUpdate" · = .ok ·) l.nextUpdate?
  issueId : x.MayHave "vicalIssueID" (fun y n => y = .unsigned n) l.issueId?
  entries : x.Has "certificateInfos" (StatesEntries · l.entries)

def readEntries (x : Item) : Outcome (List IssuerEntry) := do
  let xs ← Field.array "certificateInfos" x
  Field.each "certificateInfos" IssuerEntry.ofItem 0 xs

theorem readEntries_eq_ok_iff {es : List IssuerEntry} {x : Item} (hx : x.DistinctKeys) :
    readEntries x = .ok es ↔ StatesEntries x es := by
  simp only [readEntries, bind_eq_ok_iff, Field.array_eq_ok_iff, StatesEntries]
  apply exists_congr
  intro xs
  apply and_congr_right
  rintro rfl
  apply Field.each_eq_ok_iff
  intro y hy name e
  exact IssuerEntry.ofItem_eq_ok_iff ((Item.throughout_array_iff.mp hx).2 y hy)

/-- Puts an item as `put` does where its key was not seen before: entries there were are dropped. -/
def Draft.putOnce (d : Draft) (k? : Option String) (x : Item) : Outcome Draft :=
  put (if k? = some "certificateInfos" then { d with entries? := none } else d) k? x

def slots : List (Slot Draft) :=
  [.stored "version" (Field.text "version") Draft.version? (fun d s => { d with version? := some s }) fun _ _ => rfl,
    .stored "vicalProvider" (Field.text "vicalProvider") Draft.provider? (fun d s => { d with provider? := some s })
      fun _ _ => rfl,
    .stored "date" (Field.date "date") Draft.date? (fun d t => { d with date? := some t }) fun _ _ => rfl,
    .stored "nextUpdate" (Field.date "nextUpdate") Draft.nextUpdate? (fun d t => { d with nextUpdate? := some t })
      fun _ _ => rfl,
    .stored "vicalIssueID" (Field.uint "vicalIssueID") Draft.issueId? (fun d n => { d with issueId? := some n })
      fun _ _ => rfl,
    .stored "certificateInfos" readEntries Draft.entries? (fun d es => { d with entries? := some es }) fun _ _ => rfl]

theorem madeOf_slots : MadeOf Draft.putOnce {} slots where
  start := by simp [slots]
  own := by simp [slots, Slot.enter_stored, Draft.putOnce, Draft.put, readEntries]
  other d k? y h := by
    have hkey : k? ≠ some "certificateInfos" := by
      rintro rfl
      simp [slots] at h
    rw [Draft.putOnce, if_neg hkey]
    unfold Draft.put
    split <;> simp_all [slots]
  apart := by simp [slots]
  ext s t h := by
    cases s
    cases t
    simpa [slots] using h

theorem put_eq_putOnce {d : Draft} {k? : Option String} (h : k? = some "certificateInfos" → d.entries? = none)
    (x : Item) : d.put k? x = d.putOnce k? x := by
  rw [Draft.putOnce]
  split
  · next hkey => rw [← h hkey]
  · rfl

theorem foldlM_put_eq {es : Entries} (hn : (es.map Prod.fst).Nodup) :
    es.foldlM (fun d e => Draft.put d e.1.text? e.2) {} = es.foldlM (fun d e => Draft.putOnce d e.1.text? e.2) {} := by
  induction es using List.reverseRecOn with
  | nil => rfl
  | append_singleton es e ih =>
    have hes := (Entries.nodup_of_concat hn).1
    rw [List.foldlM_append, List.foldlM_append, ih hes]
    cases hd : es.foldlM (fun d e => Draft.putOnce d e.1.text? e.2) {} with
    | error f => rfl
    | ok d =>
      simp only [ok_bind, List.foldlM_cons, List.foldlM_nil, bind_pure]
      apply put_eq_putOnce
      intro hkey
      have hslots := madeOf_slots.holds_of_foldlM hes hd
      simp only [slots, List.forall_mem_cons] at hslots
      have hentries := hslots.2.2.2.2.2.1
      rw [Slot.key_stored, Entries.text?_of_concat hn hkey, Slot.holds_stored_none] at hentries
      exact hentries

theorem record_put_eq {x : Item} (hx : x.DistinctKeys) (name : String) :
    Field.record name Draft.put {} x = Field.record name Draft.putOnce {} x := by
  rw [Field.record, Field.record]
  cases hes : Field.map name x with
  | error f => rfl
  | ok es =>
    obtain rfl := Field.map_eq_ok_iff.mp hes
    exact foldlM_put_eq hx.nodup

theorem holds_slots_iff {d : Draft} {es : Entries} (hx : (Item.map es).DistinctKeys) :
    (∀ f ∈ slots, f.Holds (es.text? f.key) (f.get d)) ↔
      (Item.map es).MayHave "version" (fun y s => y = .text s) d.version? ∧
      (Item.map es).MayHave "vicalProvider" (fun y s => y = .text s) d.provider? ∧
      (Item.map es).MayHave "date" (Field.date "date" · = .ok ·) d.date? ∧
      (Item.map es).MayHave "nextUpdate" (Field.date "nextUpdate" · = .ok ·) d.nextUpdate? ∧
      (Item.map es).MayHave "vicalIssueID" (fun y n => y = .unsigned n) d.issueId? ∧
      (Item.map es).MayHave "certificateInfos" StatesEntries d.entries? := by
  simp only [slots, List.forall_mem_cons, List.not_mem_nil, false_implies, implies_true, and_true]
  refine and_congr ?_ (and_congr ?_ (and_congr ?_ (and_congr ?_ (and_congr ?_ ?_))))
  · exact Slot.holds_stored_iff hx fun _ _ _ => Field.text_eq_ok_iff
  · exact Slot.holds_stored_iff hx fun _ _ _ => Field.text_eq_ok_iff
  · exact Slot.holds_stored_iff hx fun _ _ _ => .rfl
  · exact Slot.holds_stored_iff hx fun _ _ _ => .rfl
  · exact Slot.holds_stored_iff hx fun _ _ _ => Field.uint_eq_ok_iff
  · exact Slot.holds_stored_iff hx fun _ hy _ => readEntries_eq_ok_iff hy

theorem Draft.finish_eq_ok_iff {d : Draft} {l : IssuerList} :
    d.finish = .ok l ↔
      d = ⟨some l.version, some l.provider, some l.date, l.nextUpdate?, l.issueId?, some l.entries⟩ := by
  rcases d with ⟨version?, provider?, date?, nextUpdate?, issueId?, entries?⟩
  simp only [finish, bind_eq_ok_iff, Field.required_eq_ok_iff]
  constructor
  · rintro ⟨version, rfl, provider, rfl, date, rfl, entries, rfl, ⟨⟩⟩
    rfl
  · rintro ⟨⟩
    exact ⟨_, rfl, _, rfl, _, rfl, _, rfl, rfl⟩

theorem ofItem_eq_ok_iff {l : IssuerList} {x : Item} (hx : x.DistinctKeys) : ofItem x = .ok l ↔ l.StatedBy x := by
  simp only [ofItem, bind_eq_ok_iff, Draft.finish_eq_ok_iff, record_put_eq hx, madeOf_slots.record_eq_ok_iff hx]
  constructor
  · rintro ⟨_, ⟨es, rfl, h⟩, rfl⟩
    obtain ⟨hversion, hprovider, hdate, hnextUpdate, hissueId, hentries⟩ := (holds_slots_iff hx).mp h
    exact ⟨hversion, hprovider, hdate, hnextUpdate, hissueId, hentries⟩
  · intro h
    obtain ⟨es, _, rfl, -⟩ := h.version
    refine ⟨_, ⟨es, rfl, ?_⟩, rfl⟩
    exact (holds_slots_iff hx).mpr ⟨h.version, h.provider, h.date, h.nextUpdate, h.issueId, h.entries⟩

end IssuerList

end Provenance
