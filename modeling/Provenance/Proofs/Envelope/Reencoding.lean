import Provenance.Proofs.Faults
import Provenance.Proofs.Cbor.Canonical
import Provenance.Proofs.Cbor.Unambiguity
import Provenance.Proofs.Envelope.RoundTrip

/-!
Envelopes that are read and written again: what was signed stays as it was received, octet by octet, and so does the
whole envelope if it was written in the one way this library writes.
-/
namespace Provenance

open Cbor
open Item (StandsAt)

namespace Cbor

variable {b : Octets} {x : Item}

theorem Spells.of_array {xs : List Item} (h : Spells b (.array xs)) :
    ∃ ps : List Piece,
      ps.map Prod.snd = xs ∧ Framed 4 ps.length (ps.flatMap Prod.fst) b ∧ ∀ p ∈ ps, Spells p.1 p.2 := by
  generalize hx : Item.array xs = x at h
  cases h with
  | array ps hf hp =>
    cases hx
    exact ⟨ps, rfl, hf, hp⟩
  | _ => cases hx

theorem Spells.of_tag {t : UInt64} (h : Spells b (.tag t x)) :
    ∃ width c d, b = c ++ d ∧ Heading 6 t.toNat width c ∧ Spells d x := by
  cases h with
  | tag hh hx => exact ⟨_, _, _, rfl, hh, hx⟩

theorem Spells.of_bytes {s : Octets} (h : Spells b (.bytes s)) : BytesSpell b s := by
  cases h with
  | bytes h => exact h

theorem Framed.split {major n : Nat} {parts : Octets} (h : Framed major n parts b) :
    ∃ front back, b = front ++ (parts ++ back) ∧
      (LengthSpells major front (some n) ∨ LengthSpells major front none) := by
  cases h with
  | @definite width front hh => exact ⟨front, [], by rw [List.append_nil], .inl ⟨width, hh⟩⟩
  | indefinite => exact ⟨[initial major 31], [initial 7 31], rfl, .inr rfl⟩

end Cbor

namespace Envelope

variable {b c raw : Octets} {header : Entries} {e f : Envelope} {tagged other : Bool}

theorem readProtected_eq_ok_iff :
    readProtected raw = .ok header ↔ raw = [] ∧ header = [] ∨ raw ≠ [] ∧ Cbor.decode raw = .ok (.map header) := by
  unfold readProtected
  by_cases h : raw = []
  · simp [h, eq_comm]
  · simp [h, bind_eq_ok_iff, Field.map_eq_ok_iff]

theorem decode_eq_ok_iff_item :
    decode b = .ok e ↔
      (∃ tagged, Cbor.decode b = .ok (e.toItem tagged)) ∧ readProtected e.rawProtected = .ok e.protectedHeader := by
  simp only [decode, bind_eq_ok_iff, ofItem_eq_ok_iff]
  constructor
  · rintro ⟨x, hx, hraw, tagged, rfl⟩
    exact ⟨⟨tagged, hx⟩, hraw⟩
  · rintro ⟨⟨tagged, hx⟩, hraw⟩
    exact ⟨_, hx, hraw, tagged, rfl⟩

section Tags

theorem toItem_true : e.toItem true = .tag tagNumber (e.toItem false) := rfl

theorem toItem_inj (h : e.toItem tagged = f.toItem other) : tagged = other ∧ e.rawProtected = f.rawProtected := by
  cases tagged <;> cases other <;> simp_all [toItem]

theorem counted_toItem_iff : (e.toItem tagged).Counted ↔ (e.toItem false).Counted := by
  cases tagged with
  | false => rfl
  | true =>
    rw [toItem_true, Item.Counted, Item.throughout_tag_iff]
    exact and_iff_right (Nat.two_pow_pos 64)

theorem fits_untagged {limit : Nat} (h : (e.toItem tagged).Fits (limit + 1)) : (e.toItem false).Fits (limit + 1) := by
  cases tagged with
  | false => exact h
  | true => exact (Item.fits_tag_iff.mp h).mono (Nat.le_succ limit)

-- beside its unprotected header, an envelope holds no map and no simple value
theorem throughout_toItem_iff {P : Item → Prop} (hbytes : ∀ s, P (.bytes s)) (hnull : P .null)
    (harray : ∀ xs, P (.array xs)) (htag : ∀ t x, P (.tag t x)) :
    (e.toItem tagged).Throughout P ↔ (Item.map e.unprotectedHeader).Throughout P := by
  have string (s : Octets) : (Item.bytes s).Throughout P := (Item.throughout_leaf_iff (by trivial)).mpr (hbytes s)
  have payload : ((e.payload?.map Item.bytes).getD .null).Throughout P := by
    cases e.payload? with
    | none => exact (Item.throughout_leaf_iff (by trivial)).mpr hnull
    | some s => exact string s
  have body : (e.toItem false).Throughout P ↔ (Item.map e.unprotectedHeader).Throughout P := by
    simp [toItem, Item.throughout_array_iff, harray, string, payload]
  cases tagged with
  | false => exact body
  | true => rw [toItem_true, Item.throughout_tag_iff, body, and_iff_right (htag _ _)]

/-- Whether an envelope is encoded is up to its unprotected header, and not to the tag or to what was signed. -/
theorem encode_eq_ok_iff_header :
    e.encode tagged = .ok b ↔ ((Item.map e.unprotectedHeader).checkKeys = .ok () ∧
      (Item.map e.unprotectedHeader).reserved? = none) ∧ (e.toItem tagged).octets = b := by
  rw [encode, Cbor.encode, mapError_eq_ok_iff, Item.toOctets_eq_ok_iff, ← and_assoc]
  simp only [Item.checkKeys_eq_ok_iff, Item.reserved?_eq_none_iff]
  rw [throughout_toItem_iff (P := Item.KeyedApart) (fun _ => trivial) trivial (fun _ => trivial) (fun _ _ => trivial),
    throughout_toItem_iff (P := Item.Assigned) (fun _ => trivial) trivial (fun _ => trivial) (fun _ _ => trivial)]

end Tags

section Wire

/-- The octets before the protected string of an envelope, in any spelling. -/
def Opens (tagged : Bool) (front : Octets) : Prop :=
  ∃ outer inner, front = outer ++ inner ∧
    (if tagged then ∃ width, Heading 6 tagNumber.toNat width outer else outer = []) ∧
    (LengthSpells 4 inner (some 4) ∨ LengthSpells 4 inner none)

theorem rawProtected_of_spells (h : Spells b (e.toItem tagged)) :
    ∃ front s back, b = front ++ (s ++ back) ∧ Opens tagged front ∧ BytesSpell s e.rawProtected := by
  have body {d : Octets} (h : Spells d (e.toItem false)) :
      ∃ front s back, d = front ++ (s ++ back) ∧ Opens false front ∧ BytesSpell s e.rawProtected := by
    obtain ⟨ps, hps, hf, hp⟩ := h.of_array
    obtain ⟨p, ps, rfl⟩ : ∃ p qs, ps = p :: qs := List.exists_cons_of_ne_nil (by rintro rfl; cases hps)
    obtain ⟨hhead, htail⟩ := List.cons.inj hps
    have hlen : (p :: ps).length = 4 := by rw [← List.length_map Prod.snd, hps]; rfl
    obtain ⟨front, back, rfl, hfront⟩ := hf.split
    rw [hlen] at hfront
    refine ⟨front, p.1, ps.flatMap Prod.fst ++ back, by simp, ⟨[], front, rfl, rfl, hfront⟩, ?_⟩
    have hraw := hp p List.mem_cons_self
    rw [hhead] at hraw
    exact hraw.of_bytes
  cases tagged with
  | false => exact body h
  | true =>
    obtain ⟨width, outer, d, rfl, houter, hd⟩ := Spells.of_tag h
    obtain ⟨front, s, back, rfl, ⟨-, inner, rfl, rfl, hinner⟩, hs⟩ := body hd
    exact ⟨outer ++ inner, s, back, by simp, ⟨outer, inner, rfl, ⟨width, houter⟩, hinner⟩, hs⟩

/-- The heads before a protected string of `size` octets, as they are written. -/
def opening (tagged : Bool) (size : Nat) : Octets :=
  (if tagged then Head.write 6 tagNumber.toNat else []) ++ (Head.write 4 4 ++ Head.write 2 size)

def closing (e : Envelope) : Octets :=
  (Item.map e.unprotectedHeader).octets ++
    (((e.payload?.map Item.bytes).getD .null).octets ++ (Item.bytes e.signature).octets)

theorem octets_toItem :
    (e.toItem tagged).octets = opening tagged e.rawProtected.length ++ (e.rawProtected ++ e.closing) := by
  cases tagged <;> simp [toItem, opening, closing, Item.octets, Item.octetsOfItems]

/-- Outside of the contents `c` of the protected string, these are the octets that are written for an envelope. -/
def WrittenAround (tagged : Bool) (c b : Octets) : Prop :=
  ∃ (f : Envelope) (back : Octets), f.rawProtected.length = c.length ∧
    f.encode tagged = .ok (opening tagged c.length ++ (f.rawProtected ++ back)) ∧
    b = opening tagged c.length ++ (c ++ back)

theorem WrittenAround.exists_encode (h : WrittenAround tagged c b) :
    ∃ f : Envelope, f.rawProtected = c ∧ f.encode tagged = .ok b := by
  obtain ⟨f, back, hlen, hf, rfl⟩ := h
  obtain ⟨hheader, hoctets⟩ := encode_eq_ok_iff_header.mp hf
  rw [octets_toItem, hlen] at hoctets
  have hback := List.append_cancel_left (List.append_cancel_left hoctets)
  -- nothing but the contents differs, and these are not what encoding depends on
  refine ⟨{ f with rawProtected := c }, rfl, encode_eq_ok_iff_header.mpr ⟨hheader, ?_⟩⟩
  rw [octets_toItem, ← hback]
  rfl

theorem encode_of_writtenAround (hb : Cbor.decode b = .ok (e.toItem other)) (hlen : b.length < 2 ^ 64)
    (h : WrittenAround tagged c b) : c = e.rawProtected ∧ e.encode tagged = .ok b := by
  obtain ⟨f, rfl, hf⟩ := h.exists_encode
  obtain ⟨hreserved, -, hoctets⟩ := Cbor.encode_eq_ok_iff.mp hf
  have hspells := spells_octets hreserved (hoctets ▸ hlen)
  rw [hoctets] at hspells
  -- the octets are those of both items, so the items and with them their tags and strings are one
  obtain ⟨hitem, -⟩ := hspells.append_inj (s := []) (t := []) (decode_eq_ok_iff_spells.mp hb).1 rfl
  refine ⟨(toItem_inj hitem).2, ?_⟩
  obtain ⟨rfl, -⟩ := toItem_inj hitem
  rw [encode, ← hitem]
  exact hf

end Wire

section Recoding

theorem encode_of_decode (hb : Cbor.decode b = .ok (e.toItem tagged)) (other : Bool) :
    e.encode other = .ok (e.toItem other).octets := by
  obtain ⟨hspells, -, hkeys⟩ := decode_eq_ok_iff_spells.mp hb
  have hreserved := Item.reserved?_eq_none_iff.mpr (assigned_of_spells hspells)
  have hwritten : e.encode tagged = .ok (e.toItem tagged).octets := by
    rw [encode, Cbor.encode, mapError_eq_ok_iff, Item.toOctets_eq_ok_iff]
    exact ⟨hkeys, hreserved, rfl⟩
  exact encode_eq_ok_iff_header.mpr ⟨(encode_eq_ok_iff_header.mp hwritten).1, rfl⟩

theorem counted_of_decode (hb : Cbor.decode b = .ok (e.toItem tagged)) (hlen : b.length < 2 ^ 64) (other : Bool) :
    (e.toItem other).Counted := by
  have hcounted := counted_of_spells (decode_eq_ok_iff_spells.mp hb).1 hlen
  exact counted_toItem_iff.mpr (counted_toItem_iff.mp hcounted)

theorem decode_of_decode (h : decode b = .ok e) (hlen : b.length < 2 ^ 64)
    (hfits : (e.toItem tagged).Fits (maxNesting + 1)) : decode (e.toItem tagged).octets = .ok e := by
  obtain ⟨⟨other, hb⟩, hraw⟩ := decode_eq_ok_iff_item.mp h
  have hcounted := counted_of_decode hb hlen tagged
  exact decode_eq_ok_iff_item.mpr ⟨⟨tagged, decode_of_counted (encode_of_decode hb tagged) hcounted hfits⟩, hraw⟩

theorem decode_of_decode_deep (h : decode b = .ok e) (hlen : b.length < 2 ^ 64)
    (hdeep : ¬ (e.toItem tagged).Fits (maxNesting + 1)) :
    decode (e.toItem tagged).octets = .error (.malformed s!"CBOR nesting deeper than {maxNesting}") := by
  obtain ⟨⟨other, hb⟩, -⟩ := decode_eq_ok_iff_item.mp h
  have hreserved := (Cbor.encode_eq_ok_iff.mp (encode_of_decode hb tagged)).1
  rw [decode, decode_of_deep (spells_of_counted hreserved (counted_of_decode hb hlen tagged)) hdeep]
  rfl

/-- An envelope that is read is written again in both forms. The one without the tag is read as the same envelope, the
other too unless the tag takes its items beyond the levels that are read. The protected header is kept as the octets of
the string that was received, whatever these decode to, so that an envelope is written back as it was received if
around these octets it is as it would be written. No octet string of a machine with words of 64 bits is longer than
assumed here. -/
theorem reencoding_faithful (b : Octets) :
    (∀ f, decode b = .error f → f.isFormat = true) ∧
      ∀ e, decode b = .ok e →
        (∃ tagged front s back, b = front ++ (s ++ back) ∧ Opens tagged front ∧ BytesSpell s e.rawProtected) ∧
        (e.rawProtected = [] ∧ e.protectedHeader = [] ∨
          e.rawProtected ≠ [] ∧ Cbor.decode e.rawProtected = .ok (.map e.protectedHeader)) ∧
        ∃ bare marked, e.encode false = .ok bare ∧ e.encode true = .ok marked ∧ (b.length < 2 ^ 64 →
          decode bare = .ok e ∧
          ((∀ y n, StandsAt y n (e.toItem true) → n ≤ maxNesting) → decode marked = .ok e) ∧
          ((∃ y n, StandsAt y n (e.toItem true) ∧ maxNesting < n) →
            decode marked = .error (.malformed s!"CBOR nesting deeper than {maxNesting}")) ∧
          ∀ tagged c, WrittenAround tagged c b → c = e.rawProtected ∧ e.encode tagged = .ok b) := by
  refine ⟨formal_envelope_decode b, ?_⟩
  intro e h
  obtain ⟨⟨received, hb⟩, hraw⟩ := decode_eq_ok_iff_item.mp h
  obtain ⟨hspells, hfits, -⟩ := decode_eq_ok_iff_spells.mp hb
  refine ⟨⟨received, rawProtected_of_spells hspells⟩, readProtected_eq_ok_iff.mp hraw, _, _,
    encode_of_decode hb false, encode_of_decode hb true, ?_⟩
  intro hlen
  refine ⟨decode_of_decode h hlen (fits_untagged hfits), ?_, ?_, fun tagged c => encode_of_writtenAround hb hlen⟩
  · intro hlevels
    exact decode_of_decode h hlen (Item.fits_iff_le.mpr hlevels)
  · rintro ⟨y, n, hy, hn⟩
    apply decode_of_decode_deep h hlen
    intro hf
    exact absurd (Item.fits_iff_le.mp hf y n hy) (Nat.not_le_of_lt hn)

-- the protected header is an open, empty map, which would be written in one octet
example : (decode [0x84, 0x42, 0xbf, 0xff, 0xa0, 0xf6, 0x40] >>= (·.encode false)) =
    .ok [0x84, 0x42, 0xbf, 0xff, 0xa0, 0xf6, 0x40] := by cbv

end Recoding

end Envelope

end Provenance
