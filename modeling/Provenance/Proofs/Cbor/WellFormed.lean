import Provenance.Proofs.Cbor.Canonical

/-!
How far what the decoder accepts is well-formed (RFC 8949, Appendix C). It is but for two forms that the decoder lets
pass: a simple value below 32 in an octet of its own, and a string without a length as a segment of another.
-/
namespace Provenance.Cbor

def Segment (major : Nat) (b : Octets) : Prop := ∃ c width h, b = h ++ c ∧ Heading major c.length width h

/-- Strings as in RFC 8949, where all segments have lengths, and with `lax` also those in which some have none. -/
inductive WellFormedString (lax : Bool) (major : Nat) : Octets → Prop
  | definite {b : Octets} (h : Segment major b) : WellFormedString lax major b
  | indefinite {bs : List Octets} (h : ∀ b ∈ bs, Segment major b) :
      WellFormedString lax major (initial major 31 :: (bs.flatten ++ [initial 7 31]))
  | nested {bs : List Octets} (hl : lax = true) (h : ∀ b ∈ bs, WellFormedString lax major b) :
      WellFormedString lax major (initial major 31 :: (bs.flatten ++ [initial 7 31]))

/-- Data items as in RFC 8949, whatever they mean, and with `lax` also those in the two other forms. -/
inductive WellFormed (lax : Bool) : Octets → Prop
  | integer {major n width : Nat} {b : Octets} (hm : major = 0 ∨ major = 1) (h : Heading major n width b) :
      WellFormed lax b
  | string {major : Nat} {b : Octets} (hm : major = 2 ∨ major = 3) (h : WellFormedString lax major b) :
      WellFormed lax b
  | array {b : Octets} (bs : List Octets) (hf : Framed 4 bs.length bs.flatten b) (h : ∀ b ∈ bs, WellFormed lax b) :
      WellFormed lax b
  | map {b : Octets} (ps : List (Octets × Octets)) (hf : Framed 5 ps.length (ps.flatMap fun p => p.1 ++ p.2) b)
      (hk : ∀ p ∈ ps, WellFormed lax p.1) (hv : ∀ p ∈ ps, WellFormed lax p.2) : WellFormed lax b
  | tag {n width : Nat} {c b : Octets} (hh : Heading 6 n width c) (h : WellFormed lax b) : WellFormed lax (c ++ b)
  | special {n width : Nat} {b : Octets} (h : Heading 7 n width b) (hn : width = 1 → 32 ≤ n) : WellFormed lax b
  | wide {n : Nat} {b : Octets} (hl : lax = true) (h : Heading 7 n 1 b) (hn : n < 24) : WellFormed lax b

section Accepted

variable {b : Octets} {x : Item}

theorem StringSpells.wellFormedString {α : Type} {major : Nat} {content : α → Octets} {join : List α → α} {a : α}
    (h : StringSpells major content join b a) : WellFormedString true major b := by
  induction h with
  | definite hh => exact .definite ⟨_, _, _, rfl, hh⟩
  | indefinite ps hp ih =>
    rw [List.flatMap_def]
    apply WellFormedString.nested rfl
    rwa [List.forall_mem_map]

theorem SimpleSpells.wellFormed {n : UInt8} (h : SimpleSpells b n) (hn : n < 24 ∨ 32 ≤ n) : WellFormed true b := by
  obtain ⟨width, hw, h⟩ := h
  obtain hn | hn := hn
  · obtain rfl | rfl : width = 0 ∨ width = 1 := by omega
    · exact .special h nofun
    · exact .wide rfl h hn
  · exact .special h fun _ => hn

theorem Spells.wellFormed (h : Spells b x) : WellFormed true b := by
  induction h with
  | unsigned h => exact .integer (.inl rfl) h
  | negative h => exact .integer (.inr rfl) h
  | bytes h => exact .string (.inl rfl) h.wellFormedString
  | text h => exact .string (.inr rfl) h.wellFormedString
  | array ps hf hp ih =>
    apply WellFormed.array (ps.map Prod.fst)
    · rwa [List.length_map, ← List.flatMap_def]
    · rwa [List.forall_mem_map]
  | map ps hf hk hv ihk ihv =>
    apply WellFormed.map (ps.map fun p => (p.1.1, p.2.1))
    · rwa [List.length_map, List.flatMap_map]
    · rwa [List.forall_mem_map]
    · rwa [List.forall_mem_map]
  | tag hh hx ih => exact .tag hh ih
  | half h => exact .special h nofun
  | single h => exact .special h nofun
  | double h => exact .special h nofun
  | no h => exact h.wellFormed (.inl (by decide))
  | yes h => exact h.wellFormed (.inl (by decide))
  | null h => exact h.wellFormed (.inl (by decide))
  | undefined h => exact h.wellFormed (.inl (by decide))
  | simple hn h => exact h.wellFormed (hn.imp (fun hlt => UInt8.lt_trans hlt (by decide)) id)

end Accepted

namespace Head

/-- Whether a head of `size` octets makes one of the two lax forms, `within` an open string or not. -/
def misplaced (within : Bool) (size : Nat) : Head → Bool
  | simple n => size == 2 && n < 32
  | bytes none | text none => within
  | _ => false

/-- Whether a string is open after the head. -/
def opened (within : Bool) : Head → Bool
  | bytes none | text none => true
  | stop => false
  | _ => within

end Head

/-- From head to head, none is misplaced. -/
def strict (within : Bool) (b : Octets) : Bool :=
  match Head.read b with
  | .error _ => true
  | .ok ⟨h, r, _⟩ => !h.misplaced within (b.length - r.length) && strict (h.opened within) (r.drop h.contents)
termination_by b.length
decreasing_by
  simp only [List.length_drop]
  omega

section Strict

variable {i : Bool} {major n width : Nat} {c s : Octets}

theorem strict_head (hd : Head) (h : HeadSpells c hd) :
    strict i (c ++ s) = (!hd.misplaced i c.length && strict (hd.opened i) (s.drop hd.contents)) := by
  obtain ⟨hlt, e⟩ := read_of_headSpells h s
  rw [strict, e]
  simp only [List.length_append, Nat.add_sub_cancel]

theorem strict_heading (hd : Head) (hm : major < 8) (h : Heading major n width c)
    (ha : Head.ofArgument? major (.fixed width n) = some hd) :
    strict i (c ++ s) = (!hd.misplaced i (width + 1) && strict (hd.opened i) (s.drop hd.contents)) := by
  rw [strict_head hd (headSpells_of_heading hm h ha), h.length]

theorem strict_open (hd : Head) (hm : major < 8) (ha : Head.ofArgument? major .indefinite = some hd) :
    strict i (initial major 31 :: s) = (!hd.misplaced i 1 && strict (hd.opened i) (s.drop hd.contents)) :=
  strict_head hd (headSpells_of_open hm ha)

theorem strict_nil : strict i [] = true := by cbv

theorem strict_stop : strict i (initial 7 31 :: s) = strict false s := strict_open .stop (by decide) rfl

theorem strict_openString (hm : major = 2 ∨ major = 3) : strict i (initial major 31 :: s) = (!i && strict true s) := by
  obtain rfl | rfl := hm
  · exact strict_open (.bytes none) (by decide) rfl
  · exact strict_open (.text none) (by decide) rfl

theorem strict_segment {b : Octets} (hm : major = 2 ∨ major = 3) (h : Segment major b) :
    strict i (b ++ s) = strict i s := by
  obtain ⟨c, width, b, rfl, h⟩ := h
  have hdrop : (c ++ s).drop c.length = s := List.drop_left
  rw [List.append_assoc]
  obtain rfl | rfl := hm
  · exact (strict_heading (.bytes (some c.length)) (by decide) h rfl).trans (congrArg (strict i) hdrop)
  · exact (strict_heading (.text (some c.length)) (by decide) h rfl).trans (congrArg (strict i) hdrop)

theorem strict_integer (hm : major = 0 ∨ major = 1) (h : Heading major n width c) :
    strict i (c ++ s) = strict i s := by
  obtain rfl | rfl := hm
  · exact strict_heading (.unsigned (.ofNat n)) (by decide) h rfl
  · exact strict_heading (.negative (.ofNat n)) (by decide) h rfl

theorem strict_tag (h : Heading 6 n width c) : strict i (c ++ s) = strict i s :=
  strict_heading (.tag (.ofNat n)) (by decide) h rfl

theorem strict_container {size? : Option Nat} (hm : major = 4 ∨ major = 5) (h : LengthSpells major c size?) :
    strict i (c ++ s) = strict i s := by
  obtain rfl | rfl := hm
  · exact strict_head (.array size?) h
  · exact strict_head (.map size?) h

theorem strict_special (h : Heading 7 n width c) :
    strict i (c ++ s) = (decide (width = 1 → 32 ≤ n) && strict i s) := by
  obtain rfl | rfl | rfl | rfl | rfl := h.width_cases
  · exact strict_heading (.simple (.ofNat n)) (by decide) h rfl
  · rw [strict_heading (.simple (.ofNat n)) (by decide) h rfl]
    have hn := h.toNat_ofNat_octet (le_refl 1)
    have hplace : (!Head.misplaced i 2 (.simple (.ofNat n))) = decide (1 = 1 → 32 ≤ n) := by
      rw [Bool.eq_iff_iff]
      simp [Head.misplaced, UInt8.lt_iff_toNat_lt, hn]
    exact congrArg (· && strict i s) hplace
  · exact strict_heading (.float (.ofNat (Binary64.half.widen n))) (by decide) h rfl
  · exact strict_heading (.float (.ofNat (Binary64.single.widen n))) (by decide) h rfl
  · exact strict_heading (.float (.ofNat n)) (by decide) h rfl

end Strict

/-- The scan comes to a verdict on the octets and goes on behind them. A good verdict says that `P`, and without lax
forms there is no other. -/
def Scans (lax within : Bool) (b : Octets) (P : Prop) : Prop :=
  ∃ verdict : Bool, (∀ s, strict within (b ++ s) = (verdict && strict within s)) ∧ (verdict = true → P) ∧
    (lax = false → verdict = true)

section Scans

variable {lax i : Bool} {major n : Nat} {b c parts : Octets} {P Q : Prop}

theorem scans_of_strict (h : ∀ s, strict i (b ++ s) = strict i s) (hP : P) : Scans lax i b P :=
  ⟨true, h, fun _ => hP, fun _ => rfl⟩

theorem Scans.imp (h : Scans lax i b P) (hPQ : P → Q) : Scans lax i b Q := by
  obtain ⟨verdict, hs, hP, hlax⟩ := h
  exact ⟨verdict, hs, fun hv => hPQ (hP hv), hlax⟩

theorem Scans.append (hb : Scans lax i b P) (hc : Scans lax i c Q) : Scans lax i (b ++ c) (P ∧ Q) := by
  obtain ⟨v, hv, hP, hvl⟩ := hb
  obtain ⟨w, hw, hQ, hwl⟩ := hc
  refine ⟨v && w, ?_, ?_, ?_⟩
  · intro s
    rw [List.append_assoc, hv, hw, Bool.and_assoc]
  · intro hvw
    rw [Bool.and_eq_true] at hvw
    exact ⟨hP hvw.1, hQ hvw.2⟩
  · intro hl
    rw [hvl hl, hwl hl]
    rfl

theorem scans_flatMap {α : Type} {f : α → Octets} {P : α → Prop} {as : List α}
    (h : ∀ a ∈ as, Scans lax i (f a) (P a)) : Scans lax i (as.flatMap f) (∀ a ∈ as, P a) := by
  induction as with
  | nil => exact scans_of_strict (fun _ => rfl) nofun
  | cons a as ih =>
    obtain ⟨ha, has⟩ := List.forall_mem_cons.mp h
    exact (ha.append (ih has)).imp List.forall_mem_cons.mpr

theorem Scans.framed (hm : major = 4 ∨ major = 5) (hf : Framed major n parts b) (h : Scans lax false parts P) :
    Scans lax false b P := by
  obtain ⟨verdict, hs, hrest⟩ := h
  refine ⟨verdict, ?_, hrest⟩
  intro s
  cases hf with
  | @definite width c hh =>
    have hlength : LengthSpells major c (some n) := ⟨width, hh⟩
    rw [List.append_assoc, strict_container hm hlength, hs]
  | indefinite =>
    have hlength : LengthSpells major [initial major 31] none := rfl
    rw [append_stop, strict_container hm hlength, hs, strict_stop]

theorem scans_of_segment (hm : major = 2 ∨ major = 3) (h : Segment major b) : Scans lax i b (Segment major b) :=
  scans_of_strict (fun _ => strict_segment hm h) h

theorem scans_openString (hm : major = 2 ∨ major = 3) {bs : List Octets}
    (h : ∀ b ∈ bs, Scans lax true b (Segment major b)) :
    Scans lax false (initial major 31 :: (bs.flatten ++ [initial 7 31]))
      (WellFormedString false major (initial major 31 :: (bs.flatten ++ [initial 7 31]))) := by
  have hparts := scans_flatMap (f := id) h
  obtain ⟨verdict, hs, hsegments, hlax⟩ := hparts
  rw [List.flatMap_id] at hs
  refine ⟨verdict, ?_, fun hv => .indefinite (hsegments hv), hlax⟩
  intro s
  rw [append_stop, List.singleton_append, strict_openString hm, hs, strict_stop]
  rfl

-- within an open string, another that is open is misplaced
theorem WellFormedString.scans_segment (hm : major = 2 ∨ major = 3) (h : WellFormedString true major b) :
    Scans true true b (Segment major b) := by
  have refused (c : Octets) : Scans true true (initial major 31 :: c) (Segment major (initial major 31 :: c)) := by
    refine ⟨false, ?_, nofun, nofun⟩
    intro s
    rw [List.cons_append, strict_openString hm]
    rfl
  cases h with
  | definite h => exact scans_of_segment hm h
  | indefinite h => exact refused _
  | nested hl h => exact refused _

theorem WellFormedString.scans (hm : major = 2 ∨ major = 3) (h : WellFormedString lax major b) :
    Scans lax false b (WellFormedString false major b) := by
  cases h with
  | definite h => exact (scans_of_segment hm h).imp .definite
  | indefinite h => exact scans_openString hm fun b hb => scans_of_segment hm (h b hb)
  | nested hl h =>
    subst hl
    exact scans_openString hm fun b hb => (h b hb).scans_segment hm

-- One induction over both grammars: a form of the lax one alone has a bad verdict, so nothing is left to show of it.
theorem WellFormed.scans (h : WellFormed lax b) : Scans lax false b (WellFormed false b) := by
  induction h with
  | integer hm h => exact scans_of_strict (fun _ => strict_integer hm h) (.integer hm h)
  | string hm h => exact (h.scans hm).imp (.string hm)
  | array bs hf h ih =>
    have hparts := scans_flatMap (f := id) ih
    rw [List.flatMap_id] at hparts
    exact (hparts.framed (.inl rfl) hf).imp (.array bs hf)
  | map ps hf hk hv ihk ihv =>
    have hparts := scans_flatMap fun p hp => (ihk p hp).append (ihv p hp)
    apply (hparts.framed (.inr rfl) hf).imp
    intro h
    exact .map ps hf (fun p hp => (h p hp).1) fun p hp => (h p hp).2
  | tag hh h ih =>
    have hhead : Scans lax false _ True := scans_of_strict (fun _ => strict_tag hh) trivial
    exact (hhead.append ih).imp fun h => .tag hh h.2
  | special h hn =>
    apply scans_of_strict _ (.special h hn)
    intro s
    rw [strict_special h, decide_eq_true hn, Bool.true_and]
  | @wide n b hl h hn =>
    have hsmall : ¬ (1 = 1 → 32 ≤ n) := by omega
    refine ⟨false, ?_, nofun, ?_⟩
    · intro s
      rw [strict_special h, decide_eq_false hsmall]
    · rw [hl]
      nofun

theorem WellFormed.strict_eq_true (h : WellFormed false b) : strict false b = true := by
  obtain ⟨verdict, hs, -, hverdict⟩ := h.scans
  have hb := hs []
  rwa [List.append_nil, strict_nil, hverdict rfl] at hb

theorem WellFormed.of_strict (h : WellFormed lax b) (hb : strict false b = true) : WellFormed false b := by
  obtain ⟨verdict, hs, hverdict, -⟩ := h.scans
  have hv := hs []
  rw [List.append_nil, strict_nil, hb, Bool.and_true] at hv
  exact hverdict hv.symm

end Scans

/-- What the decoder accepts is well-formed but for the two lax forms, so it is well-formed exactly if no head shows
one of them. -/
theorem wellFormed_of_decode {b : Octets} {v : Item} (h : decode b = .ok v) :
    WellFormed true b ∧ (WellFormed false b ↔ strict false b = true) := by
  have hlax := (decode_eq_ok_iff_spells.mp h).1.wellFormed
  exact ⟨hlax, fun hb => hb.strict_eq_true, hlax.of_strict⟩

/-- A string in one segment and the value `true`, in an array without a length. -/
def segmented : Octets := [0x9f, 0x5f, 0x41, 0x01, 0xff, 0xf5, 0xff]

theorem wellFormed_of_decode_segmented :
    decode segmented = .ok (.array [.bytes [1], .bool true]) ∧ WellFormed false segmented := by
  have h : decode segmented = .ok (.array [.bytes [1], .bool true]) := by cbv
  have hstrict : strict false segmented = true := by cbv
  exact ⟨h, (wellFormed_of_decode h).2.mpr hstrict⟩

theorem malformed_accepted :
    (decode [0xf8, 0x14] = .ok (.bool false) ∧ ¬ WellFormed false [0xf8, 0x14]) ∧
      decode [0x5f, 0x5f, 0x41, 0x01, 0xff, 0xff] = .ok (.bytes [1]) ∧
      ¬ WellFormed false [0x5f, 0x5f, 0x41, 0x01, 0xff, 0xff] := by
  have refused {b : Octets} (h : strict false b = false) : ¬ WellFormed false b := by
    intro hb
    rw [hb.strict_eq_true] at h
    cases h
  have hsimple : strict false [0xf8, 0x14] = false := by cbv
  have hnested : strict false [0x5f, 0x5f, 0x41, 0x01, 0xff, 0xff] = false := by cbv
  exact ⟨⟨by cbv, refused hsimple⟩, by cbv, refused hnested⟩

end Provenance.Cbor
