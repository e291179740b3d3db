import Provenance.Proofs.Cbor.Parts
import Provenance.Proofs.Cbor.Strings
import Provenance.Proofs.Cbor.Containers

/-!
Reading an item takes exactly the octets that spell it, as long as its levels fit.
-/
namespace Provenance.Cbor

namespace Item

/-- How an item is read on from its head, with room for the items in it. -/
def ReadsOn (room : Nat) (s r : Octets) : Head → Prop
  | .unsigned n => Yields (read (room + 1) s) (.unsigned n) r
  | .negative n => Yields (read (room + 1) s) (.negative n) r
  | .float bits => Yields (read (room + 1) s) (.float bits) r
  | .simple n => ∀ x t, Yields (read (room + 1) s) x t ↔ ofSimple n = .ok x ∧ r = t
  | .stop => read (room + 1) s = .error .strayBreak
  | .bytes size? => Wraps (Strand.bytes.body size? r) bytes (read (room + 1) s)
  | .text size? => Wraps (Strand.text.body size? r) text (read (room + 1) s)
  | .tag n => Wraps (read room r) (tag n) (read (room + 1) s)
  | .array (some n) => Wraps (Reader.times (read room) n r) array (read (room + 1) s)
  | .array none => Wraps (Reader.untilStop (read room) r) array (read (room + 1) s)
  | .map (some n) => Wraps (Reader.times (Reader.pair (read room)) n r) map (read (room + 1) s)
  | .map none => Wraps (Reader.untilStop (Reader.pair (read room)) r) map (read (room + 1) s)

theorem read_error {room : Nat} {s : Octets} {e : Flaw} (h : Head.read s = .error e) : read (room + 1) s = .error e := by
  rw [read, h]

theorem readsOn (room : Nat) {s r : Octets} {hd : Head} (h : Yields (Head.read s) hd r) : ReadsOn room s r hd := by
  obtain ⟨hr, e⟩ := h
  unfold ReadsOn
  rw [read, e]
  cases hd with
  | unsigned | negative | float => exact yields_ok _
  | simple n =>
    intro x t
    cases hx : ofSimple n with
    | error e => simp only [hx, Except.map, not_yields_error, reduceCtorEq, false_and]
    | ok y => simp only [hx, Except.map, yields_ok_iff, Except.ok.injEq]
  | stop => rfl
  | bytes | text => exact ⟨hr, rfl⟩
  | tag => exact ⟨hr.le, rfl⟩
  | array size? =>
    cases size? with
    | some n => exact ⟨hr, rfl⟩
    | none => exact ⟨hr.le, rfl⟩
  | map size? =>
    cases size? with
    | some n => exact ⟨hr, rfl⟩
    | none => exact ⟨hr.le, rfl⟩

theorem ofSimple_assigned {n : UInt8} {x : Item} (h : ofSimple n = .ok x) {b : Octets} (hb : SimpleSpells b n) :
    Spells b x := by
  unfold ofSimple at h
  split at h
  · next hn => cases h; exact .no (hn ▸ hb)
  split at h
  · next hn => cases h; exact .yes (hn ▸ hb)
  split at h
  · next hn => cases h; exact .null (hn ▸ hb)
  split at h
  · next hn => cases h; exact .undefined (hn ▸ hb)
  split at h
  · cases h
  · cases h
    apply Spells.simple _ hb
    grind

theorem ofSimple_simple {n : UInt8} (hn : n < 20 ∨ 32 ≤ n) : ofSimple n = .ok (simple n) := by
  unfold ofSimple
  rw [if_neg (by grind), if_neg (by grind), if_neg (by grind), if_neg (by grind), if_neg (by grind)]

end Item

theorem length_of_framed {major n : Nat} {parts b : Octets} (h : Framed major n parts b) :
    ∃ size? c d, LengthSpells major c size? ∧ b = c ++ d := by
  cases h with
  | @definite width c hh => exact ⟨some n, c, parts, ⟨width, hh⟩, rfl⟩
  | indefinite => exact ⟨none, [initial major 31], _, rfl, rfl⟩

theorem length_of_string {α : Type} {major : Nat} {content : α → Octets} {join : List α → α} {b : Octets} {a : α}
    (h : StringSpells major content join b a) : ∃ size? c d, LengthSpells major c size? ∧ b = c ++ d := by
  cases h with
  | @definite a width c hh => exact ⟨some _, c, content a, ⟨width, hh⟩, rfl⟩
  | indefinite ps hp => exact ⟨none, [initial major 31], _, rfl, rfl⟩

theorem head_of_spells {b : Octets} {x : Item} (h : Spells b x) :
    ∃ hd c d, HeadSpells c hd ∧ hd ≠ .stop ∧ b = c ++ d := by
  have alone (hd : Head) (hb : HeadSpells b hd) (hstop : hd ≠ .stop) :
      ∃ hd c d, HeadSpells c hd ∧ hd ≠ .stop ∧ b = c ++ d := ⟨hd, b, [], hb, hstop, (List.append_nil b).symm⟩
  cases h with
  | @unsigned n width b h => exact alone (.unsigned n) ⟨width, h⟩ nofun
  | @negative n width b h => exact alone (.negative n) ⟨width, h⟩ nofun
  | bytes h =>
    obtain ⟨size?, c, d, hc, hb⟩ := length_of_string h
    exact ⟨.bytes size?, c, d, hc, nofun, hb⟩
  | text h =>
    obtain ⟨size?, c, d, hc, hb⟩ := length_of_string h
    exact ⟨.text size?, c, d, hc, nofun, hb⟩
  | array ps hf hp =>
    obtain ⟨size?, c, d, hc, hb⟩ := length_of_framed hf
    exact ⟨.array size?, c, d, hc, nofun, hb⟩
  | map ps hf hk hv =>
    obtain ⟨size?, c, d, hc, hb⟩ := length_of_framed hf
    exact ⟨.map size?, c, d, hc, nofun, hb⟩
  | @tag t width h b x hh hx => exact ⟨.tag t, h, b, ⟨width, hh⟩, nofun, rfl⟩
  | @half n b h => exact alone (.float _) (.inl ⟨n, h, rfl⟩) nofun
  | @single n b h => exact alone (.float _) (.inr (.inl ⟨n, h, rfl⟩)) nofun
  | @double bits b h => exact alone (.float bits) (.inr (.inr h)) nofun
  | no h => exact alone (.simple 20) h nofun
  | yes h => exact alone (.simple 21) h nofun
  | null h => exact alone (.simple 22) h nofun
  | undefined h => exact alone (.simple 23) h nofun
  | @simple n b hn h => exact alone (.simple n) h nofun

theorem append_stop {x : UInt8} (b r : Octets) :
    x :: (b ++ [initial 7 31]) ++ r = [x] ++ (b ++ initial 7 31 :: r) := by
  simp

theorem answers_array {room : Nat} {ps : List Piece} (hp : ∀ p ∈ ps, Spells p.1 p.2)
    (hread : ∀ p ∈ ps, ∀ r, Answers (p.2.Fits room) (Item.read room (p.1 ++ r)) p.2 r) {b : Octets}
    (hf : Framed 4 ps.length (ps.flatMap Prod.fst) b) (r : Octets) :
    Answers (∀ p ∈ ps, p.2.Fits room) (Item.read (room + 1) (b ++ r)) (.array (ps.map Prod.snd)) r := by
  cases hf with
  | @definite width h hh =>
    have hhead : HeadSpells h (.array (some ps.length)) := ⟨width, hh⟩
    rw [List.append_assoc]
    have hwraps := Item.readsOn room (read_of_headSpells hhead (ps.flatMap Prod.fst ++ r))
    exact hwraps.answers (Reader.answers_times hread r)
  | indefinite =>
    have hhead : HeadSpells [initial 4 31] (.array none) := rfl
    rw [append_stop]
    have hwraps := Item.readsOn room (read_of_headSpells hhead (ps.flatMap Prod.fst ++ initial 7 31 :: r))
    refine hwraps.answers (Reader.answers_untilStop hread ?_ r)
    intro p hm
    exact head_of_spells (hp p hm)

theorem answers_entry {room : Nat} {p : Piece × Piece}
    (hk : ∀ r, Answers (p.1.2.Fits room) (Item.read room (p.1.1 ++ r)) p.1.2 r)
    (hv : ∀ r, Answers (p.2.2.Fits room) (Item.read room (p.2.1 ++ r)) p.2.2 r) (r : Octets) :
    Answers (p.1.2.Fits room ∧ p.2.2.Fits room) (Reader.pair (Item.read room) (entryOctets p ++ r)) (entryItems p) r := by
  rw [entryOctets, List.append_assoc]
  exact Reader.answers_pair (hk _) (hv _)

theorem answers_map {room : Nat} {ps : List (Piece × Piece)} (hk : ∀ p ∈ ps, Spells p.1.1 p.1.2)
    (hread : ∀ p ∈ ps, ∀ r, Answers (p.1.2.Fits room ∧ p.2.2.Fits room)
      (Reader.pair (Item.read room) (entryOctets p ++ r)) (entryItems p) r) {b : Octets}
    (hf : Framed 5 ps.length (ps.flatMap entryOctets) b) (r : Octets) :
    Answers (∀ p ∈ ps, p.1.2.Fits room ∧ p.2.2.Fits room) (Item.read (room + 1) (b ++ r))
      (.map (ps.map entryItems)) r := by
  cases hf with
  | @definite width h hh =>
    have hhead : HeadSpells h (.map (some ps.length)) := ⟨width, hh⟩
    rw [List.append_assoc]
    have hwraps := Item.readsOn room (read_of_headSpells hhead (ps.flatMap entryOctets ++ r))
    exact hwraps.answers (Reader.answers_times hread r)
  | indefinite =>
    have hhead : HeadSpells [initial 5 31] (.map none) := rfl
    rw [append_stop]
    have hwraps := Item.readsOn room (read_of_headSpells hhead (ps.flatMap entryOctets ++ initial 7 31 :: r))
    refine hwraps.answers (Reader.answers_untilStop hread ?_ r)
    intro p hm
    obtain ⟨hd, c, d, hc, hstop, hb⟩ := head_of_spells (hk p hm)
    exact ⟨hd, c, d ++ p.2.1, hc, hstop, by rw [entryOctets, hb, List.append_assoc]⟩

section Answers

variable {b : Octets} {x : Item}

theorem answers_of_succ (h : ∀ room r, Answers (x.Fits (room + 1)) (Item.read (room + 1) (b ++ r)) x r)
    (room : Nat) (r : Octets) : Answers (x.Fits room) (Item.read room (b ++ r)) x r := by
  cases room with
  | zero => exact ⟨fun hf => absurd hf x.not_fits_zero, fun _ => rfl⟩
  | succ room => exact h room r

theorem answers_of_leaf (hx : x.Leaf)
    (h : ∀ room r, Yields (Item.read (room + 1) (b ++ r)) x r) (room : Nat) (r : Octets) :
    Answers (x.Fits room) (Item.read room (b ++ r)) x r := by
  apply answers_of_succ
  intro room r
  exact ⟨fun _ => h room r, fun hf => absurd (Item.fits_of_leaf hx) hf⟩

theorem answers_simple {n : UInt8} (h : SimpleSpells b n) (hx : Item.ofSimple n = .ok x)
    (hleaf : x.Leaf) (room : Nat) (r : Octets) :
    Answers (x.Fits room) (Item.read room (b ++ r)) x r := by
  have hh : HeadSpells b (.simple n) := h
  apply answers_of_leaf hleaf
  intro room r
  exact (Item.readsOn room (read_of_headSpells hh r) x r).mpr ⟨hx, rfl⟩

theorem answers_float {bits : UInt64} (h : HeadSpells b (.float bits)) (room : Nat) (r : Octets) :
    Answers ((Item.float bits).Fits room) (Item.read room (b ++ r)) (.float bits) r := by
  have hleaf : (Item.float bits).Leaf := trivial
  apply answers_of_leaf hleaf
  intro room r
  exact Item.readsOn room (read_of_headSpells h r)

end Answers

/-- What spells an item is read as that item, or refused for its nesting alone. -/
theorem answers_of_spells {b : Octets} {x : Item} (h : Spells b x) :
    ∀ room r, Answers (x.Fits room) (Item.read room (b ++ r)) x r := by
  induction h with
  | @unsigned n width b h =>
    have hh : HeadSpells b (.unsigned n) := ⟨width, h⟩
    refine answers_of_leaf trivial ?_
    intro room r
    exact Item.readsOn room (read_of_headSpells hh r)
  | @negative n width b h =>
    have hh : HeadSpells b (.negative n) := ⟨width, h⟩
    refine answers_of_leaf trivial ?_
    intro room r
    exact Item.readsOn room (read_of_headSpells hh r)
  | bytes h =>
    refine answers_of_leaf trivial ?_
    intro room r
    obtain ⟨size?, s, hs, hbody⟩ := Strand.body_of_spells Strand.bytes_lawful h r
    have hwraps := Item.readsOn room hs
    exact hwraps.yields_iff.mpr ⟨_, hbody, rfl⟩
  | text h =>
    refine answers_of_leaf trivial ?_
    intro room r
    obtain ⟨size?, s, hs, hbody⟩ := Strand.body_of_spells Strand.text_lawful h r
    have hwraps := Item.readsOn room hs
    exact hwraps.yields_iff.mpr ⟨_, hbody, rfl⟩
  | array ps hf hp ih =>
    apply answers_of_succ
    intro room r
    apply (answers_array hp (fun p hm => ih p hm room) hf r).congr
    rw [Item.fits_array_iff, List.forall_mem_map]
  | map ps hf hk hv ihk ihv =>
    apply answers_of_succ
    intro room r
    have hread : ∀ p ∈ ps, ∀ r, Answers (p.1.2.Fits room ∧ p.2.2.Fits room)
        (Reader.pair (Item.read room) (entryOctets p ++ r)) (entryItems p) r := by
      intro p hm
      exact answers_entry (ihk p hm room) (ihv p hm room)
    apply (answers_map hk hread hf r).congr
    rw [Item.fits_map_iff, List.forall_mem_map]
    rfl
  | @tag t width h b x hh hx ih =>
    apply answers_of_succ
    intro room r
    have hhead : HeadSpells h (.tag t) := ⟨width, hh⟩
    rw [List.append_assoc]
    have hwraps := Item.readsOn room (read_of_headSpells hhead (b ++ r))
    exact (hwraps.answers (ih room r)).congr Item.fits_tag_iff.symm
  | @half n b h => exact answers_float (.inl ⟨n, h, rfl⟩)
  | @single n b h => exact answers_float (.inr (.inl ⟨n, h, rfl⟩))
  | double h => exact answers_float (.inr (.inr h))
  | no h => exact answers_simple h rfl trivial
  | yes h => exact answers_simple h rfl trivial
  | null h => exact answers_simple h rfl trivial
  | undefined h => exact answers_simple h rfl trivial
  | simple hn h => exact answers_simple h (Item.ofSimple_simple hn) trivial

theorem entry_of_pair {room : Nat} {s r : Octets} {e : Item × Item}
    (hread : ∀ s x r, Yields (Item.read room s) x r → ∃ p : Piece, Spells p.1 p.2 ∧ p.2 = x ∧ s = p.1 ++ r)
    (h : Yields (Reader.pair (Item.read room) s) e r) :
    ∃ p : Piece × Piece, (Spells p.1.1 p.1.2 ∧ Spells p.2.1 p.2.2) ∧ entryItems p = e ∧ s = entryOctets p ++ r := by
  cases hs : Item.read room s with
  | error e =>
    rw [Reader.pair_error hs] at h
    exact (not_yields_error h).elim
  | ok t =>
    have ht : Yields (Item.read room s) t.value t.rest := ⟨t.shorter, hs⟩
    obtain ⟨y, hy, rfl⟩ := (Reader.pair_ok ht).yields_iff.mp h
    obtain ⟨p, hp, hx, hsplit⟩ := hread _ _ _ ht
    obtain ⟨q, hq, rfl, hrest⟩ := hread _ _ _ hy
    refine ⟨(p, q), ⟨hp, hq⟩, by rw [entryItems, hx], ?_⟩
    rw [hsplit, hrest, entryOctets, List.append_assoc]

section Spelled

variable {room : Nat} {c u r : Octets} {x : Item} {size? : Option Nat}

theorem spells_of_read_array
    (hread : ∀ s x r, Yields (Item.read room s) x r → ∃ p : Piece, Spells p.1 p.2 ∧ p.2 = x ∧ s = p.1 ++ r)
    (hc : LengthSpells 4 c size?) (hhead : Yields (Head.read (c ++ u)) (.array size?) u)
    (h : Yields (Item.read (room + 1) (c ++ u)) x r) : ∃ b, c ++ u = b ++ r ∧ Spells b x := by
  cases size? with
  | some n =>
    have hwraps := Item.readsOn room hhead
    obtain ⟨xs, hxs, rfl⟩ := hwraps.yields_iff.mp h
    obtain ⟨ps, hps, rfl, rfl, rfl⟩ := Reader.pieces_of_times hread hxs
    obtain ⟨width, hc⟩ := hc
    exact ⟨c ++ _, (List.append_assoc _ _ _).symm, .array ps (.definite hc) hps⟩
  | none =>
    have hwraps := Item.readsOn room hhead
    obtain ⟨xs, hxs, rfl⟩ := hwraps.yields_iff.mp h
    obtain ⟨ps, hps, rfl, rfl⟩ := Reader.pieces_of_untilStop hread hxs
    cases hc
    exact ⟨_, (append_stop _ r).symm, .array ps .indefinite hps⟩

theorem spells_of_read_map
    (hread : ∀ s x r, Yields (Item.read room s) x r → ∃ p : Piece, Spells p.1 p.2 ∧ p.2 = x ∧ s = p.1 ++ r)
    (hc : LengthSpells 5 c size?) (hhead : Yields (Head.read (c ++ u)) (.map size?) u)
    (h : Yields (Item.read (room + 1) (c ++ u)) x r) : ∃ b, c ++ u = b ++ r ∧ Spells b x := by
  cases size? with
  | some n =>
    have hwraps := Item.readsOn room hhead
    obtain ⟨es, hes, rfl⟩ := hwraps.yields_iff.mp h
    obtain ⟨ps, hps, rfl, rfl, rfl⟩ := Reader.pieces_of_times (fun _ _ _ => entry_of_pair hread) hes
    obtain ⟨width, hc⟩ := hc
    have hk : ∀ p ∈ ps, Spells p.1.1 p.1.2 := fun p hm => (hps p hm).1
    have hv : ∀ p ∈ ps, Spells p.2.1 p.2.2 := fun p hm => (hps p hm).2
    exact ⟨c ++ _, (List.append_assoc _ _ _).symm, .map ps (.definite hc) hk hv⟩
  | none =>
    have hwraps := Item.readsOn room hhead
    obtain ⟨es, hes, rfl⟩ := hwraps.yields_iff.mp h
    obtain ⟨ps, hps, rfl, rfl⟩ := Reader.pieces_of_untilStop (fun _ _ _ => entry_of_pair hread) hes
    cases hc
    have hk : ∀ p ∈ ps, Spells p.1.1 p.1.2 := fun p hm => (hps p hm).1
    have hv : ∀ p ∈ ps, Spells p.2.1 p.2.2 := fun p hm => (hps p hm).2
    exact ⟨_, (append_stop _ r).symm, .map ps .indefinite hk hv⟩

end Spelled

theorem spells_of_read {room : Nat} {s r : Octets} {x : Item} (h : Yields (Item.read room s) x r) :
    ∃ b, s = b ++ r ∧ Spells b x := by
  induction room generalizing s r x with
  | zero => exact (not_yields_error h).elim
  | succ room ih =>
    have hread : ∀ s x r, Yields (Item.read room s) x r → ∃ p : Piece, Spells p.1 p.2 ∧ p.2 = x ∧ s = p.1 ++ r := by
      intro s x r hx
      obtain ⟨b, hs, hb⟩ := ih hx
      exact ⟨(b, x), hb, rfl, hs⟩
    obtain ⟨e, hhead⟩ | ⟨c, hd, u, rfl, hc, hhead⟩ := head_read_cases s
    · rw [Item.read_error hhead] at h
      exact (not_yields_error h).elim
    cases hd with
    | unsigned n =>
      obtain ⟨rfl, rfl⟩ := yields_unique (Item.readsOn room hhead) h
      obtain ⟨width, hc⟩ := hc
      exact ⟨c, rfl, .unsigned hc⟩
    | negative n =>
      obtain ⟨rfl, rfl⟩ := yields_unique (Item.readsOn room hhead) h
      obtain ⟨width, hc⟩ := hc
      exact ⟨c, rfl, .negative hc⟩
    | float bits =>
      obtain ⟨rfl, rfl⟩ := yields_unique (Item.readsOn room hhead) h
      obtain ⟨n, hc, rfl⟩ | ⟨n, hc, rfl⟩ | hc := hc
      · exact ⟨c, rfl, .half hc⟩
      · exact ⟨c, rfl, .single hc⟩
      · exact ⟨c, rfl, .double hc⟩
    | simple n =>
      obtain ⟨hx, rfl⟩ := (Item.readsOn room hhead _ _).mp h
      exact ⟨c, rfl, Item.ofSimple_assigned hx hc⟩
    | stop =>
      rw [Item.readsOn room hhead] at h
      exact (not_yields_error h).elim
    | bytes size? =>
      have hwraps := Item.readsOn room hhead
      obtain ⟨a, ha, rfl⟩ := hwraps.yields_iff.mp h
      obtain ⟨d, rfl, hd⟩ := Strand.spells_of_body Strand.bytes_lawful hc ha
      exact ⟨c ++ d, (List.append_assoc c d r).symm, .bytes hd⟩
    | text size? =>
      have hwraps := Item.readsOn room hhead
      obtain ⟨a, ha, rfl⟩ := hwraps.yields_iff.mp h
      obtain ⟨d, rfl, hd⟩ := Strand.spells_of_body Strand.text_lawful hc ha
      exact ⟨c ++ d, (List.append_assoc c d r).symm, .text hd⟩
    | tag t =>
      have hwraps := Item.readsOn room hhead
      obtain ⟨y, hy, rfl⟩ := hwraps.yields_iff.mp h
      obtain ⟨d, rfl, hd⟩ := ih hy
      obtain ⟨width, hc⟩ := hc
      exact ⟨c ++ d, (List.append_assoc c d r).symm, .tag hc hd⟩
    | array size? => exact spells_of_read_array hread hc hhead h
    | map size? => exact spells_of_read_map hread hc hhead h

theorem item_read_iff {room : Nat} {s r : Octets} {x : Item} :
    Yields (Item.read room s) x r ↔ ∃ b, s = b ++ r ∧ Spells b x ∧ x.Fits room := by
  constructor
  · intro h
    obtain ⟨b, rfl, hb⟩ := spells_of_read h
    refine ⟨b, rfl, hb, ?_⟩
    by_contra hf
    rw [(answers_of_spells hb room r).2 hf] at h
    exact not_yields_error h
  · rintro ⟨b, rfl, hb, hf⟩
    exact (answers_of_spells hb room r).1 hf

end Provenance.Cbor
