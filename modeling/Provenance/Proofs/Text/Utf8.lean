import Mathlib.Tactic.SplitIfs
import Provenance.Proofs.Octets
import Provenance.Proofs.Text

/-!
The scan of text against the characters of a string: it passes whole characters, and at the end of octets that text
begins with it is at most a part of one character behind.
-/
namespace Provenance.Text

open String (utf8EncodeChar)

/-- What `sequence` takes a character to be: one octet of ASCII, or a first octet with those that may follow it. -/
inductive Character : Octets → Prop
  | ascii {x : UInt8} (hx : x < 0x80) : Character [x]
  | wide {x y lo hi : UInt8} {tail : Octets} (hx : ¬ x < 0x80) (hc : continuation? x = some (lo, hi, tail.length))
      (hy : lo ≤ y ∧ y ≤ hi) (ht : ∀ z ∈ tail, 0x80 ≤ z ∧ z ≤ 0xbf) : Character (x :: y :: tail)

theorem toNat_ofNat_octet {n : Nat} (h : n < 256) : (UInt8.ofNat n).toNat = n := by
  rw [UInt8.toNat_ofNat', Nat.mod_eq_of_lt h]

theorem tail_octet (n : Nat) : (0x80 : UInt8) ≤ .ofNat (n % 0x40 + 0x80) ∧ UInt8.ofNat (n % 0x40 + 0x80) ≤ 0xbf := by
  simp only [UInt8.le_iff_toNat_le]
  rw [toNat_ofNat_octet (by omega)]
  simp only [UInt8.reduceToNat]
  omega

/-- The second octet and how many are left after it, as far as the first one decides, in numbers. -/
def Begins (x y tail : Nat) : Prop :=
  (0xc2 ≤ x ∧ x < 0xe0 ∧ tail = 0) ∨
  (0xe0 ≤ x ∧ x < 0xf0 ∧ tail = 1 ∧ (x = 0xe0 → 0xa0 ≤ y) ∧ (x = 0xed → y ≤ 0x9f)) ∨
  (0xf0 ≤ x ∧ x < 0xf5 ∧ tail = 2 ∧ (x = 0xf0 → 0x90 ≤ y) ∧ (x = 0xf4 → y ≤ 0x8f))

theorem continuation?_ofNat {x : Nat} (h : x < 256) :
    continuation? (.ofNat x) =
      if x < 0xc2 then none
      else if x < 0xe0 then some (0x80, 0xbf, 0)
      else if x = 0xe0 then some (0xa0, 0xbf, 1)
      else if x = 0xed then some (0x80, 0x9f, 1)
      else if x < 0xf0 then some (0x80, 0xbf, 1)
      else if x = 0xf0 then some (0x90, 0xbf, 2)
      else if x < 0xf4 then some (0x80, 0xbf, 2)
      else if x = 0xf4 then some (0x80, 0x8f, 2)
      else none := by
  simp only [continuation?, UInt8.lt_iff_toNat_lt, ← UInt8.toNat_inj, toNat_ofNat_octet h, UInt8.reduceToNat]

theorem exists_continuation?_ofNat {x y tail : Nat} (h : Begins x y tail) (hy : 0x80 ≤ y ∧ y ≤ 0xbf) :
    ∃ lo hi, continuation? (.ofNat x) = some (lo, hi, tail) ∧ lo ≤ UInt8.ofNat y ∧ .ofNat y ≤ hi := by
  have hx : x < 256 := by unfold Begins at h; omega
  simp only [UInt8.le_iff_toNat_le, toNat_ofNat_octet (by omega : y < 256)]
  rw [continuation?_ofNat hx]
  unfold Begins at h
  split_ifs
  any_goals omega
  all_goals
    refine ⟨_, _, congrArg some (congrArg (Prod.mk _) (congrArg (Prod.mk _) ?_)), ?_⟩
    · omega
    · simp only [UInt8.reduceToNat]
      omega

theorem character_ofNat {x y : Nat} {tail : Octets} (h : Begins x y tail.length) (hy : 0x80 ≤ y ∧ y ≤ 0xbf)
    (ht : ∀ z ∈ tail, 0x80 ≤ z ∧ z ≤ 0xbf) : Character (.ofNat x :: .ofNat y :: tail) := by
  obtain ⟨lo, hi, hc, hlo⟩ := exists_continuation?_ofNat h hy
  refine .wide ?_ hc hlo ht
  unfold Begins at h
  rw [UInt8.lt_iff_toNat_lt, toNat_ofNat_octet (by omega)]
  simp only [UInt8.reduceToNat]
  omega

theorem character_utf8EncodeChar (c : Char) : Character (utf8EncodeChar c) := by
  have hv : c.val.toNat < 0xd800 ∨ 0xdfff < c.val.toNat ∧ c.val.toNat < 0x110000 := c.valid
  unfold utf8EncodeChar
  dsimp only
  generalize c.val.toNat = v at hv
  split_ifs with h1 h2 h3
  · refine .ascii ?_
    rw [UInt8.lt_iff_toNat_lt, toNat_ofNat_octet (by omega)]
    simp only [UInt8.reduceToNat]
    omega
  · exact character_ofNat (.inl ⟨by omega, by omega, rfl⟩) (by omega) (List.forall_mem_nil _)
  · exact character_ofNat (.inr (.inl ⟨by omega, by omega, rfl, by omega, by omega⟩)) (by omega)
      (List.forall_mem_singleton.mpr (tail_octet _))
  · exact character_ofNat (.inr (.inr ⟨by omega, by omega, rfl, by omega, by omega⟩)) (by omega)
      (List.forall_mem_cons.mpr ⟨tail_octet _, List.forall_mem_singleton.mpr (tail_octet _)⟩)

theorem octets_eq_flatMap (s : String) : octets s = s.toList.flatMap utf8EncodeChar := by
  simp [octets, ← String.utf8Encode_toList, List.utf8Encode]

section Scan

variable {e q r t : Octets}

theorem trailing_append {n more : Nat} (ht : ∀ z ∈ q, 0x80 ≤ z ∧ z ≤ 0xbf) (hl : q.length ≤ more) :
    trailing n more (q ++ r) = trailing (n + q.length) (more - q.length) r := by
  induction q generalizing n more with
  | nil => rfl
  | cons z q ih =>
    obtain ⟨hz, hq⟩ := List.forall_mem_cons.mp ht
    obtain ⟨more, rfl⟩ : ∃ m, more = m + 1 := ⟨more - 1, by grind⟩
    rw [List.cons_append, trailing, if_pos hz, ih hq (Nat.le_of_succ_le_succ hl), List.length_cons,
      Nat.add_sub_add_right, Nat.add_right_comm n 1, Nat.add_assoc]

theorem sequence_append (h : Character e) : sequence (e ++ r) = .whole e.length := by
  cases h with
  | ascii hx => simp [sequence, hx]
  | wide hx hc hy ht =>
    simp only [List.cons_append, sequence, if_neg hx, hc, if_pos hy]
    rw [trailing_append ht Nat.le.refl, Nat.sub_self, trailing, List.length_cons, List.length_cons, Nat.add_comm]

theorem sequence_part (h : Character (q ++ t)) (hne : t ≠ []) : sequence q = .unfinished := by
  generalize he : q ++ t = e at h
  obtain _ | ⟨x, q⟩ := q
  · rfl
  rw [List.cons_append] at he
  cases h with
  | ascii =>
    rw [List.cons.injEq, List.append_eq_nil_iff] at he
    exact absurd he.2.2 hne
  | wide hx hc hy ht =>
    obtain ⟨rfl, hr⟩ := List.cons.inj he
    obtain _ | ⟨y, q⟩ := q
    · simp [sequence, hx, hc]
    rw [List.cons_append, List.cons.injEq] at hr
    obtain ⟨rfl, rfl⟩ := hr
    -- The octets that are still to come are as many as `t` has.
    obtain ⟨z, t, rfl⟩ := List.exists_cons_of_ne_nil hne
    have hq := trailing_append (n := 2) (r := []) (fun w hw => ht w (List.mem_append_left _ hw))
      (Nat.le_add_right q.length (t.length + 1))
    rw [List.append_nil, Nat.add_sub_cancel_left, trailing] at hq
    simp only [sequence, if_neg hx, hc, if_pos hy, List.length_append, List.length_cons, hq]

theorem scan_append {k n : Nat} (hk : k = q.length) : scan k n (q ++ r) = scan 0 (n + k) r := by
  subst hk
  induction q generalizing n with
  | nil => rfl
  | cons x q ih => rw [List.length_cons, List.cons_append, scan, ih, Nat.add_right_comm, Nat.add_assoc]

theorem Character.ne_nil (h : Character e) : e ≠ [] := by
  cases h <;> exact List.cons_ne_nil _ _

theorem scan_character (h : Character e) (n : Nat) : scan 0 n (e ++ r) = scan 0 (n + e.length) r := by
  obtain ⟨x, q, rfl⟩ := List.exists_cons_of_ne_nil h.ne_nil
  have hs : sequence (x :: (q ++ r)) = .whole (x :: q).length := sequence_append h
  rw [List.cons_append, scan]
  simp only [hs]
  rw [scan_append (by simp), List.length_cons, Nat.add_sub_cancel, Nat.add_assoc, Nat.add_comm 1]

theorem scan_part (h : Character (q ++ t)) (hne : t ≠ []) (n : Nat) :
    ((scan 0 n q).map Defect.start).getD (n + q.length) = n := by
  cases q with
  | nil => rfl
  | cons x q => simp [scan, sequence_part h hne, Defect.start]

end Scan

/-- The octets that the scan passes: what is left of a beginning of text is less than a character. -/
theorem scan_prefix {p : Octets} {cs : List Char} (h : p <+: cs.flatMap utf8EncodeChar) :
    ∃ ds es q, cs = ds ++ es ∧ p = ds.flatMap utf8EncodeChar ++ q ∧ q.length < 4 ∧
      ∀ n, ((scan 0 n p).map Defect.start).getD (n + p.length) = n + (ds.flatMap utf8EncodeChar).length := by
  induction cs generalizing p with
  | nil => exact ⟨[], [], [], rfl, List.prefix_nil.mp h, by decide, fun n => by rw [List.prefix_nil.mp h]; rfl⟩
  | cons c cs ih =>
    obtain ⟨t, ht⟩ := h
    rw [List.flatMap_cons] at ht
    obtain ⟨u, rfl, hu⟩ | ⟨u, hne, hc⟩ := Octets.cut_cases ht
    · obtain ⟨ds, es, q, rfl, rfl, hq, hs⟩ := ih ⟨t, hu.symm⟩
      refine ⟨c :: ds, es, q, rfl, by rw [List.flatMap_cons, List.append_assoc], hq, fun n => ?_⟩
      rw [scan_character (character_utf8EncodeChar c), List.length_append, ← Nat.add_assoc, hs,
        List.flatMap_cons, List.length_append, Nat.add_assoc]
    · have hp : Character (p ++ u) := hc.symm ▸ character_utf8EncodeChar c
      have hl : p.length + u.length ≤ 4 := by
        rw [← List.length_append, ← hc, String.length_utf8EncodeChar]
        exact c.utf8Size_le_four
      have := List.length_pos_iff.mpr hne
      exact ⟨[], c :: cs, p, rfl, rfl, by omega, scan_part hp hne⟩

theorem validLength_prefix {p : Octets} {cs : List Char} (h : p <+: cs.flatMap utf8EncodeChar) :
    ∃ ds es q, cs = ds ++ es ∧ p = ds.flatMap utf8EncodeChar ++ q ∧ q.length < 4 ∧
      validLength p = (ds.flatMap utf8EncodeChar).length := by
  obtain ⟨ds, es, q, hcs, hp, hq, hs⟩ := scan_prefix h
  refine ⟨ds, es, q, hcs, hp, hq, ?_⟩
  have := hs 0
  simp only [Nat.zero_add] at this
  rw [← this, validLength, defect?]
  cases scan 0 0 p <;> rfl

end Provenance.Text
