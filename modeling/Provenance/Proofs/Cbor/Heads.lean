import Mathlib.Tactic.IntervalCases
import Provenance.Cbor.Head
import Provenance.Proofs.Octets
import Provenance.Proofs.Cbor.Grammar

/-!
Reading a head takes exactly the octets that spell it.
-/
namespace Provenance.Cbor

/-- A reading that ends well, with the value and the octets that are left. -/
def Yields {α : Type} {n : Nat} (x : Except Flaw (Taken α n)) (a : α) (r : Octets) : Prop :=
  ∃ h, x = .ok ⟨a, r, h⟩

section Yields

variable {α β : Type} {m n : Nat}

theorem Yields.length_lt {x : Except Flaw (Taken α n)} {a : α} {r : Octets} (h : Yields x a r) : r.length < n :=
  h.choose

theorem yields_ok (t : Taken α n) : Yields (.ok t) t.value t.rest := ⟨t.shorter, rfl⟩

theorem yields_ok_iff {t : Taken α n} {a : α} {r : Octets} : Yields (.ok t) a r ↔ t.value = a ∧ t.rest = r := by
  constructor
  · rintro ⟨h, e⟩
    cases e
    exact ⟨rfl, rfl⟩
  · rintro ⟨rfl, rfl⟩
    exact yields_ok t

theorem not_yields_error {e : Flaw} {a : α} {r : Octets} : ¬ Yields (.error e : Except Flaw (Taken α n)) a r := by
  rintro ⟨h, e⟩
  cases e

theorem yields_unique {x : Except Flaw (Taken α n)} {a b : α} {r s : Octets} (h : Yields x a r) (h' : Yields x b s) :
    a = b ∧ r = s := by
  obtain ⟨hr, rfl⟩ := h
  exact yields_ok_iff.mp h'

theorem yields_map_iff {x : Except Flaw (Taken α m)} {f : α → β} {h : m ≤ n} {b : β} {r : Octets} :
    Yields (x.map fun t => (t.map f).mono h) b r ↔ ∃ a, Yields x a r ∧ f a = b := by
  cases x with
  | error e => exact ⟨fun hy => (not_yields_error hy).elim, fun ⟨_, hy, _⟩ => (not_yields_error hy).elim⟩
  | ok t =>
    simp only [Except.map, yields_ok_iff, Taken.map, Taken.mono]
    constructor
    · rintro ⟨rfl, rfl⟩
      exact ⟨t.value, ⟨rfl, rfl⟩, rfl⟩
    · rintro ⟨a, ⟨rfl, rfl⟩, rfl⟩
      exact ⟨rfl, rfl⟩

/-- One reading is another with its value changed. -/
def Wraps (x : Except Flaw (Taken α m)) (f : α → β) (y : Except Flaw (Taken β n)) : Prop :=
  ∃ h : m ≤ n, y = x.map fun t => (t.map f).mono h

theorem Wraps.yields_iff {x : Except Flaw (Taken α m)} {f : α → β} {y : Except Flaw (Taken β n)} (hw : Wraps x f y)
    {b : β} {r : Octets} : Yields y b r ↔ ∃ a, Yields x a r ∧ f a = b := by
  obtain ⟨h, rfl⟩ := hw
  exact yields_map_iff

end Yields

theorem initial_div {major info : Nat} (hm : major < 8) (hi : info < 32) : (initial major info).toNat / 32 = major := by
  rw [initial, UInt8.toNat_ofNat_of_lt' (by simp only [UInt8.size]; omega)]
  omega

theorem initial_mod {major info : Nat} (hm : major < 8) (hi : info < 32) : (initial major info).toNat % 32 = info := by
  rw [initial, UInt8.toNat_ofNat_of_lt' (by simp only [UInt8.size]; omega)]
  omega

theorem initial_eta (x : UInt8) : initial (x.toNat / 32) (x.toNat % 32) = x := by
  apply UInt8.toNat_inj.mp
  have hx := x.toNat_lt
  rw [initial, UInt8.toNat_ofNat_of_lt' (by simp only [UInt8.size]; omega)]
  omega

theorem announcements_bounds {info width : Nat} (h : (info, width) ∈ announcements) :
    24 ≤ info ∧ info < 28 ∧ 1 ≤ width ∧ width ≤ 8 := by
  simp only [announcements, List.mem_cons, Prod.mk.injEq, List.not_mem_nil, or_false] at h
  omega

theorem argumentWidth?_eq_some_iff {info width : Nat} :
    Head.argumentWidth? info = some width ↔ (info, width) ∈ announcements := by
  simp only [announcements, List.mem_cons, Prod.mk.injEq, List.not_mem_nil, or_false, Head.argumentWidth?]
  split
  · simp; omega
  split
  · simp; omega
  split
  · simp; omega
  split
  · simp; omega
  · simp; omega

section Heading

variable {major n width : Nat} {b : Octets}

theorem Heading.lt (h : Heading major n width b) : n < 0x10000000000000000 := by
  cases h with
  | immediate hn => omega
  | following hw hn =>
    obtain ⟨-, -, -, hw⟩ := announcements_bounds hw
    calc n < 256 ^ width := hn
      _ ≤ 256 ^ 8 := Nat.pow_le_pow_right (by decide) hw

theorem Heading.length (h : Heading major n width b) : b.length = width + 1 := by
  cases h with
  | immediate hn => rfl
  | following hw hn => simp

theorem Heading.length_pos (h : Heading major n width b) : 0 < b.length := by
  rw [h.length]
  omega

theorem Heading.toNat_ofNat (h : Heading major n width b) : (UInt64.ofNat n).toNat = n := by
  rw [UInt64.toNat_ofNat', Nat.mod_eq_of_lt h.lt]

theorem Heading.toNat_ofNat_octet (h : Heading major n width b) (hw : width ≤ 1) : (UInt8.ofNat n).toNat = n := by
  rw [UInt8.toNat_ofNat', Nat.mod_eq_of_lt]
  cases h with
  | immediate hn => omega
  | following _ hn =>
    calc n < 256 ^ width := hn
      _ ≤ 256 ^ 1 := Nat.pow_le_pow_right (by decide) hw

theorem read_of_heading (hm : major < 8) (h : Heading major n width b) {head : Head}
    (ha : Head.ofArgument? major (.fixed width n) = some head) (r : Octets) : Yields (Head.read (b ++ r)) head r := by
  cases h with
  | immediate hn =>
    have hi : n < 32 := by omega
    simp only [List.cons_append, List.nil_append, Head.read, initial_div hm hi, initial_mod hm hi, if_pos hn, ha]
    exact yields_ok _
  | @following info width hw hn =>
    have hi := announcements_bounds hw
    have hlt : info < 32 := by omega
    have htake : (Octets.ofNat width n ++ r).take width = Octets.ofNat width n :=
      List.take_left' (Octets.length_ofNat width n)
    have hdrop : (Octets.ofNat width n ++ r).drop width = r := List.drop_left' (Octets.length_ofNat width n)
    have hlen : width ≤ (Octets.ofNat width n ++ r).length := by simp
    simp only [List.cons_append, Head.read, initial_div hm hlt, initial_mod hm hlt,
      if_neg (show ¬ info < 24 by omega), if_neg (show ¬ info = 31 by omega),
      argumentWidth?_eq_some_iff.mpr hw, if_pos hlen, htake, Octets.toNat_ofNat hn, ha]
    exact yields_ok_iff.mpr ⟨rfl, hdrop⟩

theorem read_of_open (hm : major < 8) {head : Head} (ha : Head.ofArgument? major .indefinite = some head)
    (r : Octets) : Yields (Head.read (initial major 31 :: r)) head r := by
  simp only [Head.read, initial_div hm (show 31 < 32 by decide), initial_mod hm (show 31 < 32 by decide),
    if_neg (show ¬ 31 < 24 by decide), if_true, ha]
  exact yields_ok _

theorem heading_of_read {s r : Octets} {head : Head} (h : Yields (Head.read s) head r) :
    ∃ major < 8, (∃ n width b, Heading major n width b ∧ s = b ++ r ∧
        Head.ofArgument? major (.fixed width n) = some head) ∨
      (s = initial major 31 :: r ∧ Head.ofArgument? major .indefinite = some head) := by
  cases s with
  | nil => exact (not_yields_error h).elim
  | cons x s =>
    have hx := x.toNat_lt
    refine ⟨x.toNat / 32, by omega, ?_⟩
    have heta := initial_eta x
    simp only [Head.read] at h
    split at h
    · next hi =>
      split at h
      · next hd ha =>
        obtain ⟨rfl, rfl⟩ := yields_ok_iff.mp h
        refine .inl ⟨x.toNat % 32, 0, [x], ?_, rfl, ha⟩
        have hb : Heading (x.toNat / 32) (x.toNat % 32) 0 [initial (x.toNat / 32) (x.toNat % 32)] := .immediate hi
        rwa [heta] at hb
      · exact (not_yields_error h).elim
    split at h
    · next hi =>
      split at h
      · next hd ha =>
        obtain ⟨rfl, rfl⟩ := yields_ok_iff.mp h
        rw [hi] at heta
        exact .inr ⟨by rw [heta], ha⟩
      · exact (not_yields_error h).elim
    split at h
    · exact (not_yields_error h).elim
    · next w hw =>
      split at h
      · next hlen =>
        split at h
        · next hd ha =>
          obtain ⟨rfl, rfl⟩ := yields_ok_iff.mp h
          have hl : (s.take w).length = w := by rw [List.length_take, Nat.min_eq_left hlen]
          have hlt : Octets.toNat (s.take w) < 256 ^ w := by
            have := Octets.toNat_lt (s.take w)
            rwa [hl] at this
          have ho : Octets.ofNat w (Octets.toNat (s.take w)) = s.take w := by
            have := Octets.ofNat_toNat (s.take w)
            rwa [hl] at this
          have hb : Heading (x.toNat / 32) _ w (initial (x.toNat / 32) (x.toNat % 32) :: _) :=
            .following (argumentWidth?_eq_some_iff.mp hw) hlt
          rw [heta, ho] at hb
          exact .inl ⟨_, w, _, hb, by rw [List.cons_append, List.take_append_drop], ha⟩
        · exact (not_yields_error h).elim
      · exact (not_yields_error h).elim

end Heading

def LengthSpells (major : Nat) (b : Octets) : Option Nat → Prop
  | some n => ∃ width, Heading major n width b
  | none => b = [initial major 31]

def HeadSpells (b : Octets) : Head → Prop
  | .unsigned n => ∃ width, Heading 0 n.toNat width b
  | .negative n => ∃ width, Heading 1 n.toNat width b
  | .bytes size? => LengthSpells 2 b size?
  | .text size? => LengthSpells 3 b size?
  | .array size? => LengthSpells 4 b size?
  | .map size? => LengthSpells 5 b size?
  | .tag t => ∃ width, Heading 6 t.toNat width b
  | .simple n => SimpleSpells b n
  | .float bits => (∃ n, Heading 7 n 2 b ∧ bits = .ofNat (Binary64.half.widen n)) ∨
      (∃ n, Heading 7 n 4 b ∧ bits = .ofNat (Binary64.single.widen n)) ∨ Heading 7 bits.toNat 8 b
  | .stop => b = [initial 7 31]

theorem Heading.width_cases {major n width : Nat} {b : Octets} (h : Heading major n width b) :
    width = 0 ∨ width = 1 ∨ width = 2 ∨ width = 4 ∨ width = 8 := by
  cases h with
  | immediate hn => exact .inl rfl
  | following hw hn =>
    simp only [announcements, List.mem_cons, Prod.mk.injEq, List.not_mem_nil, or_false] at hw
    omega

theorem headSpells_of_float_or_simple {n width : Nat} {b : Octets} {head : Head} (h : Heading 7 n width b)
    (ha : Head.ofArgument? 7 (.fixed width n) = some head) : HeadSpells b head := by
  have hn := h.toNat_ofNat
  have octet (hw : width ≤ 1) : HeadSpells b (.simple (.ofNat n)) :=
    ⟨width, hw, by rw [h.toNat_ofNat_octet hw]; exact h⟩
  rcases h.width_cases with rfl | rfl | rfl | rfl | rfl
  · cases ha; exact octet (by decide)
  · cases ha; exact octet (by decide)
  · cases ha; exact .inl ⟨n, h, rfl⟩
  · cases ha; exact .inr (.inl ⟨n, h, rfl⟩)
  · cases ha; exact .inr (.inr (by rw [hn]; exact h))

theorem headSpells_of_heading {major n width : Nat} {b : Octets} {head : Head} (hm : major < 8)
    (h : Heading major n width b) (ha : Head.ofArgument? major (.fixed width n) = some head) : HeadSpells b head := by
  have hn := h.toNat_ofNat
  interval_cases major
  case «7» => exact headSpells_of_float_or_simple h ha
  all_goals
    cases ha
    simp only [HeadSpells, Argument.size?, LengthSpells, hn]
    exact ⟨width, h⟩

theorem headSpells_of_open {major : Nat} {head : Head} (hm : major < 8)
    (ha : Head.ofArgument? major .indefinite = some head) : HeadSpells [initial major 31] head := by
  interval_cases major <;> cases ha <;> rfl

theorem read_of_lengthSpells {major : Nat} (hm : major < 8) {head : Option Nat → Head}
    (ha : ∀ a, Head.ofArgument? major a = some (head a.size?)) {b : Octets} {size? : Option Nat}
    (h : LengthSpells major b size?) (r : Octets) : Yields (Head.read (b ++ r)) (head size?) r := by
  cases size? with
  | none =>
    cases h
    exact read_of_open hm (ha .indefinite) r
  | some n =>
    obtain ⟨width, h⟩ := h
    exact read_of_heading hm h (ha (.fixed width n)) r

theorem read_of_headSpells {b : Octets} {head : Head} (h : HeadSpells b head) (r : Octets) :
    Yields (Head.read (b ++ r)) head r := by
  have word {n : UInt64} : UInt64.ofNat n.toNat = n := UInt64.ofNat_toNat
  cases head with
  | unsigned n =>
    obtain ⟨width, h⟩ := h
    exact read_of_heading (by decide) h (by rw [Head.ofArgument?, word]) r
  | negative n =>
    obtain ⟨width, h⟩ := h
    exact read_of_heading (by decide) h (by rw [Head.ofArgument?, word]) r
  | tag n =>
    obtain ⟨width, h⟩ := h
    exact read_of_heading (by decide) h (by rw [Head.ofArgument?, word]) r
  | bytes size? => exact read_of_lengthSpells (by decide) (fun a => by cases a <;> rfl) h r
  | text size? => exact read_of_lengthSpells (by decide) (fun a => by cases a <;> rfl) h r
  | array size? => exact read_of_lengthSpells (by decide) (fun a => by cases a <;> rfl) h r
  | map size? => exact read_of_lengthSpells (by decide) (fun a => by cases a <;> rfl) h r
  | simple n =>
    obtain ⟨width, hw, h⟩ := h
    have hn : some (Head.simple (.ofNat n.toNat)) = some (.simple n) := by rw [UInt8.ofNat_toNat]
    obtain rfl | rfl : width = 0 ∨ width = 1 := by omega
    · exact read_of_heading (by decide) h hn r
    · exact read_of_heading (by decide) h hn r
  | float bits =>
    rcases h with ⟨n, h, rfl⟩ | ⟨n, h, rfl⟩ | h
    · exact read_of_heading (by decide) h rfl r
    · exact read_of_heading (by decide) h rfl r
    · exact read_of_heading (by decide) h (by rw [Head.ofArgument?, word]) r
  | stop =>
    cases h
    exact read_of_open (by decide) rfl r

theorem head_read_iff {s r : Octets} {head : Head} :
    Yields (Head.read s) head r ↔ ∃ b, s = b ++ r ∧ HeadSpells b head := by
  constructor
  · intro h
    obtain ⟨major, hm, ⟨n, width, b, hb, rfl, ha⟩ | ⟨rfl, ha⟩⟩ := heading_of_read h
    · exact ⟨b, rfl, headSpells_of_heading hm hb ha⟩
    · exact ⟨[initial major 31], rfl, headSpells_of_open hm ha⟩
  · rintro ⟨b, rfl, h⟩
    exact read_of_headSpells h r

theorem head_read_cases (s : Octets) :
    (∃ e, Head.read s = .error e) ∨ ∃ b head r, s = b ++ r ∧ HeadSpells b head ∧ Yields (Head.read s) head r := by
  cases h : Head.read s with
  | error e => exact .inl ⟨e, rfl⟩
  | ok t =>
    have hy : Yields (Head.read s) t.value t.rest := ⟨t.shorter, h⟩
    obtain ⟨b, hs, hb⟩ := head_read_iff.mp hy
    rw [h] at hy
    exact .inr ⟨b, t.value, t.rest, hs, hb, hy⟩

end Provenance.Cbor
