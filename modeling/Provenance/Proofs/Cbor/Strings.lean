import Provenance.Cbor.Reader
import Provenance.Proofs.Text
import Provenance.Proofs.Cbor.Heads

/-!
Reading a string takes exactly the octets that spell it. Strings without a length may stand in each other; the reader
counts the breaks that it has still to meet, and its segments are joined in the end.
-/
namespace Provenance.Cbor.Strand

/-- The heads of a strand are those of its major type, and its contents have one octet string each. -/
structure Lawful {α : Type} [Append α] (k : Strand α) (major : Nat) (head : Option Nat → Head)
    (content : α → Octets) : Prop where
  size?_iff : ∀ h size?, k.size? h = some size? ↔ h = head size?
  stop : k.size? .stop = none
  spells : ∀ b size?, HeadSpells b (head size?) ↔ LengthSpells major b size?
  content?_iff : ∀ b a, k.content? b = some a ↔ content a = b
  join_append : ∀ as bs, k.join (as ++ bs) = k.join as ++ k.join bs
  join_singleton : ∀ a, k.join [a] = a

theorem bytes_lawful : bytes.Lawful 2 Head.bytes id where
  size?_iff h size? := by cases h <;> simp [bytes]
  stop := rfl
  spells _ _ := Iff.rfl
  content?_iff b a := by simp [bytes, eq_comm]
  join_append as bs := List.flatten_append
  join_singleton a := by simp [bytes]

theorem text_lawful : text.Lawful 3 Head.text Text.octets where
  size?_iff h size? := by cases h <;> simp [text]
  stop := rfl
  spells _ _ := Iff.rfl
  content?_iff _ _ := Text.ofOctets?_eq_some_iff
  join_append _ _ := String.join_append
  join_singleton a := by simp [text]

variable {α : Type} {k : Strand α}

/-- What is left to read after a break, with the breaks that are still to come. -/
def Closes (k : Strand α) (s : Octets) (as : List α) (r : Octets) : (depth : Nat) → Prop
  | 0 => as = [] ∧ s = r
  | d + 1 => Yields (k.segments d s) as r

theorem segments_error {d : Nat} {s : Octets} {e : Flaw} (h : Head.read s = .error e) : k.segments d s = .error e := by
  rw [segments, h]

theorem segments_leave {d : Nat} {s r : Octets} (h : Yields (Head.read s) .stop r) :
    Wraps (k.segments d r) id (k.segments (d + 1) s) := by
  obtain ⟨hr, e⟩ := h
  refine ⟨hr.le, ?_⟩
  rw [segments, e]
  rfl

theorem segments_stop {d : Nat} {s r : Octets} {as : List α} (h : Yields (Head.read s) .stop r) (t : Octets) :
    Yields (k.segments d s) as t ↔ k.Closes r as t d := by
  cases d with
  | zero =>
    obtain ⟨hr, e⟩ := h
    rw [segments, e]
    simp only [yields_ok_iff, Closes, eq_comm]
  | succ d =>
    rw [(segments_leave h).yields_iff]
    exact exists_eq_right

section Head

variable {d n : Nat} {s r t : Octets} {hd : Head}

theorem segments_other (h : Yields (Head.read s) hd r) (hstop : hd ≠ .stop) (hsize : k.size? hd = none) :
    k.segments d s = .error (.malformed s.length) := by
  obtain ⟨hr, e⟩ := h
  rw [segments, e]
  cases hd with
  | stop => exact absurd rfl hstop
  | _ => simp only [hsize]

theorem segments_enter (h : Yields (Head.read s) hd r) (hstop : hd ≠ .stop) (hsize : k.size? hd = some none) :
    Wraps (k.segments (d + 1) r) id (k.segments d s) := by
  obtain ⟨hr, e⟩ := h
  refine ⟨hr.le, ?_⟩
  rw [segments, e]
  cases hd with
  | stop => exact absurd rfl hstop
  | _ =>
    simp only [hsize]
    rfl

theorem segments_refuse (h : Yields (Head.read s) hd r) (hstop : hd ≠ .stop) (hsize : k.size? hd = some (some n))
    {e : Flaw} (hrun : k.run n s.length r = .error e) : k.segments d s = .error e := by
  obtain ⟨hr, e'⟩ := h
  rw [segments, e']
  cases hd with
  | stop => exact absurd rfl hstop
  | _ => simp only [hsize, hrun]

theorem segments_cons (h : Yields (Head.read s) hd r) (hstop : hd ≠ .stop) (hsize : k.size? hd = some (some n))
    {a : α} (hrun : Yields (k.run n s.length r) a t) : Wraps (k.segments d t) (a :: ·) (k.segments d s) := by
  obtain ⟨hr, e⟩ := h
  obtain ⟨ht, e'⟩ := hrun
  refine ⟨by omega, ?_⟩
  rw [segments, e]
  cases hd with
  | stop => exact absurd rfl hstop
  | _ =>
    simp only [hsize, e']
    cases k.segments d t <;> rfl

end Head

variable [Append α] {major : Nat} {head : Option Nat → Head} {content : α → Octets}

theorem Lawful.join_cons (hk : k.Lawful major head content) (a : α) (as : List α) :
    k.join (a :: as) = a ++ k.join as := by
  rw [← List.singleton_append, hk.join_append, hk.join_singleton]

theorem run_iff (hk : k.Lawful major head content) {size left : Nat} {s r : Octets} {a : α} :
    Yields (k.run size left s) a r ↔ s = content a ++ r ∧ (content a).length = size := by
  unfold run
  constructor
  · intro h
    split at h
    · next hle =>
      split at h
      · next b hb =>
        obtain ⟨rfl, rfl⟩ := yields_ok_iff.mp h
        rw [(hk.content?_iff _ _).mp hb]
        exact ⟨(List.take_append_drop size s).symm, by rw [List.length_take, Nat.min_eq_left hle]⟩
      · exact (not_yields_error h).elim
    · split at h <;> exact (not_yields_error h).elim
  · rintro ⟨rfl, rfl⟩
    have htake : k.content? ((content a ++ r).take (content a).length) = some a := by
      rw [List.take_left, hk.content?_iff]
    rw [if_pos (by simp)]
    split
    · next b hb =>
      cases htake.symm.trans hb
      exact yields_ok_iff.mpr ⟨rfl, List.drop_left⟩
    · next hb => cases htake.symm.trans hb

theorem Lawful.ne_stop (hk : k.Lawful major head content) {hd : Head} {size? : Option Nat}
    (h : k.size? hd = some size?) : hd ≠ .stop := by
  rintro rfl
  rw [hk.stop] at h
  cases h

theorem segments_open (hk : k.Lawful major head content) {d : Nat} {s r : Octets} {as : List α}
    (h : Yields (Head.read s) (head none) r) (t : Octets) :
    Yields (k.segments d s) as t ↔ Yields (k.segments (d + 1) r) as t := by
  have hsize := (hk.size?_iff (head none) none).mpr rfl
  rw [(segments_enter h (hk.ne_stop hsize) hsize).yields_iff]
  exact exists_eq_right

theorem segments_run (hk : k.Lawful major head content) {d n : Nat} {s r : Octets} {as : List α}
    (h : Yields (Head.read s) (head (some n)) r) (t : Octets) :
    Yields (k.segments d s) as t ↔
      ∃ a as' r', as = a :: as' ∧ Yields (k.run n s.length r) a r' ∧ Yields (k.segments d r') as' t := by
  have hsize := (hk.size?_iff (head (some n)) (some n)).mpr rfl
  have hstop := hk.ne_stop hsize
  constructor
  · intro hs
    cases hrun : k.run n s.length r with
    | error e =>
      rw [segments_refuse h hstop hsize hrun] at hs
      exact (not_yields_error hs).elim
    | ok u =>
      have hu : Yields (k.run n s.length r) u.value u.rest := ⟨u.shorter, hrun⟩
      obtain ⟨as', has, rfl⟩ := (segments_cons h hstop hsize hu).yields_iff.mp hs
      exact ⟨u.value, as', u.rest, rfl, yields_ok u, has⟩
  · rintro ⟨a, as', r', rfl, hrun, hs⟩
    exact (segments_cons h hstop hsize hrun).yields_iff.mpr ⟨as', hs, rfl⟩

theorem segments_iff (hk : k.Lawful major head content) {d : Nat} {s t : Octets} {as : List α} :
    Yields (k.segments d s) as t ↔
      (∃ r, s = initial 7 31 :: r ∧ k.Closes r as t d) ∨
      (∃ r, s = initial major 31 :: r ∧ Yields (k.segments (d + 1) r) as t) ∨
      ∃ a as' r width b, Heading major (content a).length width b ∧ s = b ++ (content a ++ r) ∧ as = a :: as' ∧
        Yields (k.segments d r) as' t := by
  constructor
  · intro h
    obtain ⟨e, hread⟩ | ⟨b, hd, r, rfl, hb, hread⟩ := head_read_cases s
    · rw [segments_error hread] at h
      exact (not_yields_error h).elim
    cases hsize : k.size? hd with
    | none =>
      by_cases hstop : hd = .stop
      · subst hstop
        cases hb
        exact .inl ⟨r, rfl, (segments_stop hread t).mp h⟩
      · rw [segments_other hread hstop hsize] at h
        exact (not_yields_error h).elim
    | some size? =>
      obtain rfl := (hk.size?_iff hd size?).mp hsize
      have hb := (hk.spells b size?).mp hb
      cases size? with
      | none =>
        cases hb
        exact .inr (.inl ⟨r, rfl, (segments_open hk hread t).mp h⟩)
      | some n =>
        obtain ⟨width, hb⟩ := hb
        obtain ⟨a, as', r', rfl, hrun, hrest⟩ := (segments_run hk hread t).mp h
        obtain ⟨rfl, rfl⟩ := (run_iff hk).mp hrun
        exact .inr (.inr ⟨a, as', r', width, b, hb, rfl, rfl, hrest⟩)
  · rintro (⟨r, rfl, h⟩ | ⟨r, rfl, h⟩ | ⟨a, as', r, width, b, hb, rfl, rfl, h⟩)
    · have hread : Yields (Head.read (initial 7 31 :: r)) .stop r := head_read_iff.mpr ⟨[initial 7 31], rfl, rfl⟩
      exact (segments_stop hread t).mpr h
    · have hb : HeadSpells [initial major 31] (head none) := (hk.spells _ none).mpr rfl
      exact (segments_open hk (read_of_headSpells hb r) t).mpr h
    · have hb : HeadSpells b (head (some (content a).length)) := (hk.spells b _).mpr ⟨width, hb⟩
      refine (segments_run hk (read_of_headSpells hb _) t).mpr ⟨a, as', r, rfl, ?_, h⟩
      exact (run_iff hk).mpr ⟨rfl, rfl⟩

theorem spells_of_segments (hk : k.Lawful major head content) {d : Nat} {s t : Octets} {as : List α}
    (h : Yields (k.segments d s) as t) :
    ∃ (ps : List (Octets × α)) (r : Octets) (bs : List α), (∀ p ∈ ps, StringSpells major content k.join p.1 p.2) ∧
      s = ps.flatMap Prod.fst ++ initial 7 31 :: r ∧ k.join as = k.join (ps.map Prod.snd ++ bs) ∧
      k.Closes r bs t d := by
  induction s using Octets.inductShorter generalizing d as with
  | step s ih =>
    rcases (segments_iff hk).mp h with ⟨r, rfl, hr⟩ | ⟨r, rfl, hr⟩ | ⟨a, as', r, width, b, hb, rfl, rfl, hr⟩
    · exact ⟨[], r, as, by simp, rfl, rfl, hr⟩
    · -- the inner string ends at the first break, and the outer one goes on behind it
      obtain ⟨ps, u, bs, hps, rfl, hjoin, hu⟩ := ih _ (by simp) hr
      obtain ⟨qs, v, cs, hqs, rfl, hjoin', hv⟩ := ih _ (by simp; omega) hu
      refine ⟨(initial major 31 :: (ps.flatMap Prod.fst ++ [initial 7 31]), k.join (ps.map Prod.snd)) :: qs, v, cs,
        ?_, by simp, ?_, hv⟩
      · exact List.forall_mem_cons.mpr ⟨.indefinite ps hps, hqs⟩
      · rw [hjoin, hk.join_append, hjoin', List.map_cons, List.cons_append, hk.join_cons]
    · obtain ⟨ps, u, bs, hps, rfl, hjoin, hu⟩ := ih _ (by
        have := hb.length_pos
        simp only [List.length_append]
        omega) hr
      refine ⟨(b ++ content a, a) :: ps, u, bs, ?_, by simp, ?_, hu⟩
      · exact List.forall_mem_cons.mpr ⟨.definite hb, hps⟩
      · rw [hk.join_cons, hjoin, List.map_cons, List.cons_append, hk.join_cons]

/-- A string in front of segments is one more of them, or several that join to it. -/
def Prepends (k : Strand α) (b : Octets) (a : α) : Prop :=
  ∀ d s as t, Yields (k.segments d s) as t → ∃ bs, Yields (k.segments d (b ++ s)) bs t ∧ k.join bs = a ++ k.join as

theorem prepend_all (hk : k.Lawful major head content) {ps : List (Octets × α)}
    (hp : ∀ p ∈ ps, k.Prepends p.1 p.2) {d : Nat} {s t : Octets} {as : List α} (h : Yields (k.segments d s) as t) :
    ∃ bs, Yields (k.segments d (ps.flatMap Prod.fst ++ s)) bs t ∧ k.join bs = k.join (ps.map Prod.snd ++ as) := by
  induction ps with
  | nil => exact ⟨as, h, rfl⟩
  | cons p ps ih =>
    obtain ⟨hp, hps⟩ := List.forall_mem_cons.mp hp
    obtain ⟨bs, hbs, hjoin⟩ := ih hps
    obtain ⟨cs, hcs, hjoin'⟩ := hp d _ bs t hbs
    rw [← List.append_assoc, ← List.flatMap_cons] at hcs
    refine ⟨cs, hcs, ?_⟩
    rw [hjoin', hjoin, List.map_cons, List.cons_append, hk.join_cons]

theorem prepends_of_spells (hk : k.Lawful major head content) {b : Octets} {a : α}
    (h : StringSpells major content k.join b a) : k.Prepends b a := by
  induction h with
  | @definite a width b hb =>
    intro d s as t hs
    refine ⟨a :: as, (segments_iff hk).mpr (.inr (.inr ⟨a, as, s, width, b, hb, by simp, rfl, hs⟩)), ?_⟩
    exact hk.join_cons a as
  | indefinite ps _ ih =>
    intro d s as t hs
    have hstop : Yields (k.segments (d + 1) (initial 7 31 :: s)) as t := (segments_iff hk).mpr (.inl ⟨s, rfl, hs⟩)
    obtain ⟨bs, hbs, hjoin⟩ := prepend_all hk ih hstop
    refine ⟨bs, (segments_iff hk).mpr (.inr (.inl ⟨_, by simp, hbs⟩)), ?_⟩
    rw [hjoin, hk.join_append]

theorem spells_of_body (hk : k.Lawful major head content) {size? : Option Nat} {b s t : Octets} {a : α}
    (hb : LengthSpells major b size?) (h : Yields (k.body size? s) a t) :
    ∃ c, s = c ++ t ∧ StringSpells major content k.join (b ++ c) a := by
  cases size? with
  | some n =>
    obtain ⟨rfl, rfl⟩ := (run_iff hk).mp h
    obtain ⟨width, hb⟩ := hb
    exact ⟨content a, rfl, .definite hb⟩
  | none =>
    cases hb
    obtain ⟨as, has, rfl⟩ := yields_map_iff.mp h
    obtain ⟨ps, r, bs, hps, rfl, hjoin, rfl, rfl⟩ := spells_of_segments hk has
    refine ⟨ps.flatMap Prod.fst ++ [initial 7 31], by simp, ?_⟩
    rw [hjoin, List.append_nil]
    exact .indefinite ps hps

theorem body_of_spells (hk : k.Lawful major head content) {b : Octets} {a : α}
    (h : StringSpells major content k.join b a) (t : Octets) :
    ∃ size? s, Yields (Head.read (b ++ t)) (head size?) s ∧ Yields (k.body size? s) a t := by
  cases h with
  | @definite a width b hb =>
    refine ⟨some (content a).length, content a ++ t, ?_, (run_iff hk).mpr ⟨rfl, rfl⟩⟩
    have hlength : LengthSpells major b (some (content a).length) := ⟨width, hb⟩
    rw [List.append_assoc]
    exact read_of_headSpells ((hk.spells b _).mpr hlength) _
  | indefinite ps hp =>
    have hstop : Yields (k.segments 0 (initial 7 31 :: t)) [] t := (segments_iff hk).mpr (.inl ⟨t, rfl, rfl, rfl⟩)
    obtain ⟨bs, hbs, hjoin⟩ := prepend_all hk (fun p hm => prepends_of_spells hk (hp p hm)) hstop
    refine ⟨none, ps.flatMap Prod.fst ++ initial 7 31 :: t, ?_, yields_map_iff.mpr ⟨bs, hbs, ?_⟩⟩
    · have hparts : initial major 31 :: (ps.flatMap Prod.fst ++ [initial 7 31]) ++ t =
          [initial major 31] ++ (ps.flatMap Prod.fst ++ initial 7 31 :: t) := by simp
      rw [hparts]
      exact read_of_headSpells ((hk.spells _ none).mpr rfl) _
    · rw [hjoin, List.append_nil]

end Provenance.Cbor.Strand
