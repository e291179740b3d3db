import Provenance.Cbor.Cursor
import Provenance.Proofs.Cbor.Shortest
import Provenance.Proofs.Cbor.Truncation

/-!
The cursor and the octets that are left: it has counted what it has passed, so it reads what the decoder reads and
reports the same faults.
-/
namespace Provenance.Cbor.Cursor

/-- A cursor with `s` left of `b`, and no head put back. -/
def Rests (b : Octets) (c : Cursor) (s : Octets) : Prop := ∃ p, b = p ++ s ∧ c = ⟨s, p.length, none⟩

/-- A cursor with `s` left of `b`. A head that was put back was read from `q`, and only its shortest form is counted
as left. -/
inductive Stands (b : Octets) : Cursor → Octets → Prop
  | rest {c : Cursor} {s : Octets} (h : Rests b c s) : Stands b c s
  | peek {p q r : Octets} {head : Head} {n : Nat} (hq : HeadSpells q head) (hb : b = p ++ (q ++ r))
      (hn : n + head.size = (p ++ q).length) : Stands b ⟨r, n, some head⟩ (q ++ r)

/-- A cursor does what a reader does with the octets that are left. -/
def Follows {α : Type} {m n : Nat} (b : Octets) (y : Outcome (Moved α m)) (x : Except Flaw (Taken α n)) : Prop :=
  match x with
  | .error e => y = .error (e.fault b.length)
  | .ok t => ∃ u, y = .ok u ∧ u.value = t.value ∧ Rests b u.cursor t.rest

/-- One reading of a cursor is another with its value changed. -/
def Carries {α β : Type} {m n : Nat} (y : Outcome (Moved α m)) (f : α → β) (z : Outcome (Moved β n)) : Prop :=
  ∃ h : m ≤ n, z = y.map fun t => (t.map f).mono h

section Follows

variable {α β : Type} {m n m' n' : Nat} {b : Octets} {y : Outcome (Moved α m)} {x : Except Flaw (Taken α n)}
  {y' : Outcome (Moved β m')} {x' : Except Flaw (Taken β n')}

theorem follows_ok {u : Moved α m} {t : Octets} (hx : Yields x u.value t) (hu : Rests b u.cursor t) :
    Follows b (.ok u) x := by
  obtain ⟨ht, rfl⟩ := hx
  exact ⟨u, rfl, rfl, hu⟩

theorem Carries.split {γ : Type} {f : α → β} {g : β → γ} {z : Outcome (Moved γ m')} (h : Carries y (g ∘ f) z) :
    ∃ w : Outcome (Moved β m), Carries y f w ∧ Carries w g z := by
  obtain ⟨hm, rfl⟩ := h
  refine ⟨y.map fun t => t.map f, ⟨Nat.le_refl m, rfl⟩, hm, ?_⟩
  cases y <;> rfl

theorem wraps_id (x : Except Flaw (Taken α n)) : Wraps x id x := by
  refine ⟨Nat.le_refl n, ?_⟩
  cases x <;> rfl

theorem Follows.exists_yields (h : Follows b y x) {u : Moved α m} (hu : y = .ok u) :
    ∃ t, Yields x u.value t ∧ Rests b u.cursor t := by
  subst hu
  cases x with
  | error e => cases h
  | ok t =>
    obtain ⟨v, ⟨⟩, hvalue, hrest⟩ := h
    exact ⟨t.rest, yields_ok_iff.mpr ⟨hvalue.symm, rfl⟩, hrest⟩

theorem Follows.wraps (h : Follows b y x) {f : α → β} (hy : Carries y f y') (hx : Wraps x f x') :
    Follows b y' x' := by
  obtain ⟨_, rfl⟩ := hy
  obtain ⟨_, rfl⟩ := hx
  cases x with
  | error e =>
    have hy : y = .error (e.fault b.length) := h
    rw [hy]
    rfl
  | ok t =>
    obtain ⟨u, rfl, hu, hrest⟩ := h
    exact ⟨_, rfl, congrArg f hu, hrest⟩

/-- Two readings of several parts, whose first are `y` and `x`. -/
theorem Follows.andThen (h : Follows b y x) (hy : ∀ e, y = .error e → y' = .error e)
    (hx : ∀ e, x = .error e → x' = .error e)
    (hmore : ∀ u t, y = .ok u → Yields x u.value t → Rests b u.cursor t → Follows b y' x') : Follows b y' x' := by
  cases he : x with
  | error e =>
    rw [he] at h
    rw [hx e he]
    exact hy _ h
  | ok t =>
    rw [he] at h
    obtain ⟨u, hu, hvalue, hrest⟩ := h
    exact hmore u t.rest hu ⟨t.shorter, by rw [he, hvalue]⟩ hrest

end Follows

variable {b s : Octets} {c : Cursor}

theorem rests_start (b : Octets) : Rests b (start b) b := ⟨[], rfl, rfl⟩

theorem Stands.split (h : Stands b c s) : ∃ p, b = p ++ s := by
  cases h with
  | rest h =>
    obtain ⟨p, hb, -⟩ := h
    exact ⟨p, hb⟩
  | peek hq hb hn => exact ⟨_, hb⟩

theorem follows_pull (h : Stands b c s) : Follows b c.pull (Head.read s) := by
  cases h with
  | rest h =>
    obtain ⟨p, rfl, rfl⟩ := h
    unfold pull
    obtain ⟨e, hread⟩ | ⟨q, head, r, rfl, hq, hr, hread⟩ := head_read_cases s
    · simp only [hread, Follows, List.length_append]
    · simp only [hread]
      refine ⟨_, rfl, rfl, p ++ q, (List.append_assoc p q r).symm, ?_⟩
      simp
  | @peek p q r head n hq hb hn =>
    obtain ⟨hr, hread⟩ := read_of_headSpells hq r
    rw [hread]
    exact ⟨_, rfl, rfl, p ++ q, by rw [hb, List.append_assoc], by rw [hn]⟩

theorem Rests.push {d : Cursor} {q r : Octets} {head : Head} (h : Rests b d r) (hq : HeadSpells q head) {p : Octets}
    (hb : b = p ++ (q ++ r)) : Stands b (d.push head) (q ++ r) := by
  obtain ⟨p', hb', rfl⟩ := h
  obtain rfl : p' = p ++ q := by
    rw [hb, ← List.append_assoc] at hb'
    exact (List.append_cancel_right hb').symm
  have hle := hq.size_le
  refine .peek hq hb (Nat.sub_add_cancel ?_)
  exact hle.trans (by simp)

theorem stands_push {m : Nat} {u : Moved Head m} {r : Octets} (h : Stands b c s) (hread : Yields (Head.read s) u.value r)
    (hu : Rests b u.cursor r) : Stands b (u.cursor.push u.value) s := by
  obtain ⟨p, hb⟩ := h.split
  obtain ⟨q, rfl, hq⟩ := head_read_iff.mp hread
  exact hu.push hq hb

section Entries

variable {α : Type} {step : Step α} {size? : Option Nat} {read : Nat} {d : Cursor}

theorem next_error {e : Fault} (h : c.pull = .error e) : next none read c = .error e := by
  rw [next, h]

theorem next_stop (read : Nat) {u : Moved Head c.weight} (h : c.pull = .ok u) (hu : u.value = .stop) :
    ∃ hd, next none read c = .ok ⟨false, u.cursor, hd⟩ := by
  obtain ⟨head, d, hd⟩ := u
  cases hu
  exact ⟨_, by rw [next, h]⟩

theorem next_more (read : Nat) {u : Moved Head c.weight} (h : c.pull = .ok u) (hu : u.value ≠ .stop) :
    ∃ hd, next none read c = .ok ⟨true, u.cursor.push u.value, hd⟩ := by
  obtain ⟨head, d, hd⟩ := u
  refine ⟨Nat.lt_of_le_of_lt (weight_push_le head d) (Nat.succ_lt_succ hd), ?_⟩
  rw [next, h]
  cases head with
  | stop => exact absurd rfl hu
  | _ => rfl

theorem entries_error {e : Fault} (h : next size? read c = .error e) : entries step size? read c = .error e := by
  rw [entries, h]

theorem entries_end {hd : d.weight < c.weight + 1} (h : next size? read c = .ok ⟨false, d, hd⟩) :
    entries step size? read c = .ok ⟨[], d, hd⟩ := by
  rw [entries, h]

theorem entries_refuse {hd : d.weight < c.weight + 1} (h : next size? read c = .ok ⟨true, d, hd⟩) {e : Fault}
    (hstep : step d = .error e) : entries step size? read c = .error e := by
  rw [entries, h]
  simp only [hstep]

theorem entries_cons {hd : d.weight < c.weight + 1} (h : next size? read c = .ok ⟨true, d, hd⟩)
    {u : Moved α d.weight} (hstep : step d = .ok u) :
    Carries (entries step size? (read + 1) u.cursor) (u.value :: ·) (entries step size? read c) := by
  obtain ⟨x, d', hd'⟩ := u
  refine ⟨by simp only; omega, ?_⟩
  rw [entries, h]
  simp only [hstep]
  cases entries step size? (read + 1) d' <;> rfl

theorem pair_error {e : Fault} (h : step c = .error e) : pair step c = .error e := by
  rw [pair, h]

theorem pair_ok {u : Moved α c.weight} (h : step c = .ok u) : Carries (step u.cursor) (u.value, ·) (pair step c) := by
  obtain ⟨x, d, hd⟩ := u
  refine ⟨hd.le, ?_⟩
  rw [pair, h]
  simp only
  cases step d <;> rfl

/-- A step of the cursor does what a reader does, wherever the cursor stands in `b`. -/
def Imitates (b : Octets) (step : Step α) (reader : Reader α) : Prop :=
  ∀ c s, Stands b c s → Follows b (step c) (reader s)

variable {reader : Reader α}

theorem Imitates.pair (h : Imitates b step reader) : Imitates b (Cursor.pair step) (Reader.pair reader) := by
  intro c s hc
  refine (h c s hc).andThen (fun _ => pair_error) (fun _ => Reader.pair_error) ?_
  intro u t hu hx hrest
  exact (h u.cursor t (.rest hrest)).wraps (pair_ok hu) (Reader.pair_ok hx)

theorem follows_entries (h : Imitates b step reader) {n read size : Nat} (hn : size = read + n) (hc : Rests b c s) :
    Follows b (entries step (some size) read c) (Reader.times reader n s) := by
  induction n generalizing read c s with
  | zero =>
    have hnext : next (some size) read c = .ok ⟨false, c, Nat.lt_succ_self _⟩ := by simp [next, hn]
    rw [entries_end hnext]
    exact follows_ok (yields_ok _) hc
  | succ n ih =>
    have hnext : next (some size) read c = .ok ⟨true, c, Nat.lt_succ_self _⟩ := by simp [next, hn]
    refine (h c s (.rest hc)).andThen (fun _ => entries_refuse hnext) (fun _ he => Reader.times_error he n) ?_
    intro u t hu hx hrest
    exact (ih (by omega) hrest).wraps (entries_cons hnext hu) (Reader.times_succ hx n)

theorem follows_entries_open (h : Imitates b step reader) (read : Nat) (hc : Stands b c s) :
    Follows b (entries step none read c) (Reader.untilStop reader s) := by
  induction s using Octets.inductShorter generalizing c read with
  | step s ih =>
    refine (follows_pull hc).andThen (fun _ he => entries_error (next_error he))
      (fun _ => Reader.untilStop_head_error) ?_
    intro u t hu hread hrest
    by_cases hstop : u.value = .stop
    · obtain ⟨hd, hnext⟩ := next_stop read hu hstop
      rw [entries_end hnext]
      rw [hstop] at hread
      exact follows_ok (Reader.untilStop_stop hread) hrest
    · -- The head that was looked at is put back, and the next entry is read from it on.
      obtain ⟨hd, hnext⟩ := next_more read hu hstop
      refine (h _ s (stands_push hc hread hrest)).andThen (fun _ => entries_refuse hnext)
        (fun _ => Reader.untilStop_error hread hstop) ?_
      intro v r hv hx hrest'
      exact (ih r hx.length_lt (read + 1) (.rest hrest')).wraps (entries_cons hnext hv)
        (Reader.untilStop_more hread hstop hx)

end Entries

section Segments

variable {α : Type} {k : Strand α} {nested m n : Nat} {u : Moved Head c.weight}

theorem segments_error {e : Fault} (h : c.pull = .error e) : segments k nested c = .error e := by
  rw [segments, h]

theorem segments_end (h : c.pull = .ok u) (hu : u.value = .stop) :
    segments k 1 c = .ok ⟨[], u.cursor, u.lighter⟩ := by
  obtain ⟨head, d, hd⟩ := u
  cases hu
  rw [segments, h]

theorem segments_leave (h : c.pull = .ok u) (hu : u.value = .stop) :
    Carries (segments k (nested + 1) u.cursor) id (segments k (nested + 2) c) := by
  obtain ⟨head, d, hd⟩ := u
  cases hu
  refine ⟨hd.le, ?_⟩
  rw [segments, h]
  rfl

theorem segments_other (h : c.pull = .ok u) (hu : u.value ≠ .stop) (hsize : k.size? u.value = none) :
    segments k nested c = .error (malformedAt c.offset) := by
  obtain ⟨head, d, hd⟩ := u
  rw [segments, h]
  cases head with
  | stop => exact absurd rfl hu
  | _ => simp only [hsize]

theorem segments_enter (h : c.pull = .ok u) (hu : u.value ≠ .stop) (hsize : k.size? u.value = some none) :
    Carries (segments k (nested + 1) u.cursor) id (segments k nested c) := by
  obtain ⟨head, d, hd⟩ := u
  refine ⟨hd.le, ?_⟩
  rw [segments, h]
  cases head with
  | stop => exact absurd rfl hu
  | _ =>
    simp only [hsize]
    rfl

theorem segments_refuse (h : c.pull = .ok u) (hu : u.value ≠ .stop) (hsize : k.size? u.value = some (some n)) {e : Fault}
    (hrun : run k n c.offset u.cursor = .error e) : segments k nested c = .error e := by
  obtain ⟨head, d, hd⟩ := u
  rw [segments, h]
  cases head with
  | stop => exact absurd rfl hu
  | _ => simp only [hsize, hrun]

theorem segments_whole (h : c.pull = .ok u) (hu : u.value ≠ .stop) (hsize : k.size? u.value = some (some n))
    {v : Moved α (u.cursor.weight + 1)} (hrun : run k n c.offset u.cursor = .ok v) :
    ∃ hv, segments k 0 c = .ok ⟨[v.value], v.cursor, hv⟩ := by
  obtain ⟨head, d, hd⟩ := u
  obtain ⟨a, d', hd'⟩ := v
  refine ⟨Nat.lt_of_lt_of_le hd' hd, ?_⟩
  rw [segments, h]
  cases head with
  | stop => exact absurd rfl hu
  | _ => simp only [hsize, hrun, if_true]

theorem segments_cons (h : c.pull = .ok u) (hu : u.value ≠ .stop) (hsize : k.size? u.value = some (some n))
    {v : Moved α (u.cursor.weight + 1)} (hrun : run k n c.offset u.cursor = .ok v) :
    Carries (segments k (nested + 1) v.cursor) (v.value :: ·) (segments k (nested + 1) c) := by
  obtain ⟨head, d, hd⟩ := u
  obtain ⟨a, d', hd'⟩ := v
  refine ⟨Nat.le_of_lt_succ (Nat.lt_of_lt_of_le hd' (Nat.le_succ_of_le hd)), ?_⟩
  rw [segments, h]
  cases head with
  | stop => exact absurd rfl hu
  | _ =>
    simp only [hsize, hrun, Nat.succ_ne_zero, if_false]
    cases segments k (nested + 1) d' <;> rfl

theorem follows_malformed (left : Nat) :
    Follows (n := n) b (.error (malformedAt (b.length - left)) : Outcome (Moved α m)) (.error (.malformed left)) := rfl

theorem follows_run {left : Nat} (hc : Rests b c s) :
    Follows b (run k n (b.length - left) c) (k.run n left s) := by
  obtain ⟨p, rfl, rfl⟩ := hc
  unfold run Strand.run
  dsimp only
  split
  · next hle =>
    cases k.content? (s.take n) with
    | none => exact follows_malformed left
    | some a =>
      refine ⟨_, rfl, rfl, p ++ s.take n, ?_, ?_⟩
      · rw [List.append_assoc, List.take_append_drop]
      · rw [List.length_append, List.length_take, Nat.min_eq_left hle]
  · cases k.spoiled s with
    | true => exact follows_malformed left
    | false => rfl

theorem Rests.offset (h : Rests b c s) : c.offset = b.length - s.length := by
  obtain ⟨p, rfl, rfl⟩ := h
  simp

variable [Append α] {major : Nat} {head : Option Nat → Head} {content : α → Octets}

theorem follows_segments (hk : k.Lawful major head content) (d : Nat) (hc : Rests b c s) :
    Follows b (segments k (d + 1) c) (k.segments d s) := by
  induction s using Octets.inductShorter generalizing c d with
  | step s ih =>
    refine (follows_pull (.rest hc)).andThen (fun _ => segments_error) (fun _ => Strand.segments_error) ?_
    intro u t hu hread hrest
    have ht := hread.length_lt
    cases hsize : k.size? u.value with
    | none =>
      by_cases hstop : u.value = .stop
      · rw [hstop] at hread
        cases d with
        | zero =>
          rw [segments_end hu hstop]
          exact follows_ok ((Strand.segments_stop hread t).mpr ⟨rfl, rfl⟩) hrest
        | succ d => exact (ih t ht d hrest).wraps (segments_leave hu hstop) (Strand.segments_leave hread)
      · rw [segments_other hu hstop hsize, Strand.segments_other hread hstop hsize, hc.offset]
        exact follows_malformed s.length
    | some size? =>
      have hstop := hk.ne_stop hsize
      cases size? with
      | none =>
        exact (ih t ht (d + 1) hrest).wraps (segments_enter hu hstop hsize)
          (Strand.segments_enter hread hstop hsize)
      | some n =>
        have hrun : Follows b (run k n c.offset u.cursor) (k.run n s.length t) := hc.offset ▸ follows_run hrest
        refine hrun.andThen (fun _ => segments_refuse hu hstop hsize)
          (fun _ => Strand.segments_refuse hread hstop hsize) ?_
        intro v r hv hx hrest'
        have hr := hx.length_lt
        exact (ih r (by omega) d hrest').wraps (segments_cons hu hstop hsize hv)
          (Strand.segments_cons hread hstop hsize hx)

theorem pull_push {head : Head} (hc : Rests b c s) (hle : head.size ≤ c.offset) :
    ∃ hd, (c.push head).pull = .ok ⟨head, c, hd⟩ := by
  obtain ⟨p, -, rfl⟩ := hc
  refine ⟨by simp [weight, push], ?_⟩
  simp only [push, pull, Nat.sub_add_cancel hle]

/-- The segments of a string from its head on, which was put back, and the string after its head. -/
theorem follows_string (hk : k.Lawful major head content) (hhead : ∀ n, (head (some n)).size = Head.shortest n)
    {size? : Option Nat} (hc : Rests b c s) (hle : (head size?).size ≤ c.offset) {m : Nat} {z : Outcome (Moved α m)}
    (hz : Carries (segments k 0 (c.push (head size?))) k.join z) : Follows b z (k.body size? s) := by
  obtain ⟨hd, hpull⟩ := pull_push hc hle
  have hsize := (hk.size?_iff (head size?) size?).mpr rfl
  have hstop := hk.ne_stop hsize
  cases size? with
  | none =>
    exact ((follows_segments hk 0 hc).wraps (segments_enter hpull hstop hsize) (wraps_id _)).wraps hz
      ⟨Nat.le_succ _, rfl⟩
  | some n =>
    -- What is malformed is reported where the shortest form of the head would begin.
    have hstart : (c.push (head (some n))).offset = b.length - (s.length + Head.shortest n) := by
      rw [← hhead n, ← Nat.sub_sub, ← hc.offset, push]
    have hrun : Follows b (run k n (c.push (head (some n))).offset c) (k.body (some n) s) := hstart ▸ follows_run hc
    obtain ⟨hm, rfl⟩ := hz
    refine hrun.andThen (fun e he => ?_) (fun _ he => he) ?_
    · rw [segments_refuse hpull hstop hsize he]
      rfl
    · intro v t hv hx hrest
      obtain ⟨hv', hwhole⟩ := segments_whole hpull hstop hsize hv
      rw [hwhole]
      refine follows_ok ?_ hrest
      rwa [← hk.join_singleton v.value] at hx

end Segments

theorem size_le_offset {d : Cursor} {head : Head} {t : Octets} (hc : Stands b c s)
    (hread : Yields (Head.read s) head t) (hd : Rests b d t) : head.size ≤ d.offset := by
  obtain ⟨p, hb⟩ := hc.split
  obtain ⟨q, rfl, hq⟩ := head_read_iff.mp hread
  have hle := hq.size_le
  rw [hd.offset, hb]
  simp only [List.length_append]
  omega

theorem fault_of_ofSimple {n : UInt8} {e : Flaw} (h : Item.ofSimple n = .error e) (i j : Nat) : e.fault i = e.fault j := by
  unfold Item.ofSimple at h
  split_ifs at h
  cases h
  rfl

theorem item_error {room : Nat} {e : Fault} (h : c.pull = .error e) : item (room + 1) c = .error e := by
  rw [item, h]

theorem follows_item (b : Octets) (room : Nat) : Imitates b (item room) (Item.read room) := by
  induction room with
  | zero =>
    intro c s _
    rfl
  | succ room ih =>
    intro c s hc
    refine (follows_pull hc).andThen (fun _ => item_error) (fun _ => Item.read_error) ?_
    rintro ⟨head, d, hd⟩ t hu hread hrest
    have hx := Item.readsOn room hread
    have hle := size_le_offset hc hread hrest
    cases head with
    | unsigned | negative | float =>
      rw [item, hu]
      exact follows_ok hx hrest
    | simple n =>
      obtain ⟨ht, e⟩ := hread
      rw [item, hu, Item.read, e]
      dsimp only
      cases hn : Item.ofSimple n with
      | error e => exact congrArg Except.error (fault_of_ofSimple hn c.offset b.length)
      | ok x => exact ⟨_, rfl, rfl, hrest⟩
    | stop =>
      rw [item, hu, hx]
      rfl
    | bytes size? =>
      have hz : Carries (segments .bytes 0 (d.push (.bytes size?))) (Item.bytes ∘ Strand.bytes.join)
          (item (room + 1) c) := ⟨_, by rw [item, hu]⟩
      obtain ⟨w, hw, hz⟩ := hz.split
      exact (follows_string Strand.bytes_lawful (fun _ => rfl) hrest hle hw).wraps hz hx
    | text size? =>
      have hz : Carries (segments .text 0 (d.push (.text size?))) (Item.text ∘ Strand.text.join)
          (item (room + 1) c) := ⟨_, by rw [item, hu]⟩
      obtain ⟨w, hw, hz⟩ := hz.split
      exact (follows_string Strand.text_lawful (fun _ => rfl) hrest hle hw).wraps hz hx
    | tag n => exact (ih d t (.rest hrest)).wraps ⟨hd.le, by rw [item, hu]⟩ hx
    | array size? =>
      cases size? with
      | some n => exact (follows_entries ih (Nat.zero_add n).symm hrest).wraps ⟨hd, by rw [item, hu]⟩ hx
      | none => exact (follows_entries_open ih 0 (.rest hrest)).wraps ⟨hd, by rw [item, hu]⟩ hx
    | map size? =>
      cases size? with
      | some n => exact (follows_entries ih.pair (Nat.zero_add n).symm hrest).wraps ⟨hd, by rw [item, hu]⟩ hx
      | none => exact (follows_entries_open ih.pair 0 (.rest hrest)).wraps ⟨hd, by rw [item, hu]⟩ hx

theorem decode_eq (b : Octets) : decode b = Cbor.decode b := by
  have h := follows_item b (maxNesting + 1) (start b) b (.rest (rests_start b))
  rw [decode, Cbor.decode, Item.ofOctets]
  cases hx : Item.read (maxNesting + 1) b with
  | error e =>
    rw [hx] at h
    have h : item (maxNesting + 1) (start b) = .error (e.fault b.length) := h
    rw [h]
    rfl
  | ok t =>
    rw [hx] at h
    obtain ⟨⟨x, d, hd⟩, hu, rfl, p, hb, rfl⟩ := h
    have hsize : b.length = p.length + t.rest.length := by rw [← List.length_append, ← hb]
    rw [hu, ok_bind, ok_bind]
    by_cases hr : t.rest = []
    · have hall : p.length = b.length := by rw [hsize, hr, List.length_nil, Nat.add_zero]
      rw [if_neg (not_not.mpr hall), if_neg (not_not.mpr hr)]
      cases t.value.checkKeys <;> rfl
    · have hpos := List.length_pos_iff.mpr hr
      have hpart : p.length ≠ b.length := by omega
      have hleft : b.length - p.length = t.rest.length := by omega
      rw [if_pos hpart, if_pos hr, hleft]
      rfl

/-- Octets are decoded as a whole or not at all: of what is accepted, each beginning is cut off and whatever follows it is
trailing. A cursor has counted what it has taken, also when it only looked at a head and took it again. -/
theorem decode_whole (b : Octets) :
    decode b = Cbor.decode b ∧
      (∀ c s u, Stands b c s → c.pull = .ok u → (∃ r, Rests b u.cursor r) ∧ Stands b (u.cursor.push u.value) s) ∧
      (∀ c s room u, Stands b c s → item room c = .ok u → ∃ r, Rests b u.cursor r) ∧
      (∀ room u, item room (start b) = .ok u →
        u.cursor.offset ≤ b.length ∧ b.length - u.cursor.offset = u.cursor.unread.length) ∧
      ∀ v, Cbor.decode b = .ok v →
        (∀ p, p <+: b → p ≠ b → Cbor.decode p = .error (.malformed "truncated CBOR data item")) ∧
        ∀ s, s ≠ [] →
          Cbor.decode (b ++ s) = .error (.malformed s!"{s.length} trailing bytes after CBOR data item") := by
  have rests {c : Cursor} {s : Octets} {room : Nat} {u : Moved Item c.weight} (hc : Stands b c s)
      (hu : item room c = .ok u) : ∃ r, Rests b u.cursor r := by
    obtain ⟨r, -, hrest⟩ := (follows_item b room c s hc).exists_yields hu
    exact ⟨r, hrest⟩
  refine ⟨decode_eq b, ?_, fun _ _ _ _ => rests, ?_, ?_⟩
  · intro c s u hc hu
    obtain ⟨r, hread, hrest⟩ := (follows_pull hc).exists_yields hu
    exact ⟨⟨r, hrest⟩, stands_push hc hread hrest⟩
  · intro room u hu
    obtain ⟨r, p, hb, hcursor⟩ := rests (.rest (rests_start b)) hu
    rw [hcursor, hb]
    simp
  · intro v hv
    refine ⟨?_, fun s hs => decode_of_trailing hv hs⟩
    rintro p ⟨s, rfl⟩ hp
    refine decode_of_cut hv ?_
    rintro rfl
    exact hp (List.append_nil p).symm

/-- An array up to a break, whose element has a head of nine octets that the search for the break puts back. -/
def openArray : Octets := [0x9f, 0x1b, 0, 0, 0, 0, 0, 0, 0, 1, 0xff]

theorem decode_whole_openArray :
    decode openArray = .ok (.array [.unsigned 1]) ∧
      Cbor.decode (openArray.take 10) = .error (.malformed "truncated CBOR data item") ∧
      Cbor.decode (openArray ++ [0, 0]) = .error (.malformed "2 trailing bytes after CBOR data item") := by
  have h : Cbor.decode openArray = .ok (.array [.unsigned 1]) := by cbv
  obtain ⟨hdecode, -, -, -, hwhole⟩ := decode_whole openArray
  obtain ⟨hcut, htrailing⟩ := hwhole _ h
  exact ⟨hdecode.trans h, hcut _ (List.take_prefix 10 openArray) (by decide), htrailing [0, 0] (by decide)⟩

end Provenance.Cbor.Cursor
