import Provenance.Proofs.Cbor.Steps

/-!
What the decoder costs: whatever lengths a head declares, the steps are bounded by the octets that there are, and each
node of an item has octets for itself. What decreases is not the loop counter but the unread input together with a head
that was put back.
-/
namespace Provenance.Cbor.Cursor

/-- The octets that are left, and one more for a head that was put back. -/
def left (c : Cursor) : Nat := c.unread.length + if c.ahead?.isSome then 1 else 0

/-- The cursor stands somewhere in `b`. -/
def Placed (b : Octets) (c : Cursor) : Prop := ∃ s, Stands b c s

def skip (n : Nat) (c : Cursor) : Cursor := ⟨c.unread.drop n, c.offset + n, c.ahead?⟩

section Cursors

variable {b : Octets} {c : Cursor} {u : Moved Head c.weight} {n : Nat}

theorem left_pull (h : c.pull = .ok u) : u.cursor.left < c.left ∧ u.cursor.left = u.cursor.unread.length := by
  unfold pull at h
  split at h
  · cases h
    exact ⟨Nat.lt_succ_self _, rfl⟩
  · split at h
    · cases h
    · next hr _ =>
      cases h
      exact ⟨hr, rfl⟩

theorem left_push (head : Head) (c : Cursor) : (c.push head).left = c.unread.length + 1 := rfl

theorem left_skip_lt (h : c.pull = .ok u) (n : Nat) : (u.cursor.skip n).left < c.left := by
  refine Nat.lt_of_le_of_lt ?_ (left_pull h).1
  rw [left, skip, left, List.length_drop]
  exact Nat.add_le_add_right (Nat.sub_le _ _) _

theorem next_cases {size? : Option Nat} {read : Nat} {m : Moved Bool (c.weight + 1)} (h : next size? read c = .ok m) :
    m.cursor = c ∨ ∃ u, c.pull = .ok u ∧ (m.cursor = u.cursor ∨ m.cursor = u.cursor.push u.value) := by
  cases size? with
  | some size =>
    cases h
    exact .inl rfl
  | none =>
    cases hpull : c.pull with
    | error e =>
      rw [next_error hpull] at h
      cases h
    | ok u =>
      refine .inr ⟨u, rfl, ?_⟩
      by_cases hstop : u.value = .stop
      · obtain ⟨hd, hnext⟩ := next_stop read hpull hstop
        cases h.symm.trans hnext
        exact .inl rfl
      · obtain ⟨hd, hnext⟩ := next_more read hpull hstop
        cases h.symm.trans hnext
        exact .inr rfl

theorem left_next_le {size? : Option Nat} {read : Nat} {m : Moved Bool (c.weight + 1)} (h : next size? read c = .ok m) :
    m.cursor.left ≤ c.left := by
  obtain hm | ⟨u, hpull, hm⟩ := next_cases h
  · rw [hm]
  · obtain ⟨hlt, hleft⟩ := left_pull hpull
    obtain hm | hm := hm
    · rw [hm]
      exact hlt.le
    · rw [hm, left_push, ← hleft]
      exact hlt

theorem run_cases {α : Type} {k : Strand α} {start : Nat} {m : Moved α (c.weight + 1)} (h : run k n start c = .ok m) :
    n ≤ c.unread.length ∧ m.cursor = c.skip n := by
  unfold run at h
  split at h
  · next hn =>
    split at h
    · cases h
      exact ⟨hn, rfl⟩
    · cases h
  · split at h <;> cases h

theorem Placed.pull (hc : Placed b c) (h : c.pull = .ok u) :
    ∃ p q r, b = p ++ (q ++ r) ∧ HeadSpells q u.value ∧ Rests b u.cursor r := by
  obtain ⟨s, hs⟩ := hc
  obtain ⟨r, hread, hrest⟩ := (follows_pull hs).exists_yields h
  obtain ⟨p, hp⟩ := hs.split
  obtain ⟨q, rfl, hq⟩ := head_read_iff.mp hread
  exact ⟨p, q, r, hp, hq, hrest⟩

theorem Placed.push (hc : Placed b c) (h : c.pull = .ok u) : Placed b (u.cursor.push u.value) := by
  obtain ⟨s, hs⟩ := hc
  obtain ⟨r, hread, hrest⟩ := (follows_pull hs).exists_yields h
  exact ⟨s, stands_push hs hread hrest⟩

theorem Rests.skip {s : Octets} (hc : Rests b c s) (hn : n ≤ s.length) : Rests b (c.skip n) (s.drop n) := by
  obtain ⟨p, rfl, rfl⟩ := hc
  refine ⟨p ++ s.take n, ?_, ?_⟩
  · rw [List.append_assoc, List.take_append_drop]
  · rw [List.length_append, List.length_take, Nat.min_eq_left hn]
    rfl

theorem Rests.unread {s : Octets} (hc : Rests b c s) : c.unread = s := by
  obtain ⟨p, -, rfl⟩ := hc
  rfl

theorem Placed.next {size? : Option Nat} {read : Nat} {m : Moved Bool (c.weight + 1)} (hc : Placed b c)
    (h : next size? read c = .ok m) : Placed b m.cursor := by
  obtain hm | ⟨u, hpull, hm | hm⟩ := next_cases h
  · rwa [hm]
  · obtain ⟨p, q, r, -, -, hrest⟩ := hc.pull hpull
    rw [hm]
    exact ⟨r, .rest hrest⟩
  · rw [hm]
    exact hc.push hpull

end Cursors

/-- All that a step at a cursor can do. -/
inductive Moves (c : Cursor) : Task → Stage → Prop
  | leaf {level : Nat} {u : Moved Head c.weight} (hlevel : level ≤ maxNesting) (h : c.pull = .ok u) :
      Moves c (.item level) (u.cursor, [])
  | string {level : Nat} {u : Moved Head c.weight} (textual : Bool) (hlevel : level ≤ maxNesting) (h : c.pull = .ok u) :
      Moves c (.item level) (u.cursor.push u.value, [.segments textual 0])
  | content {level : Nat} {u : Moved Head c.weight} (hlevel : level ≤ maxNesting) (h : c.pull = .ok u) :
      Moves c (.item level) (u.cursor, [.item (level + 1)])
  | container {level : Nat} {u : Moved Head c.weight} (keyed : Bool) (size? : Option Nat) (hlevel : level ≤ maxNesting)
      (h : c.pull = .ok u) : Moves c (.item level) (u.cursor, [.entries (level + 1) keyed size? 0])
  | ended {level : Nat} {keyed : Bool} {size? : Option Nat} {read : Nat} {m : Moved Bool (c.weight + 1)}
      (h : next size? read c = .ok m) : Moves c (.entries level keyed size? read) (m.cursor, [])
  | more {level : Nat} {keyed : Bool} {size? : Option Nat} {read : Nat} {m : Moved Bool (c.weight + 1)}
      (h : next size? read c = .ok m) :
      Moves c (.entries level keyed size? read)
        (m.cursor, Task.entry level keyed ++ [.entries level keyed size? (read + 1)])
  | closed {textual : Bool} {nested n : Nat} {u : Moved Head c.weight} (h : c.pull = .ok u)
      (hn : n ≤ u.cursor.unread.length) : Moves c (.segments textual nested) (u.cursor.skip n, [])
  | again {textual : Bool} {nested n : Nat} {u : Moved Head c.weight} (nested' : Nat) (h : c.pull = .ok u)
      (hn : n ≤ u.cursor.unread.length) :
      Moves c (.segments textual nested) (u.cursor.skip n, [.segments textual nested'])

section Steps

variable {t : Task} {c : Cursor}

theorem moves_of_within {level : Nat} {u : Moved Head c.weight} {s : Stage} (hlevel : level ≤ maxNesting)
    (hpull : c.pull = .ok u) (h : within level c.offset u.cursor u.value = .ok s) : Moves c (.item level) s := by
  obtain ⟨head, d, hd⟩ := u
  cases head with
  | unsigned | negative | float =>
    cases h
    exact .leaf hlevel hpull
  | simple n =>
    obtain ⟨x, -, rfl⟩ := map_eq_ok_iff.mp h
    exact .leaf hlevel hpull
  | stop => cases h
  | bytes =>
    cases h
    exact .string false hlevel hpull
  | text =>
    cases h
    exact .string true hlevel hpull
  | tag =>
    cases h
    exact .content hlevel hpull
  | array size? =>
    cases h
    exact .container false size? hlevel hpull
  | map size? =>
    cases h
    exact .container true size? hlevel hpull

theorem moves_of_segment {α : Type} {k : Strand α} {textual : Bool} {nested : Nat} {s : Stage}
    (h : segment k (.segments textual) nested c = .ok s) : Moves c (.segments textual nested) s := by
  cases hpull : c.pull with
  | error e =>
    rw [segment_error hpull] at h
    cases h
  | ok u =>
    -- What follows a head without octets of its own begins where the head ends.
    have hclosed : Moves c (.segments textual nested) (u.cursor, []) := .closed hpull (Nat.zero_le _)
    have hagain (n : Nat) : Moves c (.segments textual nested) (u.cursor, [.segments textual n]) :=
      .again n hpull (Nat.zero_le _)
    by_cases hstop : u.value = .stop
    · rw [segment_stop hpull hstop] at h
      match nested with
      | 0 => cases h
      | 1 =>
        cases h
        exact hclosed
      | n + 2 =>
        cases h
        exact hagain _
    · rw [segment_head hpull hstop] at h
      split at h
      · cases h
      · cases h
        exact hagain _
      · obtain ⟨m, hrun, rfl⟩ := map_eq_ok_iff.mp h
        obtain ⟨hn, hm⟩ := run_cases hrun
        rw [hm]
        split
        · exact .closed hpull hn
        · exact .again _ hpull hn

theorem moves_of_step {s : Stage} (h : t.step c = .ok s) : Moves c t s := by
  cases t with
  | item level =>
    by_cases hlevel : maxNesting < level
    · rw [Task.step, if_pos hlevel] at h
      cases h
    · cases hpull : c.pull with
      | error e =>
        rw [Task.step, if_neg hlevel, hpull] at h
        cases h
      | ok u =>
        have hle := Nat.le_of_not_lt hlevel
        rw [step_item hle hpull] at h
        exact moves_of_within hle hpull h
  | entries level keyed size? read =>
    obtain ⟨m, hnext, rfl⟩ := map_eq_ok_iff.mp h
    split
    · exact .more hnext
    · exact .ended hnext
  | segments textual nested => cases textual <;> exact moves_of_segment h

end Steps

section Costs

variable {t : Task} {ts us : List Task} {c d : Cursor} {log : List Visit} {o : Outcome Cursor}

/-- The steps that what waits may take beside three for each octet that is left. An octet pays for the step that reads
it, for the one before that found another entry, and for the last one of the container that it opens. -/
def allowance : List Task → Nat
  | [] => 0
  | .item _ :: ts => max 2 (allowance ts - 1)
  | .entries _ _ _ _ :: ts => max 3 (allowance ts + 1)
  | .segments _ _ :: ts => max 1 (allowance ts - 2)

theorem allowance_pos (t : Task) (ts : List Task) : 0 < allowance (t :: ts) := by
  cases t <;> simp only [allowance] <;> omega

theorem Moves.cost (h : Moves c t (d, us)) (ts : List Task) :
    1 + 3 * d.left + allowance (us ++ ts) ≤ 3 * c.left + allowance (t :: ts) := by
  cases h with
  | leaf hlevel h =>
    have hlt := (left_pull h).1
    simp only [List.nil_append, allowance]
    omega
  | string textual hlevel h =>
    obtain ⟨hlt, hleft⟩ := left_pull h
    simp only [List.cons_append, List.nil_append, allowance, left_push]
    omega
  | content hlevel h | container keyed size? hlevel h =>
    have hlt := (left_pull h).1
    simp only [List.cons_append, List.nil_append, allowance]
    omega
  | ended h =>
    have hle := left_next_le h
    simp only [List.nil_append, allowance]
    omega
  | more h =>
    have hle := left_next_le h
    unfold Task.entry
    split <;> simp only [List.cons_append, List.nil_append, allowance] <;> omega
  | @closed _ _ n _ h =>
    have hlt := left_skip_lt h n
    simp only [List.nil_append, allowance]
    omega
  | @again _ _ n _ _ h =>
    have hlt := left_skip_lt h n
    simp only [List.cons_append, List.nil_append, allowance]
    omega

theorem Run.length_le (h : Run ts c log o) : log.length ≤ 3 * c.left + allowance ts := by
  induction h with
  | done c => exact Nat.zero_le _
  | @refused t ts c e h =>
    have hpos := allowance_pos t ts
    rw [List.length_singleton]
    omega
  | @onward t ts us c d log o h _ ih =>
    have hcost := (moves_of_step h).cost ts
    rw [List.length_cons]
    omega

end Costs

section Levels

variable {t : Task} {ts us : List Task} {c d : Cursor} {log : List Visit} {o : Outcome Cursor}

/-- The level of what is to be read is at most the first that is refused. -/
def Shallow : Task → Prop
  | .item level | .entries level _ _ _ => level ≤ maxNesting + 1
  | .segments _ _ => True

theorem Moves.shallow (h : Moves c t (d, us)) (ht : Shallow t) : ∀ u ∈ us, Shallow u := by
  cases h with
  | leaf | ended | closed => exact List.forall_mem_nil _
  | string | again => exact List.forall_mem_singleton.mpr trivial
  | content hlevel | container _ _ hlevel => exact List.forall_mem_singleton.mpr (Nat.succ_le_succ hlevel)
  | more =>
    unfold Task.entry
    split <;> simpa [Shallow] using ht

theorem Run.shallow (h : Run ts c log o) (hts : ∀ t ∈ ts, Shallow t) : ∀ v ∈ log, Shallow v.1 := by
  induction h with
  | done c => exact List.forall_mem_nil _
  | refused h => exact List.forall_mem_singleton.mpr (hts _ List.mem_cons_self)
  | onward h _ ih =>
    obtain ⟨ht, hts⟩ := List.forall_mem_cons.mp hts
    exact List.forall_mem_cons.mpr ⟨ht, ih (List.forall_mem_append.mpr ⟨(moves_of_step h).shallow ht, hts⟩)⟩

theorem step_deep (c : Cursor) : (Task.item (maxNesting + 1)).step c = .error (Flaw.tooDeep.fault c.offset) := by
  rw [Task.step, if_pos (Nat.lt_succ_self _)]

theorem Run.refused_of_deep (h : Run ts c log o) (hd : (.item (maxNesting + 1), d) ∈ log) :
    o = .error (Flaw.tooDeep.fault d.offset) := by
  induction h with
  | done c => cases hd
  | refused h =>
    cases List.mem_singleton.mp hd
    rw [step_deep] at h
    exact congrArg _ (Except.error.inj h).symm
  | onward h _ ih =>
    obtain hd | hd := List.mem_cons.mp hd
    · cases hd
      rw [step_deep] at h
      cases h
    · exact ih hd

end Levels

section Heads

variable {t : Task} {ts us : List Task} {c d : Cursor} {b : Octets} {log : List Visit} {o : Outcome Cursor} {n k : Nat}

theorem Moves.placed (h : Moves c t (d, us)) (hc : Placed b c) : Placed b d := by
  cases h with
  | leaf _ h | content _ h | container _ _ _ h =>
    obtain ⟨p, q, r, -, -, hrest⟩ := hc.pull h
    exact ⟨r, .rest hrest⟩
  | string _ _ h => exact hc.push h
  | ended h | more h => exact hc.next h
  | closed h hn | again _ h hn =>
    obtain ⟨p, q, r, -, -, hrest⟩ := hc.pull h
    exact ⟨_, .rest (hrest.skip (hrest.unread ▸ hn))⟩

theorem Run.placed (h : Run ts c log o) (hc : Placed b c) : ∀ v ∈ log, Placed b v.2 := by
  induction h with
  | done c => exact List.forall_mem_nil _
  | refused h => exact List.forall_mem_singleton.mpr hc
  | onward h _ ih => exact List.forall_mem_cons.mpr ⟨hc, ih ((moves_of_step h).placed hc)⟩

theorem behind_eq_some_iff :
    t.behind? c = some n ↔
      ∃ level u, t = .item level ∧ level ≤ maxNesting ∧ c.pull = .ok u ∧ u.cursor.unread.length = n := by
  constructor
  · intro h
    cases t with
    | item level =>
      by_cases hlevel : maxNesting < level
      · rw [Task.behind?, if_pos hlevel] at h
        cases h
      · rw [Task.behind?, if_neg hlevel, Option.map_eq_some_iff] at h
        obtain ⟨u, hu, hn⟩ := h
        exact ⟨level, u, rfl, Nat.le_of_not_lt hlevel, toOption_eq_some_iff.mp hu, hn⟩
    | entries | segments => cases h
  · rintro ⟨level, u, rfl, hlevel, hpull, rfl⟩
    rw [Task.behind?, if_neg (Nat.not_lt.mpr hlevel), hpull]
    rfl

/-- The octets of a head that was read, in front of what was left after it. -/
theorem exists_head_of_mem_behinds (h : Run ts c log o) (hc : Placed b c) (hn : n ∈ behinds log) :
    ∃ p q r head, b = p ++ (q ++ r) ∧ q ≠ [] ∧ HeadSpells q head ∧ r.length = n := by
  obtain ⟨v, hv, hbehind⟩ := List.mem_filterMap.mp hn
  obtain ⟨level, u, -, -, hpull, rfl⟩ := behind_eq_some_iff.mp hbehind
  obtain ⟨p, q, r, hb, hq, hrest⟩ := (h.placed hc v hv).pull hpull
  have hlt := (read_of_headSpells hq r).length_lt
  refine ⟨p, q, r, _, hb, ?_, hq, congrArg List.length hrest.unread.symm⟩
  rintro rfl
  exact Nat.lt_irrefl _ hlt

/-- The head of a string is put back for its segments, and it counts as left until they have read it again. -/
def headroom : List Task → Nat
  | .segments _ _ :: _ => 1
  | _ => 0

theorem behind_lt (h : t.behind? c = some n) (ts : List Task) : n + headroom (t :: ts) < c.left := by
  obtain ⟨level, u, rfl, -, hpull, rfl⟩ := behind_eq_some_iff.mp h
  obtain ⟨hlt, hleft⟩ := left_pull hpull
  rwa [← hleft]

theorem left_of_behind {level : Nat} {u : Moved Head c.weight} (h : c.pull = .ok u)
    (hk : (Task.item level).behind? c = some k) : u.cursor.left = k := by
  obtain ⟨_, v, -, -, hpull, rfl⟩ := behind_eq_some_iff.mp hk
  cases h.symm.trans hpull
  exact (left_pull h).2

/-- What is read after a step has less left behind it than what is read in it. -/
theorem Moves.descends (h : Moves c t (d, us)) (hn : n + headroom (us ++ ts) < d.left) :
    n + headroom (t :: ts) < c.left ∧ ∀ k, t.behind? c = some k → n < k := by
  have hnd : n < d.left := Nat.lt_of_le_of_lt (Nat.le_add_right n _) hn
  cases h with
  | leaf _ h | content _ h | container _ _ _ h =>
    refine ⟨hnd.trans (left_pull h).1, fun k hk => ?_⟩
    rwa [← left_of_behind h hk]
  | @string _ u _ _ h =>
    -- The head that was put back is read again, so nothing is left behind before it is.
    obtain ⟨hlt, hleft⟩ := left_pull h
    have hnu : n < u.cursor.left := by
      rw [left_push, ← hleft] at hn
      exact Nat.lt_of_succ_lt_succ hn
    refine ⟨hnu.trans hlt, fun k hk => ?_⟩
    rwa [← left_of_behind h hk]
  | ended h | more h => exact ⟨hnd.trans_le (left_next_le h), nofun⟩
  | closed h | again _ h => exact ⟨Nat.lt_of_le_of_lt hnd (left_skip_lt h _), nofun⟩

theorem Run.descends (h : Run ts c log o) :
    (∀ n ∈ behinds log, n + headroom ts < c.left) ∧ (behinds log).Pairwise (· > ·) := by
  induction h with
  | done c => exact ⟨List.forall_mem_nil _, .nil⟩
  | @refused t ts c e h =>
    rw [behinds, List.filterMap_cons]
    cases ht : t.behind? c with
    | none => exact ⟨List.forall_mem_nil _, .nil⟩
    | some n => exact ⟨List.forall_mem_singleton.mpr (behind_lt ht ts), List.pairwise_singleton _ _⟩
  | @onward t ts us c d log o h _ ih =>
    have hstep := moves_of_step h
    rw [behinds, List.filterMap_cons]
    cases ht : t.behind? c with
    | none => exact ⟨fun n hn => (hstep.descends (ih.1 n hn)).1, ih.2⟩
    | some k =>
      refine ⟨List.forall_mem_cons.mpr ⟨behind_lt ht ts, fun n hn => (hstep.descends (ih.1 n hn)).1⟩, ?_⟩
      exact List.pairwise_cons.mpr ⟨fun n hn => (hstep.descends (ih.1 n hn)).2 k ht, ih.2⟩

end Heads

section Decode

variable {b s : Octets} {c : Cursor} {room : Nat} {u : Moved Item c.weight}

/-- An item has taken an octet for each of its nodes beside those of its strings. -/
theorem taken_of_item (hc : Stands b c s) (h : item room c = .ok u) :
    ∃ q r, s = q ++ r ∧ Rests b u.cursor r ∧ q ≠ [] ∧ u.value.nodes + u.value.stringOctets ≤ q.length := by
  obtain ⟨r, hread, hrest⟩ := (follows_item b room c s hc).exists_yields h
  obtain ⟨q, hs, hq⟩ := spells_of_read hread
  exact ⟨q, r, hs, hrest, List.ne_nil_of_length_pos hq.length_pos, nodes_add_stringOctets_le_of_spells hq⟩

/-- Decoding ends after at most three steps for each octet of the input and two more, whatever is declared in it. Each
node that is read has a head in the input, which ends where no other does, and the tree is no larger than the input with
all its strings. No level below the first that is refused is entered, and nothing is read on that one. -/
theorem decode_bounded (b : Octets) :
    decode b = Cbor.decode b ∧
      (∃ log, Run [.item 0] (start b) log ((item (maxNesting + 1) (start b)).map Moved.cursor) ∧
        (∀ log' o, Run [.item 0] (start b) log' o → log' = log) ∧
        log.length ≤ 3 * b.length + 2 ∧
        (∀ n ∈ behinds log, ∃ p q r head, b = p ++ (q ++ r) ∧ q ≠ [] ∧ HeadSpells q head ∧ r.length = n) ∧
        (behinds log).Pairwise (· > ·) ∧
        (∀ u, item (maxNesting + 1) (start b) = .ok u → (behinds log).length = u.value.nodes) ∧
        (∀ v ∈ log, Shallow v.1) ∧
        ∀ c, (.item (maxNesting + 1), c) ∈ log →
          item (maxNesting + 1) (start b) = .error (Flaw.tooDeep.fault c.offset)) ∧
      (∀ c, (Task.item (maxNesting + 1)).step c = .error (Flaw.tooDeep.fault c.offset)) ∧
      (∀ c s room u, Stands b c s → item room c = .ok u →
        ∃ q r, s = q ++ r ∧ Rests b u.cursor r ∧ q ≠ [] ∧ u.value.nodes + u.value.stringOctets ≤ q.length) ∧
      ∀ v, Cbor.decode b = .ok v → v.nodes + v.stringOctets ≤ b.length := by
  have hstart : Placed b (start b) := ⟨b, .rest (rests_start b)⟩
  have hshallow : ∀ t ∈ [Task.item 0], Shallow t := List.forall_mem_singleton.mpr (Nat.zero_le _)
  obtain ⟨log, hrun, hcount⟩ := performs_item (Nat.add_zero (maxNesting + 1)) (start b)
  rw [map_measured] at hrun
  refine ⟨decode_eq b, ⟨log, hrun, ?_, hrun.length_le, fun n => exists_head_of_mem_behinds hrun hstart,
    hrun.descends.2, ?_, hrun.shallow hshallow, ?_⟩, step_deep, fun _ _ _ _ => taken_of_item, ?_⟩
  · intro log' o h
    exact (h.unique hrun).1
  · intro u hu
    exact hcount u.cursor u.value.nodes (by rw [hu]; rfl)
  · intro c hc
    have hdeep := hrun.refused_of_deep hc
    cases hitem : item (maxNesting + 1) (start b) with
    | error e =>
      rw [hitem] at hdeep
      exact congrArg _ (Except.error.inj hdeep)
    | ok u =>
      rw [hitem] at hdeep
      cases hdeep
  · intro v hv
    exact nodes_add_stringOctets_le_of_spells (decode_eq_ok_iff_spells.mp hv).1

/-- An array of one string of one octet. -/
def boxedOctet : Octets := [0x81, 0x41, 0x07]

theorem decode_bounded_boxedOctet :
    Cbor.decode boxedOctet = .ok (.array [.bytes [7]]) ∧
      (Item.array [.bytes [7]]).nodes + (Item.array [.bytes [7]]).stringOctets ≤ 3 ∧
      ∃ log o, Run [.item 0] (start boxedOctet) log o ∧ log.length ≤ 11 ∧ (behinds log).length = 2 := by
  have h : Cbor.decode boxedOctet = .ok (.array [.bytes [7]]) := by cbv
  obtain ⟨hdecode, ⟨log, hrun, -, hsteps, -, -, hheads, -⟩, -, -, hsize⟩ := decode_bounded boxedOctet
  obtain ⟨u, hu, hvalue⟩ := bind_eq_ok_iff.mp (hdecode.trans h)
  simp only [refuse_eq_ok_iff, then_eq_ok_iff] at hvalue
  obtain ⟨-, -, hvalue⟩ := hvalue
  have hnodes : u.value.nodes = 2 := by
    rw [show u.value = .array [.bytes [7]] from Except.ok.inj hvalue]
    rfl
  exact ⟨h, hsize _ h, log, _, hrun, hsteps, (hheads u hu).trans hnodes⟩

example : Cbor.decode (0x9b :: List.replicate 8 0xff) = .error (.malformed "truncated CBOR data item") := by cbv

example :
    (Cbor.decode (List.replicate 128 0x81 ++ [0])).isOk ∧ ¬ (Cbor.decode (List.replicate 129 0x81 ++ [0])).isOk := by
  decide +kernel

end Decode

end Provenance.Cbor.Cursor
