import Provenance.Proofs.Cbor.Cursor
import Provenance.Proofs.Cbor.Nodes

/-!
The decoder as a machine that takes one step after the other: no step repeats anything, and what is still to be read
waits in a list. The decoder counts down the levels that it has room for, and the machine counts up those that it is in.
-/
namespace Provenance.Cbor.Cursor

/-- What is to be read: an item on a level, the entries of a container after the `read` ones, with items on a level, or
the segments of a string that `nested` heads without a length stand before. -/
inductive Task
  | item (level : Nat)
  | entries (level : Nat) (keyed : Bool) (size? : Option Nat) (read : Nat)
  | segments (textual : Bool) (nested : Nat)

/-- Where a step leads, and what is to be read from there on before anything that waited. -/
abbrev Stage := Cursor × List Task

/-- One segment of a string, or the break after the last. -/
def segment {α : Type} (k : Strand α) (again : Nat → Task) (nested : Nat) (c : Cursor) : Outcome Stage :=
  match c.pull with
  | .error e => .error e
  | .ok ⟨.stop, d, _⟩ =>
    match nested with
    | 0 => .error (malformedAt c.offset)
    | 1 => .ok (d, [])
    | n + 2 => .ok (d, [again (n + 1)])
  | .ok ⟨head, d, _⟩ =>
    match k.size? head with
    | none => .error (malformedAt c.offset)
    | some none => .ok (d, [again (nested + 1)])
    | some (some n) => (run k n c.offset d).map fun m => (m.cursor, if nested = 0 then [] else [again nested])

/-- What follows the head of an item that begins at `start`. -/
def within (level start : Nat) (d : Cursor) : Head → Outcome Stage
  | .unsigned _ | .negative _ | .float _ => .ok (d, [])
  | .simple n => ((Item.ofSimple n).mapError (Flaw.fault start)).map fun _ => (d, [])
  | .stop => .error (Flaw.strayBreak.fault start)
  | .bytes size? => .ok (d.push (.bytes size?), [.segments false 0])
  | .text size? => .ok (d.push (.text size?), [.segments true 0])
  | .tag _ => .ok (d, [.item (level + 1)])
  | .array size? => .ok (d, [.entries (level + 1) false size? 0])
  | .map size? => .ok (d, [.entries (level + 1) true size? 0])

namespace Task

/-- The items of one entry. -/
def entry (level : Nat) (keyed : Bool) : List Task := if keyed then [item level, item level] else [item level]

def step : Task → Cursor → Outcome Stage
  | item level, c =>
    if maxNesting < level then .error (Flaw.tooDeep.fault c.offset)
    else
      match c.pull with
      | .error e => .error e
      | .ok ⟨head, d, _⟩ => within level c.offset d head
  | entries level keyed size? read, c =>
    (next size? read c).map fun m =>
      (m.cursor, if m.value then entry level keyed ++ [entries level keyed size? (read + 1)] else [])
  | segments false nested, c => segment .bytes (segments false) nested c
  | segments true nested, c => segment .text (segments true) nested c

/-- The number of octets that are left after the head of an item, once it is read. -/
def behind? : Task → Cursor → Option Nat
  | item level, c => if maxNesting < level then none else c.pull.toOption.map fun m => m.cursor.unread.length
  | _, _ => none

end Task

/-- A visit of the machine: what was to be read, and where. -/
abbrev Visit := Task × Cursor

/-- The machine reads what waits until nothing does or a step is refused. -/
inductive Run : List Task → Cursor → List Visit → Outcome Cursor → Prop
  | done (c : Cursor) : Run [] c [] (.ok c)
  | refused {t : Task} {ts : List Task} {c : Cursor} {e : Fault} (h : t.step c = .error e) :
      Run (t :: ts) c [(t, c)] (.error e)
  | onward {t : Task} {ts us : List Task} {c d : Cursor} {log : List Visit} {o : Outcome Cursor}
      (h : t.step c = .ok (d, us)) (hrun : Run (us ++ ts) d log o) : Run (t :: ts) c ((t, c) :: log) o

/-- The heads of items that were read, each as what was left after it. -/
def behinds (log : List Visit) : List Nat := log.filterMap fun v => v.1.behind? v.2

namespace Run

variable {ts us : List Task} {c d : Cursor} {log log' : List Visit} {o o' : Outcome Cursor}

theorem unique (h : Run ts c log o) (h' : Run ts c log' o') : log = log' ∧ o = o' := by
  induction h generalizing log' o' with
  | done c =>
    cases h'
    exact ⟨rfl, rfl⟩
  | refused h =>
    cases h' with
    | refused h' =>
      cases h.symm.trans h'
      exact ⟨rfl, rfl⟩
    | onward h' => cases h.symm.trans h'
  | onward h _ ih =>
    cases h' with
    | refused h' => cases h.symm.trans h'
    | onward h' hrun' =>
      cases h.symm.trans h'
      obtain ⟨rfl, rfl⟩ := ih hrun'
      exact ⟨rfl, rfl⟩

theorem append (h : Run ts c log (.ok d)) (h' : Run us d log' o) : Run (ts ++ us) c (log ++ log') o := by
  generalize hd : (Except.ok d : Outcome Cursor) = o₁ at h
  induction h with
  | done c =>
    cases hd
    exact h'
  | refused h => cases hd
  | onward h _ ih =>
    rw [List.append_assoc] at ih
    exact .onward h (ih hd)

theorem append_error {e : Fault} (h : Run ts c log (.error e)) (us : List Task) : Run (ts ++ us) c log (.error e) := by
  generalize he : (Except.error e : Outcome Cursor) = o₁ at h
  induction h with
  | done c => cases he
  | refused h =>
    cases he
    exact .refused h
  | onward h _ ih =>
    rw [List.append_assoc] at ih
    exact .onward h (ih he)

end Run

/-- Induction from what holds at all lighter cursors. -/
theorem inductLighter {motive : Cursor → Prop}
    (step : ∀ c : Cursor, (∀ d : Cursor, d.weight < c.weight → motive d) → motive c) (c : Cursor) : motive c := by
  induction hn : c.weight using Nat.strong_induction_on generalizing c with
  | h n ih =>
    subst hn
    exact step c fun d hd => ih _ hd d rfl

section Performs

/-- The machine comes from `ts` to the outcome, and if that is a cursor, then with so many heads read. -/
def Performs (ts : List Task) (c : Cursor) (o : Outcome (Cursor × Nat)) : Prop :=
  ∃ log, Run ts c log (o.map Prod.fst) ∧ ∀ d n, o = .ok (d, n) → (behinds log).length = n

/-- The cursor after a reading, and what counts of its value. -/
def measured {α : Type} {m : Nat} (f : α → Nat) (y : Outcome (Moved α m)) : Outcome (Cursor × Nat) :=
  y.map fun u => (u.cursor, f u.value)

def counted (n : Nat) (o : Outcome (Cursor × Nat)) : Outcome (Cursor × Nat) := o.map fun p => (p.1, n + p.2)

variable {α β : Type} {m n : Nat} {t : Task} {ts us : List Task} {c d : Cursor} {o o' : Outcome (Cursor × Nat)}
  {e : Fault}

theorem Carries.measured {y : Outcome (Moved α m)} {f : α → β} {z : Outcome (Moved β n)} (h : Carries y f z)
    (g : β → Nat) : Cursor.measured g z = Cursor.measured (g ∘ f) y := by
  obtain ⟨_, rfl⟩ := h
  cases y <;> rfl

theorem counted_measured (n : Nat) (f : α → Nat) (y : Outcome (Moved α m)) :
    counted n (measured f y) = measured (fun a => n + f a) y := by
  cases y <;> rfl

theorem map_measured (f : α → Nat) (y : Outcome (Moved α m)) : (measured f y).map Prod.fst = y.map Moved.cursor := by
  cases y <;> rfl

theorem measured_eq_error {f : α → Nat} {y : Outcome (Moved α m)} (h : measured f y = .error e) : y = .error e := by
  cases y with
  | error _ =>
    cases h
    rfl
  | ok u => cases h

theorem measured_eq_ok {f : α → Nat} {y : Outcome (Moved α m)} (h : measured f y = .ok (d, n)) :
    ∃ u, y = .ok u ∧ u.cursor = d ∧ f u.value = n := by
  cases y with
  | error e => cases h
  | ok u =>
    cases h
    exact ⟨u, rfl, rfl, rfl⟩

theorem performs_nil (c : Cursor) : Performs [] c (.ok (c, 0)) := by
  refine ⟨[], .done c, ?_⟩
  rintro d n ⟨⟩
  rfl

theorem performs_refused {f : α → Nat} {y : Outcome (Moved α m)} (h : t.step c = .error e) (hy : y = .error e) :
    Performs [t] c (measured f y) := by
  rw [hy]
  exact ⟨_, .refused h, nofun⟩

theorem performs_onward (h : t.step c = .ok (d, us)) (hus : Performs us d o) :
    Performs [t] c (counted (t.behind? c).toList.length o) := by
  obtain ⟨log, hrun, hcount⟩ := hus
  refine ⟨(t, c) :: log, .onward h ?_, ?_⟩
  · rw [List.append_nil, counted]
    cases o <;> exact hrun
  · intro d' n ho
    cases o with
    | error e => cases ho
    | ok p =>
      cases ho
      rw [behinds, List.filterMap_cons, ← hcount p.1 p.2 rfl, behinds]
      cases t.behind? c <;> simp [Nat.add_comm]

theorem performs_after (hbehind : t.behind? c = none) (h : t.step c = .ok (d, us)) (hus : Performs us d o) :
    Performs [t] c o := by
  have hcount := performs_onward h hus
  rw [hbehind] at hcount
  cases o with
  | error e => exact hcount
  | ok p => simpa [counted, Except.map] using hcount

theorem performs_append (h : Performs ts c o) (herror : ∀ e, o = .error e → o' = .error e)
    (hmore : ∀ d n, o = .ok (d, n) → ∃ o₁, Performs us d o₁ ∧ o' = counted n o₁) : Performs (ts ++ us) c o' := by
  obtain ⟨log, hrun, hcount⟩ := h
  cases o with
  | error e =>
    rw [herror e rfl]
    exact ⟨log, hrun.append_error us, nofun⟩
  | ok p =>
    obtain ⟨o₁, ⟨log', hrun', hcount'⟩, rfl⟩ := hmore p.1 p.2 rfl
    refine ⟨log ++ log', hrun.append ?_, ?_⟩
    · cases o₁ <;> exact hrun'
    · intro d n ho
      cases o₁ with
      | error e => cases ho
      | ok q =>
        cases ho
        rw [behinds, List.filterMap_append, List.length_append, ← hcount p.1 p.2 rfl, ← hcount' q.1 q.2 rfl]
        rfl

end Performs

section Segments

variable {α : Type} {k : Strand α} {again : Nat → Task} {nested : Nat} {c : Cursor} {u : Moved Head c.weight}

theorem segments_stray (h : c.pull = .ok u) (hu : u.value = .stop) :
    segments k 0 c = .error (malformedAt c.offset) := by
  obtain ⟨head, d, hd⟩ := u
  cases hu
  rw [segments, h]

theorem segment_error {e : Fault} (h : c.pull = .error e) : segment k again nested c = .error e := by
  rw [segment, h]

theorem segment_stop (h : c.pull = .ok u) (hu : u.value = .stop) :
    segment k again nested c =
      match nested with
      | 0 => .error (malformedAt c.offset)
      | 1 => .ok (u.cursor, [])
      | n + 2 => .ok (u.cursor, [again (n + 1)]) := by
  obtain ⟨head, d, hd⟩ := u
  cases hu
  rw [segment, h]

theorem segment_head (h : c.pull = .ok u) (hu : u.value ≠ .stop) :
    segment k again nested c =
      match k.size? u.value with
      | none => .error (malformedAt c.offset)
      | some none => .ok (u.cursor, [again (nested + 1)])
      | some (some n) =>
        (run k n c.offset u.cursor).map fun m => (m.cursor, if nested = 0 then [] else [again nested]) := by
  obtain ⟨head, d, hd⟩ := u
  rw [segment, h]
  cases head with
  | stop => exact absurd rfl hu
  | _ => rfl

variable (hstep : ∀ n c, (again n).step c = segment k again n c) (hbehind : ∀ n c, (again n).behind? c = none)

include hstep in
theorem performs_segments_refused {e : Fault} (h : segment k again nested c = .error e)
    (hy : segments k nested c = .error e) : Performs [again nested] c (measured (fun _ => 0) (segments k nested c)) :=
  performs_refused ((hstep nested c).trans h) hy

include hstep hbehind

theorem performs_segment {d : Cursor} {us : List Task} {o : Outcome (Cursor × Nat)}
    (h : segment k again nested c = .ok (d, us)) (hus : Performs us d o) : Performs [again nested] c o :=
  performs_after (hbehind nested c) ((hstep nested c).trans h) hus

variable (ih : ∀ d, d.weight < c.weight → ∀ nested,
  Performs [again nested] d (measured (fun _ => 0) (segments k nested d)))

include ih

theorem performs_segments_stop (h : c.pull = .ok u) (hu : u.value = .stop) :
    Performs [again nested] c (measured (fun _ => 0) (segments k nested c)) := by
  have hsegment : segment k again nested c = _ := segment_stop h hu
  match nested with
  | 0 => exact performs_segments_refused hstep hsegment (segments_stray h hu)
  | 1 =>
    rw [segments_end h hu]
    exact performs_segment hstep hbehind hsegment (performs_nil u.cursor)
  | n + 2 =>
    rw [(segments_leave h hu).measured]
    exact performs_segment hstep hbehind hsegment (ih _ u.lighter _)

theorem performs_segments_sized {n : Nat} (h : c.pull = .ok u) (hu : u.value ≠ .stop)
    (hsize : k.size? u.value = some (some n)) :
    Performs [again nested] c (measured (fun _ => 0) (segments k nested c)) := by
  have hsegment : segment k again nested c = _ := segment_head h hu
  rw [hsize] at hsegment
  dsimp only at hsegment
  cases hrun : run k n c.offset u.cursor with
  | error e =>
    rw [hrun] at hsegment
    exact performs_segments_refused hstep hsegment (segments_refuse h hu hsize hrun)
  | ok v =>
    rw [hrun] at hsegment
    cases nested with
    | zero =>
      obtain ⟨hv, hwhole⟩ := segments_whole h hu hsize hrun
      rw [hwhole]
      exact performs_segment hstep hbehind hsegment (performs_nil v.cursor)
    | succ nested =>
      rw [(segments_cons h hu hsize hrun).measured]
      exact performs_segment hstep hbehind hsegment (ih _ (Nat.lt_of_lt_of_le v.lighter u.lighter) _)

omit ih

theorem performs_segments (nested : Nat) (c : Cursor) :
    Performs [again nested] c (measured (fun _ => 0) (segments k nested c)) := by
  -- A cursor weighs less after each head, also after one that was put back.
  induction c using inductLighter generalizing nested with
  | step c ih =>
    cases hpull : c.pull with
    | error e => exact performs_segments_refused hstep (segment_error hpull) (segments_error hpull)
    | ok u =>
      by_cases hstop : u.value = .stop
      · exact performs_segments_stop hstep hbehind ih hpull hstop
      · have hsegment : segment k again nested c = _ := segment_head hpull hstop
        cases hsize : k.size? u.value with
        | none =>
          rw [hsize] at hsegment
          exact performs_segments_refused hstep hsegment (segments_other hpull hstop hsize)
        | some size? =>
          cases size? with
          | none =>
            rw [hsize] at hsegment
            rw [(segments_enter hpull hstop hsize).measured]
            exact performs_segment hstep hbehind hsegment (ih _ u.lighter _)
          | some n => exact performs_segments_sized hstep hbehind ih hpull hstop hsize

end Segments

section Entries

variable {α : Type} {step : Step α} {f : α → Nat}

theorem performs_pair {ts : List Task} (h : ∀ c, Performs ts c (measured f (step c))) (c : Cursor) :
    Performs (ts ++ ts) c (measured (fun p => f p.1 + f p.2) (pair step c)) := by
  refine performs_append (h c) ?_ ?_
  · intro e he
    rw [pair_error (measured_eq_error he)]
    rfl
  · intro d n ho
    obtain ⟨u, hu, rfl, rfl⟩ := measured_eq_ok ho
    refine ⟨_, h u.cursor, ?_⟩
    rw [(pair_ok hu).measured, counted_measured]
    rfl

theorem performs_entries (level : Nat) (keyed : Bool)
    (h : ∀ c, Performs (Task.entry level keyed) c (measured f (step c)))
    (size? : Option Nat) (read : Nat) (c : Cursor) :
    Performs [.entries level keyed size? read] c (measured (sumOf f) (entries step size? read c)) := by
  induction c using inductLighter generalizing read with
  | step c ih =>
    cases hnext : next size? read c with
    | error e => exact performs_refused (by rw [Task.step, hnext]; rfl) (entries_error hnext)
    | ok m =>
      obtain ⟨more, d, hd⟩ := m
      have hstep : (Task.entries level keyed size? read).step c =
          .ok (d, if more then Task.entry level keyed ++ [.entries level keyed size? (read + 1)] else []) := by
        rw [Task.step, hnext]
        rfl
      cases more with
      | false =>
        rw [entries_end hnext]
        exact performs_after rfl hstep (performs_nil d)
      | true =>
        -- The items of the entry are read where it was found, and the entries after it where they end.
        refine performs_after rfl hstep (performs_append (h d) ?_ ?_)
        · intro e he
          rw [entries_refuse hnext (measured_eq_error he)]
          rfl
        · intro d' n ho
          obtain ⟨u, hu, rfl, rfl⟩ := measured_eq_ok ho
          refine ⟨_, ih u.cursor (Nat.lt_of_lt_of_le u.lighter (Nat.le_of_lt_succ hd)) _, ?_⟩
          rw [(entries_cons hnext hu).measured, counted_measured]
          rfl

end Entries

section Item

variable {level : Nat} {c : Cursor}

theorem step_item {u : Moved Head c.weight} (hlevel : level ≤ maxNesting) (h : c.pull = .ok u) :
    (Task.item level).step c = within level c.offset u.cursor u.value := by
  rw [Task.step, if_neg (Nat.not_lt.mpr hlevel), h]

section Head

variable {m n : Nat} {u : Moved Head c.weight} {d : Cursor} {us : List Task} {z : Outcome (Moved Item n)}
  (hlevel : level ≤ maxNesting) (hpull : c.pull = .ok u)

include hlevel hpull

/-- The head of an item is one of those that are read, whatever follows it. -/
theorem performs_head {o : Outcome (Cursor × Nat)} (h : within level c.offset u.cursor u.value = .ok (d, us))
    (hus : Performs us d o) : Performs [.item level] c (counted 1 o) := by
  have hbehind : (Task.item level).behind? c = some u.cursor.unread.length := by
    rw [Task.behind?, if_neg (Nat.not_lt.mpr hlevel), hpull]
    rfl
  have hperforms := performs_onward ((step_item hlevel hpull).trans h) hus
  rwa [hbehind] at hperforms

theorem performs_leaf {x : Item} {hd : d.weight < n} (h : within level c.offset u.cursor u.value = .ok (d, []))
    (hx : x.nodes = 1) (hz : z = .ok ⟨x, d, hd⟩) : Performs [.item level] c (measured Item.nodes z) := by
  have hperforms := performs_head hlevel hpull h (performs_nil d)
  rw [hz, measured, map_ok, hx]
  exact hperforms

theorem performs_whole {β : Type} {y : Outcome (Moved β m)} {g : β → Item} {f : β → Nat}
    (h : within level c.offset u.cursor u.value = .ok (d, us)) (hnodes : ∀ a, (g a).nodes = 1 + f a)
    (hz : Carries y g z) (hus : Performs us d (measured f y)) : Performs [.item level] c (measured Item.nodes z) := by
  have hperforms := performs_head hlevel hpull h hus
  have hsum : Item.nodes ∘ g = fun a => 1 + f a := funext hnodes
  rwa [hz.measured, hsum, ← counted_measured]

end Head

theorem nodes_of_ofSimple {n : UInt8} {x : Item} (h : Item.ofSimple n = .ok x) : x.nodes = 1 := by
  unfold Item.ofSimple at h
  split_ifs at h <;>
  · cases h
    rfl

/-- The machine does what the decoder does, and reads one head for each node of the item. -/
theorem performs_item {room : Nat} (h : room + level = maxNesting + 1) (c : Cursor) :
    Performs [.item level] c (measured Item.nodes (item room c)) := by
  induction room generalizing level c with
  | zero => exact performs_refused (by rw [Task.step, if_pos (by omega)]) rfl
  | succ room ih =>
    have hlevel : level ≤ maxNesting := by omega
    have hinner : ∀ c, Performs [.item (level + 1)] c (measured Item.nodes (item room c)) := ih (by omega)
    cases hpull : c.pull with
    | error e => exact performs_refused (by rw [Task.step, if_neg (by omega), hpull]) (item_error hpull)
    | ok u =>
      obtain ⟨head, d, hd⟩ := u
      cases head with
      | unsigned | negative | float => exact performs_leaf hlevel hpull rfl rfl (by rw [item, hpull])
      | simple n =>
        have hwithin : within level c.offset d (.simple n) =
            ((Item.ofSimple n).mapError (Flaw.fault c.offset)).map fun _ => (d, []) := rfl
        have hz : item (room + 1) c =
            ((Item.ofSimple n).mapError (Flaw.fault c.offset)).map fun x => ⟨x, d, hd⟩ := by rw [item, hpull]
        cases hn : Item.ofSimple n with
        | error e =>
          rw [hn] at hwithin hz
          exact performs_refused ((step_item hlevel hpull).trans hwithin) hz
        | ok x =>
          rw [hn] at hwithin hz
          exact performs_leaf hlevel hpull hwithin (nodes_of_ofSimple hn) hz
      | stop => exact performs_refused (step_item hlevel hpull) (by rw [item, hpull])
      | bytes size? =>
        have hz : Carries (segments .bytes 0 (d.push (.bytes size?))) (Item.bytes ∘ Strand.bytes.join)
            (item (room + 1) c) := ⟨_, by rw [item, hpull]⟩
        exact performs_whole hlevel hpull rfl (fun _ => rfl) hz
          (performs_segments (fun _ _ => rfl) (fun _ _ => rfl) 0 _)
      | text size? =>
        have hz : Carries (segments .text 0 (d.push (.text size?))) (Item.text ∘ Strand.text.join)
            (item (room + 1) c) := ⟨_, by rw [item, hpull]⟩
        exact performs_whole hlevel hpull rfl (fun _ => rfl) hz
          (performs_segments (fun _ _ => rfl) (fun _ _ => rfl) 0 _)
      | tag t =>
        have hz : Carries (item room d) (Item.tag t) (item (room + 1) c) := ⟨hd.le, by rw [item, hpull]⟩
        exact performs_whole hlevel hpull rfl (fun _ => rfl) hz (hinner d)
      | array size? =>
        have hz : Carries (entries (item room) size? 0 d) Item.array (item (room + 1) c) :=
          ⟨hd, by rw [item, hpull]⟩
        exact performs_whole hlevel hpull rfl (Item.total_array _) hz (performs_entries _ false hinner size? 0 d)
      | map size? =>
        have hz : Carries (entries (pair (item room)) size? 0 d) Item.map (item (room + 1) c) :=
          ⟨hd, by rw [item, hpull]⟩
        exact performs_whole hlevel hpull rfl (Item.total_map _) hz
          (performs_entries _ true (performs_pair hinner) size? 0 d)

end Item

end Provenance.Cbor.Cursor
