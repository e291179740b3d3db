import Provenance.Cbor.Reader
import Provenance.Proofs.Cbor.Heads

/-!
Reading the parts of containers, for any reader of one part: up to a number of parts, up to a break, and in pairs.
-/
namespace Provenance.Cbor

/-- What fits is read, what does not is refused for its nesting. -/
def Answers {α : Type} {n : Nat} (fits : Prop) (x : Except Flaw (Taken α n)) (a : α) (r : Octets) : Prop :=
  (fits → Yields x a r) ∧ (¬ fits → x = .error .tooDeep)

theorem Wraps.answers {α β : Type} {m n : Nat} {fits : Prop} {x : Except Flaw (Taken α m)} {f : α → β}
    {y : Except Flaw (Taken β n)} (hw : Wraps x f y) {a : α} {r : Octets} (hx : Answers fits x a r) :
    Answers fits y (f a) r := by
  constructor
  · intro hf
    exact hw.yields_iff.mpr ⟨a, hx.1 hf, rfl⟩
  · intro hf
    obtain ⟨h, rfl⟩ := hw
    rw [hx.2 hf]
    rfl

theorem Answers.congr {α : Type} {n : Nat} {fits fits' : Prop} {x : Except Flaw (Taken α n)} {a : α} {r : Octets}
    (hx : Answers fits x a r) (h : fits ↔ fits') : Answers fits' x a r := by
  rwa [← propext h]

namespace Reader

section Step

variable {α : Type} {step : Reader α} {s r : Octets} {x : α}

theorem times_error {e : Flaw} (h : step s = .error e) (n : Nat) : times step (n + 1) s = .error e := by
  rw [times, h]

theorem times_succ (h : Yields (step s) x r) (n : Nat) :
    Wraps (times step n r) (x :: ·) (times step (n + 1) s) := by
  obtain ⟨hr, e⟩ := h
  refine ⟨by omega, ?_⟩
  rw [times, e]
  dsimp only
  cases times step n r <;> rfl

theorem untilStop_head_error {e : Flaw} (h : Head.read s = .error e) : untilStop step s = .error e := by
  rw [untilStop, h]

theorem untilStop_stop (h : Yields (Head.read s) .stop r) : Yields (untilStop step s) [] r := by
  obtain ⟨hr, e⟩ := h
  rw [untilStop, e]
  exact yields_ok _

theorem untilStop_more {hd : Head} {u : Octets} (hhead : Yields (Head.read s) hd u) (hstop : hd ≠ .stop)
    (h : Yields (step s) x r) : Wraps (untilStop step r) (x :: ·) (untilStop step s) := by
  obtain ⟨hu, e⟩ := hhead
  obtain ⟨hr, e'⟩ := h
  refine ⟨Nat.le_of_lt hr, ?_⟩
  rw [untilStop, e]
  cases hd with
  | stop => exact absurd rfl hstop
  | _ =>
    simp only [e']
    cases untilStop step r <;> rfl

theorem untilStop_error {hd : Head} {u : Octets} (hhead : Yields (Head.read s) hd u) (hstop : hd ≠ .stop) {e : Flaw}
    (h : step s = .error e) : untilStop step s = .error e := by
  obtain ⟨hu, e'⟩ := hhead
  rw [untilStop, e']
  cases hd with
  | stop => exact absurd rfl hstop
  | _ => simp only [h]

theorem pair_error {e : Flaw} (h : step s = .error e) : pair step s = .error e := by
  unfold pair
  rw [h]

theorem pair_ok (h : Yields (step s) x r) : Wraps (step r) (x, ·) (pair step s) := by
  obtain ⟨hr, e⟩ := h
  refine ⟨Nat.le_of_lt hr, ?_⟩
  unfold pair
  rw [e]
  dsimp only
  cases step r <;> rfl

end Step

section Complete

variable {π α : Type} {octets : π → Octets} {value : π → α} {fits : π → Prop} {step : Reader α}

theorem answers_times {ps : List π} (h : ∀ p ∈ ps, ∀ r, Answers (fits p) (step (octets p ++ r)) (value p) r)
    (r : Octets) :
    Answers (∀ p ∈ ps, fits p) (times step ps.length (ps.flatMap octets ++ r)) (ps.map value) r := by
  induction ps with
  | nil => exact ⟨fun _ => yields_ok _, fun hn => absurd (by simp) hn⟩
  | cons p ps ih =>
    obtain ⟨hp, hps⟩ := List.forall_mem_cons.mp h
    rw [List.flatMap_cons, List.append_assoc, List.length_cons, List.map_cons]
    by_cases hf : fits p
    · have hwraps := times_succ ((hp (ps.flatMap octets ++ r)).1 hf) ps.length
      exact (hwraps.answers (ih hps)).congr (by simp [hf])
    · exact ⟨fun hall => absurd (hall p (by simp)) hf, fun _ => times_error ((hp _).2 hf) _⟩

theorem answers_untilStop {ps : List π} (h : ∀ p ∈ ps, ∀ r, Answers (fits p) (step (octets p ++ r)) (value p) r)
    (hhead : ∀ p ∈ ps, ∃ hd c d, HeadSpells c hd ∧ hd ≠ .stop ∧ octets p = c ++ d) (r : Octets) :
    Answers (∀ p ∈ ps, fits p) (untilStop step (ps.flatMap octets ++ initial 7 31 :: r)) (ps.map value) r := by
  induction ps with
  | nil =>
    have hstop : Yields (Head.read (initial 7 31 :: r)) .stop r := head_read_iff.mpr ⟨[initial 7 31], rfl, rfl⟩
    exact ⟨fun _ => untilStop_stop hstop, fun hn => absurd (by simp) hn⟩
  | cons p ps ih =>
    obtain ⟨hp, hps⟩ := List.forall_mem_cons.mp h
    obtain ⟨hhead, hheads⟩ := List.forall_mem_cons.mp hhead
    obtain ⟨hd, c, d, hc, hstop, hb⟩ := hhead
    rw [List.flatMap_cons, List.append_assoc, List.map_cons]
    have hread := read_of_headSpells hc (d ++ (ps.flatMap octets ++ initial 7 31 :: r))
    rw [← List.append_assoc, ← hb] at hread
    by_cases hf : fits p
    · have hwraps := untilStop_more hread hstop ((hp (ps.flatMap octets ++ initial 7 31 :: r)).1 hf)
      exact (hwraps.answers (ih hps hheads)).congr (by simp [hf])
    · refine ⟨fun hall => absurd (hall p (by simp)) hf, fun _ => ?_⟩
      exact untilStop_error hread hstop ((hp _).2 hf)

theorem answers_pair {f g : Prop} {b c r : Octets} {x y : α} (hx : Answers f (step (b ++ (c ++ r))) x (c ++ r))
    (hy : Answers g (step (c ++ r)) y r) : Answers (f ∧ g) (pair step (b ++ (c ++ r))) (x, y) r := by
  by_cases hf : f
  · have hwraps := pair_ok (hx.1 hf)
    exact (hwraps.answers hy).congr (by simp [hf])
  · exact ⟨fun h => absurd h.1 hf, fun _ => pair_error (hx.2 hf)⟩

end Complete

section Sound

variable {π α : Type} {octets : π → Octets} {value : π → α} {good : π → Prop} {step : Reader α}

theorem pieces_of_times (hstep : ∀ s x r, Yields (step s) x r → ∃ p, good p ∧ value p = x ∧ s = octets p ++ r)
    {n : Nat} {s r : Octets} {xs : List α} (h : Yields (times step n s) xs r) :
    ∃ ps : List π, (∀ p ∈ ps, good p) ∧ ps.map value = xs ∧ ps.length = n ∧ s = ps.flatMap octets ++ r := by
  induction n generalizing s xs with
  | zero =>
    obtain ⟨rfl, rfl⟩ := yields_ok_iff.mp h
    exact ⟨[], by simp, rfl, rfl, rfl⟩
  | succ n ih =>
    cases hs : step s with
    | error e =>
      rw [times_error hs] at h
      exact (not_yields_error h).elim
    | ok t =>
      have ht : Yields (step s) t.value t.rest := ⟨t.shorter, hs⟩
      obtain ⟨ys, hys, rfl⟩ := (times_succ ht n).yields_iff.mp h
      obtain ⟨p, hp, hx, hsplit⟩ := hstep s _ _ ht
      obtain ⟨ps, hps, rfl, rfl, hrest⟩ := ih hys
      refine ⟨p :: ps, List.forall_mem_cons.mpr ⟨hp, hps⟩, by rw [List.map_cons, hx], rfl, ?_⟩
      rw [List.flatMap_cons, List.append_assoc, ← hrest]
      exact hsplit

theorem pieces_of_untilStop (hstep : ∀ s x r, Yields (step s) x r → ∃ p, good p ∧ value p = x ∧ s = octets p ++ r)
    {s r : Octets} {xs : List α} (h : Yields (untilStop step s) xs r) :
    ∃ ps : List π, (∀ p ∈ ps, good p) ∧ ps.map value = xs ∧ s = ps.flatMap octets ++ initial 7 31 :: r := by
  induction s using Octets.inductShorter generalizing xs with
  | step s ih =>
    obtain ⟨e, hread⟩ | ⟨b, hd, u, hs, hb, hread⟩ := head_read_cases s
    · rw [untilStop_head_error hread] at h
      exact (not_yields_error h).elim
    by_cases hstop : hd = .stop
    · subst hstop
      cases hb
      have hnil : Yields (untilStop step s) [] u := untilStop_stop hread
      obtain ⟨rfl, rfl⟩ := yields_unique hnil h
      exact ⟨[], by simp, rfl, hs⟩
    · cases hx : step s with
      | error e =>
        rw [untilStop_error hread hstop hx] at h
        exact (not_yields_error h).elim
      | ok t =>
        have ht : Yields (step s) t.value t.rest := ⟨t.shorter, hx⟩
        obtain ⟨ys, hys, rfl⟩ := (untilStop_more hread hstop ht).yields_iff.mp h
        obtain ⟨p, hp, hx, hsplit⟩ := hstep s _ _ ht
        obtain ⟨ps, hps, rfl, hrest⟩ := ih _ t.shorter hys
        refine ⟨p :: ps, List.forall_mem_cons.mpr ⟨hp, hps⟩, by rw [List.map_cons, hx], ?_⟩
        rw [List.flatMap_cons, List.append_assoc, ← hrest]
        exact hsplit

end Sound

end Reader

end Provenance.Cbor
