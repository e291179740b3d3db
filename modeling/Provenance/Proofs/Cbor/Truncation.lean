import Provenance.Proofs.Text.Utf8
import Provenance.Proofs.Cbor.Language

/-!
What is left of octets that are cut off: reading goes the same way up to the cut and then reports that they end.
-/
namespace Provenance.Cbor

/-- What the reading of octets without their last `s` shows when the reading of all of them ends well. -/
def Foretells {α : Type} {m n : Nat} (x : Except Flaw (Taken α m)) (y : Except Flaw (Taken α n)) (s : Octets) : Prop :=
  ∀ a r, Yields y a r → (∃ t, Yields x a t ∧ r = t ++ s) ∨ x = .error .truncated

section Foretells

variable {α β : Type} {m n m' n' : Nat} {x : Except Flaw (Taken α m)} {y : Except Flaw (Taken α n)}
  {x' : Except Flaw (Taken β m')} {y' : Except Flaw (Taken β n')} {s : Octets}

theorem foretells_of_yields {a : α} {t : Octets} (hx : Yields x a t) (hy : Yields y a (t ++ s)) : Foretells x y s := by
  intro b r hb
  obtain ⟨rfl, rfl⟩ := yields_unique hy hb
  exact .inl ⟨t, hx, rfl⟩

theorem foretells_of_error {e : Flaw} (hy : y = .error e) : Foretells x y s := by
  intro a r h
  rw [hy] at h
  exact (not_yields_error h).elim

theorem Foretells.wraps {f : α → β} (h : Foretells x y s) (hx : Wraps x f x') (hy : Wraps y f y') :
    Foretells x' y' s := by
  intro b r hb
  obtain ⟨a, ha, rfl⟩ := hy.yields_iff.mp hb
  obtain ⟨t, ht, rfl⟩ | he := h a r ha
  · exact .inl ⟨t, hx.yields_iff.mpr ⟨a, ht, rfl⟩, rfl⟩
  · obtain ⟨_, rfl⟩ := hx
    rw [he]
    exact .inr rfl

/-- A reading of several parts, whose first is `x` and `y`. -/
theorem Foretells.andThen (h : Foretells x y s) (hx : ∀ e, x = .error e → x' = .error e)
    (hy : ∀ e, y = .error e → y' = .error e)
    (hmore : ∀ a t, Yields x a t → Yields y a (t ++ s) → Foretells x' y' s) : Foretells x' y' s := by
  intro b r hb
  cases he : y with
  | error e =>
    rw [hy e he] at hb
    exact (not_yields_error hb).elim
  | ok u =>
    have hu : Yields y u.value u.rest := ⟨u.shorter, he⟩
    obtain ⟨t, ht, hr⟩ | htrunc := h _ _ hu
    · rw [hr] at hu
      exact hmore _ _ ht hu b r hb
    · exact .inr (hx _ htrunc)

end Foretells

theorem truncated_of_heading {major n width : Nat} {p u : Octets} (hm : major < 8) (h : Heading major n width (p ++ u))
    (hu : u ≠ []) : Head.read p = .error .truncated := by
  generalize hb : p ++ u = b at h
  obtain _ | ⟨x, p⟩ := p
  · rfl
  rw [List.cons_append] at hb
  cases h with
  | immediate =>
    obtain ⟨-, hnil⟩ := List.cons.inj hb
    exact absurd (List.append_eq_nil_iff.mp hnil).2 hu
  | @following info width hw hn =>
    obtain ⟨rfl, hrest⟩ := List.cons.inj hb
    have hi := announcements_bounds hw
    have hlt : info < 32 := by omega
    have hshort : ¬ width ≤ p.length := by
      have hlen := congrArg List.length hrest
      rw [List.length_append, Octets.length_ofNat] at hlen
      have := List.length_pos_iff.mpr hu
      omega
    simp only [Head.read, initial_div hm hlt, initial_mod hm hlt, if_neg (show ¬ info < 24 by omega),
      if_neg (show ¬ info = 31 by omega), argumentWidth?_eq_some_iff.mpr hw, if_neg hshort]

theorem foretells_head (p s : Octets) : Foretells (Head.read p) (Head.read (p ++ s)) s := by
  intro head r h
  obtain ⟨major, hm, ⟨n, width, b, hb, hsplit, ha⟩ | ⟨hsplit, ha⟩⟩ := heading_of_read h
  · obtain ⟨t, rfl, rfl⟩ | ⟨u, hu, rfl⟩ := Octets.cut_cases hsplit
    · exact .inl ⟨t, read_of_heading hm hb ha t, rfl⟩
    · exact .inr (truncated_of_heading hm hb hu)
  · obtain _ | ⟨x, p⟩ := p
    · exact .inr rfl
    · obtain ⟨rfl, rfl⟩ := List.cons.inj hsplit
      exact .inl ⟨p, read_of_open hm ha p, rfl⟩

theorem spoiledText_of_prefix {p : Octets} {cs : List Char} (h : p <+: cs.flatMap String.utf8EncodeChar) :
    spoiledText p = false := by
  induction p using Octets.inductShorter generalizing cs with
  | step p ih =>
    unfold spoiledText
    split
    · rfl
    next hlong =>
    obtain ⟨ds, es, q, rfl, hp, hq, hvalid⟩ := Text.validLength_prefix ((List.take_prefix textChunk p).trans h)
    have hlen : textChunk = (ds.flatMap String.utf8EncodeChar).length + q.length := by
      have := congrArg List.length hp
      rw [List.length_take, List.length_append] at this
      omega
    have hchunk : textChunk = 4096 := rfl
    -- The next chunk begins behind the last whole character, where the rest is a beginning of text again.
    have hpassed : ds.flatMap String.utf8EncodeChar <+: p :=
      List.IsPrefix.trans ⟨q, hp.symm⟩ (List.take_prefix textChunk p)
    rw [← List.prefix_iff_eq_append.mp hpassed, List.flatMap_append, List.prefix_append_right_inj] at h
    rw [hvalid]
    dsimp only
    rw [if_neg (by omega)]
    exact ih _ (by rw [List.length_drop]; omega) h

namespace Strand

variable {α : Type} {k : Strand α}

theorem foretells_segments_stop {d : Nat} {p s t : Octets}
    (h : ∀ d, Foretells (k.segments d t) (k.segments d (t ++ s)) s) (hread : Yields (Head.read p) .stop t)
    (hread' : Yields (Head.read (p ++ s)) .stop (t ++ s)) : Foretells (k.segments d p) (k.segments d (p ++ s)) s := by
  cases d with
  | zero =>
    exact foretells_of_yields ((segments_stop hread t).mpr ⟨rfl, rfl⟩) ((segments_stop hread' _).mpr ⟨rfl, rfl⟩)
  | succ d => exact (h d).wraps (segments_leave hread) (segments_leave hread')

variable [Append α] {major : Nat} {head : Option Nat → Head} {content : α → Octets}

/-- No beginning of a content is refused before its end is met. -/
def Patient (k : Strand α) (content : α → Octets) : Prop := ∀ p a, p <+: content a → k.spoiled p = false

theorem bytes_patient : bytes.Patient id := fun _ _ _ => rfl

theorem text_patient : text.Patient Text.octets := by
  intro p a h
  rw [Text.octets_eq_flatMap] at h
  exact spoiledText_of_prefix h

theorem foretells_run (hk : k.Lawful major head content) (hp : k.Patient content) (size left left' : Nat)
    (p s : Octets) : Foretells (k.run size left p) (k.run size left' (p ++ s)) s := by
  intro a r h
  obtain ⟨hsplit, hsize⟩ := (run_iff hk).mp h
  obtain ⟨t, rfl, rfl⟩ | ⟨u, hu, hcontent⟩ := Octets.cut_cases hsplit
  · exact .inl ⟨t, (run_iff hk).mpr ⟨rfl, hsize⟩, rfl⟩
  · right
    have hshort : ¬ size ≤ p.length := by
      rw [← hsize, hcontent, List.length_append]
      have := List.length_pos_iff.mpr hu
      omega
    have hspoiled : k.spoiled p = false := hp p a ⟨u, hcontent.symm⟩
    simp only [run, if_neg hshort, hspoiled, Bool.false_eq_true, if_false]

theorem foretells_segments (hk : k.Lawful major head content) (hp : k.Patient content) (d : Nat) (p s : Octets) :
    Foretells (k.segments d p) (k.segments d (p ++ s)) s := by
  induction p using Octets.inductShorter generalizing d with
  | step p ih =>
    refine (foretells_head p s).andThen (fun _ => segments_error) (fun _ => segments_error) ?_
    intro hd t hread hread'
    have ht := hread.length_lt
    cases hsize : k.size? hd with
    | none =>
      by_cases hstop : hd = .stop
      · subst hstop
        exact foretells_segments_stop (fun d => ih t ht d) hread hread'
      · exact foretells_of_error (segments_other hread' hstop hsize)
    | some size? =>
      have hstop := hk.ne_stop hsize
      cases size? with
      | none => exact (ih t ht (d + 1)).wraps (segments_enter hread hstop hsize) (segments_enter hread' hstop hsize)
      | some n =>
        refine (foretells_run hk hp n _ _ t s).andThen (fun _ => segments_refuse hread hstop hsize)
          (fun _ => segments_refuse hread' hstop hsize) ?_
        intro a u hrun hrun'
        have hu := hrun.length_lt
        exact (ih u (by omega) d).wraps (segments_cons hread hstop hsize hrun)
          (segments_cons hread' hstop hsize hrun')

theorem foretells_body (hk : k.Lawful major head content) (hp : k.Patient content) (size? : Option Nat) (p s : Octets) :
    Foretells (k.body size? p) (k.body size? (p ++ s)) s := by
  cases size? with
  | some n => exact foretells_run hk hp n _ _ p s
  | none => exact (foretells_segments hk hp 0 p s).wraps ⟨Nat.le_succ _, rfl⟩ ⟨Nat.le_succ _, rfl⟩

end Strand

namespace Reader

variable {α : Type} {step : Reader α}

theorem foretells_times (h : ∀ p s, Foretells (step p) (step (p ++ s)) s) (n : Nat) (p s : Octets) :
    Foretells (times step n p) (times step n (p ++ s)) s := by
  induction n generalizing p with
  | zero => exact foretells_of_yields (yields_ok _) (yields_ok _)
  | succ n ih =>
    refine (h p s).andThen (fun _ he => times_error he n) (fun _ he => times_error he n) ?_
    intro a t ha ha'
    exact (ih t).wraps (times_succ ha n) (times_succ ha' n)

theorem foretells_untilStop (h : ∀ p s, Foretells (step p) (step (p ++ s)) s) (p s : Octets) :
    Foretells (untilStop step p) (untilStop step (p ++ s)) s := by
  induction p using Octets.inductShorter with
  | step p ih =>
    refine (foretells_head p s).andThen (fun _ => untilStop_head_error) (fun _ => untilStop_head_error) ?_
    intro hd t hread hread'
    by_cases hstop : hd = .stop
    · subst hstop
      exact foretells_of_yields (untilStop_stop hread) (untilStop_stop hread')
    · refine (h p s).andThen (fun _ => untilStop_error hread hstop) (fun _ => untilStop_error hread' hstop) ?_
      intro a u ha ha'
      exact (ih u ha.length_lt).wraps (untilStop_more hread hstop ha) (untilStop_more hread' hstop ha')

theorem foretells_pair (h : ∀ p s, Foretells (step p) (step (p ++ s)) s) (p s : Octets) :
    Foretells (pair step p) (pair step (p ++ s)) s := by
  refine (h p s).andThen (fun _ => pair_error) (fun _ => pair_error) ?_
  intro a t ha ha'
  exact (h t s).wraps (pair_ok ha) (pair_ok ha')

end Reader

theorem foretells_item (room : Nat) (p s : Octets) : Foretells (Item.read room p) (Item.read room (p ++ s)) s := by
  induction room generalizing p s with
  | zero => exact foretells_of_error rfl
  | succ room ih =>
    refine (foretells_head p s).andThen (fun _ => Item.read_error) (fun _ => Item.read_error) ?_
    intro hd t hread hread'
    have hx := Item.readsOn room hread
    have hy := Item.readsOn room hread'
    cases hd with
    | unsigned | negative | float => exact foretells_of_yields hx hy
    | simple n =>
      intro x r h
      obtain ⟨hn, rfl⟩ := (hy x r).mp h
      exact .inl ⟨t, (hx x t).mpr ⟨hn, rfl⟩, rfl⟩
    | stop => exact foretells_of_error hy
    | bytes size? => exact (Strand.foretells_body Strand.bytes_lawful Strand.bytes_patient size? t s).wraps hx hy
    | text size? => exact (Strand.foretells_body Strand.text_lawful Strand.text_patient size? t s).wraps hx hy
    | tag => exact (ih t s).wraps hx hy
    | array size? =>
      cases size? with
      | some n => exact (Reader.foretells_times ih n t s).wraps hx hy
      | none => exact (Reader.foretells_untilStop ih t s).wraps hx hy
    | map size? =>
      cases size? with
      | some n => exact (Reader.foretells_times (Reader.foretells_pair ih) n t s).wraps hx hy
      | none => exact (Reader.foretells_untilStop (Reader.foretells_pair ih) t s).wraps hx hy

theorem decode_of_cut {p s : Octets} {v : Item} (h : decode (p ++ s) = .ok v) (hs : s ≠ []) :
    decode p = .error (.malformed "truncated CBOR data item") := by
  obtain ⟨hread, -⟩ := decode_eq_ok_iff_yields.mp h
  obtain ⟨t, -, ht⟩ | htrunc := foretells_item (maxNesting + 1) p s v [] hread
  · exact absurd (List.append_eq_nil_iff.mp ht.symm).2 hs
  · rw [decode, Item.ofOctets, htrunc]
    rfl

theorem decode_of_trailing {b s : Octets} {v : Item} (h : decode b = .ok v) (hs : s ≠ []) :
    decode (b ++ s) = .error (.malformed s!"{s.length} trailing bytes after CBOR data item") := by
  obtain ⟨hb, hfits, -⟩ := decode_eq_ok_iff_spells.mp h
  obtain ⟨hr, hread⟩ := (answers_of_spells hb (maxNesting + 1) s).1 hfits
  rw [decode, Item.ofOctets, hread]
  simp only [ok_bind, ne_eq, hs, not_false_eq_true, if_true]
  rfl

end Provenance.Cbor
