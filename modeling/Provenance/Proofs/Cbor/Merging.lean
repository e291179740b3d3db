import Mathlib.Data.List.Induction
import Mathlib.Data.List.Pairwise
import Provenance.Proofs.Cbor.Alike
import Provenance.Proofs.Cbor.Unambiguity

/-!
Merging entries into a map, which takes keys that are alike for one, against the encoding, which goes by their octets.
The two agree on a key that is like itself and like no other key given. A key with a NaN in it is added every time it is
given.
-/
namespace Provenance.Cbor

namespace Entries

variable {es fs : Entries} {k v x : Item} {b : Octets}

/-- The values that stand under a key with these octets, in order. -/
def under (es : Entries) (b : Octets) : List Item := (es.filter fun e => e.1.octets = b).map Prod.snd

/-- What comes of putting one entry after the other, starting from none. -/
def merged (es : Entries) : Entries := es.foldl (fun fs e => put fs e.1 e.2) []

/-- The octets of each key are those of no other item. -/
def Spelled (es : Entries) : Prop := ∀ e ∈ es, Spells e.1.octets e.1

section Under

theorem under_append : (es ++ fs).under b = es.under b ++ fs.under b := by
  rw [under, under, under, List.filter_append, List.map_append]

theorem under_cons (e : Item × Item) :
    under (e :: es) b = if e.1.octets = b then e.2 :: es.under b else es.under b := by
  unfold under
  rw [List.filter_cons]
  by_cases h : e.1.octets = b <;> simp [h]

theorem under_insert (l : Item) : under (es ++ (l, v) :: fs) b =
    if l.octets = b then es.under b ++ v :: fs.under b else es.under b ++ fs.under b := by
  rw [under_append, under_cons]
  split <;> rfl

theorem mem_under_iff : v ∈ es.under b ↔ ∃ k, (k, v) ∈ es ∧ k.octets = b := by
  simp [under]

theorem under_eq_nil (h : ∀ e ∈ es, e.1.octets ≠ b) : es.under b = [] := by
  apply List.eq_nil_iff_forall_not_mem.mpr
  intro v hv
  obtain ⟨k, hk, hb⟩ := mem_under_iff.mp hv
  exact h _ hk hb

theorem under_eq_singleton (h : (es.under b).length ≤ 1) (hv : v ∈ es.under b) : es.under b = [v] := by
  obtain ⟨w, hw⟩ := List.length_eq_one_iff.mp (h.antisymm (List.length_pos_of_mem hv))
  rw [hw, List.mem_singleton] at hv
  rw [hw, hv]

theorem length_under (es : Entries) (b : Octets) : (es.under b).length = (es.map fun e => e.1.octets).count b := by
  rw [under, List.length_map, ← List.countP_eq_length_filter, List.count, List.countP_map]
  exact List.countP_congr fun e _ => by simp

end Under

section Put

theorem put_cases (es : Entries) (k v : Item) :
    ((∀ e ∈ es, ¬ e.1.alike k = true) ∧ put es k v = es ++ [(k, v)]) ∨
      ∃ before l w after, es = before ++ (l, w) :: after ∧ l.alike k = true ∧
        put es k v = before ++ (l, v) :: after := by
  induction es with
  | nil => exact .inl ⟨List.forall_mem_nil _, rfl⟩
  | cons e es ih =>
    rw [put]
    by_cases h : e.1.alike k = true
    · rw [if_pos h]
      exact .inr ⟨[], e.1, e.2, es, rfl, h, rfl⟩
    · rw [if_neg h]
      obtain ⟨hnone, hput⟩ | ⟨before, l, w, after, rfl, hl, hput⟩ := ih
      · exact .inl ⟨List.forall_mem_cons.mpr ⟨h, hnone⟩, by rw [hput, List.cons_append]⟩
      · exact .inr ⟨e :: before, l, w, after, rfl, hl, by rw [hput, List.cons_append]⟩

theorem mem_put {e : Item × Item} (h : e ∈ put es k v) :
    e.2 = v ∧ (e.1 = k ∨ e.1 ∈ es.map Prod.fst) ∨ e ∈ es := by
  obtain ⟨-, hput⟩ | ⟨before, l, w, after, rfl, -, hput⟩ := put_cases es k v
  · rw [hput, List.mem_append, List.mem_singleton] at h
    obtain h | rfl := h
    · exact .inr h
    · exact .inl ⟨rfl, .inl rfl⟩
  · rw [hput, List.mem_append, List.mem_cons] at h
    obtain h | rfl | h := h
    · exact .inr (by simp [h])
    · exact .inl ⟨rfl, .inr (by simp)⟩
    · exact .inr (by simp [h])

/-- No two keys are alike. -/
def Apart (es : Entries) : Prop := (es.map Prod.fst).Pairwise fun k l => ¬ k.alike l = true

theorem Apart.put (h : es.Apart) (k v : Item) : (es.put k v).Apart := by
  obtain ⟨hnew, hput⟩ | ⟨before, l, w, after, rfl, -, hput⟩ := put_cases es k v
  · rw [hput, Apart, List.map_append, List.pairwise_append]
    refine ⟨h, List.pairwise_singleton _ _, ?_⟩
    intro l hl m hm
    obtain ⟨e, he, rfl⟩ := List.mem_map.mp hl
    rw [List.map_singleton, List.mem_singleton] at hm
    rw [hm]
    exact hnew e he
  · rw [hput]
    simpa only [Apart, List.map_append, List.map_cons] using h

theorem Apart.length_under_le (h : es.Apart) (hes : es.Spelled) (hx : Spells x.octets x) (hnan : ¬ x.HasNan) :
    (es.under x.octets).length ≤ 1 := by
  induction es with
  | nil => exact Nat.zero_le 1
  | cons e es ih =>
    obtain ⟨hhead, htail⟩ := List.pairwise_cons.mp h
    obtain ⟨he, hes⟩ := List.forall_mem_cons.mp hes
    rw [under_cons]
    split
    · next heq =>
      have hex : e.1 = x := Spells.octets_inj he hx heq
      have hrest : under es x.octets = [] := by
        apply under_eq_nil
        intro f hf hfx
        have hfx : f.1 = x := Spells.octets_inj (hes f hf) hx hfx
        apply hhead f.1 (List.mem_map_of_mem hf)
        rw [hex, hfx]
        exact Item.alike_self_iff.mpr hnan
      rw [hrest, List.length_singleton]
    · exact ih htail hes

/-- A key with a NaN in it meets none that it is alike. -/
theorem under_put_of_hasNan (hes : es.Spelled) (hk : Spells k.octets k) (hx : Spells x.octets x) (hnan : x.HasNan) :
    (es.put k v).under x.octets = under (es ++ [(k, v)]) x.octets := by
  obtain ⟨-, hput⟩ | ⟨before, l, w, after, rfl, hlk, hput⟩ := put_cases es k v
  · rw [hput]
  · obtain ⟨hl, hk'⟩ := Item.not_hasNan_of_alike hlk
    have hlspelled : Spells l.octets l := hes (l, w) (List.mem_append_cons_self)
    have hlx : l.octets ≠ x.octets := fun h => hl (Spells.octets_inj hlspelled hx h ▸ hnan)
    have hkx : k.octets ≠ x.octets := fun h => hk' (Spells.octets_inj hk hx h ▸ hnan)
    rw [hput, under_insert, if_neg hlx, under_insert, if_neg hkx, under_insert, if_neg hlx]
    exact (List.append_nil _).symm

/-- A key that is like itself and like none of the others has one value at most, the one that was put last. -/
theorem under_put_of_alone (hes : es.Spelled) (hapart : es.Apart) (hk : Spells k.octets k) (hx : Spells x.octets x)
    (hnan : ¬ x.HasNan) (halone : ∀ e ∈ es, e.1.alike x = true → e.1 = x) (hkx : k.alike x = true → k = x) :
    (es.put k v).under x.octets = if k.octets = x.octets then [v] else es.under x.octets := by
  obtain ⟨hnew, hput⟩ | ⟨before, l, w, after, rfl, hlk, hput⟩ := put_cases es k v
  · rw [hput, under_append, under_cons]
    split
    · next heq =>
      have hnone : es.under x.octets = [] := by
        apply under_eq_nil
        intro e he hex
        apply hnew e he
        rw [Spells.octets_inj (hes e he) hx hex, Spells.octets_inj hk hx heq]
        exact Item.alike_self_iff.mpr hnan
      rw [hnone]
      rfl
    · exact List.append_nil _
  · have hmem : (l, w) ∈ before ++ (l, w) :: after := List.mem_append_cons_self
    have hlspelled : Spells l.octets l := hes _ hmem
    rw [hput, under_insert, under_insert]
    by_cases hlx : l.octets = x.octets
    · obtain rfl := Spells.octets_inj hlspelled hx hlx
      obtain rfl := hkx (Item.alike_symm hlk)
      -- Nothing stands under the key but what is replaced.
      have hone := hapart.length_under_le hes hx hnan
      rw [under_insert, if_pos rfl, List.length_append, List.length_cons] at hone
      have hbefore : under before k.octets = [] := List.length_eq_zero_iff.mp (by omega)
      have hafter : under after k.octets = [] := List.length_eq_zero_iff.mp (by omega)
      rw [if_pos rfl, if_pos rfl, hbefore, hafter]
      rfl
    · have hkx : k.octets ≠ x.octets := by
        intro h
        obtain rfl := Spells.octets_inj hk hx h
        exact hlx (congrArg Item.octets (halone _ hmem hlk))
      rw [if_neg hlx, if_neg hkx, if_neg hlx]

end Put

section Merged

variable {gs : Entries}

theorem merged_append (gs : Entries) (k v : Item) : merged (gs ++ [(k, v)]) = (merged gs).put k v := by
  rw [merged, List.foldl_append]
  rfl

theorem mem_merged {e : Item × Item} (h : e ∈ merged gs) : e.1 ∈ gs.map Prod.fst ∧ e.2 ∈ gs.map Prod.snd := by
  induction gs using List.reverseRecOn generalizing e with
  | nil => exact absurd h List.not_mem_nil
  | append_singleton gs f ih =>
    rw [merged_append] at h
    simp only [List.map_append, List.mem_append, List.map_singleton, List.mem_singleton]
    obtain ⟨hv, hk | hk⟩ | he := mem_put h
    · exact ⟨.inr hk, .inr hv⟩
    · obtain ⟨f, hf, hfe⟩ := List.mem_map.mp hk
      exact ⟨.inl (hfe ▸ (ih hf).1), .inr hv⟩
    · exact ⟨.inl (ih he).1, .inl (ih he).2⟩

theorem Spelled.merged (h : gs.Spelled) : (merged gs).Spelled := by
  intro e he
  obtain ⟨f, hf, hfe⟩ := List.mem_map.mp (mem_merged he).1
  rw [← hfe]
  exact h f hf

theorem apart_merged (gs : Entries) : (merged gs).Apart := by
  induction gs using List.reverseRecOn with
  | nil => exact List.Pairwise.nil
  | append_singleton gs e ih =>
    rw [merged_append]
    exact ih.put e.1 e.2

theorem under_merged_of_hasNan (h : gs.Spelled) (hx : Spells x.octets x) (hnan : x.HasNan) :
    (merged gs).under x.octets = gs.under x.octets := by
  induction gs using List.reverseRecOn with
  | nil => rfl
  | append_singleton gs e ih =>
    obtain ⟨hgs, he⟩ := List.forall_mem_append.mp h
    rw [merged_append, under_put_of_hasNan (Spelled.merged hgs) (he e List.mem_cons_self) hx hnan, under_append, ih hgs,
      under_append]

theorem under_merged_of_alone (h : gs.Spelled) (hx : Spells x.octets x) (hnan : ¬ x.HasNan)
    (halone : ∀ e ∈ gs, e.1.alike x = true → e.1 = x) :
    (merged gs).under x.octets = (gs.under x.octets).getLast?.toList := by
  induction gs using List.reverseRecOn with
  | nil => rfl
  | append_singleton gs e ih =>
    obtain ⟨hgs, he⟩ := List.forall_mem_append.mp h
    obtain ⟨hothers, hkey⟩ := List.forall_mem_append.mp halone
    have hmerged : ∀ f ∈ merged gs, f.1.alike x = true → f.1 = x := by
      intro f hf
      obtain ⟨g, hg, hgf⟩ := List.mem_map.mp (mem_merged hf).1
      rw [← hgf]
      exact hothers g hg
    rw [merged_append, under_put_of_alone (Spelled.merged hgs) (apart_merged gs) (he e List.mem_cons_self) hx hnan
      hmerged (hkey e List.mem_cons_self), under_append, under_cons, ih hgs hothers]
    split
    · change [e.2] = (under gs x.octets ++ [e.2]).getLast?.toList
      rw [List.getLast?_concat]
      rfl
    · change _ = (under gs x.octets ++ []).getLast?.toList
      rw [List.append_nil]

/-- A key with a NaN in it stands once at most. -/
def NansOnce (es : Entries) : Prop := ∀ e ∈ es, e.1.HasNan → (es.under e.1.octets).length ≤ 1

/-- No two keys that are numbers throughout differ in no more than the signs of zeros. -/
def ZerosApart (es : Entries) : Prop :=
  ∀ e ∈ es, ∀ f ∈ es, ¬ e.1.HasNan → ¬ f.1.HasNan → e.1.unsignedZeros = f.1.unsignedZeros → e.1 = f.1

theorem zerosApart_iff : gs.ZerosApart ↔ ∀ e ∈ gs, ∀ f ∈ gs, e.1.alike f.1 = true → e.1 = f.1 := by
  simp only [ZerosApart, Item.alike_iff, ← Item.not_hasNan_iff, and_imp]

theorem length_under_merged_le_iff (h : gs.Spelled) : (∀ b, ((merged gs).under b).length ≤ 1) ↔ gs.NansOnce := by
  constructor
  · intro hone e he hnan
    rw [← under_merged_of_hasNan h (h e he) hnan]
    exact hone _
  · intro hnans b
    by_cases hb : ∃ e ∈ merged gs, e.1.octets = b
    · obtain ⟨e, he, rfl⟩ := hb
      have hspelled : Spells e.1.octets e.1 := h.merged e he
      by_cases hnan : e.1.HasNan
      · obtain ⟨f, hf, hfe⟩ := List.mem_map.mp (mem_merged he).1
        rw [under_merged_of_hasNan h hspelled hnan, ← hfe]
        exact hnans f hf (hfe ▸ hnan)
      · exact (apart_merged gs).length_under_le h.merged hspelled hnan
    · rw [under_eq_nil fun e he heb => hb ⟨e, he, heb⟩]
      exact Nat.zero_le 1

/-- Alike keys that are not equal have one place between them. -/
theorem zerosApart_of_length_pos (h : gs.Spelled)
    (hkept : ∀ e ∈ gs, 0 < ((merged gs).under e.1.octets).length) : gs.ZerosApart := by
  have hkey {e : Item × Item} (he : e ∈ gs) : e.1 ∈ (merged gs).map Prod.fst := by
    obtain ⟨v, hv⟩ := List.exists_mem_of_length_pos (hkept e he)
    obtain ⟨k, hk, hoctets⟩ := mem_under_iff.mp hv
    rw [← Spells.octets_inj (h.merged _ hk) (h e he) hoctets]
    exact List.mem_map_of_mem hk
  rw [zerosApart_iff]
  intro e he f hf halike
  by_contra hne
  have : Std.Symm fun k l : Item => ¬ k.alike l = true := ⟨fun k l hkl hlk => hkl (Item.alike_symm hlk)⟩
  exact (apart_merged gs).forall (hkey he) (hkey hf) hne halike

theorem holds_last_iff (h : gs.Spelled) :
    (∀ b v, (gs.under b).getLast? = some v → (merged gs).under b = [v]) ↔ gs.NansOnce ∧ gs.ZerosApart := by
  constructor
  · intro hlast
    have hone {e : Item × Item} (he : e ∈ gs) : ((merged gs).under e.1.octets).length = 1 := by
      have hmem : e.2 ∈ gs.under e.1.octets := mem_under_iff.mpr ⟨e.1, he, rfl⟩
      rw [hlast _ _ (List.getLast?_eq_some_getLast (List.ne_nil_of_mem hmem))]
      rfl
    constructor
    · intro e he hnan
      rw [← under_merged_of_hasNan h (h e he) hnan, hone he]
    · exact zerosApart_of_length_pos h fun e he => (hone he).symm ▸ Nat.one_pos
  · rintro ⟨hnans, hzeros⟩ b v hv
    obtain ⟨k, hk, rfl⟩ := mem_under_iff.mp (List.mem_of_getLast? hv)
    by_cases hnan : k.HasNan
    · rw [under_merged_of_hasNan h (h _ hk) hnan]
      exact under_eq_singleton (hnans _ hk hnan) (List.mem_of_getLast? hv)
    · rw [under_merged_of_alone h (h _ hk) hnan fun e he halike => zerosApart_iff.mp hzeros e he _ hk halike, hv]
      rfl

end Merged

end Entries

theorem Item.keysDistinct_map_iff {es : Entries} : (map es).KeysDistinct ↔
    (es.map fun e => e.1.octets).Nodup ∧ ∀ e ∈ es, e.1.KeysDistinct ∧ e.2.KeysDistinct := by
  constructor
  · intro h
    refine ⟨h es 0 .whole, ?_⟩
    intro e he
    exact ⟨fun fs n hfs => h fs (n + 1) (.key he hfs), fun fs n hfs => h fs (n + 1) (.value he hfs)⟩
  · rintro ⟨hnodup, hparts⟩ fs n hfs
    cases hfs with
    | whole => exact hnodup
    | key he hfs => exact (hparts _ he).1 fs _ hfs
    | value he hfs => exact (hparts _ he).2 fs _ hfs

/-- A map of what can be encoded is encoded exactly if no two of its keys have the same octets. -/
theorem Entries.exists_encode_map_iff {es : Entries}
    (h : ∀ e ∈ es, (∃ b, encode e.1 = .ok b) ∧ ∃ b, encode e.2 = .ok b) :
    (∃ b, encode (.map es) = .ok b) ↔ ∀ b, (es.under b).length ≤ 1 := by
  simp only [encode_eq_ok_iff, exists_and_left, exists_eq', and_true] at h ⊢
  simp only [length_under, ← List.nodup_iff_count_le_one, Item.keysDistinct_map_iff, Item.reserved?,
    Item.reservedInEntries?_eq_none_iff]
  constructor
  · rintro ⟨-, hnodup, -⟩
    exact hnodup
  · intro hnodup
    exact ⟨fun e he => ⟨(h e he).1.1, (h e he).2.1⟩, hnodup, fun e he => ⟨(h e he).1.2, (h e he).2.2⟩⟩

end Provenance.Cbor
