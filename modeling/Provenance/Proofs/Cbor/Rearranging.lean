import Provenance.Proofs.Cbor.Records

/-!
Rearranging an item: the order of the entries of some of its maps, and entries under keys that nobody asks for.
-/
namespace Provenance.Cbor

/-- Which maps of an item may be rearranged. Entries under a key without a shape may be added. -/
inductive Shape
  | fixed
  | entries (under : Item → Option Shape)

namespace Shape

def table (s : Shape) : Shape := entries fun _ => some s

def record (fields : List (String × Shape)) : Shape := entries fun k => k.text?.bind fun key => fields.lookup key

end Shape

inductive Rearranged : Shape → Item → Item → Prop
  | refl (s : Shape) (x : Item) : Rearranged s x x
  | trans {s : Shape} {x y z : Item} (h : Rearranged s x y) (h' : Rearranged s y z) : Rearranged s x z
  | permute {under : Item → Option Shape} {es fs : Entries} (h : es.Perm fs) :
      Rearranged (.entries under) (.map es) (.map fs)
  | value {under : Item → Option Shape} {k x y : Item} {s : Shape} (es : Entries) (hk : under k = some s)
      (h : Rearranged s x y) : Rearranged (.entries under) (.map ((k, x) :: es)) (.map ((k, y) :: es))
  | more {under : Item → Option Shape} {k : Item} (y : Item) (es : Entries) (hk : under k = none) :
      Rearranged (.entries under) (.map es) (.map ((k, y) :: es))

namespace Rearranged

variable {s : Shape} {x y : Item}

theorem eq_of_fixed (h : Rearranged .fixed x y) : x = y := by
  generalize hs : Shape.fixed = s at h
  induction h with
  | refl => rfl
  | trans _ _ ih ih' => exact (ih hs).trans (ih' hs)
  | permute | value | more => cases hs

theorem distinctKeys (h : Rearranged s x y) (hy : y.DistinctKeys) : x.DistinctKeys := by
  induction h with
  | refl => exact hy
  | trans _ _ ih ih' => exact ih (ih' hy)
  | permute h =>
    rw [Item.distinctKeys_map_iff] at hy ⊢
    refine ⟨(h.map Prod.fst).nodup_iff.mpr hy.1, ?_⟩
    intro e he
    exact hy.2 e (h.mem_iff.mp he)
  | value es _ _ ih =>
    rw [Item.distinctKeys_map_iff, List.forall_mem_cons] at hy ⊢
    exact ⟨hy.1, ⟨hy.2.1.1, ih hy.2.1.2⟩, hy.2.2⟩
  | more y es =>
    rw [Item.distinctKeys_map_iff, List.forall_mem_cons] at hy
    exact Item.distinctKeys_map_iff.mpr ⟨(List.nodup_cons.mp hy.1).2, hy.2.2⟩

end Rearranged

/-- Rearranging an item, with keys that stay distinct, does not change whether something holds of it. -/
def Shape.Preserves (s : Shape) (R : Item → Prop) : Prop :=
  ∀ x y, y.DistinctKeys → Rearranged s x y → (R x ↔ R y)

namespace Shape

variable {s : Shape} {under : Item → Option Shape} {R : Item → Prop} {key : String}

theorem preserves_fixed (R : Item → Prop) : fixed.Preserves R := by
  intro x y _ h
  rw [h.eq_of_fixed]

theorem Preserves.and {S : Item → Prop} (hR : s.Preserves R) (hS : s.Preserves S) :
    s.Preserves fun x => R x ∧ S x := by
  intro x y hy h
  exact and_congr (hR x y hy h) (hS x y hy h)

theorem Preserves.congr {S : Item → Prop} (hRS : ∀ x, S x ↔ R x) (hR : s.Preserves R) : s.Preserves S := by
  intro x y hy h
  rw [hRS, hRS]
  exact hR x y hy h

/-- It is enough to look at one step of rearranging. -/
theorem preserves_entries
    (permute : ∀ es fs, (Item.map es).DistinctKeys → es.Perm fs → (R (.map es) ↔ R (.map fs)))
    (value : ∀ k s x y es, (Item.map ((k, y) :: es)).DistinctKeys → under k = some s → Rearranged s x y →
      (R (.map ((k, x) :: es)) ↔ R (.map ((k, y) :: es))))
    (more : ∀ k y es, (Item.map ((k, y) :: es)).DistinctKeys → under k = none →
      (R (.map es) ↔ R (.map ((k, y) :: es)))) : (entries under).Preserves R := by
  intro x y hy h
  generalize hs : entries under = s at h
  -- That keys differ is known of the last item only, and carries over from each item to the one before it.
  induction h with
  | refl => exact .rfl
  | trans _ h' ih ih' => exact (ih (h'.distinctKeys hy) hs).trans (ih' hy hs)
  | permute h' =>
    cases hs
    have hstep : Rearranged (entries under) _ _ := .permute h'
    exact permute _ _ (hstep.distinctKeys hy) h'
  | value es hk h =>
    cases hs
    exact value _ _ _ _ es hy hk h
  | more y es hk =>
    cases hs
    exact more _ y es hy hk

theorem has_cons_iff {k x : Item} {es : Entries} :
    (Item.map ((k, x) :: es)).Has key R ↔ k = .text key ∧ R x ∨ (Item.map es).Has key R := by
  constructor
  · rintro ⟨_, y, ⟨⟩, hy, hR⟩
    obtain ⟨⟨⟩⟩ | hy := List.mem_cons.mp hy
    · exact .inl ⟨rfl, hR⟩
    · exact .inr ⟨es, y, rfl, hy, hR⟩
  · rintro (⟨rfl, hR⟩ | ⟨_, y, ⟨⟩, hy, hR⟩)
    · exact ⟨_, x, rfl, List.mem_cons_self, hR⟩
    · exact ⟨_, y, rfl, List.mem_cons_of_mem _ hy, hR⟩

theorem has_replace_iff {k x y : Item} {es : Entries} (h : k = .text key → (R x ↔ R y)) :
    (Item.map ((k, x) :: es)).Has key R ↔ (Item.map ((k, y) :: es)).Has key R := by
  rw [has_cons_iff, has_cons_iff]
  exact or_congr_left (and_congr_right h)

theorem mayHave_replace_iff {α : Type} {R : Item → α → Prop} {k x y : Item} {es : Entries}
    (h : k = .text key → ∀ a, (R x a ↔ R y a)) (o : Option α) :
    (Item.map ((k, x) :: es)).MayHave key R o ↔ (Item.map ((k, y) :: es)).MayHave key R o := by
  cases o with
  | none => exact not_congr (has_replace_iff fun _ => .rfl)
  | some a => exact has_replace_iff fun hk => h hk a

theorem preserves_has (hk : under (.text key) = some s) (h : s.Preserves R) :
    (entries under).Preserves (Item.Has · key R) := by
  apply preserves_entries
  · intro es fs _ hp
    simp [Item.Has, hp.mem_iff]
  · intro k s' x y es hd hk' hxy
    apply has_replace_iff
    rintro rfl
    rw [hk] at hk'
    cases hk'
    exact h x y (hd.value List.mem_cons_self) hxy
  · intro k y es _ hk'
    have hne : k ≠ .text key := by
      rintro rfl
      rw [hk] at hk'
      cases hk'
    simp [has_cons_iff, hne]

theorem preserves_mayHave {α : Type} {R : Item → α → Prop} (hk : under (.text key) = some s)
    (h : ∀ a, s.Preserves (R · a)) (o : Option α) : (entries under).Preserves (Item.MayHave · key R o) := by
  cases o with
  | none =>
    intro x y hy hxy
    exact not_congr (preserves_has hk (fun _ _ _ _ => .rfl) x y hy hxy)
  | some a => exact preserves_has hk (h a)

theorem preserves_hasOnly (hk : under (.text key) = some s) (h : s.Preserves R) :
    (entries under).Preserves (Item.HasOnly · key R) := by
  apply Preserves.congr fun _ => Item.hasOnly_iff
  intro x y hy hxy
  exact not_congr (preserves_has hk (fun x y hy h' => not_congr (h x y hy h')) x y hy hxy)

theorem preserves_isMap : (entries under).Preserves fun x => ∃ es, x = .map es := by
  apply preserves_entries
  · intro es fs _ _
    exact ⟨fun _ => ⟨fs, rfl⟩, fun _ => ⟨es, rfl⟩⟩
  · intro k s x y es _ _ _
    exact ⟨fun _ => ⟨_, rfl⟩, fun _ => ⟨_, rfl⟩⟩
  · intro k y es _ _
    exact ⟨fun _ => ⟨_, rfl⟩, fun _ => ⟨_, rfl⟩⟩

section Table

variable {κ β : Type} [Ord κ] [Std.TransOrd κ] {item : κ → Item} {R : Item → β → Prop} {m : Std.ExtTreeMap κ β}

theorem tabulates_map_iff {es : Entries} :
    (Item.map es).Tabulates item R m ↔ (∀ e ∈ es, ∃ k b, e.1 = item k ∧ R e.2 b ∧ m[k]? = some b) ∧
      ∀ (k : κ) b, m[k]? = some b → ∃ e ∈ es, e.1 = item k ∧ R e.2 b := by
  constructor
  · rintro ⟨_, ⟨⟩, hentries, htable⟩
    refine ⟨hentries, ?_⟩
    intro k b hget
    obtain ⟨y, hy, hb⟩ := htable k b hget
    exact ⟨_, hy, rfl, hb⟩
  · rintro ⟨hentries, htable⟩
    refine ⟨es, rfl, hentries, ?_⟩
    intro k b hget
    obtain ⟨⟨_, y⟩, hy, rfl, hb⟩ := htable k b hget
    exact ⟨y, hy, hb⟩

theorem preserves_tabulates (h : ∀ b, s.Preserves (R · b)) (m : Std.ExtTreeMap κ β) :
    s.table.Preserves (Item.Tabulates item R · m) := by
  apply preserves_entries
  · intro es fs _ hp
    simp only [tabulates_map_iff, hp.mem_iff]
  · intro k s' x y es hd hk hxy
    cases hk
    have hR (b : β) : R x b ↔ R y b := h b x y (hd.value List.mem_cons_self) hxy
    simp only [tabulates_map_iff, List.forall_mem_cons, List.exists_mem_cons_iff, hR]
  · intro k y es _ hk
    cases hk

end Table

end Shape

namespace Entries

theorem int?_inj {k l : Item} {i : Int} (hk : k.int? = some i) (hl : l.int? = some i) : k = l := by
  have hkl := hk.trans hl.symm
  cases k with
  | unsigned m =>
    cases l with
    | unsigned n =>
      have hmn : m.toNat = n.toNat := by simpa [Item.int?] using hkl
      rw [UInt64.toNat_inj.mp hmn]
    | negative n =>
      simp only [Item.int?, Option.some_inj] at hkl
      omega
    | _ => cases hl
  | negative m =>
    cases l with
    | unsigned n =>
      simp only [Item.int?, Option.some_inj] at hkl
      omega
    | negative n =>
      have hmn : m.toNat = n.toNat := by simpa [Item.int?] using hkl
      rw [UInt64.toNat_inj.mp hmn]
    | _ => cases hl
  | _ => cases hk

theorem label?_perm {es fs : Entries} (hn : (es.map Prod.fst).Nodup) (h : es.Perm fs) (i : Int) :
    es.label? i = fs.label? i := by
  have hp (k l : Item) (hk : decide (k.int? = some i)) (hl : decide (l.int? = some i)) : k = l :=
    int?_inj (of_decide_eq_true hk) (of_decide_eq_true hl)
  have hfs : (fs.map Prod.fst).Nodup := (h.map Prod.fst).nodup_iff.mp hn
  apply Option.ext
  intro y
  rw [label?, label?, find?_key_iff hn hp, find?_key_iff hfs hp]
  simp only [h.mem_iff]

end Entries

end Provenance.Cbor
