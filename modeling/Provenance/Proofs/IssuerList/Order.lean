import Provenance.Proofs.Cbor.Rearranging
import Provenance.Proofs.IssuerList.Schema

/-!
The order in which an issuer list and its entries have their keys, and keys that they do not know, are without
influence, and no mandatory key may be missing.
-/
namespace Provenance

open Cbor
open Cbor.Shape (Preserves has_replace_iff mayHave_replace_iff preserves_fixed preserves_has preserves_hasOnly
  preserves_mayHave)

namespace IssuerEntry

def shape : Shape :=
  .record [("certificate", .fixed), ("serialNumber", .fixed), ("ski", .fixed), ("docType", .fixed),
    ("certificateProfile", .fixed)]

theorem preserves_statedBy (e : IssuerEntry) : shape.Preserves e.StatedBy := by
  apply Preserves.congr e.statedBy_iff
  apply Preserves.and
  · exact preserves_has rfl (preserves_fixed _)
  apply Preserves.and
  · exact preserves_has rfl (preserves_fixed _)
  apply Preserves.and
  · exact preserves_mayHave rfl (fun _ => preserves_fixed _) _
  apply Preserves.and
  · exact preserves_hasOnly rfl (preserves_fixed _)
  · exact preserves_hasOnly rfl (preserves_fixed _)

def mandatory : List String := ["certificate", "docType"]

theorem StatedBy.has_mandatory {e : IssuerEntry} {x : Item} (h : e.StatedBy x) :
    ∀ key ∈ mandatory, x.Has key fun _ => True := by
  simp only [mandatory, List.forall_mem_cons]
  exact ⟨h.certificate.imp fun _ _ => trivial, h.docTypes.imp fun _ _ => trivial, nofun⟩

end IssuerEntry

namespace IssuerList

/-- The map of the list itself; what stands under its keys is kept as it is. -/
def shape : Shape :=
  .record [("version", .fixed), ("vicalProvider", .fixed), ("date", .fixed), ("nextUpdate", .fixed),
    ("vicalIssueID", .fixed), ("certificateInfos", .fixed)]

theorem preserves_statedBy (l : IssuerList) : shape.Preserves l.StatedBy := by
  apply Preserves.congr l.statedBy_iff
  apply Preserves.and
  · exact preserves_has rfl (preserves_fixed _)
  apply Preserves.and
  · exact preserves_has rfl (preserves_fixed _)
  apply Preserves.and
  · exact preserves_has rfl (preserves_fixed _)
  apply Preserves.and
  · exact preserves_mayHave rfl (fun _ => preserves_fixed _) _
  apply Preserves.and
  · exact preserves_mayHave rfl (fun _ => preserves_fixed _) _
  · exact preserves_has rfl (preserves_fixed _)

/-- Steps that rearrange the map of a list or the map of one of its entries. -/
inductive Reordered : Item → Item → Prop
  | list {x y : Item} (h : Rearranged shape x y) : Reordered x y
  | entry {x y : Item} (before after : List Item) (es : Entries) (h : Rearranged IssuerEntry.shape x y) :
      Reordered (.map ((.text "certificateInfos", .array (before ++ x :: after)) :: es))
        (.map ((.text "certificateInfos", .array (before ++ y :: after)) :: es))
  | trans {x y z : Item} (h : Reordered x y) (h' : Reordered y z) : Reordered x z

theorem Reordered.distinctKeys {x y : Item} (h : Reordered x y) (hy : y.DistinctKeys) : x.DistinctKeys := by
  induction h with
  | list h => exact h.distinctKeys hy
  | entry before after es h =>
    simp only [Item.distinctKeys_map_iff, List.forall_mem_cons] at hy ⊢
    obtain ⟨hnodup, ⟨hkey, harray⟩, hes⟩ := hy
    refine ⟨hnodup, ⟨hkey, Item.throughout_array_iff.mpr ⟨trivial, ?_⟩⟩, hes⟩
    have hys := (Item.throughout_array_iff.mp harray).2
    rw [List.forall_mem_append, List.forall_mem_cons] at hys ⊢
    exact ⟨hys.1, h.distinctKeys hys.2.1, hys.2.2⟩
  | trans _ _ ih ih' => exact ih (ih' hy)

theorem forall₂_replace_iff {α β : Type} {R : α → β → Prop} {x y : α} (h : ∀ b, R x b ↔ R y b) (before after : List α)
    (bs : List β) : List.Forall₂ R (before ++ x :: after) bs ↔ List.Forall₂ R (before ++ y :: after) bs := by
  induction before generalizing bs with
  | nil => simp only [List.nil_append, List.forall₂_cons_left_iff, h]
  | cons z before ih => simp only [List.cons_append, List.forall₂_cons_left_iff, ih]

theorem Reordered.statedBy_iff {x y : Item} (h : Reordered x y) (hy : y.DistinctKeys) (l : IssuerList) :
    l.StatedBy x ↔ l.StatedBy y := by
  induction h with
  | list h => exact l.preserves_statedBy _ _ hy h
  | @entry x y before after es h =>
    have hdistinct : y.DistinctKeys := by
      have harray := Item.throughout_array_iff.mp (hy.value List.mem_cons_self)
      exact harray.2 y (List.mem_append_right before List.mem_cons_self)
    have hentries : StatesEntries (.array (before ++ x :: after)) l.entries ↔
        StatesEntries (.array (before ++ y :: after)) l.entries := by
      simp only [StatesEntries, Item.array.injEq, exists_eq_left']
      exact forall₂_replace_iff (fun e => e.preserves_statedBy x y hdistinct h) before after _
    rw [IssuerList.statedBy_iff, IssuerList.statedBy_iff]
    refine and_congr ?_ (and_congr ?_ (and_congr ?_ (and_congr ?_ (and_congr ?_ ?_))))
    · exact has_replace_iff (by simp)
    · exact has_replace_iff (by simp)
    · exact has_replace_iff (by simp)
    · exact mayHave_replace_iff (by simp) _
    · exact mayHave_replace_iff (by simp) _
    · exact has_replace_iff fun _ => hentries
  | trans _ h' ih ih' => exact (ih (h'.distinctKeys hy)).trans (ih' hy)

def mandatory : List String := ["version", "vicalProvider", "date", "certificateInfos"]

theorem StatedBy.has_mandatory {l : IssuerList} {x : Item} (h : l.StatedBy x) :
    ∀ key ∈ mandatory, x.Has key fun _ => True := by
  simp only [mandatory, List.forall_mem_cons]
  exact ⟨h.version.imp fun _ _ => trivial, h.provider.imp fun _ _ => trivial, h.date.imp fun _ _ => trivial,
    h.entries.imp fun _ _ => trivial, nofun⟩

theorem StatedBy.entry {l : IssuerList} {x y : Item} {xs : List Item} (h : l.StatedBy x) (hx : x.DistinctKeys)
    (hxs : x.Has "certificateInfos" (· = .array xs)) (hy : y ∈ xs) : ∃ e : IssuerEntry, e.StatedBy y := by
  obtain ⟨es, _, rfl, hmem, xs', rfl, hall⟩ := h.entries
  obtain ⟨_, _, ⟨⟩, hmem', rfl⟩ := hxs
  obtain ⟨⟩ := List.inj_on_of_nodup_map hx.nodup hmem hmem' rfl
  obtain ⟨i, rfl⟩ := List.mem_iff_get.mp hy
  exact ⟨_, hall.get i.isLt (hall.length_eq ▸ i.isLt)⟩

/-- A list is read from an item with distinct keys, such as the decoder gives, exactly if the item states it; an item
is read alike however its maps are reordered; and where a list is read, nothing mandatory is missing. -/
theorem ofItem_iff_stated :
    (∀ x l, x.DistinctKeys → (ofItem x = .ok l ↔ l.StatedBy x)) ∧
      (∀ x y, y.DistinctKeys → Reordered x y → ∀ l, ofItem x = .ok l ↔ ofItem y = .ok l) ∧
      (∀ x l, x.DistinctKeys → ofItem x = .ok l → (∀ key ∈ mandatory, x.Has key fun _ => True) ∧
        ∀ xs, x.Has "certificateInfos" (· = .array xs) → ∀ y ∈ xs, ∀ key ∈ IssuerEntry.mandatory,
          y.Has key fun _ => True) ∧
      ∀ b x, Cbor.decode b = .ok x → x.DistinctKeys := by
  refine ⟨?_, ?_, ?_, ?_⟩
  · intro x l hx
    exact ofItem_eq_ok_iff hx
  · intro x y hy h l
    rw [ofItem_eq_ok_iff (h.distinctKeys hy), ofItem_eq_ok_iff hy]
    exact h.statedBy_iff hy l
  · intro x l hx h
    have hl := (ofItem_eq_ok_iff hx).mp h
    refine ⟨hl.has_mandatory, ?_⟩
    intro xs hxs y hy
    obtain ⟨e, he⟩ := hl.entry hx hxs hy
    exact he.has_mandatory
  · intro b x h
    exact distinctKeys_of_decode h

end IssuerList

end Provenance
