import Mathlib.Data.List.Induction
import Mathlib.Data.List.Nodup
import Std.Data.ExtTreeMap.Lemmas
import Provenance.Proofs.Cbor.Fields
import Provenance.Proofs.Cbor.Language

/-!
Records and tables: what is read from a map whose keys differ, said by what stands under each key and without the
order of the entries.
-/
namespace Provenance.Cbor

namespace Item

def Unambiguous : Item → Prop
  | map es => (es.map Prod.fst).Nodup
  | _ => True

/-- In no map of the item, at any level, does a key stand twice. -/
def DistinctKeys (x : Item) : Prop := x.Throughout Unambiguous

variable {es : Entries} {x y : Item} {key : String}

theorem distinctKeys_map_iff :
    (map es).DistinctKeys ↔ (es.map Prod.fst).Nodup ∧ ∀ e ∈ es, e.1.DistinctKeys ∧ e.2.DistinctKeys :=
  throughout_map_iff

theorem DistinctKeys.nodup (h : (map es).DistinctKeys) : (es.map Prod.fst).Nodup := (distinctKeys_map_iff.mp h).1

theorem DistinctKeys.value {e : Item × Item} (h : (map es).DistinctKeys) (he : e ∈ es) : e.2.DistinctKeys :=
  ((distinctKeys_map_iff.mp h).2 e he).2

theorem KeysDistinct.distinctKeys (h : x.KeysDistinct) : x.DistinctKeys := by
  intro y n hy
  cases y with
  | map es =>
    have hkeys : ((es.map Prod.fst).map octets).Nodup := by
      rw [List.map_map]
      exact h es n hy
    exact List.Nodup.of_map octets hkeys
  | _ => trivial

/-- A map has a value under a text, and something holds of it. -/
def Has (x : Item) (key : String) (R : Item → Prop) : Prop := ∃ es y, x = map es ∧ (text key, y) ∈ es ∧ R y

/-- A map has a value under a text exactly if there is something to relate it to. -/
def MayHave {α : Type} (x : Item) (key : String) (R : Item → α → Prop) : Option α → Prop
  | some a => x.Has key (R · a)
  | none => ¬ x.Has key fun _ => True

/-- A map has nothing else under a text than what something holds of. -/
def HasOnly (x : Item) (key : String) (R : Item → Prop) : Prop := ∀ y, x.Has key (· = y) → R y

/-- Each entry of a map stands in a table and each element of the table in the map, with values that `R` relates. -/
def Tabulates {κ β : Type} [Ord κ] [Std.TransOrd κ] (key : κ → Item) (R : Item → β → Prop) (x : Item)
    (m : Std.ExtTreeMap κ β) : Prop :=
  ∃ es, x = map es ∧ (∀ e ∈ es, ∃ k b, e.1 = key k ∧ R e.2 b ∧ m[k]? = some b) ∧
    ∀ k b, m[k]? = some b → ∃ y, (key k, y) ∈ es ∧ R y b

theorem tabulates_and_iff {κ β : Type} [Ord κ] [Std.TransOrd κ] {item : κ → Item} {R : Item → β → Prop} {P : β → Prop}
    {m : Std.ExtTreeMap κ β} :
    x.Tabulates item (fun y b => R y b ∧ P b) m ↔ x.Tabulates item R m ∧ ∀ (k : κ) b, m[k]? = some b → P b := by
  constructor
  · rintro ⟨es, rfl, hentries, htable⟩
    refine ⟨⟨es, rfl, ?_, ?_⟩, ?_⟩
    · intro e he
      obtain ⟨k, b, hk, ⟨hb, -⟩, hget⟩ := hentries e he
      exact ⟨k, b, hk, hb, hget⟩
    · intro k b hget
      obtain ⟨y, hy, hb, -⟩ := htable k b hget
      exact ⟨y, hy, hb⟩
    · intro k b hget
      obtain ⟨y, -, -, hb⟩ := htable k b hget
      exact hb
  · rintro ⟨⟨es, rfl, hentries, htable⟩, hall⟩
    refine ⟨es, rfl, ?_, ?_⟩
    · intro e he
      obtain ⟨k, b, hk, hb, hget⟩ := hentries e he
      exact ⟨k, b, hk, ⟨hb, hall k b hget⟩, hget⟩
    · intro k b hget
      obtain ⟨y, hy, hb⟩ := htable k b hget
      exact ⟨y, hy, hb, hall k b hget⟩

theorem Has.imp {R S : Item → Prop} (h : x.Has key R) (hRS : ∀ y, R y → S y) : x.Has key S := by
  obtain ⟨es, y, hx, hy, hR⟩ := h
  exact ⟨es, y, hx, hy, hRS y hR⟩

theorem has_map_iff {R : Item → Prop} : (map es).Has key R ↔ ∃ y, (text key, y) ∈ es ∧ R y := by
  constructor
  · rintro ⟨_, y, ⟨⟩, hy, hR⟩
    exact ⟨y, hy, hR⟩
  · rintro ⟨y, hy, hR⟩
    exact ⟨es, y, rfl, hy, hR⟩

theorem hasOnly_iff {R : Item → Prop} : x.HasOnly key R ↔ ¬ x.Has key fun y => ¬ R y := by
  constructor
  · rintro h ⟨es, y, hx, hy, hR⟩
    exact hR (h y ⟨es, y, hx, hy, rfl⟩)
  · rintro h y ⟨es, _, hx, hy, rfl⟩
    by_contra hR
    exact h ⟨es, _, hx, hy, hR⟩

theorem text?_eq_some_iff {s : String} : x.text? = some s ↔ x = text s := by
  cases x <;> simp [text?]

end Item

theorem distinctKeys_of_decode {b : Octets} {x : Item} (h : decode b = .ok x) : x.DistinctKeys := by
  obtain ⟨hread, hkeys⟩ := decode_eq_ok_iff_yields.mp h
  obtain ⟨c, -, hc, -⟩ := item_read_iff.mp hread
  exact ((Item.checkKeys_eq_ok_of_assigned (assigned_of_spells hc)).mp hkeys).distinctKeys

namespace Entries

variable {es : Entries} {e : Item × Item} {key : String} {y : Item}

theorem find?_key_iff {p : Item → Bool} (hn : (es.map Prod.fst).Nodup) (hp : ∀ k l, p k → p l → k = l) :
    (es.find? fun e => p e.1).map Prod.snd = some y ↔ ∃ k, p k ∧ (k, y) ∈ es := by
  constructor
  · intro h
    obtain ⟨e, he, rfl⟩ := Option.map_eq_some_iff.mp h
    exact ⟨e.1, List.find?_some (p := fun e : Item × Item => p e.1) he, List.mem_of_find?_eq_some he⟩
  · rintro ⟨k, hk, hmem⟩
    cases h : es.find? fun e => p e.1 with
    | none => exact absurd hk ((List.find?_eq_none (p := fun e : Item × Item => p e.1)).mp h (k, y) hmem)
    | some e =>
      have hkey : e.1 = k := hp e.1 k (List.find?_some (p := fun e : Item × Item => p e.1) h) hk
      have heq : e = (k, y) := List.inj_on_of_nodup_map hn (List.mem_of_find?_eq_some h) hmem hkey
      rw [heq, Option.map_some]

theorem text?_eq_some_iff (hn : (es.map Prod.fst).Nodup) : es.text? key = some y ↔ (.text key, y) ∈ es := by
  have hp (k l : Item) (hk : decide (k.text? = some key)) (hl : decide (l.text? = some key)) : k = l :=
    (Item.text?_eq_some_iff.mp (of_decide_eq_true hk)).trans (Item.text?_eq_some_iff.mp (of_decide_eq_true hl)).symm
  rw [text?, find?_key_iff hn hp]
  simp only [decide_eq_true_eq, Item.text?_eq_some_iff, exists_eq_left]

theorem text?_eq_none_iff (hn : (es.map Prod.fst).Nodup) : es.text? key = none ↔ ∀ y, (.text key, y) ∉ es := by
  simp only [Option.eq_none_iff_forall_ne_some, ne_eq, text?_eq_some_iff hn]

theorem nodup_of_concat (hn : ((es ++ [e]).map Prod.fst).Nodup) :
    (es.map Prod.fst).Nodup ∧ ∀ d ∈ es, d.1 ≠ e.1 := by
  rw [List.map_append, List.nodup_append] at hn
  exact ⟨hn.1, fun d hd => hn.2.2 d.1 (List.mem_map_of_mem hd) e.1 List.mem_cons_self⟩

theorem text?_of_concat (hn : ((es ++ [e]).map Prod.fst).Nodup) (h : e.1.text? = some key) : es.text? key = none := by
  obtain ⟨hes, hne⟩ := nodup_of_concat hn
  rw [text?_eq_none_iff hes, ← Item.text?_eq_some_iff.mp h]
  exact fun y hy => hne _ hy rfl

theorem text?_concat (hn : ((es ++ [e]).map Prod.fst).Nodup) :
    text? (es ++ [e]) key = if e.1.text? = some key then some e.2 else es.text? key := by
  split
  case isTrue hkey =>
    rw [text?_eq_some_iff hn, ← Item.text?_eq_some_iff.mp hkey]
    exact List.mem_concat_self
  case isFalse hkey => simp [text?, List.find?_append, hkey]

end Entries

namespace Field

/-- A field of a record in the making: what an entry under its key does to a state, what it shows of a state, and what
it shows when this or nothing stands under the key. -/
structure Slot (σ : Type) where
  key : String
  {α : Type}
  get : σ → α
  enter : σ → Item → Outcome σ
  Holds : Option Item → α → Prop
  holds_of_enter : ∀ {s y t}, enter s y = .ok t → Holds (some y) (get t)
  enter_of_holds : ∀ {y a}, Holds (some y) a → ∀ s, ∃ t, enter s y = .ok t
  unique : ∀ {y? a b}, Holds y? a → Holds y? b → a = b

namespace Slot

variable {σ α : Type} {key : String} {read : Item → Outcome α} {get : σ → Option α} {set : σ → α → σ}
  {hget : ∀ s a, get (set s a) = some a} {s t : σ}

def stored (key : String) (read : Item → Outcome α) (get : σ → Option α) (set : σ → α → σ)
    (hget : ∀ s a, get (set s a) = some a) : Slot σ where
  key := key
  get := get
  enter s y := do return set s (← read y)
  Holds y? o := y?.mapM read = .ok o
  holds_of_enter h := by
    obtain ⟨a, ha, ⟨⟩⟩ := bind_eq_ok_iff.mp h
    rw [hget, Option.mapM_some, ha]
    rfl
  enter_of_holds h s := by
    obtain ⟨a, ha, -⟩ := bind_eq_ok_iff.mp h
    exact ⟨set s a, bind_eq_ok_iff.mpr ⟨a, ha, rfl⟩⟩
  unique ha hb := Except.ok.inj (ha.symm.trans hb)

@[simp] theorem key_stored : (stored key read get set hget).key = key := rfl

theorem enter_stored {y : Item} : (stored key read get set hget).enter s y = do return set s (← read y) := rfl

@[simp] theorem enter_stored_eq_ok_iff {y : Item} :
    (stored key read get set hget).enter s y = .ok t ↔ ∃ a, read y = .ok a ∧ set s a = t := by
  rw [enter_stored, bind_eq_ok_iff]
  simp only [pure, Except.pure, Except.ok.injEq]

@[simp] theorem get_stored_eq_iff :
    (stored key read get set hget).get s = (stored key read get set hget).get t ↔ get s = get t := .rfl

@[simp] theorem holds_stored_none :
    (stored key read get set hget).Holds none ((stored key read get set hget).get s) ↔ get s = none := by
  have hholds : (stored key read get set hget).Holds none ((stored key read get set hget).get s) ↔
      Except.ok none = Except.ok (get s) := .rfl
  rw [hholds, Except.ok.injEq, eq_comm]

theorem holds_stored_iff {R : Item → α → Prop} {es : Entries} (hx : (Item.map es).DistinctKeys)
    (hread : ∀ y, y.DistinctKeys → ∀ a, read y = .ok a ↔ R y a) :
    (stored key read get set hget).Holds (es.text? key) (get s) ↔ (Item.map es).MayHave key R (get s) := by
  have hholds : (stored key read get set hget).Holds (es.text? key) (get s) ↔
      (es.text? key).mapM read = .ok (get s) := .rfl
  rw [hholds]
  cases hy : es.text? key with
  | none =>
    rw [Entries.text?_eq_none_iff hx.nodup] at hy
    cases get s <;> simp [Item.MayHave, Item.Has, hy, pure, Except.pure]
  | some y =>
    have hmem (z : Item) : (.text key, z) ∈ es ↔ z = y := by
      rw [← Entries.text?_eq_some_iff hx.nodup, hy, Option.some_inj, eq_comm]
    have hdistinct : y.DistinctKeys := hx.value ((hmem y).mpr rfl)
    cases get s with
    | none => cases hr : read y <;> simp [Item.MayHave, Item.Has, hmem, hr]
    | some a => cases hr : read y <;> simp [Item.MayHave, Item.Has, hmem, ← hread y hdistinct, hr]

/-- What stands under the key is read and not kept. -/
def checked (key : String) (read : Item → Outcome α) : Slot σ where
  key := key
  get _ := ()
  enter s y := (read y).map fun _ => s
  Holds y? _ := ∀ y ∈ y?, ∃ a, read y = .ok a
  holds_of_enter h := by
    rintro _ ⟨⟩
    obtain ⟨a, ha, -⟩ := Provenance.map_eq_ok_iff.mp h
    exact ⟨a, ha⟩
  enter_of_holds h s := by
    obtain ⟨a, ha⟩ := h _ rfl
    exact ⟨s, Provenance.map_eq_ok_iff.mpr ⟨a, ha, rfl⟩⟩
  unique _ _ := rfl

@[simp] theorem key_checked : (checked key read : Slot σ).key = key := rfl

theorem enter_checked {y : Item} : (checked key read).enter s y = (read y).map fun _ => s := rfl

@[simp] theorem enter_checked_eq_ok_iff {y : Item} :
    (checked key read).enter s y = .ok t ↔ (∃ a, read y = .ok a) ∧ s = t := by
  rw [enter_checked, Provenance.map_eq_ok_iff, exists_and_right]

@[simp] theorem get_checked_eq_iff : (checked key read).get s = (checked key read).get t ↔ True := iff_true_intro rfl

@[simp] theorem holds_checked_none : (checked key read).Holds none ((checked key read).get s) := nofun

theorem holds_checked_iff {es : Entries} (hn : (es.map Prod.fst).Nodup) :
    (checked key read).Holds (es.text? key) ((checked key read).get s) ↔
      (Item.map es).HasOnly key fun y => ∃ a, read y = .ok a := by
  have hholds : (checked key read).Holds (es.text? key) ((checked key read).get s) ↔
      ∀ y ∈ es.text? key, ∃ a, read y = .ok a := .rfl
  rw [hholds]
  simp only [Item.HasOnly, Item.has_map_iff, exists_eq_right, Option.mem_def, Entries.text?_eq_some_iff hn]

end Slot

variable {σ : Type} {put : σ → Option String → Item → Outcome σ} {empty : σ} {slots : List (Slot σ)}

/-- A record is made of slots: an entry under the key of one fills it and leaves the others, any other entry is passed
over, and the slots show all of a state. -/
structure MadeOf (put : σ → Option String → Item → Outcome σ) (empty : σ) (slots : List (Slot σ)) : Prop where
  start : ∀ f ∈ slots, f.Holds none (f.get empty)
  own : ∀ f ∈ slots, ∀ s y, put s (some f.key) y = f.enter s y
  other : ∀ s k? y, (∀ f ∈ slots, k? ≠ some f.key) → put s k? y = .ok s
  apart : ∀ f ∈ slots, ∀ g ∈ slots, f.key ≠ g.key → ∀ s y t, f.enter s y = .ok t → g.get t = g.get s
  ext : ∀ s t, (∀ f ∈ slots, f.get s = f.get t) → s = t

theorem MadeOf.holds_of_put (h : MadeOf put empty slots) {s t : σ} {k? : Option String} {y : Item}
    (ht : put s k? y = .ok t) {f : Slot σ} (hf : f ∈ slots) {y? : Option Item} (hs : f.Holds y? (f.get s)) :
    f.Holds (if k? = some f.key then some y else y?) (f.get t) := by
  by_cases hkey : k? = some f.key
  · rw [hkey, h.own f hf] at ht
    rw [if_pos hkey]
    exact f.holds_of_enter ht
  · rw [if_neg hkey]
    have hsame : f.get t = f.get s := by
      by_cases hknown : ∃ g ∈ slots, k? = some g.key
      · obtain ⟨g, hg, rfl⟩ := hknown
        rw [h.own g hg] at ht
        exact h.apart g hg f hf (fun heq => hkey (congrArg some heq)) s y t ht
      · have hskip := h.other s k? y fun g hg hk => hknown ⟨g, hg, hk⟩
        rw [Except.ok.inj (ht.symm.trans hskip)]
    rw [hsame]
    exact hs

theorem MadeOf.exists_put (h : MadeOf put empty slots) {k? : Option String} {y : Item}
    (hall : ∀ f ∈ slots, k? = some f.key → ∃ a, f.Holds (some y) a) (s : σ) : ∃ t, put s k? y = .ok t := by
  by_cases hknown : ∃ g ∈ slots, k? = some g.key
  · obtain ⟨g, hg, hkey⟩ := hknown
    obtain ⟨a, ha⟩ := hall g hg hkey
    rw [hkey, h.own g hg]
    exact g.enter_of_holds ha s
  · exact ⟨s, h.other s k? y fun g hg hkey => hknown ⟨g, hg, hkey⟩⟩

theorem MadeOf.holds_of_foldlM (h : MadeOf put empty slots) {es : Entries} (hn : (es.map Prod.fst).Nodup) {s : σ}
    (hs : es.foldlM (fun s e => put s e.1.text? e.2) empty = .ok s) :
    ∀ f ∈ slots, f.Holds (es.text? f.key) (f.get s) := by
  -- From the last entry backwards: what it fills, no entry before it has filled.
  induction es using List.reverseRecOn generalizing s with
  | nil =>
    cases hs
    exact h.start
  | append_singleton es e ih =>
    obtain ⟨s', hs', hs⟩ := foldlM_concat_eq_ok_iff.mp hs
    intro f hf
    rw [Entries.text?_concat hn]
    exact h.holds_of_put hs hf (ih (Entries.nodup_of_concat hn).1 hs' f hf)

theorem MadeOf.exists_foldlM (h : MadeOf put empty slots) {es : Entries} (hn : (es.map Prod.fst).Nodup)
    (hall : ∀ f ∈ slots, ∃ a, f.Holds (es.text? f.key) a) :
    ∃ s, es.foldlM (fun s e => put s e.1.text? e.2) empty = .ok s := by
  induction es using List.reverseRecOn with
  | nil => exact ⟨empty, rfl⟩
  | append_singleton es e ih =>
    simp only [Entries.text?_concat hn] at hall
    obtain ⟨s, hs⟩ : ∃ s, es.foldlM (fun s e => put s e.1.text? e.2) empty = .ok s := by
      apply ih (Entries.nodup_of_concat hn).1
      intro f hf
      have hf' := hall f hf
      split at hf'
      case isTrue hkey =>
        -- Nothing stands under the key of the last entry before it, and the slot of that key shows nothing at the start.
        rw [Entries.text?_of_concat hn hkey]
        exact ⟨_, h.start f hf⟩
      case isFalse => exact hf'
    obtain ⟨t, ht⟩ : ∃ t, put s e.1.text? e.2 = .ok t := by
      apply h.exists_put
      intro f hf hkey
      have hf' := hall f hf
      rwa [if_pos hkey] at hf'
    exact ⟨t, foldlM_concat_eq_ok_iff.mpr ⟨s, hs, ht⟩⟩

theorem MadeOf.record_eq_ok_iff (h : MadeOf put empty slots) {name : String} {x : Item} (hx : x.DistinctKeys) {s : σ} :
    record name put empty x = .ok s ↔
      ∃ es, x = .map es ∧ ∀ f ∈ slots, f.Holds (Entries.text? es f.key) (f.get s) := by
  rw [record, bind_eq_ok_iff]
  simp only [map_eq_ok_iff]
  constructor
  · rintro ⟨es, rfl, hs⟩
    exact ⟨es, rfl, h.holds_of_foldlM hx.nodup hs⟩
  · rintro ⟨es, rfl, hs⟩
    obtain ⟨t, ht⟩ := h.exists_foldlM hx.nodup fun f hf => ⟨_, hs f hf⟩
    -- Some state is read; it shows in every slot what `s` does.
    have hst : s = t := h.ext s t fun f hf => f.unique (hs f hf) (h.holds_of_foldlM hx.nodup ht f hf)
    exact ⟨es, rfl, hst ▸ ht⟩

section Table

variable {κ β : Type} [Ord κ] [Std.TransOrd κ] {key : Item → Outcome κ} {item : κ → Item}
  {value : κ → Item → Outcome β} {R : Item → β → Prop} {es : Entries} {m : Std.ExtTreeMap κ β}

theorem tableEntry_eq_ok_iff {e : Item × Item} {t : Std.ExtTreeMap κ β} :
    tableEntry key value m e = .ok t ↔ ∃ k, key e.1 = .ok k ∧ ∃ b, value k e.2 = .ok b ∧ m.insert k b = t := by
  simp only [tableEntry, bind_eq_ok_iff, pure, Except.pure, Except.ok.injEq]

theorem exists_foldlM_tableEntry (h : ∀ e ∈ es, ∃ k b, key e.1 = .ok k ∧ value k e.2 = .ok b) :
    ∃ m, es.foldlM (tableEntry key value) ∅ = .ok m := by
  induction es using List.reverseRecOn with
  | nil => exact ⟨∅, rfl⟩
  | append_singleton es e ih =>
    rw [List.forall_mem_append, List.forall_mem_singleton] at h
    obtain ⟨m, hm⟩ := ih h.1
    obtain ⟨k, b, hk, hb⟩ := h.2
    have hinsert : tableEntry key value m e = .ok (m.insert k b) := tableEntry_eq_ok_iff.mpr ⟨k, hk, b, hb, rfl⟩
    exact ⟨_, foldlM_concat_eq_ok_iff.mpr ⟨m, hm, hinsert⟩⟩

theorem getElem?_of_tabulates (hkey : ∀ x k, key x = .ok k ↔ x = item k)
    (hvalue : ∀ y, y.DistinctKeys → ∀ k b, value k y = .ok b ↔ R y b) {x : Item} (hx : x.DistinctKeys)
    {t : Std.ExtTreeMap κ β} (hm : x.Tabulates item R m) (ht : x.Tabulates item R t) {k : κ} {b : β}
    (hk : m[k]? = some b) : t[k]? = some b := by
  obtain ⟨es, rfl, -, htable⟩ := hm
  obtain ⟨_, ⟨⟩, hentries, -⟩ := ht
  obtain ⟨y, hy, hb⟩ := htable k b hk
  obtain ⟨l, c, hl, hc, hget⟩ := hentries _ hy
  have hkl : k = l := by
    have hk := (hkey (item k) k).mpr rfl
    exact Except.ok.inj (hk.symm.trans ((hkey (item k) l).mpr hl))
  have hbc : b = c := by
    have hb := (hvalue y (hx.value hy) k b).mpr hb
    exact Except.ok.inj (hb.symm.trans ((hvalue y (hx.value hy) k c).mpr hc))
  rw [hkl, hbc, hget]

variable [Std.LawfulEqOrd κ]

theorem getElem?_insert_eq_some_iff {k l : κ} {b c : β} :
    (m.insert k b)[l]? = some c ↔ k = l ∧ b = c ∨ k ≠ l ∧ m[l]? = some c := by
  rw [Std.ExtTreeMap.getElem?_insert]
  by_cases h : k = l <;> simp [h]

theorem tabulates_of_foldlM (hkey : ∀ x k, key x = .ok k ↔ x = item k)
    (hvalue : ∀ e ∈ es, ∀ k b, value k e.2 = .ok b ↔ R e.2 b) (hn : (es.map Prod.fst).Nodup)
    (h : es.foldlM (tableEntry key value) ∅ = .ok m) : (Item.map es).Tabulates item R m := by
  refine ⟨es, rfl, ?_⟩
  induction es using List.reverseRecOn generalizing m with
  | nil =>
    cases h
    simp
  | append_singleton es e ih =>
    obtain ⟨m, hm, h⟩ := foldlM_concat_eq_ok_iff.mp h
    obtain ⟨k, hk, b, hb, rfl⟩ := tableEntry_eq_ok_iff.mp h
    obtain ⟨hes, hne⟩ := Entries.nodup_of_concat hn
    rw [List.forall_mem_append, List.forall_mem_singleton] at hvalue
    obtain ⟨hentries, htable⟩ := ih hvalue.1 hes hm
    rw [hkey] at hk
    rw [hvalue.2] at hb
    constructor
    · rw [List.forall_mem_append, List.forall_mem_singleton]
      constructor
      · intro d hd
        -- The last entry takes the place of no other, since its key is none of theirs.
        obtain ⟨l, c, hl, hc, hget⟩ := hentries d hd
        have hkl : k ≠ l := by
          rintro rfl
          exact hne d hd (hl.trans hk.symm)
        exact ⟨l, c, hl, hc, getElem?_insert_eq_some_iff.mpr (.inr ⟨hkl, hget⟩)⟩
      · exact ⟨k, b, hk, hb, getElem?_insert_eq_some_iff.mpr (.inl ⟨rfl, rfl⟩)⟩
    · intro l c hget
      obtain ⟨rfl, rfl⟩ | ⟨-, hget⟩ := getElem?_insert_eq_some_iff.mp hget
      · exact ⟨e.2, List.mem_append_right es (hk ▸ List.mem_cons_self), hb⟩
      · obtain ⟨y, hy, hc⟩ := htable l c hget
        exact ⟨y, List.mem_append_left [e] hy, hc⟩

theorem table_eq_ok_iff {name : String} {x : Item} (hkey : ∀ x k, key x = .ok k ↔ x = item k)
    (hvalue : ∀ y, y.DistinctKeys → ∀ k b, value k y = .ok b ↔ R y b) (hx : x.DistinctKeys) :
    table name key value x = .ok m ↔ x.Tabulates item R m := by
  rw [table, bind_eq_ok_iff]
  simp only [map_eq_ok_iff]
  constructor
  · rintro ⟨es, rfl, h⟩
    exact tabulates_of_foldlM hkey (fun e he => hvalue e.2 (hx.value he)) hx.nodup h
  · intro htab
    obtain ⟨es, rfl, hentries, -⟩ := id htab
    have hread : ∀ e ∈ es, ∃ k b, key e.1 = .ok k ∧ value k e.2 = .ok b := by
      intro e he
      obtain ⟨k, b, hk, hb, -⟩ := hentries e he
      exact ⟨k, b, (hkey e.1 k).mpr hk, (hvalue e.2 (hx.value he) k b).mpr hb⟩
    obtain ⟨t, ht⟩ := exists_foldlM_tableEntry hread
    have htab' := tabulates_of_foldlM hkey (fun e he => hvalue e.2 (hx.value he)) hx.nodup ht
    have heq : m = t := by
      apply Std.ExtTreeMap.ext_getElem?
      intro k
      apply Option.ext
      intro b
      exact ⟨getElem?_of_tabulates hkey hvalue hx htab htab', getElem?_of_tabulates hkey hvalue hx htab' htab⟩
    exact ⟨es, rfl, heq ▸ ht⟩

end Table

end Field

end Provenance.Cbor
