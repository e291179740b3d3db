import Provenance.Cbor.Record
import Provenance.Proofs.Calendar.Timestamp
import Provenance.Proofs.Outcome

/-!
Fields: what the readers of arrays and of mandatory fields give, and that what is written for a value is read as it.
-/
namespace Provenance.Cbor.Field

open Calendar (Instant)

@[simp] theorem text_text (name s : String) : text name (.text s) = .ok s := rfl

@[simp] theorem bytes_bytes (name : String) (b : Octets) : bytes name (.bytes b) = .ok b := rfl

@[simp] theorem uint_unsigned (name : String) (n : UInt64) : uint name (.unsigned n) = .ok n := rfl

@[simp] theorem array_array (name : String) (xs : List Item) : array name (.array xs) = .ok xs := rfl

@[simp] theorem map_map (name : String) (es : Entries) : map name (.map es) = .ok es := rfl

@[simp] theorem bignum_ofMagnitude (name : String) (b : Octets) :
    bignum name (.ofMagnitude b) = .ok (Octets.stripZeros b) := rfl

theorem text_eq_ok_iff {name s : String} {x : Item} : text name x = .ok s ↔ x = .text s := by
  cases x <;> simp [text, Item.text?, mustBe, pure, Except.pure]

theorem bytes_eq_ok_iff {name : String} {b : Octets} {x : Item} : bytes name x = .ok b ↔ x = .bytes b := by
  cases x <;> simp [bytes, Item.bytes?, mustBe, pure, Except.pure]

theorem uint_eq_ok_iff {name : String} {n : UInt64} {x : Item} : uint name x = .ok n ↔ x = .unsigned n := by
  cases x <;> simp [uint, int, Item.int?, mustBe, pure, Except.pure]

theorem int_eq_ok_iff {name : String} {i : Int} {x : Item} : int name x = .ok i ↔ x.int? = some i := by
  unfold int
  cases x.int? <;> simp [mustBe, pure, Except.pure]

theorem array_eq_ok_iff {name : String} {xs : List Item} {x : Item} : array name x = .ok xs ↔ x = .array xs := by
  cases x <;> simp [array, Item.array?, mustBe, pure, Except.pure]

theorem map_eq_ok_iff {name : String} {es : Entries} {x : Item} : map name x = .ok es ↔ x = .map es := by
  cases x <;> simp [map, Item.map?, mustBe, pure, Except.pure]

theorem date_ofInstant_eq (name : String) (t : Instant) :
    date name (.ofInstant t) = timestamp name (Calendar.Timestamp.render .zulu t) := by
  have htag (x : Item) : date name (.tag tagTimestamp x) = text name x >>= timestamp name := rfl
  rw [Item.ofInstant, htag, text_text, ok_bind]

theorem date_ofInstant (name : String) {t : Instant} (h : t.FourDigitYear) : date name (.ofInstant t) = .ok t := by
  rw [date_ofInstant_eq, timestamp, Calendar.Timestamp.parse_render, if_pos h]

theorem date_ofInstant_of_sign (name : String) {t : Instant} (h : ¬ t.FourDigitYear) :
    ∃ d, date name (.ofInstant t) = .error (.malformed d) := by
  rw [date_ofInstant_eq, timestamp, Calendar.Timestamp.parse_render, if_neg h]
  exact ⟨_, rfl⟩

variable {α : Type} {name : String} {read : String → Item → Outcome α}

theorem required_eq_ok_iff {o : Option α} {a : α} : required name o = .ok a ↔ o = some a := by
  cases o with
  | none => exact ⟨nofun, nofun⟩
  | some b => simp [required]

theorem length_of_each {i : Nat} {xs : List Item} {as : List α} (h : each name read i xs = .ok as) :
    as.length = xs.length := by
  induction xs generalizing i as with
  | nil =>
    cases h
    rfl
  | cons x xs ih =>
    obtain ⟨a, -, h⟩ := bind_eq_ok_iff.mp h
    obtain ⟨as, has, h⟩ := bind_eq_ok_iff.mp h
    cases h
    rw [List.length_cons, List.length_cons, ih has]

theorem each_eq_ok_of_forall₂ {xs : List Item} {as : List α} (i : Nat)
    (h : List.Forall₂ (fun x a => ∀ name, read name x = .ok a) xs as) : each name read i xs = .ok as := by
  induction h generalizing i with
  | nil => rfl
  | cons hx _ ih =>
    rw [each, hx, ok_bind, ih, ok_bind]
    rfl

theorem each_eq_ok_iff {R : Item → α → Prop} {i : Nat} {xs : List Item} {as : List α}
    (h : ∀ x ∈ xs, ∀ name a, read name x = .ok a ↔ R x a) : each name read i xs = .ok as ↔ List.Forall₂ R xs as := by
  induction xs generalizing i as with
  | nil => cases as <;> simp [each]
  | cons x xs ih =>
    rw [List.forall_mem_cons] at h
    simp only [each, bind_eq_ok_iff, h.1, ih h.2]
    constructor
    · rintro ⟨a, ha, as, has, ⟨⟩⟩
      exact .cons ha has
    · rintro (_ | ⟨ha, has⟩)
      exact ⟨_, ha, _, has, rfl⟩

theorem texts_eq_ok_iff {ss : List String} {x : Item} : texts name x = .ok ss ↔ x = .array (ss.map .text) := by
  have heach (xs : List Item) : each name text 0 xs = .ok ss ↔ xs = ss.map .text := by
    have hread (x : Item) (_ : x ∈ xs) (name s : String) : text name x = .ok s ↔ x = .text s := text_eq_ok_iff
    rw [each_eq_ok_iff hread, ← List.forall₂_eq_eq_eq, List.forall₂_map_right_iff]
  rw [texts, bind_eq_ok_iff]
  simp only [array_eq_ok_iff, heach]
  constructor
  · rintro ⟨xs, rfl, rfl⟩
    rfl
  · rintro rfl
    exact ⟨_, rfl, rfl⟩

theorem each_map {item : α → Item} (h : ∀ name a, read name (item a) = .ok a) (i : Nat) (as : List α) :
    each name read i (as.map item) = .ok as := by
  apply each_eq_ok_of_forall₂
  rw [List.forall₂_map_left_iff, List.forall₂_same]
  intro a _ name
  exact h name a

theorem forall_mem_optional {β : Type} {p : Item × Item → Prop} {entry : β → Item × Item} {o : Option β} :
    (∀ x ∈ (o.map fun b => [entry b]).getD [], p x) ↔ ∀ b ∈ o, p (entry b) := by
  cases o <;> simp

/-- An entry that may be left out, in a record whose field for it is empty before. -/
theorem foldlM_optional {σ β : Type} {put : σ → Item × Item → Outcome σ} {entry : β → Item × Item} (o : Option β)
    (set : Option β → σ) (h : ∀ b ∈ o, put (set none) (entry b) = .ok (set (some b))) :
    ((o.map fun b => [entry b]).getD []).foldlM put (set none) = .ok (set o) := by
  cases o with
  | none => rfl
  | some b =>
    rw [Option.map_some, Option.getD_some, List.foldlM_cons, h b rfl]
    rfl

end Provenance.Cbor.Field
