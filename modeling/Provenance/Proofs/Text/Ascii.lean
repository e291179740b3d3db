import Provenance.Proofs.Text.Utf8
import Provenance.Text.Slice

/-!
In text of ASCII characters only, octets are counted as characters are.
-/
namespace Provenance.Text

def Ascii (cs : List Char) : Prop := ∀ c ∈ cs, c.toNat < 128

variable {cs : List Char} {n start stop : Nat}

theorem utf8Size_of_ascii {c : Char} (h : c.toNat < 128) : c.utf8Size = 1 :=
  Char.utf8Size_eq_one_iff.mpr (UInt32.le_iff_toNat_le.mpr (Nat.le_of_lt_succ h))

theorem octetCount_of_ascii (h : Ascii cs) : octetCount cs = cs.length := by
  induction cs with
  | nil => rfl
  | cons c cs ih =>
    obtain ⟨hc, hcs⟩ := List.forall_mem_cons.mp h
    rw [octetCount, utf8Size_of_ascii hc, ih hcs, List.length_cons, Nat.add_comm]

theorem dropOctets?_of_ascii (h : Ascii cs) (hn : n ≤ cs.length) : dropOctets? n cs = some (cs.drop n) := by
  induction cs generalizing n with
  | nil =>
    obtain rfl := Nat.le_zero.mp hn
    rfl
  | cons c cs ih =>
    obtain ⟨hc, hcs⟩ := List.forall_mem_cons.mp h
    cases n with
    | zero => rfl
    | succ n =>
      rw [dropOctets?, utf8Size_of_ascii hc, if_pos (Nat.le_add_left 1 n), Nat.add_sub_cancel,
        ih hcs (Nat.le_of_succ_le_succ hn), List.drop_succ_cons]

theorem takeOctets?_of_ascii (h : Ascii cs) (hn : n ≤ cs.length) : takeOctets? n cs = some (cs.take n) := by
  induction cs generalizing n with
  | nil =>
    obtain rfl := Nat.le_zero.mp hn
    rfl
  | cons c cs ih =>
    obtain ⟨hc, hcs⟩ := List.forall_mem_cons.mp h
    cases n with
    | zero => rfl
    | succ n =>
      rw [takeOctets?, utf8Size_of_ascii hc, if_pos (Nat.le_add_left 1 n), Nat.add_sub_cancel,
        ih hcs (Nat.le_of_succ_le_succ hn), Option.map_some, List.take_succ_cons]

theorem slice?_of_ascii (h : Ascii cs) (hle : start ≤ stop) (hlen : stop ≤ cs.length) :
    slice? start stop cs = some ((cs.drop start).take (stop - start)) := by
  have hdrop : Ascii (cs.drop start) := fun c hc => h c (List.mem_of_mem_drop hc)
  have hrest : stop - start ≤ (cs.drop start).length := by
    rw [List.length_drop]
    omega
  rw [slice?, if_pos hle, dropOctets?_of_ascii h (hle.trans hlen), Option.bind_some, takeOctets?_of_ascii hdrop hrest]

theorem length_octets_of_ascii {s : String} (h : Ascii s.toList) : (octets s).length = s.toList.length := by
  rw [octets_eq_flatMap]
  generalize s.toList = cs at h
  induction cs with
  | nil => rfl
  | cons c cs ih =>
    obtain ⟨hc, hcs⟩ := List.forall_mem_cons.mp h
    rw [List.flatMap_cons, List.length_append, String.length_utf8EncodeChar, utf8Size_of_ascii hc, ih hcs,
      List.length_cons, Nat.add_comm]

end Provenance.Text
