import Provenance.Proofs.Cbor.Rearranging
import Provenance.Proofs.SecurityObject.Schema

/-!
The order of the entries of a security object, and entries that it does not know, are without influence.
-/
namespace Provenance

open Cbor
open Cbor.Shape (Preserves preserves_fixed preserves_has preserves_isMap preserves_mayHave preserves_tabulates)

theorem PublicKey.preserves_ofMap (k : PublicKey) : Shape.fixed.table.Preserves (PublicKey.ofMap · = .ok k) := by
  apply Shape.preserves_entries
  · intro es fs hd hp
    have hrequired (name : String) (label : Int64) : required es name label = required fs name label := by
      rw [required, required, Entries.label?_perm hd.nodup hp]
    simp only [ofMap, Field.map_map, ok_bind, hrequired]
  · intro k s x y es _ hk hxy
    cases hk
    rw [hxy.eq_of_fixed]
  · intro k y es _ hk
    cases hk

namespace KeyAuthorizations

def shape : Shape := .record [("nameSpaces", .fixed), ("dataElements", .table .fixed)]

theorem preserves_statedBy (a : KeyAuthorizations) : shape.Preserves a.StatedBy := by
  apply Preserves.congr a.statedBy_iff
  apply preserves_isMap.and
  apply Preserves.and
  · exact preserves_mayHave rfl (fun _ => preserves_fixed _) _
  · exact preserves_mayHave rfl (preserves_tabulates fun _ => preserves_fixed _) _

end KeyAuthorizations

namespace DeviceKeyInfo

def shape : Shape :=
  .record [("deviceKey", .table .fixed), ("keyAuthorizations", KeyAuthorizations.shape), ("keyInfo", .fixed)]

theorem preserves_statedBy (d : DeviceKeyInfo) : shape.Preserves d.StatedBy := by
  apply Preserves.congr d.statedBy_iff
  apply Preserves.and
  · exact preserves_has rfl d.deviceKey.preserves_ofMap
  apply Preserves.and
  · exact preserves_mayHave rfl KeyAuthorizations.preserves_statedBy _
  · exact preserves_mayHave rfl (fun _ => preserves_fixed _) _

end DeviceKeyInfo

namespace ValidityInfo

def shape : Shape :=
  .record [("signed", .fixed), ("validFrom", .fixed), ("validUntil", .fixed), ("expectedUpdate", .fixed)]

theorem preserves_statedBy (v : ValidityInfo) : shape.Preserves v.StatedBy := by
  apply Preserves.congr v.statedBy_iff
  apply Preserves.and
  · exact preserves_has rfl (preserves_fixed _)
  apply Preserves.and
  · exact preserves_has rfl (preserves_fixed _)
  apply Preserves.and
  · exact preserves_has rfl (preserves_fixed _)
  · exact preserves_mayHave rfl (fun _ => preserves_fixed _) _

end ValidityInfo

namespace SecurityObject

/-- The maps of a security object whose order does not count: all but the information on the device's key, which is
kept as it is. -/
def shape : Shape :=
  .record [("version", .fixed), ("digestAlgorithm", .fixed), ("valueDigests", .table (.table .fixed)),
    ("deviceKeyInfo", DeviceKeyInfo.shape), ("docType", .fixed), ("validityInfo", ValidityInfo.shape)]

theorem preserves_statesDigests (size : Nat) (m : ValueDigests) :
    (Shape.table (.table .fixed)).Preserves (StatesDigests size · m) :=
  preserves_tabulates (preserves_tabulates fun _ => preserves_fixed _) m

theorem preserves_statedBy (o : SecurityObject) : shape.Preserves o.StatedBy := by
  apply Preserves.congr o.statedBy_iff
  apply Preserves.and
  · exact preserves_has rfl (preserves_fixed _)
  apply Preserves.and
  · exact preserves_has rfl (preserves_fixed _)
  apply Preserves.and
  · exact preserves_has rfl (preserves_statesDigests _ _)
  apply Preserves.and
  · exact preserves_has rfl o.device.preserves_statedBy
  apply Preserves.and
  · exact preserves_has rfl (preserves_fixed _)
  · exact preserves_has rfl o.validity.preserves_statedBy

/-- A security object is read from an item with distinct keys, such as the decoder gives, exactly if the item states
it; and an item is read alike however it is rearranged. -/
theorem ofItem_exact :
    (∀ x o, x.DistinctKeys → (ofItem x = .ok o ↔ o.StatedBy x)) ∧
      (∀ x y, y.DistinctKeys → Rearranged shape x y → ∀ o, ofItem x = .ok o ↔ ofItem y = .ok o) ∧
      ∀ b x, Cbor.decode b = .ok x → x.DistinctKeys := by
  refine ⟨?_, ?_, ?_⟩
  · intro x o hx
    exact ofItem_eq_ok_iff hx
  · intro x y hy h o
    rw [ofItem_eq_ok_iff (h.distinctKeys hy), ofItem_eq_ok_iff hy]
    exact o.preserves_statedBy x y hy h
  · intro b x h
    exact distinctKeys_of_decode h

end SecurityObject

end Provenance
