import Provenance.Trust.AnchorList

/-!
Stores over whole runs of their operations. Whatever is done to a store that starts empty, each anchor lies under the
identifier of its own key. A load adds the certificates before the first one without an identifier, and nothing takes
them back when it fails there.
-/
namespace Provenance

inductive Bundle
  | json (text : String)
  | pem (text : Octets)

namespace Bundle

def certificates : Bundle → Outcome (List Certificate)
  | json text => AnchorStore.certificatesOfText text
  | pem text => Certificate.ofPem text

def loadInto (s : AnchorStore) : Bundle → Outcome Unit × AnchorStore
  | json text => s.loadJson text
  | pem text => s.loadPem text

theorem loadInto_eq (b : Bundle) (s : AnchorStore) : b.loadInto s = s.load b.certificates := by
  cases b <;> rfl

end Bundle

namespace AnchorStore

/-- The certificates that a load adds before it meets one without an identifier. -/
def addable (cs : List Certificate) : List Certificate := cs.takeWhile fun c => c.ski?.isSome

def latest? (k : Octets) (cs : List Certificate) : Option Certificate :=
  (cs.filter fun c => c.ski? = some k).getLast?

theorem latest?_cons (k : Octets) (c : Certificate) (cs : List Certificate) :
    latest? k (c :: cs) = (latest? k cs).or (if c.ski? = some k then some c else none) := by
  unfold latest?
  by_cases hc : c.ski? = some k
  · rw [List.filter_cons_of_pos (by simpa using hc), List.getLast?_cons, if_pos hc]
    cases (cs.filter fun c => c.ski? = some k).getLast? <;> simp
  · rw [List.filter_cons_of_neg (by simpa using hc), if_neg hc, Option.or_none]

variable {s u : AnchorStore}

theorem ext_lookup (h : ∀ k, s.lookup k = u.lookup k) : s = u := by
  cases s
  cases u
  congr 1
  exact Std.ExtTreeMap.ext_getElem? h

theorem lookup_empty (k : Octets) : empty.lookup k = none := Std.ExtTreeMap.getElem?_empty

theorem add_of_ski (s : AnchorStore) {c : Certificate} {k : Octets} (h : c.ski? = some k) :
    s.add c = .ok ⟨s.anchors.insert k c⟩ := by
  simp [add, h]

theorem add_of_no_ski (s : AnchorStore) {c : Certificate} (h : c.ski? = none) :
    s.add c = .error (.missing s!"subjectKeyIdentifier in {c.subject}") := by
  simp [add, h]

theorem lookup_add {c : Certificate} (h : s.add c = .ok u) (k : Octets) :
    u.lookup k = if c.ski? = some k then some c else s.lookup k := by
  cases hc : c.ski? with
  | none => rw [add_of_no_ski s hc] at h; cases h
  | some l =>
    rw [add_of_ski s hc] at h
    cases h
    simp [lookup, Std.ExtTreeMap.getElem?_insert]

theorem lookup_remove (s : AnchorStore) (c : Certificate) (k : Octets) :
    (s.remove c).2.lookup k = if c.ski? = some k then none else s.lookup k := by
  cases hc : c.ski? with
  | none => simp [remove, hc]
  | some l => simp [remove, hc, lookup, Std.ExtTreeMap.getElem?_erase]

theorem mem_certificates_iff {c : Certificate} : c ∈ s.certificates ↔ ∃ k, s.lookup k = some c := by
  simp only [certificates, lookup, List.mem_map, Prod.exists, exists_eq_right]
  exact exists_congr fun k => Std.ExtTreeMap.mem_toList_iff_getElem?_eq_some

theorem length_certificates : s.certificates.length = s.size := by
  rw [certificates, List.length_map, size, Std.ExtTreeMap.length_toList]

theorem addAll_ok_iff (s : AnchorStore) (cs : List Certificate) :
    (s.addAll cs).1 = .ok () ↔ ∀ c ∈ cs, c.ski? ≠ none := by
  induction cs generalizing s with
  | nil => simp [addAll]
  | cons c cs ih =>
    rw [List.forall_mem_cons]
    cases hc : c.ski? with
    | none => simp [addAll, add_of_no_ski s hc]
    | some k => simp [addAll, add_of_ski s hc, ih]

theorem lookup_addAll (s : AnchorStore) (cs : List Certificate) (k : Octets) :
    (s.addAll cs).2.lookup k = (latest? k (addable cs)).or (s.lookup k) := by
  induction cs generalizing s with
  | nil => simp [addAll, addable, latest?]
  | cons c cs ih =>
    cases hc : c.ski? with
    | none => simp [addAll, add_of_no_ski s hc, addable, hc, latest?]
    | some l =>
      have hadd := add_of_ski s hc
      have hrest : addable (c :: cs) = c :: addable cs := by simp [addable, hc]
      have hall : s.addAll (c :: cs) = (AnchorStore.mk (s.anchors.insert l c)).addAll cs := by
        rw [addAll, hadd]
      rw [hall, ih, lookup_add hadd, hrest, latest?_cons, Option.or_assoc]
      congr 1
      split <;> rfl

theorem lookup_load (s : AnchorStore) (read : Outcome (List Certificate)) (k : Octets) :
    (s.load read).2.lookup k = (latest? k (addable (read.toOption.getD []))).or (s.lookup k) := by
  cases read with
  | error e => simp [load, Except.toOption, addable, latest?]
  | ok cs => exact lookup_addAll s cs k

theorem load_eq_self_iff (s : AnchorStore) (read : Outcome (List Certificate)) :
    (s.load read).2 = s ↔
      ∀ cs, read = .ok cs → ∀ k c, latest? k (addable cs) = some c → s.lookup k = some c := by
  constructor
  · rintro h cs rfl k c hc
    have hk := lookup_load s (.ok cs) k
    rw [h] at hk
    simpa [Except.toOption, hc] using hk
  · intro h
    apply ext_lookup
    intro k
    rw [lookup_load]
    cases hread : read with
    | error e => simp [Except.toOption, addable, latest?]
    | ok cs =>
      cases hc : latest? k (addable cs) with
      | none => simp [Except.toOption, hc]
      | some c => simp [Except.toOption, hc, h cs hread k c hc]

/-- A failed load leaves the store alone exactly if the text could not be read, or each certificate that counts before
the one without an identifier was stored already. -/
theorem failed_load_unchanged_iff (s : AnchorStore) (b : Bundle) :
    ((b.loadInto s).1 ≠ .ok () → (b.loadInto s).2 = s) ↔
      ∀ cs, b.certificates = .ok cs → (∃ c ∈ cs, c.ski? = none) →
        ∀ k c, latest? k (addable cs) = some c → s.lookup k = some c := by
  rw [Bundle.loadInto_eq, load_eq_self_iff]
  have hfail : ∀ cs, (s.load (.ok cs)).1 ≠ .ok () ↔ ∃ c ∈ cs, c.ski? = none := by
    intro cs
    rw [load, ne_eq, addAll_ok_iff]
    simp
  constructor
  · intro h cs hcs hnone
    rw [hcs] at h
    exact h ((hfail cs).mpr hnone) cs rfl
  · intro h hne cs hcs
    rw [hcs] at hne
    exact h cs hcs ((hfail cs).mp hne)

/-- Two certificates, of which only the first has an identifier. -/
def mixedBundle : Bundle := .pem (Text.octets ("-----BEGIN CERTIFICATE-----\n" ++
  "MHswb6ADAgECAgEBMAUGAytlcDAAMB4XDTIwMDEwMTAwMDAwMFoXDTQwMDEwMTAw\n" ++
  "MDAwMFowADAqMAUGAytlcAMhAAAAAAAAAAAAAAAAAAAAAAAAAAAAAAAAAAAAAAAA\n" ++
  "AAAAow4wDDAKBgNVHQ4EAwQBATAFBgMrZXADAQA=\n" ++
  "-----END CERTIFICATE-----\n-----BEGIN CERTIFICATE-----\n" ++
  "MGswX6ADAgECAgECMAUGAytlcDAAMB4XDTIwMDEwMTAwMDAwMFoXDTQwMDEwMTAw\n" ++
  "MDAwMFowADAqMAUGAytlcAMhAAAAAAAAAAAAAAAAAAAAAAAAAAAAAAAAAAAAAAAA\n" ++
  "AAAAMAUGAytlcAMBAA==\n-----END CERTIFICATE-----\n"))

set_option maxRecDepth 4000 in
theorem mixedBundle_skis : mixedBundle.certificates.toOption.map (·.map Certificate.ski?) = some [some [1], none] := by
  decide +kernel

theorem mixedBundle_added_in_part :
    (mixedBundle.loadInto empty).1 ≠ .ok () ∧ (mixedBundle.loadInto empty).2 ≠ empty := by
  have hskis := mixedBundle_skis
  rw [Bundle.loadInto_eq]
  cases hcs : mixedBundle.certificates with
  | error e => simp [hcs, Except.toOption] at hskis
  | ok cs =>
    simp only [hcs, Except.toOption, Option.map_some, Option.some.injEq] at hskis
    obtain ⟨c, ds, rfl, hc, hds⟩ := List.map_eq_cons_iff.mp hskis
    obtain ⟨d, es, rfl, hd, hes⟩ := List.map_eq_cons_iff.mp hds
    constructor
    · rw [load, ne_eq, addAll_ok_iff]
      exact fun h => h d (by simp) hd
    · intro h
      have hk := lookup_load empty (.ok (c :: d :: es)) [1]
      rw [h, lookup_empty] at hk
      simp [Except.toOption, addable, latest?, hc, hd] at hk

def Keyed (s : AnchorStore) : Prop := ∀ k c, s.lookup k = some c → c.ski? = some k

theorem Keyed.isAnchor (hs : s.Keyed) {k : Octets} {c : Certificate} (h : s.lookup k = some c) :
    s.isAnchor c = true := by
  simp [AnchorStore.isAnchor, hs k c h, h, Certificate.same]

theorem exists_same_of_isAnchor {c : Certificate} (h : s.isAnchor c = true) :
    ∃ anchor ∈ s.certificates, anchor.same c = true := by
  obtain ⟨anchor, ha, hsame⟩ := (Option.any_eq_true _ _).mp h
  obtain ⟨k, -, hk⟩ := Option.bind_eq_some_iff.mp ha
  refine ⟨anchor, mem_certificates_iff.mpr ⟨k, hk⟩, ?_⟩
  simpa [Certificate.same, eq_comm] using hsame

inductive Operation
  | add (c : Certificate)
  | remove (c : Certificate)
  | load (b : Bundle)

/-- The store after an operation; a certificate that cannot be added changes nothing. -/
def Operation.run (s : AnchorStore) : Operation → AnchorStore
  | add c => (s.add c).toOption.getD s
  | remove c => (s.remove c).2
  | load b => (b.loadInto s).2

def after (ops : List Operation) : AnchorStore := ops.foldl Operation.run empty

theorem keyed_empty : empty.Keyed := by
  intro k c h
  rw [lookup_empty] at h
  cases h

theorem Keyed.run (hs : s.Keyed) (o : Operation) : (o.run s).Keyed := by
  intro k c h
  cases o with
  | add d =>
    cases hd : d.ski? with
    | none =>
      rw [Operation.run, add_of_no_ski s hd] at h
      exact hs k c h
    | some l =>
      rw [Operation.run, add_of_ski s hd] at h
      change (AnchorStore.mk (s.anchors.insert l d)).lookup k = some c at h
      rw [lookup_add (add_of_ski s hd)] at h
      split at h
      · next hk => cases h; exact hk
      · exact hs k c h
  | remove d =>
    rw [Operation.run, lookup_remove] at h
    split at h
    · cases h
    · exact hs k c h
  | load b =>
    rw [Operation.run, Bundle.loadInto_eq, lookup_load, Option.or_eq_some_iff] at h
    rcases h with h | ⟨-, h⟩
    · have hm := List.mem_of_getLast? h
      simpa using (List.mem_filter.mp hm).2
    · exact hs k c h

theorem keyed_foldl (hs : s.Keyed) (ops : List Operation) : (ops.foldl Operation.run s).Keyed := by
  induction ops generalizing s with
  | nil => exact hs
  | cons o ops ih => exact ih (hs.run o)

theorem keyed_after (ops : List Operation) : (after ops).Keyed := keyed_foldl keyed_empty ops

end AnchorStore

end Provenance
