import Provenance.Trust.Anchors
import Provenance.Trust.Check

/-!
Verdicts on chains: a chain is completed from the trust anchors and then checked from the leaf to the root.
-/
namespace Provenance

open Calendar (Instant)

/-- What to trust, and how many anchors a chain may be completed with. -/
structure TrustPolicy where
  store : AnchorStore
  maxDepth : Nat := 10

structure Verdict where
  isTrusted : Bool
  /-- Leaf first; empty if nothing was found to complete the chain with. -/
  chain : List Certificate
  fault? : Option TrustFault

namespace Verdict

variable (chain : List Certificate) (e : TrustFault)

def trusted : Verdict := ⟨true, chain, none⟩

def untrusted : Verdict := ⟨false, chain, some e⟩

@[simp] theorem isTrusted_trusted : (trusted chain).isTrusted = true := rfl

@[simp] theorem chain_trusted : (trusted chain).chain = chain := rfl

@[simp] theorem fault?_trusted : (trusted chain).fault? = none := rfl

@[simp] theorem isTrusted_untrusted : (untrusted chain e).isTrusted = false := rfl

@[simp] theorem chain_untrusted : (untrusted chain e).chain = chain := rfl

@[simp] theorem fault?_untrusted : (untrusted chain e).fault? = some e := rfl

@[simp] theorem trusted_ne_untrusted (chain' : List Certificate) : trusted chain ≠ untrusted chain' e := nofun

@[simp] theorem untrusted_inj {chain chain' : List Certificate} {e e' : TrustFault} :
    untrusted chain e = untrusted chain' e' ↔ chain = chain' ∧ e = e' := by
  simp [untrusted]

end Verdict

namespace AnchorStore

variable (s : AnchorStore)

def issuer? (c : Certificate) : Option Certificate := c.aki?.bind s.lookup

/-- What comes above an anchor; the ascent ends at one that is its own issuer. -/
def above? (c : Certificate) : Option Certificate := if c.isSelfIssued then none else s.issuer? c

/-- The anchors above a certificate, at most as many as the bound, and whether these are all. -/
def ascend (bound : Nat) (c : Certificate) : List Certificate × Bool :=
  match s.above? c with
  | none => ([], true)
  | some d =>
    match bound with
    | 0 => ([], false)
    | n + 1 => let (ds, all) := ascend n d; (d :: ds, all)

end AnchorStore

namespace TrustPolicy

variable (p : TrustPolicy)

/-- A chain up to an anchor above which there are none, or the fault and the chain that goes with it. A chain that
ends at an anchor is complete; else its last certificate has to be issued by one, whatever the bound. -/
def complete (cs : List Certificate) : Except (List Certificate × TrustFault) (List Certificate) :=
  match cs.getLast? with
  | none => .error ([], .emptyChain)
  | some last =>
    if p.store.isAnchor last then .ok cs
    else match p.store.issuer? last with
      | none => .error ([], .noTrustedRoot last.subject)
      | some root =>
        let (above, all) := p.store.ascend (p.maxDepth - 1) root
        if all then .ok (cs ++ root :: above) else .error (cs ++ root :: above, .pathTooLong p.maxDepth)

def verify (P : Provider) (cs : List Certificate) (vs : List Validator) (t : Instant) : Verdict :=
  match p.complete cs with
  | .error (chain, e) => .untrusted chain e
  | .ok chain =>
    match Check.runAll P (Check.chain vs t chain) with
    | .ok _ => .trusted chain
    | .error e => .untrusted chain e

def completeLog (cs : List Certificate) : Log :=
  match cs.getLast? with
  | none => []
  | some last =>
    if p.store.isAnchor last then [.debug s!"{last.subject} is itself a trust anchor"]
    else match p.store.issuer? last with
      | none => []
      | some root =>
        let (above, all) := p.store.ascend (p.maxDepth - 1) root
        let steps := ((root :: above).zip above).map fun (c, d) =>
          LogEntry.debug s!"{c.subject} issued by {d.subject}"
        let excess := LogEntry.warn s!"root ascent from {last.subject} exceeds {p.maxDepth} certificates"
        .debug s!"{last.subject} anchored by {root.subject}" :: steps ++ if all then [] else [excess]

def verifyLog (P : Provider) (cs : List Certificate) (vs : List Validator) (t : Instant) : Log :=
  let outcome := match p.complete cs with
    | .error (_, e) => s!"chain building failed: {e.message}"
    | .ok chain =>
      match Check.runAll P (Check.chain vs t chain) with
      | .ok _ => s!"chain of {chain.length} certificates is trusted"
      | .error e => s!"chain validation failed: {e.message}"
  p.completeLog cs ++ [.debug outcome]

def performed (P : Provider) (cs : List Certificate) (vs : List Validator) (t : Instant) : List Check :=
  match p.complete cs with
  | .error _ => []
  | .ok chain => Check.performed P (Check.chain vs t chain)

end TrustPolicy

end Provenance
