import Provenance.Envelope.Signer
import Provenance.IssuerList.Basic

/-!
Signed lists of issuers. What is signed is read only after the signature has turned out right.
-/
namespace Provenance

open Cbor

structure SignedIssuerList where
  list : IssuerList
  /-- The provider's certificates, the one whose key signs first. -/
  chain : List Certificate

namespace SignedIssuerList

def sign (P : Provider) (l : SignedIssuerList) (k : PrivateKey) (a : Algorithm) : Outcome Envelope := do
  if l.chain.isEmpty then throw (.missing "provider certificate chain")
  let x ← l.list.toItem
  let payload ← Cbor.encode x
  let header : Entries := [(.label Envelope.algorithmLabel, .label (.ofInt a.id))]
  let unprotectedHeader : Entries :=
    [(.label Envelope.chainLabel, Envelope.chainItem (l.chain.map Certificate.der))]
  Envelope.sign P k payload a header unprotectedHeader true

def generate (P : Provider) (l : SignedIssuerList) (k : PrivateKey) (a : Algorithm) : Outcome Octets := do
  let e ← l.sign P k a
  e.encode false

/-- Who is to have signed an envelope. -/
structure Claim where
  chain : List Certificate
  algorithm : Algorithm
  leaf : Certificate

def claim (e : Envelope) : Outcome Claim := do
  let ders ← e.chain
  let a ← e.algorithm
  let chain ← ders.mapM Certificate.ofDer
  let leaf ← Field.required "x5chain" chain.head?
  return ⟨chain, a, leaf⟩

def ofEnvelope (P : Provider) (e : Envelope) : Outcome SignedIssuerList := do
  let payload ← Field.required "VICAL payload" e.payload?
  let ders ← e.chain
  let algorithm ← e.algorithm
  let chain ← ders.mapM Certificate.ofDer
  let signer ← Field.required "x5chain" chain.head?
  e.verifySigner P algorithm signer "VICAL"
  let list ← Cbor.decode payload >>= IssuerList.ofItem
  return ⟨list, chain⟩

def parse (P : Provider) (b : Octets) : Outcome SignedIssuerList := Envelope.decode b >>= ofEnvelope P

/-- The payload has no part in what is noted before it is read. -/
def parseLog (P : Provider) (b : Octets) : Log :=
  (Envelope.decode b).log fun e => if e.payload?.isNone then [] else (claim e).log fun c =>
    e.verifySignerLog P c.algorithm c.leaf "VICAL" ++ (ofEnvelope P e).log fun l =>
      [.debug s!"parsed VICAL from {l.list.provider} with {l.list.entries.length} entries"]

end SignedIssuerList

end Provenance
