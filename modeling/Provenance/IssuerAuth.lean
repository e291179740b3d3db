import Provenance.Envelope.Signer
import Provenance.SecurityObject

/-!
Issuer authentication: the envelope in which the issuer of a document signs its security object. Reading one says
nothing about the signature, and a right signature nothing about the signer's chain.
-/
namespace Provenance

open Cbor

structure IssuerAuth where
  envelope : Envelope
  algorithm : Algorithm
  chain : List Certificate
  object : SecurityObject

namespace IssuerAuth

def ofEnvelope (e : Envelope) : Outcome IssuerAuth := do
  let algorithm ← e.algorithm
  let chain ← (← e.chain).mapM Certificate.ofDer
  let payload ← Field.required "MobileSecurityObjectBytes" e.payload?
  let object ← SecurityObject.decode payload
  return ⟨e, algorithm, chain, object⟩

def ofItem (x : Item) : Outcome IssuerAuth := Envelope.ofItem x >>= ofEnvelope

def decode (b : Octets) : Outcome IssuerAuth := Envelope.decode b >>= ofEnvelope

def verifySignature (P : Provider) (a : IssuerAuth) : Outcome Unit := do
  let signer ← Field.required "document signer certificate" a.chain.head?
  a.envelope.verifySigner P a.algorithm signer "MSO"

def verifyLog (P : Provider) (a : IssuerAuth) : Log :=
  match a.chain.head? with
  | none => []
  | some signer =>
    a.envelope.verifySignerLog P a.algorithm signer "issuerAuth" ++ (a.verifySignature P).log fun _ =>
      [.debug s!"issuerAuth for {a.object.docType} signed by {signer.subject}"]

end IssuerAuth

end Provenance
