import Provenance.Cbor.Record
import Provenance.Certificate.Basic
import Provenance.Envelope

/-!
Signers of envelopes: the certificate at the head of the chain that an envelope carries.
-/
namespace Provenance.Envelope

open Cbor

variable (e : Envelope)

def algorithm : Outcome Algorithm := e.algorithm? >>= Field.required "alg"

def chain : Outcome (List Octets) := e.chain? >>= Field.required "x5chain"

/-- Whether the signature is that of the certificate's key; if it is not, `what` says what is not signed. -/
def verifySigner (P : Provider) (a : Algorithm) (signer : Certificate) (what : String) : Outcome Unit := do
  let k ← signer.publicKey P
  if ← e.verify P k none a then return ()
  throw (.forged s!"{what} not signed by {signer.subject}")

def verifySignerLog (P : Provider) (a : Algorithm) (signer : Certificate) (what : String) : Log :=
  (signer.publicKey P).log fun k => e.verifyLog P k none a ++ (e.verify P k none a).log fun answer =>
    if answer then [] else [.warn s!"{what} signature from {signer.subject} does not verify"]

end Provenance.Envelope
