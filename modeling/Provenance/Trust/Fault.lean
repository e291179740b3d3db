import Provenance.Calendar.Timestamp
import Provenance.Fault

/-!
Why a chain of certificates is not trusted. Certificates are named by their subjects.
-/
namespace Provenance

open Calendar (Instant)

inductive TrustFault
  | emptyChain
  | noTrustedRoot (subject : String)
  | pathTooLong (bound : Nat)
  /-- The issuer that the certificate names is not the subject of the next one. -/
  | wrongIssuer (subject issuer authority : String)
  /-- The issuer's key that the certificate names is not that of the next one. -/
  | wrongIssuerKey (subject authority : String)
  | noSignatureUse (subject : String)
  | noAuthority (subject : String)
  | noCertSignUse (subject : String)
  | notValidAt (subject : String) (t : Instant)
  | notSignedBy (subject authority : String)
  | rejected (subject reason : String)
  | unusable (subject : String) (fault : Fault)
  deriving DecidableEq

namespace TrustFault

def message : TrustFault → String
  | emptyChain => "empty certificate chain"
  | noTrustedRoot s => s!"no trusted root found for {s}"
  | pathTooLong n => s!"certificate path exceeds {n} certificates above the supplied chain"
  | wrongIssuer s i a => s!"broken link: issuer of {s} is {i}, not {a}"
  | wrongIssuerKey s a => s!"broken link: AKI of {s} does not match SKI of {a}"
  | noSignatureUse s => s!"key usage: {s} does not allow digitalSignature"
  | noAuthority s => s!"key usage: {s} is not a CA certificate"
  | noCertSignUse s => s!"key usage: {s} does not allow keyCertSign"
  | notValidAt s t => s!"validity: {s} not valid at {Calendar.Timestamp.render .zero t}"
  | notSignedBy s a => s!"signature: {s} not signed by {a}"
  | rejected s r => s!"rejected by validator: {s}: {r}"
  | unusable s f => s!"certificate: {s}: {f.message}"

end TrustFault

end Provenance
