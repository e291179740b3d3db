import Provenance.Certificate.Key

/-!
Providers: the primitives together with the keys and signatures of certificates. What is built on a provider uses
nothing of it but these functions; `Provider.standard` is the one with the real primitives.
-/
namespace Provenance

structure Provider extends Primitives where
  /-- The key that a certificate is about. -/
  subjectKey : SubjectKey → Option NativeKey
  /-- Whether the signature of a certificate is right; nothing if it cannot be compared. -/
  certifies : AlgorithmId → NativeKey → (m signature : Octets) → Option Bool

/-- A provider that knows the certificates of `SubjectKey.native?` and `CertificateSignature.verify` and no others. -/
def Primitives.provider (p : Primitives) : Provider :=
  { p with subjectKey := SubjectKey.native? p, certifies := CertificateSignature.verify p }

def Provider.standard : Provider := Primitives.standard.provider

end Provenance
