import Provenance.Fault
import Provenance.Crypto.Hmac
import Provenance.Crypto.Sha2

/-!
The hashes and signature algorithms that documents name.
-/
namespace Provenance

inductive DigestAlgorithm
  | sha256
  | sha384
  | sha512
  deriving DecidableEq, Repr

namespace DigestAlgorithm

def all : List DigestAlgorithm := [sha256, sha384, sha512]

def name : DigestAlgorithm → String
  | sha256 => "SHA-256"
  | sha384 => "SHA-384"
  | sha512 => "SHA-512"

def ofName (s : String) : Outcome DigestAlgorithm :=
  match all.find? (·.name = s) with
  | some d => .ok d
  | none => .error (.unsupported s!"digest algorithm {s}")

def size : DigestAlgorithm → Nat
  | sha256 => 32
  | sha384 => 48
  | sha512 => 64

end DigestAlgorithm

inductive Algorithm
  | es256
  | es384
  | es512
  | eddsa
  deriving DecidableEq, Repr

namespace Algorithm

def all : List Algorithm := [es256, es384, es512, eddsa]

def name : Algorithm → String
  | es256 => "ES256"
  | es384 => "ES384"
  | es512 => "ES512"
  | eddsa => "EdDSA"

def id : Algorithm → Int
  | es256 => -7
  | es384 => -35
  | es512 => -36
  | eddsa => -8

def ofId (i : Int) : Outcome Algorithm :=
  match all.find? (·.id = i) with
  | some a => .ok a
  | none => .error (.unsupported s!"COSE algorithm {i}")

theorem ofId_id (a : Algorithm) : ofId a.id = .ok a := by cases a <;> rfl

/-- What is signed in place of the message; the scheme of the last algorithm hashes by itself. -/
def digest? : Algorithm → Option DigestAlgorithm
  | es256 => some .sha256
  | es384 => some .sha384
  | es512 => some .sha512
  | eddsa => none

end Algorithm

end Provenance
