import Provenance.Crypto.Edwards
import Provenance.Crypto.Keccak
import Provenance.Crypto.Sha2

/-!
EdDSA of RFC 8032 over its two curves, without context.
-/
namespace Provenance.Crypto

structure Eddsa where
  curve : Edwards
  hash : Octets → Octets
  domain : Octets
  clamp : Nat → Nat
  /-- Both sides of the signature equation are multiplied by this; with 1, the octets of a point are compared. -/
  cofactor : Nat

namespace Eddsa

variable (e : Eddsa)

def challenge (m : Octets) : Nat := Octets.toNatLE (e.hash (e.domain ++ m)) % e.curve.n

def expand (secret : Octets) : Nat × Octets :=
  let h := e.hash secret
  (e.clamp (Octets.toNatLE (h.take e.curve.width)), h.drop e.curve.width)

def publicKey (secret : Octets) : Octets :=
  e.curve.encode (e.curve.mul (e.expand secret).1 e.curve.base)

def sign (secret m : Octets) : Octets :=
  let (s, nonceKey) := e.expand secret
  let a := e.publicKey secret
  let k := e.challenge (nonceKey ++ m)
  let r := e.curve.encode (e.curve.mul k e.curve.base)
  let h := e.challenge (r ++ a ++ m)
  r ++ Octets.ofNatLE e.curve.width ((k + h * s) % e.curve.n)

def verify (key m sig : Octets) : Bool :=
  let w := e.curve.width
  if sig.length ≠ 2 * w then false
  else
    let r := sig.take w
    let s := Octets.toNatLE (sig.drop w)
    if e.curve.n ≤ s then false
    else
      match e.curve.decode? key with
      | none => false
      | some a =>
        let h := e.challenge (r ++ key ++ m)
        let expected := e.curve.add (e.curve.mul s e.curve.base) (e.curve.mul h (e.curve.neg a))
        if e.cofactor = 1 then e.curve.encode expected = r
        else
          match e.curve.decode? r with
          | none => false
          | some r => e.curve.same (e.curve.mul e.cofactor expected) (e.curve.mul e.cofactor r)

end Eddsa

def edwards25519 : Edwards where
  p := 0x7fffffffffffffffffffffffffffffffffffffffffffffffffffffffffffffed
  a := 0x7fffffffffffffffffffffffffffffffffffffffffffffffffffffffffffffec
  d := 0x52036cee2b6ffe738cc740797779e89800700a4d4141d8ab75eb4dca135978a3
  gx := 0x216936d3cd6e53fec0a4e231fdd6dc5c692cc7609525a7b2c9562d608f25d51a
  gy := 0x6666666666666666666666666666666666666666666666666666666666666658
  n := 0x1000000000000000000000000000000014def9dea2f79cd65812631a5cf5d3ed
  width := 32
  canonical := false

def edwards448 : Edwards where
  p := 0xfffffffffffffffffffffffffffffffffffffffffffffffffffffffeffffffffffffffffffffffffffffffffffffffffffffffffffffffff
  a := 1
  d := 0xfffffffffffffffffffffffffffffffffffffffffffffffffffffffeffffffffffffffffffffffffffffffffffffffffffffffffffff6756
  gx := 0x4f1970c66bed0ded221d15a622bf36da9e146570470f1767ea6de324a3d3a46412ae1af72ab66511433b80e18b00938e2626a82bc70cc05e
  gy := 0x693f46716eb6bc248876203756c9c7624bea73736ca3984087789c1e05a0c2d73ad3ff1ce67c39c4fdbd132c4ed7c8ad9808795bf230fa14
  n := 0x3fffffffffffffffffffffffffffffffffffffffffffffffffffffff7cca23e9c44edb49aed63690216cc2728dc58f552378c292ab5844f3
  width := 57
  canonical := true

def ed25519 : Eddsa where
  curve := edwards25519
  hash := Sha2.sha512
  domain := []
  clamp n := n / 8 * 8 % (1 <<< 254) + 1 <<< 254
  cofactor := 1

/-- The domain is the name of the scheme, no prehash and an empty context. -/
def ed448 : Eddsa where
  curve := edwards448
  hash m := Keccak.shake256 114 m
  domain := [83, 105, 103, 69, 100, 52, 52, 56, 0, 0]
  clamp n := n / 4 * 4 % (1 <<< 447) + 1 <<< 447
  cofactor := 4

end Provenance.Crypto
