import Provenance.Octets

/-!
Keyed hashing after RFC 2104.
-/
namespace Provenance.Crypto

structure Hash where
  block : Nat
  size : Nat
  run : Octets → Octets

def Hash.hmac (h : Hash) (key m : Octets) : Octets :=
  let key := if h.block < key.length then h.run key else key
  let key := key ++ List.replicate (h.block - key.length) 0
  h.run (key.map (· ^^^ 0x5c) ++ h.run (key.map (· ^^^ 0x36) ++ m))

end Provenance.Crypto
