import Mathlib.Logic.Function.Iterate

/-!
# Checksums

CRC-32 of a list of bytes, and a polynomial hash of any length, which stands in for a digest where
one is needed that depends on all of the data.
-/

namespace Nozdormu.Data

/-- One bit of the division, with the polynomial's bits in reverse. -/
def crcBit (c : Nat) : Nat := if c % 2 = 1 then c >>> 1 ^^^ 0xEDB88320 else c >>> 1

def crc32 (data : List UInt8) : Nat :=
  data.foldl (fun c b => Nat.iterate crcBit 8 (c ^^^ b.toNat)) 0xFFFFFFFF ^^^ 0xFFFFFFFF

example : crc32 [0x61, 0x62, 0x63] = 0x352441C2 := by decide +kernel

/-- The checksum, its most significant byte first. -/
def crcBytes (data : List UInt8) : List UInt8 :=
  let c := crc32 data
  [.ofNat (c >>> 24), .ofNat (c >>> 16), .ofNat (c >>> 8), .ofNat c]

/-- The data as a number to the base 257, in the last `n` bytes. -/
def polyHash (n : Nat) (data : List UInt8) : List UInt8 :=
  let value := data.foldl (fun x b => (x * 257 + b.toNat + 1) % (1 <<< (8 * n))) 0
  (List.range n).map fun i => .ofNat (value >>> (8 * i))

theorem length_polyHash (n : Nat) (data : List UInt8) : (polyHash n data).length = n := by
  simp [polyHash]

end Nozdormu.Data
