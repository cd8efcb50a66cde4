/-!
Fixed-width little-endian integers, and the reading side of each.
-/
namespace Lowering

abbrev Bytes := List UInt8

/-- The `width` low bytes of `n`, least significant first. -/
def littleEndian : Nat → Nat → Bytes
  | 0, _ => []
  | width + 1, n => UInt8.ofNat n :: littleEndian width (n / 256)

def natOfBytes : Bytes → Nat
  | [] => 0
  | b :: rest => b.toNat + 256 * natOfBytes rest

def byteRange : Nat → Nat
  | 0 => 1
  | width + 1 => 256 * byteRange width

/-- Whether `n` is in the range of a two's-complement field of `width` bytes. -/
def fitsSigned (width : Nat) (n : Int) : Bool :=
  -(byteRange width : Int) ≤ 2 * n && 2 * n < byteRange width

def signedBytes (width : Nat) (n : Int) : Bytes :=
  littleEndian width (n % byteRange width).toNat

def intOfBytes (bytes : Bytes) : Int :=
  let n := natOfBytes bytes
  if 2 * n < byteRange bytes.length then n else (n : Int) - byteRange bytes.length

/-- The first `width` bytes as a signed field, and what follows them. -/
def takeSigned (width : Nat) (bytes : Bytes) : Option (Int × Bytes) :=
  if width ≤ bytes.length then some (intOfBytes (bytes.take width), bytes.drop width) else none

@[simp] theorem length_littleEndian (width n : Nat) : (littleEndian width n).length = width := by
  induction width generalizing n with
  | zero => rfl
  | succ width ih => simp [littleEndian, ih]

@[simp] theorem length_signedBytes (width : Nat) (n : Int) : (signedBytes width n).length = width := by
  simp [signedBytes]

theorem natOfBytes_littleEndian (width n : Nat) (h : n < byteRange width) : natOfBytes (littleEndian width n) = n := by
  induction width generalizing n with
  | zero =>
    simp only [byteRange] at h
    simp only [littleEndian, natOfBytes]
    omega
  | succ width ih =>
    simp only [byteRange] at h
    have hn : n / 256 < byteRange width := by omega
    simp only [littleEndian, natOfBytes, ih _ hn, UInt8.toNat_ofNat']
    omega

end Lowering
