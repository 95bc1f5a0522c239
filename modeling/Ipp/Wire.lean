/-!
# Numbers on the wire

Fixed-width numbers, most significant byte first.
-/

namespace Ipp.Wire

-- The number that bytes spell in base 256, most significant first.
def toNat (bytes : List UInt8) : Nat :=
  bytes.foldl (fun n b => n * 256 + b.toNat) 0

-- What a byte counts for that `width` bytes follow.
def weight : (width : Nat) → Nat
  | 0 => 1
  | width + 1 => weight width * 256

-- The low `width` bytes of a number.
def ofNat : (width : Nat) → Nat → List UInt8
  | 0, _ => []
  | width + 1, n => UInt8.ofNat (n / weight width) :: ofNat width n

@[simp] theorem length_ofNat (width n : Nat) : (ofNat width n).length = width := by
  induction width with
  | zero => rfl
  | succ width ih => simp [ofNat, ih]

theorem foldl_eq (bytes : List UInt8) (n : Nat) :
    bytes.foldl (fun n b => n * 256 + b.toNat) n = n * weight bytes.length + toNat bytes := by
  induction bytes generalizing n with
  | nil => simp [toNat, weight]
  | cons b bytes ih =>
    have h : toNat (b :: bytes) = b.toNat * weight bytes.length + toNat bytes := by
      simpa [toNat] using ih b.toNat
    rw [List.foldl_cons, ih, h, List.length_cons, weight, Nat.add_mul, Nat.mul_assoc,
      Nat.mul_comm 256, Nat.add_assoc]

theorem toNat_cons (b : UInt8) (bytes : List UInt8) :
    toNat (b :: bytes) = b.toNat * weight bytes.length + toNat bytes := by
  simpa [toNat] using foldl_eq bytes b.toNat

-- Reading what was written gives back the part of the number that fits.
theorem toNat_ofNat (width n : Nat) : toNat (ofNat width n) = n % weight width := by
  induction width with
  | zero => simp [ofNat, toNat, weight, Nat.mod_one]
  | succ width ih =>
    have h : (UInt8.ofNat (n / weight width)).toNat = n / weight width % 256 := rfl
    rw [ofNat, toNat_cons, length_ofNat, ih, h, weight, Nat.mod_mul, Nat.mul_comm, Nat.add_comm]

def ofUInt16 (n : UInt16) : List UInt8 := ofNat 2 n.toNat
def ofUInt32 (n : UInt32) : List UInt8 := ofNat 4 n.toNat

-- Two's complement in four bytes.
def ofInt32 (n : Int32) : List UInt8 := ofUInt32 n.toUInt32

def toUInt16 (bytes : List UInt8) : UInt16 := UInt16.ofNat (toNat bytes)
def toUInt32 (bytes : List UInt8) : UInt32 := UInt32.ofNat (toNat bytes)
def toInt32 (bytes : List UInt8) : Int32 := (toUInt32 bytes).toInt32

-- The most bytes that a length of two bytes can announce.
def longest : Nat := 65535

def counted (bytes : List UInt8) : List UInt8 :=
  ofNat 2 bytes.length ++ bytes

end Ipp.Wire
