import Ipp.Channel.Codec
import Ipp.Proofs.Calls
import Ipp.Proofs.Wire

/-!
# Primitives

The values that one call reads or puts, with the bytes that stand for each. Putting one puts its bytes
(`put_eq`), and reading one takes as many bytes as its shape needs and gives the value that they stand for
(`Shape.get_eq`).
-/

namespace Ipp.Channel

open Calls

/-- A value that is read or put in one call. -/
inductive Primitive where
  | byte (b : UInt8)
  | int8 (n : Int8)
  | uint16 (n : UInt16)
  | int32 (n : Int32)
  | bytes (bs : List UInt8)
  deriving DecidableEq

/-- The kind of a primitive, which is what a reader has to know beforehand. -/
inductive Shape where
  | byte
  | int8
  | uint16
  | int32
  | bytes (n : Nat)
  deriving DecidableEq

namespace Shape

/-- The number of bytes that a primitive of this shape takes. -/
def width : Shape → Nat
  | byte | int8 => 1
  | uint16 => 2
  | int32 => 4
  | bytes n => n

def get : Shape → Action Primitive
  | byte => do return .byte (← getByte)
  | int8 => do return .int8 (← getInt8)
  | uint16 => do return .uint16 (← getUInt16)
  | int32 => do return .int32 (← getInt32)
  | bytes n => do return .bytes (← getBytes n)

end Shape

namespace Primitive

def shape : Primitive → Shape
  | byte _ => .byte
  | int8 _ => .int8
  | uint16 _ => .uint16
  | int32 _ => .int32
  | bytes bs => .bytes bs.length

/-- The bytes that stand for the value. -/
def wire : Primitive → List UInt8
  | byte b => [b]
  | int8 n => [n.toUInt8]
  | uint16 n => Wire.ofUInt16 n
  | int32 n => Wire.ofInt32 n
  | bytes bs => bs

def put : Primitive → Action Unit
  | byte b => putByte b
  | int8 n => putInt8 n
  | uint16 n => putUInt16 n
  | int32 n => putInt32 n
  | bytes bs => putBytes bs

end Primitive

/-! ## Putting -/

theorem putBytes_singleton (b : UInt8) : putBytes [b] = putByte b :=
  bind_pure_unit

theorem Primitive.put_eq (p : Primitive) : p.put = putBytes p.wire := by
  cases p with
  | byte b => exact (putBytes_singleton b).symm
  | int8 n => exact (putBytes_singleton n.toUInt8).symm
  | uint16 n => rfl
  | int32 n => rfl
  | bytes bs => rfl

/-! ## Reading -/

theorem getBytes_one : getBytes 1 = (do return [← getByte]) :=
  rfl

/-- The primitive of a shape that bytes stand for. -/
def Shape.decode : Shape → List UInt8 → Primitive
  | byte, bs => .byte (bs.headD 0)
  | int8, bs => .int8 (bs.headD 0).toInt8
  | uint16, bs => .uint16 (Wire.toUInt16 bs)
  | int32, bs => .int32 (Wire.toInt32 bs)
  | bytes _, bs => .bytes bs

/-- A primitive is read as so many bytes. -/
theorem Shape.get_eq (s : Shape) : s.get = (do return s.decode (← getBytes s.width)) := by
  cases s with
  | byte =>
    simp only [get, width, getBytes_one, bind_assoc, pure_bind]
    rfl
  | int8 =>
    simp only [get, width, getInt8, getBytes_one, bind_assoc, pure_bind]
    rfl
  | uint16 =>
    simp only [get, getUInt16, bind_assoc, pure_bind]
    rfl
  | int32 =>
    simp only [get, getInt32, bind_assoc, pure_bind]
    rfl
  | bytes n => rfl

-- The bytes are those that the value would be put as.
theorem Shape.wire_decode {s : Shape} {bs : List UInt8} (h : bs.length = s.width) :
    (s.decode bs).wire = bs ∧ (s.decode bs).shape = s := by
  cases s with
  | byte =>
    obtain ⟨b, rfl⟩ := List.length_eq_one_iff.mp h
    exact ⟨rfl, rfl⟩
  | int8 =>
    obtain ⟨b, rfl⟩ := List.length_eq_one_iff.mp h
    exact ⟨rfl, rfl⟩
  | uint16 => exact ⟨Wire.ofUInt16_toUInt16 h, rfl⟩
  | int32 => exact ⟨Wire.ofInt32_toInt32 h, rfl⟩
  | bytes n =>
    subst h
    exact ⟨rfl, rfl⟩

end Ipp.Channel
