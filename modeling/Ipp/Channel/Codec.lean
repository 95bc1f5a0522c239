import Ipp.Channel.Basic
import Ipp.Text.Utf8
import Ipp.Wire

/-!
# Numbers and texts on a channel

The primitive parts of a message, read and put byte by byte. A read that fails has consumed the bytes it
got.
-/

namespace Ipp.Channel

def getInt8 : Action Int8 := do
  return (← getByte).toInt8

def getUInt16 : Action UInt16 := do
  return Wire.toUInt16 (← getBytes 2)

def getUInt32 : Action UInt32 := do
  return Wire.toUInt32 (← getBytes 4)

def getInt32 : Action Int32 := do
  return Wire.toInt32 (← getBytes 4)

def putInt8 (n : Int8) : Action Unit :=
  putByte n.toUInt8

def putUInt16 (n : UInt16) : Action Unit :=
  putBytes (Wire.ofUInt16 n)

def putInt32 (n : Int32) : Action Unit :=
  putBytes (Wire.ofInt32 n)

def putText (s : String) : Action Unit :=
  putBytes (Text.utf8 s)

end Ipp.Channel
