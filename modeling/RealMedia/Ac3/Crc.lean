import RealMedia.Bytes.Basic

/-! The check word of AC3: remainders by x^16 + x^15 + x^2 + 1. -/

namespace RealMedia.Ac3

def polynomial : UInt16 := 0x8005

/-- Multiply a remainder by x. -/
def shift (crc : UInt16) : UInt16 :=
  if crc &&& 0x8000 ≠ 0 then crc <<< 1 ^^^ polynomial else crc <<< 1

/-- Divide a remainder by x. -/
def unshift (crc : UInt16) : UInt16 :=
  if crc &&& 1 ≠ 0 then (crc ^^^ polynomial) >>> 1 ||| 0x8000 else crc >>> 1

def crcByte (crc : UInt16) (b : UInt8) : UInt16 :=
  shift (shift (shift (shift (shift (shift (shift (shift (crc ^^^ b.toUInt16 <<< 8))))))))

/-- The remainder of a byte string, read as a polynomial with its first bit in front and multiplied
by x^16. -/
def crc (b : Bytes) : UInt16 := b.foldl crcByte 0

end RealMedia.Ac3
