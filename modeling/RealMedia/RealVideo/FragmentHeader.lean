import RealMedia.Bytes.Consumption

/-!
The headers in front of the fragments of a RealVideo frame. The two high bits of the first byte tell
how the rest is to be read; lengths and offsets take 14 bits or 30.
-/

namespace RealMedia.RealVideo

inductive FragmentKind
  /-- The offset counts from the start of the frame. -/
  | middle
  /-- Two bytes of header before everything that is left. -/
  | short
  /-- The offset counts back from the end of the frame. -/
  | tail
  /-- A time in milliseconds stands in the place of the offset. -/
  | timed
deriving DecidableEq

def FragmentKind.ofDescriptor (descriptor : UInt8) : FragmentKind :=
  if descriptor < 0x40 then middle
  else if descriptor < 0x80 then short
  else if descriptor < 0xc0 then tail
  else timed

structure FragmentHeader where
  descriptor : UInt8
  subSequence : UInt8
  sequence : UInt8
  /-- The length of the whole frame. -/
  total : Nat
  offset : Nat
  /-- The frame has been put together from its fragments before. -/
  merged : Bool
  /-- The time of the frame, where the header gives one. -/
  time : Option Int

namespace FragmentHeader

def isLast (h : FragmentHeader) : Bool := 0x80 ≤ h.descriptor

def isShort (h : FragmentHeader) : Bool := FragmentKind.ofDescriptor h.descriptor = .short

open Decoder

/-- A number of 14 or 30 bits, and the bit in front of it. -/
def packed : Decoder (Nat × Bool) := do
  let first ← be16
  let flag := first.toNat.testBit 15
  let value := first.toNat % 16384
  if first.toNat.testBit 14 then return (value, flag)
  return (value * 65536 + (← be16).toNat, flag)

def long (descriptor subSequence : UInt8) : Decoder FragmentHeader := do
  let (total, merged) ← packed
  let (second, _) ← packed
  let sequence ← u8
  let header : FragmentHeader :=
    { descriptor, subSequence, sequence, total, offset := 0, merged, time := none }
  match FragmentKind.ofDescriptor descriptor with
  | .timed => return { header with time := some (second * 1000000) }
  | .tail => return { header with offset := (total + 4294967296 - second) % 4294967296 }
  | _ => return { header with offset := second }

def decoder : Decoder FragmentHeader := do
  let descriptor ← u8
  match FragmentKind.ofDescriptor descriptor with
  | .short =>
    skip 1
    let total := (← rest).length % 4294967296
    return { descriptor, subSequence := 0, sequence := 0, total, offset := 0, merged := false,
             time := none }
  | .timed => long descriptor 0
  | _ => long descriptor ((← u8) &&& 0x7f)

theorem consumes_packed : Consumes 2 packed := by
  refine (consumes_u16 .big).bind (n := 0) fun first => ?_
  dsimp only
  split
  · exact consumes_pure
  · exact ((consumes_u16 .big).bind fun _ => consumes_pure).mono (by omega)

theorem consumes_long (d s : UInt8) : Consumes 5 (long d s) := by
  refine consumes_packed.bind (n := 3) fun x => consumes_packed.bind (n := 1) fun y =>
    consumes_u8.bind (n := 0) fun z => ?_
  dsimp only
  split <;> exact consumes_pure

theorem consumes_decoder : Consumes 2 decoder := by
  refine consumes_u8.bind (n := 1) fun d => ?_
  split
  · exact (consumes_skip.bind fun _ => consumes_rest.bind fun _ => consumes_pure).mono (by omega)
  · exact (consumes_long d 0).mono (by omega)
  · exact (consumes_u8.bind fun _ => consumes_long d _).mono (by omega)

end FragmentHeader

end RealMedia.RealVideo
