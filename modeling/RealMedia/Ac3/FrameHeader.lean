import RealMedia.Ac3.Crc
import RealMedia.Bits.Decoder

/-! The header of an AC3 frame, and the check word over the first five eighths of the frame. -/

namespace RealMedia.Ac3

structure FrameHeader where
  sampleRate : Nat
  /-- Kilobits per second. -/
  bitRate : Nat
  /-- The length of the whole frame. -/
  bytes : Nat
  bsid : Nat
  bsmod : Nat
  acmod : Nat
  lfe : Bool
  channels : Nat
deriving DecidableEq

/-- Bytes that show whether a sync word starts a frame. -/
def headerSize : Nat := 7

def samplesPerFrame : Nat := 1536

def sampleRates : List Nat := [48000, 44100, 32000]

def bitRates : List Nat :=
  [32, 40, 48, 56, 64, 80, 96, 112, 128, 160, 192, 224, 256, 320, 384, 448, 512, 576, 640]

/-- Full range channels of each audio coding mode. -/
def modeChannels : List Nat := [2, 1, 2, 3, 3, 4, 4, 5]

/-- The highest version of the bit stream that every decoder plays. -/
def maxBsid : Nat := 10

/-- The length of a frame by the codes of its sample rate and of its size. At 44100 Hz the size code
tells whether the last word is there. -/
def frameSize? (rateCode sizeCode : Nat) : Option Nat := do
  let kbps ← bitRates[sizeCode / 2]?
  match rateCode with
  | 0 => return 4 * kbps
  | 1 => return 2 * (kbps * 1000 * 96 / 44100 + sizeCode % 2)
  | 2 => return 6 * kbps
  | _ => none

namespace FrameHeader

open BitDecoder

def decoder : BitDecoder (Option FrameHeader) := do
  if (← field 16) ≠ 0x0b77 then return none
  skip 16
  let rateCode ← field 2
  let sizeCode ← field 6
  let bsid ← field 5
  let bsmod ← field 3
  let acmod ← field 3
  if bsid > maxBsid then return none
  let some bytes := frameSize? rateCode sizeCode | return none
  let some sampleRate := sampleRates[rateCode]? | return none
  let some bitRate := bitRates[sizeCode / 2]? | return none
  let some front := modeChannels[acmod]? | return none
  if acmod % 2 = 1 ∧ acmod ≠ 1 then skip 2
  if acmod / 4 = 1 then skip 2
  if acmod = 2 then skip 2
  let lfe ← flag
  return some { sampleRate, bitRate, bytes, bsid, bsmod, acmod, lfe, channels := front + lfe.toNat }

/-- The header of the frame that starts a byte string. -/
def parse? (b : Bytes) : Option FrameHeader :=
  if atLeast headerSize b then (decoder.decode? (b.take headerSize)).join else none

/-- Nanoseconds. -/
def duration (h : FrameHeader) : Nat := samplesPerFrame * 1000000000 / h.sampleRate

end FrameHeader

/-- The end of what the check word of a frame protects. -/
def crcSpan (bytes : Nat) : Nat := 2 * (bytes / 4 + bytes / 16)

/-- Whether a byte string starts with an intact protected part of a frame of `bytes` bytes. -/
def crcMatches (b : Bytes) (bytes : Nat) : Bool :=
  4 < crcSpan bytes && atLeast (crcSpan bytes) b && crc ((b.take (crcSpan bytes)).drop 2) = 0

/-- Store the check word of a frame, and tell it. The word stands in front of what it protects, so
the remainder is divided by x as often as the protected part has bits. -/
def writeCrc? (b : Bytes) : Option (UInt16 × Bytes) := do
  let h ← FrameHeader.parse? b
  let span := crcSpan h.bytes
  if !atLeast span b then none
  let start := b.take 2
  let covered := zeros 2 ++ (b.take span).drop 4
  let check := Nat.repeat unshift (8 * (span - 2)) (crc covered)
  return (check, start ++ bytes16 check ++ b.drop 4)

/-- The first place of a sync word in a byte string that stands at position `i`. -/
def findSyncFrom (i : Nat) : Bytes → Option Nat
  | a :: b :: rest => if a = 0x0b ∧ b = 0x77 then some i else findSyncFrom (i + 1) (b :: rest)
  | _ => none

/-- The first place at or after `start` of a sync word. -/
def findSync (b : Bytes) (start : Nat) : Option Nat := findSyncFrom start (b.drop start)

end RealMedia.Ac3
