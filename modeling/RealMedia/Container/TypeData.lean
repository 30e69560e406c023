import RealMedia.FourCC

/-!
The codec parameters of a stream. A video description is told by a tag at its fifth byte, an audio
description by a tag at its start; the version of the latter tells where its fields stand.
-/

namespace RealMedia.Container

open Decoder

structure VideoType where
  fourcc : FourCC
  width : UInt16
  height : UInt16
  bitsPerPixel : UInt16
  /-- Frames per second, in units of 1/65536. -/
  rate : UInt32

structure AudioType where
  version : UInt16
  /-- The codec, if it has a name of four bytes. -/
  fourcc : Option FourCC
  formatTag : FourCC
  flavor : UInt16
  sampleRate : UInt16
  sampleSize : UInt16
  channels : UInt16
  extra : Bytes

inductive TypeData
  | video (v : VideoType)
  | audio (a : AudioType)
  | other

/-- The frame rate as a number; every value of 16.16 bits is one exactly. -/
def VideoType.frameRate (v : VideoType) : Float :=
  (v.rate >>> 16).toFloat + (v.rate &&& 0xffff).toFloat / 65536.0

/-- The nearest 16.16 value of a frame rate, halves away from zero, kept within 32 bits. -/
def frameRateWord (fps : Float) : UInt32 := (fps * 65536.0).round.toUInt32

def videoTag : FourCC := ⟨0x56, 0x49, 0x44, 0x4f⟩

def audioTag : FourCC := ⟨0x2e, 0x72, 0x61, 0xfd⟩

/-- The least lengths of a description of video and of audio. -/
def videoLength : Nat := 34

def audioLength : Nat := 56

namespace TypeData

def videoDecoder : Decoder VideoType := do
  skip 8
  let fourcc ← fourCC
  let width ← be16
  let height ← be16
  let bitsPerPixel ← be16
  skip 4
  let rate ← be32
  return { fourcc, width, height, bitsPerPixel, rate }

/-- The names of the interleaver and of the codec, and the codec's own data behind them. Only a
codec name of four bytes is one. -/
def codecDecoder : Decoder (Option FourCC × Bytes) := do
  let interleaver ← u8
  skip interleaver.toNat
  if (← u8) ≠ 4 then return (none, [])
  let fourcc ← fourCC
  return (some fourcc, ← rest)

def audioDecoder : Decoder AudioType := do
  skip 4
  let version ← be16
  skip 2
  let formatTag ← fourCC
  skip 10
  let flavor ← be16
  skip 24
  if version = 4 then
    let sampleRate ← be16
    skip 2
    let sampleSize ← be16
    let channels ← be16
    let codec := (codecDecoder.decode (← rest)).toOption.getD (none, [])
    return { version, fourcc := codec.1, formatTag, flavor, sampleRate, sampleSize, channels,
             extra := codec.2 }
  skip 6
  let sampleRate ← be16
  skip 2
  let sampleSize ← be16
  let channels ← be16
  skip 4
  let fourcc ← fourCC
  let extra := (← rest).drop 4
  return { version, fourcc := some fourcc, formatTag, flavor, sampleRate, sampleSize, channels,
           extra }

def parse (b : Bytes) : TypeData :=
  if atLeast videoLength b && videoTag.begins (b.drop 4) then
    match videoDecoder.decode b with
    | .ok v => .video v
    | .error _ => .other
  else if atLeast audioLength b && audioTag.begins b then
    match audioDecoder.decode b with
    | .ok a => .audio a
    | .error _ => .other
  else .other

def videoBytes (fourcc : FourCC) (width height : UInt16) (fps : Float) : Bytes :=
  bytes32 34 ++ videoTag.bytes ++ fourcc.bytes ++ bytes16 width ++ bytes16 height ++ bytes16 12 ++
    zeros 4 ++ bytes32 (frameRateWord fps) ++ zeros 8

/-- What the descriptions of all audio versions start with. -/
def audioStart (version : UInt16) (tag : String) : Bytes :=
  audioTag.bytes ++ bytes16 version ++ zeros 2 ++ ascii tag ++ zeros 4 ++ bytes16 version ++
    bytes32 0x4e ++ zeros 26

def audio4Bytes (codec : Bytes) (sampleRate sampleSize channels : UInt16) (extra : Bytes) : Bytes :=
  audioStart 4 ".ra4" ++ bytes16 sampleRate ++ zeros 2 ++ bytes16 sampleSize ++ bytes16 channels ++
    [4] ++ ascii "Int4" ++ [.ofNat codec.length] ++ codec ++ extra

def audio5Bytes (fourcc : FourCC) (sampleRate sampleSize channels : UInt16) (extra : Bytes) :
    Bytes :=
  audioStart 5 ".ra5" ++ zeros 6 ++ bytes16 sampleRate ++ zeros 2 ++ bytes16 sampleSize ++
    bytes16 channels ++ ascii "genr" ++ fourcc.bytes ++
    if extra.isEmpty then [] else bytes32 (.ofNat extra.length) ++ extra

end TypeData

end RealMedia.Container
