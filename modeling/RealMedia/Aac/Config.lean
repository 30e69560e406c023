import RealMedia.Bits.Decoder

/-! The decoder configuration record of AAC audio, read from and written to bytes. -/

namespace RealMedia.Aac

inductive Profile
  | main
  | lc
  | ssr
  | ltp
  /-- Low complexity with spectral band replication on top. -/
  | sbr
deriving DecidableEq

/-- The object type of the core coder. -/
def Profile.objectType : Profile → Nat
  | main => 1
  | lc | sbr => 2
  | ssr => 3
  | ltp => 4

def Profile.ofObjectType? : Nat → Option Profile
  | 1 => some main
  | 2 => some lc
  | 3 => some ssr
  | 4 => some ltp
  | _ => none

def Profile.codecId : Profile → String
  | main => "A_AAC/MPEG4/MAIN"
  | lc => "A_AAC/MPEG4/LC"
  | ssr => "A_AAC/MPEG4/SSR"
  | ltp => "A_AAC/MPEG4/LTP"
  | sbr => "A_AAC/MPEG4/LC/SBR"

structure Config where
  profile : Profile
  sampleRate : Nat
  /-- The rate after spectral band replication. -/
  outputRate : Nat
  channels : Nat
  sbr : Bool
deriving DecidableEq

def samplesPerFrame : Nat := 1024

/-- The sample rates that have a code. -/
def frequencies : List Nat :=
  [96000, 88200, 64000, 48000, 44100, 32000, 24000, 22050, 16000, 12000, 11025, 8000, 7350]

def frequency? (index : Nat) : Option Nat := frequencies[index]?

def frequencyIndex? (rate : Nat) : Option Nat := frequencies.idxOf? rate

/-- The object types of spectral band replication and of parametric stereo, which implies it. -/
def sbrObject : Nat := 5

def stereoObject : Nat := 29

/-- Marks an extension behind the description of the core coder. -/
def extensionMark : Nat := 0x2b7

namespace Config

open BitDecoder

def objectType : BitDecoder Nat := do
  let short ← field 5
  if short = 31 then return 32 + (← field 6)
  return short

/-- A sample rate, by its code or in 24 bits of its own; two codes stand for nothing. -/
def rate : BitDecoder (Option Nat) := do
  let index ← field 4
  if index = 15 then return some (← field 24)
  return frequency? index

/-- The description of the core coder that follows the channels. -/
def coreDetails : BitDecoder Unit := do
  let _ ← flag
  if ← flag then skip 14
  let _ ← flag

/-- The output rate of the band replication that an extension announces, if there is one. -/
def extension (sampleRate : Nat) : BitDecoder (Option Nat) := do
  if !(← has 16) then return none
  if (← field 11) ≠ extensionMark then return none
  if (← objectType) ≠ sbrObject then return none
  if (← optional flag) ≠ some true then return none
  return some ((← optional rate).join.getD (2 * sampleRate))

def decoder : BitDecoder (Option Config) := do
  let object ← objectType
  let some sampleRate ← rate | return none
  let channels ← field 4
  if object = sbrObject ∨ object = stereoObject then
    let some outputRate ← rate | return none
    let some _ := Profile.ofObjectType? (← objectType) | return none
    return some { profile := .sbr, sampleRate, outputRate, channels, sbr := true }
  let some profile := Profile.ofObjectType? object | return none
  coreDetails
  match ← extension sampleRate with
  | some outputRate =>
    return some { profile := .sbr, sampleRate, outputRate, channels, sbr := true }
  | none => return some { profile, sampleRate, outputRate := sampleRate, channels, sbr := false }

def parse? (b : Bytes) : Option Config := (decoder.decode? b).join

def rateBits (rate : Nat) : Bits :=
  match frequencyIndex? rate with
  | some index => Bits.ofNat 4 index
  | none => Bits.ofNat 4 15 ++ Bits.ofNat 24 rate

def bits (c : Config) : Bits :=
  Bits.ofNat 5 c.profile.objectType ++ rateBits c.sampleRate ++ Bits.ofNat 4 c.channels ++
    Bits.ofNat 3 0 ++
    if c.sbr then
      Bits.ofNat 11 extensionMark ++ Bits.ofNat 5 sbrObject ++ [true] ++ rateBits c.outputRate
    else []

/-- The record of a configuration. Band replication goes into an extension at the end, where a
decoder that does not know it can leave it out. -/
def bytes (c : Config) : Bytes := Bits.toBytes c.bits

end Config

end RealMedia.Aac
