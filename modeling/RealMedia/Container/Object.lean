import RealMedia.Bytes.Consumption
import RealMedia.Bytes.Source
import RealMedia.FourCC

/-!
The objects of a RealMedia file. Each has a header of ten bytes, which its size includes; the
packets of a data object have headers of their own.
-/

namespace RealMedia.Container

open Decoder

def fileId : FourCC := ⟨0x2e, 0x52, 0x4d, 0x46⟩

def propertiesId : FourCC := ⟨0x50, 0x52, 0x4f, 0x50⟩

def contentId : FourCC := ⟨0x43, 0x4f, 0x4e, 0x54⟩

def mediaId : FourCC := ⟨0x4d, 0x44, 0x50, 0x52⟩

def dataId : FourCC := ⟨0x44, 0x41, 0x54, 0x41⟩

def indexId : FourCC := ⟨0x49, 0x4e, 0x44, 0x58⟩

def lowerAscii (b : UInt8) : UInt8 := if 0x41 ≤ b ∧ b ≤ 0x5a then b + 0x20 else b

/-- Whether the bytes start like a RealMedia file, in letters of either case. -/
def isRealMedia : Bytes → Bool
  | a :: b :: c :: d :: _ => [a, b, c, d].map lowerAscii = fileId.bytes.map lowerAscii
  | _ => false

structure ObjectHeader where
  id : FourCC
  size : UInt32
  version : UInt16

namespace ObjectHeader

def length : Nat := 10

def decoder : Decoder ObjectHeader := do
  let id ← fourCC
  let size ← be32
  let version ← be16
  return { id, size, version }

def bytes (h : ObjectHeader) : Bytes := h.id.bytes ++ bytes32 h.size ++ bytes16 h.version

/-- The length of what follows the header, unless the size does not even cover the header. -/
def payload? (h : ObjectHeader) : Option Nat :=
  if length ≤ h.size.toNat then some (h.size.toNat - length) else none

end ObjectHeader

/-- An object with its payload, under a header that tells its size. -/
def objectBytes (id : FourCC) (payload : Bytes) : Bytes :=
  ObjectHeader.bytes ⟨id, .ofNat (ObjectHeader.length + payload.length), 0⟩ ++ payload

structure FileHeader where
  version : UInt32
  headers : UInt32

def FileHeader.decoder : Decoder FileHeader := do
  let version ← be32
  let headers ← be32
  return { version, headers }

structure Properties where
  maxBitRate : UInt32
  avgBitRate : UInt32
  maxPacketSize : UInt32
  avgPacketSize : UInt32
  packets : UInt32
  /-- Milliseconds. -/
  duration : UInt32
  preroll : UInt32
  indexOffset : UInt32
  dataOffset : UInt32
  streams : UInt16
  flags : UInt16

def Properties.decoder : Decoder Properties := do
  let maxBitRate ← be32
  let avgBitRate ← be32
  let maxPacketSize ← be32
  let avgPacketSize ← be32
  let packets ← be32
  let duration ← be32
  let preroll ← be32
  let indexOffset ← be32
  let dataOffset ← be32
  let streams ← be16
  let flags ← be16
  return { maxBitRate, avgBitRate, maxPacketSize, avgPacketSize, packets, duration, preroll,
           indexOffset, dataOffset, streams, flags }

/-- What a file says about itself. -/
structure Content where
  title : String
  author : String
  copyright : String
  comment : String

def Content.decoder : Decoder Content := do
  let title ← text16
  let author ← text16
  let copyright ← text16
  let comment ← text16
  return { title, author, copyright, comment }

/-- The description of one stream. -/
structure MediaHeader where
  stream : UInt16
  maxBitRate : UInt32
  avgBitRate : UInt32
  maxPacketSize : UInt32
  avgPacketSize : UInt32
  startTime : UInt32
  preroll : UInt32
  duration : UInt32
  name : String
  mime : String
  /-- The parameters of the codec, in a form of its own. -/
  typeData : Bytes

def MediaHeader.decoder : Decoder MediaHeader := do
  let stream ← be16
  let maxBitRate ← be32
  let avgBitRate ← be32
  let maxPacketSize ← be32
  let avgPacketSize ← be32
  let startTime ← be32
  let preroll ← be32
  let duration ← be32
  let name ← text8
  let mime ← text8
  let size ← be32
  let typeData ← take size.toNat
  return { stream, maxBitRate, avgBitRate, maxPacketSize, avgPacketSize, startTime, preroll,
           duration, name, mime, typeData }

/-- What follows the object header of a data object. -/
structure DataHeader where
  packets : UInt32
  next : UInt32

def DataHeader.decoder : Decoder DataHeader := do
  let packets ← be32
  let next ← be32
  return { packets, next }

structure PacketHeader where
  version : UInt16
  /-- The length of the packet with this header. -/
  length : UInt16
  stream : UInt16
  /-- Milliseconds. -/
  timestamp : UInt32
  reserved : UInt8
  flags : UInt8

namespace PacketHeader

def size : Nat := 12

/-- The longest payload whose packet still has a length of 16 bits. -/
def maxPayload : Nat := 65535 - size

def decoder : Decoder PacketHeader := do
  let version ← be16
  let length ← be16
  let stream ← be16
  let timestamp ← be32
  let reserved ← u8
  let flags ← u8
  return { version, length, stream, timestamp, reserved, flags }

def bytes (h : PacketHeader) : Bytes :=
  bytes16 h.version ++ bytes16 h.length ++ bytes16 h.stream ++ bytes32 h.timestamp ++
    [h.reserved, h.flags]

def isKey (h : PacketHeader) : Bool := h.flags &&& 2 ≠ 0

/-- Nanoseconds. -/
def time (h : PacketHeader) : Int := h.timestamp.toNat * 1000000

/-- The length of the payload, unless the packet is too short for its header. -/
def payload? (h : PacketHeader) : Option Nat :=
  if size ≤ h.length.toNat then some (h.length.toNat - size) else none

/-- A payload is short enough to be skipped. -/
theorem skip_payload {h : PacketHeader} {n : Nat} (hn : h.payload? = some n) (s : Source) :
    s.skip n = s.advance n := by
  have hlength := h.length.toNat_lt
  rw [payload?] at hn
  split at hn
  · cases hn
    exact Source.skip_eq_advance (by omega)
  · cases hn

end PacketHeader

theorem consumes_fourCC : Consumes 4 fourCC := by
  intro c a c' h
  unfold fourCC at h
  split at h
  · rename_i p q r s rest hr
    cases h
    exact ⟨[p, q, r, s], by simp [hr]⟩
  · cases h

theorem ObjectHeader.consumes_decoder : Consumes length decoder :=
  (consumes_fourCC.bind fun _ => (consumes_u32 .big).bind fun _ => (consumes_u16 .big).bind fun _ =>
    consumes_pure).mono (by decide)

theorem DataHeader.consumes_decoder : Consumes 8 decoder :=
  ((consumes_u32 .big).bind fun _ => (consumes_u32 .big).bind fun _ =>
    consumes_pure).mono (by decide)

theorem PacketHeader.consumes_decoder : Consumes size decoder :=
  ((consumes_u16 .big).bind fun _ => (consumes_u16 .big).bind fun _ =>
    (consumes_u16 .big).bind fun _ => (consumes_u32 .big).bind fun _ =>
      consumes_u8.bind fun _ => consumes_u8.bind fun _ => consumes_pure).mono (by decide)

end RealMedia.Container
