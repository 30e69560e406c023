import RealMedia.Bytes.Basic

/-! What is known about an elementary stream, and when one stream may continue another. -/

namespace RealMedia

inductive MediaKind
  | audio
  | video
  | subtitle
deriving DecidableEq

def MediaKind.name : MediaKind → String
  | audio => "audio"
  | video => "video"
  | subtitle => "subtitles"

/-- How a stream is cut into packets. -/
inductive Family
  | realVideo
  | ac3
  | aac
  | passthrough
deriving DecidableEq

structure VideoParams where
  pixelWidth : Nat
  pixelHeight : Nat
  displayWidth : Nat
  displayHeight : Nat
  /-- Frames per second. -/
  frameRate : Float

structure AudioParams where
  sampleRate : Nat
  /-- The rate of the decoded audio where it differs. -/
  outputRate : Option Nat
  channels : Nat
  bitsPerSample : Nat
  extraData : Bytes

inductive MediaParams
  | video (v : VideoParams)
  | audio (a : AudioParams)

structure StreamHeader where
  id : Nat
  kind : MediaKind
  /-- The codec as the container names it. -/
  fourcc : String
  /-- The codec as a muxer names it. -/
  codecId : String
  family : Family
  params : MediaParams
  codecPrivate : Bytes
  startTime : Nat
  preroll : Nat
  /-- Packets are to own their bytes. -/
  duplicateData : Bool
  /-- Nanoseconds. -/
  defaultDuration : Option Int

/-- Whether one stream may continue another, and what forbids it. -/
inductive Connection
  | yes
  | noFormat
  | noParameters
deriving DecidableEq

/-- The parameters a decoder cannot change in the middle of a stream. -/
def MediaParams.agree : MediaParams → MediaParams → Bool
  | video a, video b => a.pixelWidth = b.pixelWidth && a.pixelHeight = b.pixelHeight
  | audio a, audio b => a.sampleRate = b.sampleRate && a.channels = b.channels
  | _, _ => false

namespace StreamHeader

def video? (h : StreamHeader) : Option VideoParams :=
  match h.params with
  | .video v => some v
  | .audio _ => none

def audio? (h : StreamHeader) : Option AudioParams :=
  match h.params with
  | .video _ => none
  | .audio a => some a

def connect (a b : StreamHeader) : Connection :=
  if a.family ≠ b.family ∨ a.kind ≠ b.kind then .noFormat
  else if a.codecId ≠ b.codecId ∨ !a.params.agree b.params then .noParameters
  else if a.family = .passthrough ∧ a.codecPrivate ≠ b.codecPrivate then .noParameters
  else .yes

end StreamHeader

end RealMedia
