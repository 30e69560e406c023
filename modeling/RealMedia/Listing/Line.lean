import RealMedia.Decimal.Fixed
import RealMedia.Identify
import RealMedia.Text.Quoted

/-! The lines of a listing of what a file holds. -/

namespace RealMedia.Listing

open Container

/-- A line of the listing. -/
inductive Line
  | title
  | rule
  | usage
  | sample
  | blank
  | file (name : String)
  | size (bytes : Nat)
  | object (h : ObjectHeader) (pos : Nat)
  | invalidSize (bytes pos : Nat)
  | properties (p : Properties)
  | content (label text : String)
  | stream (m : MediaHeader)
  | video (v : VideoType)
  | audio (a : AudioType)
  | typeBytes (b : Bytes)
  | firstBytes (b : Bytes)
  | packets (h : DataHeader)
  | packet (h : PacketHeader) (payload pos : Nat)
  | packetTooSmall (length pos : Nat)
  | sectionEnds (n : Nat)
  | morePackets (n : Nat)
  | keyPackets (n : Nat)
  | completed
  | failed (reason : String)
  | tracks
  | track (t : TrackInfo)
  | unidentified (reason : String)

def Line.text : Line → String
  | title => "🔍 RealMedia Scanner - Object and Packet Structure"
  | rule => "=================================================="
  | usage => "Usage: rmff_scanner <file.rm> [--all-packets]"
  | sample => "Example: rmff_scanner tests/testdata/sample.rm"
  | blank => ""
  | file name => s!"📄 File: {name}"
  | size bytes => s!"📏 Size: {bytes} bytes"
  | object h pos =>
    s!"📦 {h.id.text} [size: {h.size.toNat}, version: {h.version.toNat}, pos: {pos}]"
  | invalidSize bytes pos => s!"⚠️  Invalid object size: {bytes} at position {pos}"
  | properties p =>
    s!"  🧾 {p.packets.toNat} packets, {p.duration.toNat} ms, {p.streams.toNat} streams, " ++
      s!"avg bit rate {p.avgBitRate.toNat}"
  | content label text => s!"  📝 {label}: {Quoted.text text}"
  | stream m =>
    s!"  🎚️  stream {m.stream.toNat} {Quoted.text m.name} ({m.mime}), preroll {m.preroll.toNat} ms"
  | video v =>
    s!"    🎥 {v.fourcc.text} {v.width.toNat}x{v.height.toNat} @ " ++
      s!"{Decimal.fixed 3 v.rate.toNat 65536} fps"
  | audio a =>
    let codec := (a.fourcc.map FourCC.text).getD "????"
    s!"    🔊 v{a.version.toNat} {codec} " ++
      s!"{a.sampleRate.toNat} Hz, {a.channels.toNat} channels, {a.sampleSize.toNat} bits, " ++
      s!"{a.extra.length} extra bytes"
  | typeBytes b => s!"    📄 First bytes: {Hex.list (b.take 16)}"
  | firstBytes b => s!"  🔍 First {(b.take 32).length} bytes: {Hex.list (b.take 32)}"
  | packets h => s!"  🗂️  {h.packets.toNat} packets, next DATA header at {h.next.toNat}"
  | packet h payload pos =>
    s!"  📦 stream {h.stream.toNat} ts {h.timestamp.toNat} ms len {payload}" ++
      (if h.isKey then " key" else "") ++ s!" [pos: {pos}]"
  | packetTooSmall length pos => s!"  ⚠️  Packet length {length} too small at {pos}"
  | sectionEnds n => s!"  ⚠️  Section ends after {n} packets"
  | morePackets n => s!"  … {n} more packets"
  | keyPackets n => s!"  🔑 {n} keyframe packets"
  | completed => "✅ Scan completed successfully"
  | failed reason => s!"❌ Scan failed: {reason}"
  | tracks => "🎞️  Tracks:"
  | track t => s!"  Track ID {t.id}: {t.summary} [{t.codecId}]"
  | unidentified reason => s!"❌ Identification failed: {reason}"

end RealMedia.Listing
