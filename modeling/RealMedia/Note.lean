import RealMedia.Fault
import RealMedia.Text.Hex

/-! Diagnostics: remarks made while a file is read or written. -/

namespace RealMedia

inductive Level
  | error
  | warn
  | info
  | debug
  | trace
deriving DecidableEq

def Level.name : Level → String
  | error => "error"
  | warn => "warn"
  | info => "info"
  | debug => "debug"
  | trace => "trace"

/-- How much a level lets through: a level shows itself and all that are more severe. -/
def Level.rank : Level → Nat
  | error => 0
  | warn => 1
  | info => 2
  | debug => 3
  | trace => 4

inductive Note
  | reading
  | detected (format : String)
  | fileVersion (version headers : Nat)
  | properties (packets duration streams : Nat)
  | field (label text : String)
  | unknownObject (id : FourCC) (size : Nat)
  | describedTwice (stream : Nat)
  | notMedia (stream : Nat) (mime : String)
  | notSelected (stream : Nat)
  | routed (route : String) (stream : Nat) (fourcc : String)
  | noCodec (stream : Nat) (tag : String)
  | aacExtra (stream length : Nat)
  | perhapsSbr (stream : Nat)
  | ac3Version (stream bsid : Nat)
  | firstSection (packets : Nat)
  | nextSection (packets : Nat)
  | packetTooSmall (length version stream time flags pos : Nat)
  | packetTruncated (stream pos : Nat)
  | packetTime (stream time : Nat)
  | endObject (id : FourCC)
  | endOfData (e : IoFault)
  | disabled (e : SyncFault)
  | brokenFragment (stream : Nat) (e : OutOfData)
  | aacShort (stream length needed : Nat)
  | aacInconsistent (stream length expected : Nat)
  | resized (stream : Nat) (container bitstream display : Nat × Nat)
  | container (format : String)
  | track (stream : Nat) (summary : String)
  | fragment (stream offset length total descriptor : Nat)
  | notTiled (stream expected fragments found : Nat)
  | videoFrame (stream number : Nat) (time backward : Int)
  | junk (stream length : Nat)
  | crcMismatch (stream : Nat)
  | firstAc3 (stream rate channels bsid : Nat)
  | ac3Tail (strict : Bool) (stream length : Nat)
  | leftOut (stream length : Nat)

namespace Note

def level : Note → Level
  | unknownObject .. | describedTwice .. | noCodec .. | perhapsSbr .. | packetTooSmall ..
  | disabled .. | brokenFragment .. | aacShort .. | aacInconsistent .. | notTiled ..
  | ac3Tail true .. | leftOut .. => .warn
  | reading | field .. | routed .. | resized .. | container .. | track .. => .info
  | fileVersion .. | fragment .. | videoFrame .. | junk .. | crcMismatch .. => .trace
  | detected .. | properties .. | notMedia .. | notSelected .. | aacExtra .. | ac3Version ..
  | firstSection .. | nextSection .. | packetTruncated .. | packetTime .. | endObject ..
  | endOfData .. | firstAc3 .. | ac3Tail false .. => .debug

def message : Note → String
  | reading => "Using RealMedia demultiplexer"
  | detected format => s!"detected container: {format}"
  | fileVersion version headers => s!"file version {version}, {headers} headers"
  | properties packets duration streams => s!"{packets} packets, {duration} ms, {streams} streams"
  | field label text => s!"{label}: '{text}'"
  | unknownObject id size => s!"Unknown header type ({id.text}), skipping {size} bytes"
  | describedTwice stream => s!"stream {stream} is described twice, ignoring the second description"
  | notMedia stream mime => s!"stream {stream}: not an audio or video stream ({mime}), skipping"
  | notSelected stream => s!"stream {stream}: not selected"
  | routed route stream fourcc =>
    s!"+-> Using {route} output module for stream {stream} (FourCC: {fourcc})"
  | noCodec stream tag =>
    s!"Couldn't find RealAudio FourCC for id {stream}, forwarding the track as '{tag}'"
  | aacExtra stream length => s!"stream {stream}: AAC extra data length {length}"
  | perhapsSbr stream =>
    "RealMedia files may contain HE-AAC / AAC+ / SBR AAC audio. In some cases this can NOT be " ++
      s!"detected automatically. Set 'aac_is_sbr' for track {stream} if it actually contains " ++
      "SBR AAC."
  | ac3Version stream bsid => s!"stream {stream}: AC3 bsid {bsid}"
  | firstSection packets => s!"DATA section with {packets} packets"
  | nextSection packets => s!"new DATA section with {packets} packets"
  | packetTooSmall length version stream time flags pos =>
    s!"Data packet length is too small: {length}. Other values: " ++
      s!"version: 0x{Hex.lower 4 version}, id: 0x{Hex.lower 4 stream}, timecode: {time} ms, flags: 0x{Hex.lower 2 flags}. " ++
      s!"File position: {pos}. Aborting this file."
  | packetTruncated stream pos => s!"stream {stream}: truncated packet at {pos}, end of data"
  | packetTime stream time => s!"stream {stream}: timecode = {time} ms"
  | endObject id => s!"'{id.text}' object reached, end of data"
  | endOfData e => s!"end of data: {e.message}"
  | disabled e => s!"{e.message}; disabling the stream"
  | brokenFragment stream e =>
    s!"stream {stream}: broken video sub-packet ({e.message}), dropping the rest of the chunk"
  | aacShort stream length needed =>
    s!"Short AAC audio packet for track ID {stream} (length: {length} < {needed})"
  | aacInconsistent stream length expected =>
    s!"Inconsistent AAC audio packet for track ID {stream} (length: {length} != {expected})"
  | resized stream old new shown =>
    s!"stream {stream}: container says {old.1}x{old.2} but the bitstream says {new.1}x{new.2}, " ++
      s!"display {shown.1}x{shown.2}"
  | container format => s!"container: {format}"
  | track stream summary => s!"Track ID {stream}: {summary}"
  | fragment stream offset length total descriptor =>
    s!"stream {stream}: fragment offset {offset} len {length} of {total} " ++
      s!"(descriptor 0x{Hex.lower 2 descriptor})"
  | notTiled stream expected fragments found =>
    s!"stream {stream}: packet assembly failed. Expected packet length was {expected} but found " ++
      s!"{fragments} sub packets containing {found} bytes. Trying to continue."
  | videoFrame stream number time backward =>
    s!"video {stream}: frame {number} timecode {time} bref {backward}"
  | junk stream length => s!"ac3 {stream}: skipped {length} junk bytes"
  | crcMismatch stream => s!"ac3 {stream}: crc1 mismatch, not a frame start"
  | firstAc3 stream rate channels bsid =>
    s!"ac3 {stream}: {rate} Hz, {channels} channels, bsid {bsid}"
  | ac3Tail _ stream length =>
    s!"ac3 {stream}: dropping {length} bytes of incomplete trailing data"
  | leftOut stream length =>
    s!"stream {stream}: {length} byte payload does not fit a packet, left out"

end Note

end RealMedia
