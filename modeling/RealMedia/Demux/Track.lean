import RealMedia.Aac.Chunk
import RealMedia.Framer.Basic
import RealMedia.RealVideo.Assembly
import RealMedia.RealVideo.PictureSize

/-! The tracks of a file: how the packets of each stream become packets for the sink. -/

namespace RealMedia

open RealVideo

/-- An audio packet that waits for the next one, which tells its duration. -/
structure Held where
  data : Bytes
  time : Int
  key : Bool
  /-- The time of the packet before it. -/
  previous : Option Int

def Held.chunk (h : Held) (duration : Int) : Chunk :=
  { data := h.data, time := h.time, duration
    dependency := match h.key, h.previous with
      | false, some time => .on time
      | _, _ => .key }

/-- The way of a stream through the demultiplexer, with what is kept on it. -/
inductive Route
  /-- Fragments are put together to frames. The size of the picture is watched for if asked. -/
  | video (framer : VideoFramer) (assembly : Assembly) (watched : Bool) (size : Option (Nat × Nat))
  | ac3 (framer : Ac3Framer)
  | aac (framer : AacFramer)
  /-- Each packet is held until the next one comes. -/
  | plain (framer : PlainFramer) (held : Option Held) (start : Option Int) (count : Nat)

structure Track where
  route : Route
  /-- The stream has been lost; its packets are skipped. -/
  disabled : Bool := false

def Route.framer : Route → Framer
  | video f .. => .video f
  | ac3 f => .ac3 f
  | aac f => .aac f
  | plain f .. => .plain f

namespace Track

def framer (t : Track) : Framer := t.route.framer

def header (t : Track) : StreamHeader := t.framer.header

def id (t : Track) : Nat := t.header.id

def isAc3 (t : Track) : Bool :=
  match t.route with
  | .ac3 _ => true
  | _ => false

/-- The track with its header ready to be handed over. -/
def finalize (t : Track) : Track :=
  match t.route with
  | .aac f => { t with route := .aac f.finalize }
  | _ => t

end Track

/-- The display size of a picture: the one asked for, or the picture stretched to the aspect ratio
asked for, or else the old picture size. -/
def displaySize (o : Options) (old new : Nat × Nat) : Nat × Nat :=
  match o.displaySize with
  | some size => size
  | none =>
    let (width, height) := new
    match o.aspectRatio.filter fun ratio => ratio > 0.0 && 0 < height with
    | none => old
    | some ratio =>
      if ratio > Float.ofNat width / Float.ofNat height then
        ((Float.ofNat height * ratio).toUInt32.toNat, height)
      else (width, (Float.ofNat width / ratio).toUInt32.toNat)

/-- The header with the size that the bit stream tells, if that is another one. -/
def resize? (o : Options) (h : StreamHeader) (size : Nat × Nat) : Option (StreamHeader × Note) :=
  match h.params with
  | .audio _ => none
  | .video v =>
    let old := (v.pixelWidth, v.pixelHeight)
    if old = size then none
    else
      let shown := displaySize o old size
      some
        ({ h with params := .video { v with
            pixelWidth := size.1, pixelHeight := size.2
            displayWidth := shown.1, displayHeight := shown.2 } },
          .resized h.id old size shown)

/-- The size that a frame tells: looked for until one has been found, and then in key frames. -/
def newSize? (last : Option (Nat × Nat)) (frame : Frame) : Option (Nat × Nat) :=
  if last.isNone || frame.key then (pictureSize? frame.data).filter fun size => last ≠ some size
  else none

/-- A frame on its way to the sink, behind the new header that it may bring about. -/
def deliverFrame (o : Options) (watched : Bool) (f : VideoFramer) (last : Option (Nat × Nat))
    (frame : Frame) : VideoFramer × Option (Nat × Nat) × Outputs :=
  let size := if watched then newSize? last frame else none
  let (f, out) : VideoFramer × Outputs := match size.bind (resize? o f.header) with
    | some (h, note) => ({ f with header := h }, [.note note, .call (.changed h)])
    | none => (f, [])
  let (f, more) := f.process
    { data := frame.payload, time := frame.time
      dependency := if frame.key then .key else .predicted }
  (f, size.or last, out ++ more)

def deliverFrames (o : Options) (watched : Bool) (f : VideoFramer) (last : Option (Nat × Nat)) :
    List Frame → VideoFramer × Option (Nat × Nat) × Outputs
  | [] => (f, last, [])
  | frame :: frames =>
    let (f, last, out) := deliverFrame o watched f last frame
    let (f, last, more) := deliverFrames o watched f last frames
    (f, last, out ++ more)

/-- The frames of a packet of AAC. Only the first of them has the time of the packet. -/
def deliverAac (f : AacFramer) (time : Int) : List Bytes → AacFramer × Outputs
  | [] => (f, [])
  | data :: more =>
    let (f, out) := f.process { data, time }
    let (f, rest) := deliverAac f noTime more
    (f, out ++ rest)

def aacNote (stream : Nat) : Aac.ChunkFault → Note
  | .short length needed => .aacShort stream length needed
  | .inconsistent length expected => .aacInconsistent stream length expected

namespace Track

/-- Take a packet of the stream. -/
def push (o : Options) (t : Track) (data : Bytes) (time : Int) (key : Bool) :
    Track × Outputs × Option SyncFault :=
  match t.route with
  | .video f a watched size =>
    let (a, r) := a.pushChunk data time key
    let broken := r.error.toList.map (.brokenFragment t.id)
    let (f, size, out) := deliverFrames o watched f size r.frames
    ({ t with route := .video f a watched size }, (r.notes ++ broken).map .note ++ out, none)
  | .ac3 f =>
    let (f, out, lost) := f.process { data, time }
    ({ t with route := .ac3 f }, out, lost)
  | .aac f =>
    match Aac.frames data with
    | .error e => (t, [.note (aacNote t.id e)], none)
    | .ok frames =>
      let (f, out) := deliverAac f time frames
      ({ t with route := .aac f }, out, none)
  | .plain f held start count =>
    let (f, out) := match held with
      | none => (f, [])
      | some h => f.process (h.chunk (time - h.time))
    let next : Held := { data, time, key, previous := held.map (·.time) }
    ({ t with route := .plain f (some next) (start.or (some time)) (count + 1) }, out, none)

/-- Hand out what is kept at the end of the stream. A last packet of unknown duration gets the mean
distance of the packets before. -/
def drain (o : Options) (t : Track) : Track × Outputs :=
  match t.route with
  | .video f a watched size =>
    let (a, left, seen) := a.flush
    let (f, size, out) := deliverFrames o watched f size left.toList
    ({ t with route := .video f a watched size }, seen.map .note ++ out)
  | .ac3 f =>
    let (f, out) := f.flush
    ({ t with route := .ac3 f }, out)
  | .aac _ => (t, [])
  | .plain f held start count =>
    match held with
    | none => (t, [])
    | some h =>
      let span := h.time - start.getD h.time
      let (f, out) := f.process (h.chunk (span.tdiv (max count 1)))
      ({ t with route := .plain f none start count }, out)

end Track

end RealMedia
