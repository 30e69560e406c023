import RealMedia.Demux.Open

/-! What a file is and what it holds, without reading its packets. -/

namespace RealMedia

open Container

inductive Format
  | realMedia
  | unknown (name : String)

def Format.name : Format → String
  | realMedia => "RealMedia"
  | unknown name => name

def Format.isSupported : Format → Bool
  | realMedia => true
  | unknown _ => false

/-- The format of a file, by its first bytes. -/
def Format.detect (b : Bytes) : Format :=
  if isRealMedia b then .realMedia else .unknown "unknown"

structure TrackInfo where
  id : Nat
  kind : MediaKind
  /-- A name for people: the family of AAC codecs, or the code in the container. -/
  codec : String
  codecId : String
  width : Option Nat
  height : Option Nat
  frameRate : Option Float
  sampleRate : Option Nat
  channels : Option Nat

def TrackInfo.summary (t : TrackInfo) : String := s!"{t.kind.name} ({t.codec})"

structure FileInfo where
  format : Format
  size : Nat
  /-- Seconds. -/
  duration : Option Float
  title : Option String
  author : Option String
  copyright : Option String
  comment : Option String
  tracks : List TrackInfo

def StreamHeader.info (h : StreamHeader) : TrackInfo :=
  { id := h.id, kind := h.kind
    codec := if isAac h.fourcc then "AAC" else h.fourcc
    codecId := h.codecId
    width := h.video?.map (·.pixelWidth)
    height := h.video?.map (·.pixelHeight)
    frameRate := h.video?.map (·.frameRate)
    sampleRate := h.audio?.map (·.sampleRate)
    channels := h.audio?.map (·.channels) }

def Demultiplexer.identify (d : Demultiplexer) : FileInfo × List Note :=
  let tracks := d.streams.map (·.info)
  let text := fun (part : Content → String) => (d.content.map part).filter (!·.isEmpty)
  ({ format := .realMedia, size := d.source.size
     duration := d.properties.map fun p => p.duration.toFloat / 1000.0
     title := text (·.title), author := text (·.author), copyright := text (·.copyright)
     comment := text (·.comment), tracks },
    .container Format.realMedia.name :: tracks.map fun t => .track t.id t.summary)

/-- Open a file of any format. -/
def openAny (o : Options) (file : Bytes) : Except Fault Demultiplexer × List Note :=
  let format := Format.detect file
  let (r, said) := match format with
    | .realMedia => Demultiplexer.ofBytes o file
    | .unknown _ => (.error (.header .unsupportedContainer), [])
  (r, .detected format.name :: said)

/-- Open a named file, given what is stored under each name. -/
def openFile (o : Options) (files : String → Option Bytes) (name : String) :
    Except Fault Demultiplexer × List Note :=
  match files name with
  | none => (.error (.io .notFound), [])
  | some file => openAny o file

/-- Identify a named file. -/
def identifyFile (files : String → Option Bytes) (name : String) :
    Except Fault FileInfo × List Note :=
  let (r, said) := openFile {} files name
  match r with
  | .error e => (.error e, said)
  | .ok d => let (info, more) := d.identify; (.ok info, said ++ more)

end RealMedia
