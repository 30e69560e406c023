import RealMedia.Container.Object
import RealMedia.Container.TypeData
import RealMedia.Note

/-! RealMedia files drafted step by step and then written in one go. -/

namespace RealMedia.Container

/-- What a file is to hold. -/
structure Draft where
  duration : UInt32 := 0
  content : Option Content := none
  /-- The objects between the properties and the data, as written. -/
  objects : List (FourCC × Bytes) := []
  /-- The packets of each data object, as written. -/
  sections : List (List Bytes) := [[]]
  index : Bool := false
  /-- The first packet that was refused. -/
  refused : Option HeaderFault := none

namespace Draft

inductive Step
  | duration (ms : UInt32)
  | content (c : Content)
  | media (stream : UInt16) (mime : String) (typeData : Bytes)
  | video (stream : UInt16) (fourcc : FourCC) (width height : UInt16) (fps : Float)
  | audio4 (stream : UInt16) (codec : Bytes) (sampleRate channels : UInt16) (extra : Bytes)
  | audio5 (stream : UInt16) (fourcc : FourCC) (sampleRate channels : UInt16) (extra : Bytes)
  | object (id : FourCC) (payload : Bytes)
  | packet (stream : UInt16) (timestamp : UInt32) (key : Bool) (payload : Bytes)
  /-- Later packets go into another data object. -/
  | nextSection
  /-- An empty index at the end. -/
  | index

def mediaBytes (stream : UInt16) (mime : String) (typeData : Bytes) : Bytes :=
  let mime := Utf8.encode mime
  bytes16 stream ++ zeros 29 ++ [.ofNat mime.length] ++ mime ++ bytes32 (.ofNat typeData.length) ++
    typeData

def addMedia (d : Draft) (stream : UInt16) (mime : String) (typeData : Bytes) : Draft :=
  { d with objects := d.objects ++ [(mediaId, mediaBytes stream mime typeData)] }

/-- Put a packet at the end of the last section; without a section it is lost. -/
def addPacket : List (List Bytes) → Bytes → List (List Bytes)
  | [], _ => []
  | [s], p => [s ++ [p]]
  | s :: ss, p => s :: addPacket ss p

def packetBytes (stream : UInt16) (timestamp : UInt32) (key : Bool) (payload : Bytes) : Bytes :=
  PacketHeader.bytes
    { version := 0, length := .ofNat (PacketHeader.size + payload.length), stream, timestamp,
      reserved := 0, flags := if key then 2 else 0 } ++ payload

def videoMime : String := "video/x-pn-realvideo"

def audioMime : String := "audio/x-pn-realaudio"

def apply (d : Draft) : Step → Draft × List Note
  | .duration ms => ({ d with duration := ms }, [])
  | .content c => ({ d with content := some c }, [])
  | .media stream mime typeData => (d.addMedia stream mime typeData, [])
  | .video stream fourcc width height fps =>
    (d.addMedia stream videoMime (TypeData.videoBytes fourcc width height fps), [])
  | .audio4 stream codec rate channels extra =>
    (d.addMedia stream audioMime (TypeData.audio4Bytes codec rate 16 channels extra), [])
  | .audio5 stream fourcc rate channels extra =>
    (d.addMedia stream audioMime (TypeData.audio5Bytes fourcc rate 16 channels extra), [])
  | .object id payload => ({ d with objects := d.objects ++ [(id, payload)] }, [])
  | .packet stream timestamp key payload =>
    if payload.length ≤ PacketHeader.maxPayload then
      ({ d with sections := addPacket d.sections (packetBytes stream timestamp key payload) }, [])
    else
      let fault := .payloadTooLong payload.length PacketHeader.maxPayload
      ({ d with refused := d.refused.or (some fault) }, [.leftOut stream.toNat payload.length])
  | .nextSection => ({ d with sections := d.sections ++ [[]] }, [])
  | .index => ({ d with index := true }, [])

def run (d : Draft) (steps : List Step) : Draft × List Note :=
  steps.foldl (fun r s => let (d, notes) := r.1.apply s; (d, r.2 ++ notes)) (d, [])

def streams (d : Draft) : Nat := d.objects.countP (·.1 = mediaId)

def propertiesBytes (d : Draft) : Bytes :=
  zeros 16 ++ bytes32 (.ofNat d.sections.flatten.length) ++ bytes32 d.duration ++ zeros 12 ++
    bytes16 (.ofNat d.streams) ++ zeros 2

def text16Bytes (s : String) : Bytes :=
  let s := Utf8.encode s
  bytes16 (.ofNat s.length) ++ s

def contentBytes (c : Content) : Bytes :=
  text16Bytes c.title ++ text16Bytes c.author ++ text16Bytes c.copyright ++ text16Bytes c.comment

/-- The objects of the file in front of its data. -/
def headerObjects (d : Draft) : List (FourCC × Bytes) :=
  (propertiesId, d.propertiesBytes) ::
    (d.content.map fun c => (contentId, contentBytes c)).toList ++ d.objects

def sectionBytes (packets : List Bytes) : Bytes :=
  objectBytes dataId (bytes32 (.ofNat packets.length) ++ zeros 4 ++ packets.flatten)

def bytes (d : Draft) : Bytes :=
  let headers := d.headerObjects
  objectBytes fileId (zeros 4 ++ bytes32 (.ofNat (headers.length + 1))) ++
    headers.flatMap (fun o => objectBytes o.1 o.2) ++
    d.sections.flatMap sectionBytes ++
    if d.index then objectBytes indexId (zeros 10) else []

/-- The file, unless a packet had to be left out. -/
def bytes? (d : Draft) : Except HeaderFault Bytes :=
  match d.refused with
  | some e => .error e
  | none => .ok d.bytes

end Draft

end RealMedia.Container
