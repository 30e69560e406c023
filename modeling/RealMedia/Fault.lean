import RealMedia.FourCC

/-! What can go wrong while a file is opened, read or written, and how it is worded. -/

namespace RealMedia

/-- Why the headers of a file, or the headers of a container to be written, are refused. -/
inductive HeaderFault
  | notRealMedia
  | unsupportedContainer
  /-- The file ends inside an object header. -/
  | truncated
  /-- The payload of an object ends inside one of its fields. -/
  | truncatedField (e : OutOfData)
  /-- The declared size does not even cover the object header. -/
  | impossibleSize (id : FourCC) (size : Nat)
  | oversized (id : FourCC) (payload left : Nat)
  | noData
  /-- A payload is longer than a packet of the container can hold. -/
  | payloadTooLong (length most : Nat)
  | described (text : String)

def HeaderFault.message : HeaderFault → String
  | notRealMedia => "source is not a valid RealMedia file"
  | unsupportedContainer => "unsupported container format: unknown"
  | truncated => "truncated header"
  | truncatedField e => s!"truncated header: {e.message}"
  | impossibleSize id size => s!"object '{id.text}' has an impossible size of {size} bytes"
  | oversized id payload left =>
    s!"object '{id.text}' claims {payload} bytes but only {left} are left"
  | noData => "no DATA object found"
  | payloadTooLong length most => s!"packet payload of {length} bytes exceeds the maximum of {most}"
  | described text => text

/-- Why a stream cannot be cut into frames any further. -/
inductive SyncCause
  | noFrameWithin (window : Nat)
  | described (text : String)

structure SyncFault where
  stream : Nat
  cause : SyncCause

def SyncCause.message : SyncCause → String
  | noFrameWithin window => s!"no valid AC3 frame found within {window} bytes"
  | described text => text

def SyncFault.message (e : SyncFault) : String := s!"stream {e.stream}: {e.cause.message}"

/-- The kinds of input and output failure. -/
inductive IoKind
  | unexpectedEof
  | notFound
  | invalidInput
  | invalidData
  | other

structure IoFault where
  kind : IoKind
  message : String

def IoFault.unexpectedEof : IoFault := ⟨.unexpectedEof, "failed to fill whole buffer"⟩

def IoFault.notFound : IoFault := ⟨.notFound, "No such file or directory (os error 2)"⟩

inductive Fault
  | header (e : HeaderFault)
  | sync (e : SyncFault)
  | outOfData (e : OutOfData)
  | io (e : IoFault)

/-- The wording of the innermost cause. -/
def Fault.cause : Fault → String
  | header e => e.message
  | sync e => e.message
  | outOfData e => e.message
  | io e => e.message

def Fault.message : Fault → String
  | header e => s!"Header error: {e.message}"
  | sync e => s!"Sync error: {e.message}"
  | outOfData e => s!"Cursor error: {e.message}"
  | io e => s!"I/O error: {e.message}"

def HeaderFault.toIo (e : HeaderFault) : IoFault := ⟨.invalidData, e.message⟩

def SyncFault.toIo (e : SyncFault) : IoFault := ⟨.invalidData, e.message⟩

/-- A fault as a caller that knows only input and output failures sees it. -/
def Fault.toIo : Fault → IoFault
  | io e => e
  | e => ⟨.other, e.message⟩

end RealMedia
