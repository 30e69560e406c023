import RealMedia.Framer.Aac
import RealMedia.Framer.Ac3
import RealMedia.Framer.Plain
import RealMedia.Framer.Video

/-! The framer of a stream, by the family of its codec. -/

namespace RealMedia

inductive Framer
  | video (f : VideoFramer)
  | ac3 (f : Ac3Framer)
  | aac (f : AacFramer)
  | plain (f : PlainFramer)

namespace Framer

def header : Framer → StreamHeader
  | video f => f.header
  | ac3 f => f.header
  | aac f => f.header
  | plain f => f.header

def setHeader (h : StreamHeader) : Framer → Framer
  | video f => video { f with header := h }
  | ac3 f => ac3 { f with header := h }
  | aac f => aac { f with header := h }
  | plain f => plain { f with header := h }

def formatName : Framer → String
  | video _ => "RealVideo"
  | ac3 _ => "AC3"
  | aac _ => "AAC"
  | plain _ => "RealAudio"

/-- Only an AC3 stream can be lost. -/
def process (c : Chunk) : Framer → Framer × Outputs × Option SyncFault
  | video f => let (f, out) := f.process c; (video f, out, none)
  | ac3 f => let (f, out, e) := f.process c; (ac3 f, out, e)
  | aac f => let (f, out) := f.process c; (aac f, out, none)
  | plain f => let (f, out) := f.process c; (plain f, out, none)

def flush : Framer → Framer × Outputs
  | ac3 f => let (f, out) := f.flush; (ac3 f, out)
  | f => (f, [])

/-- The framer with its header ready to be handed over. -/
def finalize : Framer → Framer
  | aac f => aac f.finalize
  | f => f

def connect (f g : Framer) : Connection := f.header.connect g.header

end Framer

end RealMedia
