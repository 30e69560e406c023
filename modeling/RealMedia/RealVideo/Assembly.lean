import RealMedia.Note
import RealMedia.RealVideo.Fragment
import RealMedia.RealVideo.Frame

/-! Frames of a RealVideo stream put together from the fragments that arrive. -/

namespace RealMedia.RealVideo

/-- The fragments of an unfinished frame in order of arrival. Length, key flag and time are those
that came with the first of them, unless a header overrides the time. -/
structure Pending where
  fragments : List Fragment
  total : Nat
  merged : Bool
  key : Bool
  time : Int

namespace Pending

def received (p : Pending) : Nat := p.fragments.foldr (fun f n => f.data.length + n) 0

def isComplete (p : Pending) : Bool := p.total ≤ p.received

/-- Whether each fragment starts where the one before it ends, the first one at `start`. -/
def tiles (start : Nat) : List Fragment → Bool
  | [] => true
  | f :: fs => f.header.offset = start && tiles (start + f.data.length) fs

/-- The fragments by their offsets, if they fill the frame without gap or overlap. -/
def layout? (p : Pending) : Option (List Fragment) :=
  let sorted := p.fragments.mergeSort fun f g => f.header.offset ≤ g.header.offset
  if p.received = p.total ∧ tiles 0 sorted then some sorted else none

/-- The starts of pieces laid one behind the other. -/
def starts (start : Nat) : List Fragment → List Nat
  | [] => []
  | f :: fs => start :: starts (start + f.data.length) fs

def frame (p : Pending) : Frame :=
  let layout := p.layout?
  let pieces := layout.getD p.fragments
  { data := pieces.flatMap (·.data)
    offsets := starts 0 pieces
    merged := p.merged
    key := p.key
    time := p.time
    relaid := layout.isNone }

/-- An unfinished frame with one more fragment. -/
def add (p : Pending) (f : Fragment) : Pending :=
  { p with
    fragments := p.fragments ++ [f]
    merged := p.merged || f.header.merged
    time := f.header.time.getD p.time }

end Pending

structure Assembly where
  stream : Nat
  pending : Option Pending := none
  /-- The time of the fragment that arrived last. -/
  lastTime : Int := 0
  /-- Frames handed out. -/
  delivered : Nat := 0
  /-- Frames handed out in order of arrival. -/
  relaid : Nat := 0

namespace Assembly

/-- Hand out the unfinished frame, complete or not. -/
def flush (a : Assembly) : Assembly × Option Frame × List Note :=
  match a.pending with
  | none => (a, none, [])
  | some p =>
    let frame := p.frame
    ({ a with
        pending := none, delivered := a.delivered + 1, relaid := a.relaid + frame.relaid.toNat },
      some frame,
      if frame.relaid then [.notTiled a.stream p.total p.fragments.length p.received] else [])

/-- Take a fragment, and hand out the frame if it is the last one or all bytes have come. -/
def push (a : Assembly) (f : Fragment) (chunkTime : Int) (key : Bool) :
    Assembly × Option Frame × List Note :=
  let h := f.header
  let time := h.time.getD chunkTime
  let pending := (a.pending.getD ⟨[], h.total, false, key, time⟩).add f
  let b := { a with pending := some pending, lastTime := time }
  let seen := Note.fragment a.stream h.offset f.data.length h.total h.descriptor.toNat
  if h.isLast || pending.isComplete then
    let (b, frame, notes) := b.flush
    (b, frame, seen :: notes)
  else (b, none, [seen])

/-- Take the fragments of one chunk. Of the frames that start in it only the first is a key
frame. -/
def pushAll (a : Assembly) (time : Int) (key : Bool) :
    List Fragment → Assembly × List Frame × List Note
  | [] => (a, [], [])
  | f :: fs =>
    let (b, frame, notes) := a.push f time key
    let (c, frames, more) := b.pushAll time (key && frame.isNone) fs
    (c, frame.toList ++ frames, notes ++ more)

structure ChunkResult where
  frames : List Frame
  /-- A header ran past the end of the chunk; nothing behind it was used. -/
  error : Option OutOfData
  notes : List Note

/-- Take a chunk. An unfinished frame of another time is handed out first. -/
def pushChunk (a : Assembly) (chunk : Bytes) (time : Int) (key : Bool) : Assembly × ChunkResult :=
  let (b, left, notes) :=
    if a.pending.isSome && time ≠ a.lastTime then a.flush else (a, none, [])
  let (fragments, error) := Fragment.ofChunk chunk
  let (c, frames, more) := b.pushAll time key fragments
  (c, { frames := left.toList ++ frames, error, notes := notes ++ more })

end Assembly

end RealMedia.RealVideo
