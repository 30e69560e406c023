import RealMedia.Ac3.FrameHeader
import RealMedia.Framer.Chunk
import RealMedia.Options

/-!
AC3 streams: frames found in a run of bytes by sync word, header and check word, however the bytes
are cut into chunks.
-/

namespace RealMedia

/-- Bytes that arrive as swapped 16-bit words: the one that waits for its partner, and the bytes put
right so far, last first. -/
structure Unswapped where
  odd : Option UInt8
  words : Bytes

def Unswapped.push (u : Unswapped) (b : UInt8) : Unswapped :=
  match u.odd with
  | none => { u with odd := some b }
  | some a => ⟨none, a :: b :: u.words⟩

structure Ac3Framer where
  header : StreamHeader
  /-- Bytes come as swapped 16-bit words. -/
  swapped : Bool
  window : Nat
  strict : Bool
  /-- The bytes that are not in a frame yet, and where in the stream they start. -/
  buffer : Bytes := []
  start : Nat := 0
  received : Nat := 0
  odd : Option UInt8 := none
  /-- Where in the stream each timed chunk starts that has not been reached, and its time. -/
  tags : List (Nat × Int) := []
  /-- The time of the last timed chunk that has been reached, and the frames since then. -/
  reference : Option Int := none
  sinceReference : Nat := 0
  emitted : Nat := 0
  /-- Bytes thrown away since the last frame. -/
  junk : Nat := 0
  /-- Bytes dropped at the end of the stream. -/
  dropped : Nat := 0
  first : Option Ac3.FrameHeader := none

namespace Ac3Framer

def ofOptions (h : StreamHeader) (swapped : Bool) (o : Options) : Ac3Framer :=
  { header := h, swapped, window := o.resyncWindow, strict := o.strictTail }

/-- Take the bytes of a chunk in. -/
def feed (f : Ac3Framer) (data : Bytes) : Ac3Framer :=
  if f.swapped then
    let u := data.foldl Unswapped.push ⟨f.odd, []⟩
    { f with buffer := f.buffer ++ u.words.reverse, odd := u.odd }
  else { f with buffer := f.buffer ++ data }

/-- Move past bytes at the front of the buffer. -/
def advance (f : Ac3Framer) (n : Nat) : Ac3Framer :=
  { f with buffer := f.buffer.drop n, start := f.start + n }

/-- Throw bytes at the front of the buffer away. -/
def discard (f : Ac3Framer) (n : Nat) : Ac3Framer := { f.advance n with junk := f.junk + n }

def discardNotes (f : Ac3Framer) (n : Nat) : Outputs :=
  if n = 0 then [] else [.note (.junk f.header.id n)]

/-- Let the tags take effect that the buffer has reached. -/
def reach (f : Ac3Framer) : Ac3Framer :=
  match (f.tags.takeWhile (·.1 ≤ f.start)).getLast? with
  | none => f
  | some (_, time) =>
    { f with
      tags := f.tags.dropWhile (·.1 ≤ f.start), reference := some time, sinceReference := 0 }

/-- The time of the frame at the start of the buffer. -/
def frameTime (f : Ac3Framer) (duration : Nat) : Int :=
  signed64 <| match f.reference with
    | some time => time + f.sinceReference * duration
    | none => f.emitted * duration

/-- Emit the frame at the start of the buffer. -/
def emit (f : Ac3Framer) (h : Ac3.FrameHeader) : Ac3Framer × Outputs :=
  let g := f.reach
  let p : Packet :=
    { stream := f.header.id, data := f.buffer.take h.bytes, time := g.frameTime h.duration,
      duration := h.duration, backward := noTime, forward := noTime }
  let seen := if f.first.isSome then []
    else [.note (.firstAc3 f.header.id h.sampleRate h.channels h.bsid)]
  ({ g.advance h.bytes with
      first := some (f.first.getD h)
      emitted := f.emitted + 1
      sinceReference := g.sinceReference + 1
      junk := 0 },
    seen ++ [.call (.packet p)])

/-- How a step of the search ends. -/
inductive Step
  /-- More bytes are needed. -/
  | wait (f : Ac3Framer) (out : Outputs)
  /-- There is too much junk. -/
  | lost (f : Ac3Framer) (out : Outputs)
  /-- Bytes left the buffer, and the search goes on. -/
  | next (f : Ac3Framer) (out : Outputs)

/-- What to do with a buffer that starts with a sync word. -/
def stepAtSync (f : Ac3Framer) : Step :=
  let skip := fun out => Step.next (f.discard 1) (out ++ f.discardNotes 1)
  if !atLeast Ac3.headerSize f.buffer then .wait f []
  else match Ac3.FrameHeader.parse? f.buffer with
    | none => skip []
    | some h =>
      if !atLeast (Ac3.crcSpan h.bytes) f.buffer then .wait f []
      else if !Ac3.crcMatches f.buffer h.bytes then skip [.note (.crcMismatch f.header.id)]
      else if !atLeast h.bytes f.buffer then .wait f []
      else let (g, out) := f.emit h; .next g out

def Step.after (before : Outputs) : Step → Step
  | wait f out => wait f (before ++ out)
  | lost f out => lost f (before ++ out)
  | next f out => next f (before ++ out)

/-- Go to the next sync word. Without one everything is junk but a last byte that may be the first
half of one. -/
def step (f : Ac3Framer) : Step :=
  match Ac3.findSync f.buffer 0 with
  | none =>
    let n := f.buffer.length - if f.buffer.getLast? = some 0x0b then 1 else 0
    let g := f.discard n
    if g.window < g.junk then .lost g (f.discardNotes n) else .wait g (f.discardNotes n)
  | some n =>
    let g := f.discard n
    if g.window < g.junk then .lost g (f.discardNotes n)
    else g.stepAtSync.after (f.discardNotes n)

theorem buffer_emit {f : Ac3Framer} {h : Ac3.FrameHeader} :
    (f.emit h).1.buffer = f.buffer.drop h.bytes := by
  simp only [emit, advance, reach]
  split <;> rfl

theorem length_stepAtSync {f g : Ac3Framer} {out : Outputs} (hs : f.stepAtSync = .next g out) :
    g.buffer.length < f.buffer.length := by
  unfold stepAtSync at hs
  simp only [Bool.not_eq_true', atLeast_eq_false] at hs
  split at hs
  · cases hs
  · rename_i hlen
    have hlen : 7 ≤ f.buffer.length := Nat.not_lt.1 hlen
    split at hs
    · cases hs
      simp only [discard, advance, List.length_drop]
      omega
    · rename_i h _
      split at hs
      · cases hs
      · split at hs
        · cases hs
          simp only [discard, advance, List.length_drop]
          omega
        · rename_i hcrc
          split at hs
          · cases hs
          · have hpos : 0 < h.bytes := by
              rcases Nat.eq_zero_or_pos h.bytes with h0 | h0
              · simp [Ac3.crcMatches, Ac3.crcSpan, h0] at hcrc
              · exact h0
            cases hs
            rw [buffer_emit, List.length_drop]
            omega

/-- A step that goes on leaves a shorter buffer, so the search ends. -/
theorem length_step {f g : Ac3Framer} {out : Outputs} (hs : f.step = .next g out) :
    g.buffer.length < f.buffer.length := by
  unfold step at hs
  split at hs
  · dsimp only at hs
    split at hs <;> split at hs <;> cases hs
  · rename_i n _
    dsimp only at hs
    split at hs
    · cases hs
    · cases hc : (f.discard n).stepAtSync with
      | wait _ _ => simp [hc, Step.after] at hs
      | lost _ _ => simp [hc, Step.after] at hs
      | next h more =>
        simp only [hc, Step.after, Step.next.injEq] at hs
        have := length_stepAtSync hc
        simp only [discard, advance, List.length_drop] at this
        rw [← hs.1]
        omega

def fault (f : Ac3Framer) : SyncFault := ⟨f.header.id, .noFrameWithin f.window⟩

/-- Emit all frames that are whole. The outputs are collected last first. -/
def search (f : Ac3Framer) (before : Outputs) : Ac3Framer × Outputs × Option SyncFault :=
  match _h : f.step with
  | .wait g out => (g, (out.reverse ++ before).reverse, none)
  | .lost g out => (g, (out.reverse ++ before).reverse, some g.fault)
  | .next g out => g.search (out.reverse ++ before)
termination_by f.buffer.length
decreasing_by exact length_step _h

def process (f : Ac3Framer) (c : Chunk) : Ac3Framer × Outputs × Option SyncFault :=
  let tags := if 0 ≤ c.time then f.tags ++ [(f.received, c.time)] else f.tags
  ({ f with tags, received := f.received + c.data.length }.feed c.data).search []

/-- Bytes that are in no frame. -/
def left (f : Ac3Framer) : Nat := f.buffer.length + f.odd.toList.length

/-- Drop what is left at the end of the stream. -/
def flush (f : Ac3Framer) : Ac3Framer × Outputs :=
  if f.left = 0 then (f, [])
  else
    ({ f with
        dropped := f.dropped + f.left, start := f.start + f.buffer.length, buffer := [],
        odd := none, tags := [] },
      [.note (.ac3Tail f.strict f.header.id f.left)])

end Ac3Framer

end RealMedia
