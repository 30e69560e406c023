import RealMedia.Framer.Chunk

/-! RealVideo streams whose fragments have been put together: every chunk is a frame. -/

namespace RealMedia

structure VideoFramer where
  header : StreamHeader
  /-- The time of the last frame. -/
  previous : Option Int := none
  frames : Nat := 0

namespace VideoFramer

/-- The duration of a frame in nanoseconds at a frame rate. -/
def frameDuration? (rate : Float) : Option Int :=
  if rate > 0.0 then some (1000000000.0 / rate).toInt64.toInt else none

def ofHeader (h : StreamHeader) : VideoFramer :=
  { header := { h with
      defaultDuration := (h.video?.bind (frameDuration? ·.frameRate)).or h.defaultDuration } }

def process (f : VideoFramer) (c : Chunk) : VideoFramer × Outputs :=
  let p := c.packet f.header.id f.previous
  ({ f with previous := some c.time, frames := f.frames + 1 },
    [.note (.videoFrame f.header.id f.frames c.time p.backward), .call (.packet p)])

end VideoFramer

end RealMedia
