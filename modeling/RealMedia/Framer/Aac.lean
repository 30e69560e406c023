import RealMedia.Aac.Config
import RealMedia.Framer.Chunk

/-!
AAC streams: every chunk is a frame, and its time follows from the number of samples before it.
-/

namespace RealMedia

structure AacFramer where
  header : StreamHeader
  config : Aac.Config
  /-- The time of the first frame. -/
  base : Option Int := none
  frames : Nat := 0

namespace AacFramer

/-- Nanoseconds of `frames` frames at a sample rate. The product is kept in 64 bits. -/
def span (rate frames : Nat) : Nat :=
  frames * Aac.samplesPerFrame * 1000000000 % 18446744073709551616 / rate

def frameDuration (rate : Nat) : Int := if rate = 0 then noTime else span rate 1

def ofConfig (h : StreamHeader) (c : Aac.Config) : AacFramer where
  header := { h with
    codecId := c.profile.codecId
    params := match h.params with
      | .audio a => .audio { a with
          sampleRate := c.sampleRate
          channels := c.channels
          outputRate := if c.sbr then some c.outputRate else none }
      | .video v => .video v
    defaultDuration := some (frameDuration c.sampleRate) }
  config := c

/-- The time of frame number `n`. -/
def timeOf (rate : Nat) (base : Int) (n : Nat) : Int :=
  if rate = 0 then base else signed64 (base + signed64 (span rate n))

def process (f : AacFramer) (c : Chunk) : AacFramer × Outputs :=
  let base := f.base.getD (max c.time 0)
  let rate := f.config.sampleRate
  ({ f with base := some base, frames := f.frames + 1 },
    [.call (.packet
      { stream := f.header.id, data := c.data, time := timeOf rate base f.frames,
        duration := frameDuration rate, backward := noTime, forward := noTime })])

/-- The framer with the configuration record in its header. -/
def finalize (f : AacFramer) : AacFramer :=
  { f with header := { f.header with codecPrivate := f.config.bytes } }

end AacFramer

end RealMedia
