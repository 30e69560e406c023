import RealMedia.Framer.Chunk

/-! Audio of a codec that is not looked into: every chunk is handed on as a frame. -/

namespace RealMedia

structure PlainFramer where
  header : StreamHeader
  /-- The time of the last chunk. -/
  previous : Option Int := none

def PlainFramer.process (f : PlainFramer) (c : Chunk) : PlainFramer × Outputs :=
  ({ f with previous := some c.time }, [.call (.packet (c.packet f.header.id f.previous))])

end RealMedia
