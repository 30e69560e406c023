import RealMedia.Sink

/-! Pieces of a stream as its framer takes them. -/

namespace RealMedia

structure Chunk where
  data : Bytes
  time : Int := noTime
  duration : Int := noTime
  dependency : Dependency := .key

/-- The packet of a chunk that is a frame, given the time of the chunk before it. -/
def Chunk.packet (c : Chunk) (stream : Nat) (previous : Option Int) : Packet :=
  { stream, data := c.data, time := c.time, duration := c.duration,
    backward := c.dependency.reference previous, forward := noTime }

end RealMedia
