import RealMedia.Bytes.Source
import RealMedia.Demux.Setup

/-! A demultiplexer: an open file with the tracks that are read from it. -/

namespace RealMedia

open Container

structure Demultiplexer where
  options : Options
  /-- The file, at the next packet. -/
  source : Source
  fileHeader : FileHeader
  properties : Option Properties
  content : Option Content
  /-- In the order of their descriptions. -/
  tracks : List Track
  /-- Packets that the current data object declares, and those of them that have been read. -/
  declared : Nat
  taken : Nat := 0
  /-- The headers have been handed over. -/
  announced : Bool := false
  /-- The end has been reached, and everything kept has been handed out. -/
  done : Bool := false

inductive Status
  | moreData
  | done
deriving DecidableEq

namespace Demultiplexer

def streams (d : Demultiplexer) : List StreamHeader := d.tracks.map (·.header)

def track? (d : Demultiplexer) (id : Nat) : Option Track := d.tracks.find? (·.id = id)

def isDisabled (d : Demultiplexer) (id : Nat) : Bool :=
  d.tracks.any fun t => t.id = id && t.disabled

/-- How much of the current data object has been read, in percent. -/
def progress (d : Demultiplexer) : Nat :=
  if d.done || d.declared = 0 then 100 else d.taken * 100 / d.declared

end Demultiplexer

end RealMedia
