/-! What the caller asks of a demultiplexer. -/

namespace RealMedia

structure Options where
  verbosity : Nat := 0
  /-- Streams whose AAC audio is to be taken for SBR; -1 stands for all of them. -/
  forcedSbr : List Int := []
  displaySize : Option (Nat × Nat) := none
  /-- Used where no display size is given. -/
  aspectRatio : Option Float := none
  /-- Bytes of junk an AC3 stream may hold between two frames. -/
  resyncWindow : Nat := 65536
  /-- Warn about an incomplete frame at the end of a stream. -/
  strictTail : Bool := false
  /-- The audio streams wanted; all of them if not given. -/
  audio : Option (List Nat) := none
  /-- The video streams wanted; all of them if not given. -/
  video : Option (List Nat) := none
  /-- Streams whose headers are handed over before all others. -/
  order : List Nat := []

namespace Options

variable (o : Options)

def isVerbose (level : Nat) : Bool := level ≤ o.verbosity

def wantsAudio (id : Nat) : Bool := o.audio.all (·.contains id)

def wantsVideo (id : Nat) : Bool := o.video.all (·.contains id)

def forcesSbr (id : Nat) : Bool := o.forcedSbr.any fun i => i = -1 || i = id

end Options

end RealMedia
