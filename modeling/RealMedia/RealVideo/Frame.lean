import RealMedia.Bytes.Basic

/-! A whole RealVideo frame, and the form in which a muxer takes it. -/

namespace RealMedia.RealVideo

structure Frame where
  data : Bytes
  /-- Where each fragment starts in the data. -/
  offsets : List Nat
  merged : Bool
  key : Bool
  time : Int
  /-- The fragments did not fit together and stand in order of arrival. -/
  relaid : Bool

namespace Frame

/-- The four bytes of a word, least significant first. -/
def littleWord (w : Nat) : Bytes := (bytes32 (.ofNat w)).reverse

/-- The starts of the segments that the data is told to have. -/
def segments (f : Frame) : List Nat := if f.merged then [0] else f.offsets

/-- The table of segments and then the data. The table holds the number of segments less one, and
for each of them the word 1 and its start. -/
def payload (f : Frame) : Bytes :=
  .ofNat (f.segments.length - 1) ::
    f.segments.flatMap (fun s => littleWord 1 ++ littleWord s) ++ f.data

end Frame

end RealMedia.RealVideo
