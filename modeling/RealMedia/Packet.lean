import RealMedia.Bytes.Basic

/-! Finished packets of a stream. Times and durations are nanoseconds, in 64 bits with a sign. -/

namespace RealMedia

/-- Stands for an unknown time or duration, and for an absent reference. -/
def noTime : Int := -1

/-- The number of 64 bits with a sign that stands for an integer. Sums of times are kept in it. -/
def signed64 (x : Int) : Int := x.bmod 18446744073709551616

theorem signed64_eq {x : Int} (hlow : -9223372036854775808 ≤ x)
    (hhigh : x < 9223372036854775808) : signed64 x = x :=
  Int.bmod_eq_of_le_mul_two (by omega) (by omega)

/-- A time stands for a number of nanoseconds: it is the number in 64 bits with a sign, and so the
number itself where these hold it. -/
structure StandsFor (time x : Int) : Prop where
  wrapped : time = signed64 x
  held : x < 9223372036854775808 → time = x

theorem standsFor_signed64 {x : Int} (hx : -9223372036854775808 ≤ x) : StandsFor (signed64 x) x :=
  ⟨rfl, signed64_eq hx⟩

theorem le_signed64 (x : Int) : -9223372036854775808 ≤ signed64 x :=
  Int.le_bmod (by decide)

@[simp] theorem signed64_add_signed64 (x y : Int) :
    signed64 (x + signed64 y) = signed64 (x + y) :=
  Int.add_bmod_bmod

@[simp] theorem signed64_signed64_add (x y : Int) :
    signed64 (signed64 x + y) = signed64 (x + y) :=
  Int.bmod_add_bmod

structure Packet where
  stream : Nat
  data : Bytes
  time : Int
  duration : Int
  /-- The time of the frame this one depends on. -/
  backward : Int
  /-- The time of a later frame this one depends on. -/
  forward : Int
deriving DecidableEq

def Packet.isKey (p : Packet) : Bool := p.backward = noTime

/-- What a frame needs to be decoded. -/
inductive Dependency
  | key
  /-- The previous frame of the stream. -/
  | predicted
  /-- The frame with the given time. -/
  | on (time : Int)

/-- The backward reference of a frame, given the time of the previous one. -/
def Dependency.reference (previous : Option Int) : Dependency → Int
  | key => noTime
  | predicted => previous.getD noTime
  | on time => time

end RealMedia
