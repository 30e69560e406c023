import RealMedia.Bits.Basic
import RealMedia.Bytes.Decoder

/-!
Sequential decoding of bit fields, most significant bit first. A read that asks for more than is
left takes nothing and says what it wanted.
-/

namespace RealMedia

/-- How many bits have been consumed, and the bits that have not. -/
structure BitCursor where
  pos : Nat
  rest : Bits

abbrev BitDecoder := EStateM OutOfData BitCursor

namespace BitDecoder

variable {α : Type}

/-- Decode from the start of a byte string. -/
def decode? (d : BitDecoder α) (b : Bytes) : Option α :=
  match d ⟨0, Bits.ofBytes b⟩ with
  | .ok a _ => some a
  | .error _ _ => none

def take (n : Nat) : BitDecoder Bits := fun c =>
  match split? n c.rest with
  | some (a, rest) => .ok a ⟨c.pos + n, rest⟩
  | none => .error ⟨n, c.rest.length⟩ c

def skip (n : Nat) : BitDecoder Unit := do
  let _ ← take n

/-- An unsigned number of `n` bits. -/
def field (n : Nat) : BitDecoder Nat := Bits.toNat <$> take n

def flag : BitDecoder Bool := fun c =>
  match c.rest with
  | b :: rest => .ok b ⟨c.pos + 1, rest⟩
  | [] => .error ⟨1, 0⟩ c

/-- Whether at least `n` bits are left. -/
def has (n : Nat) : BitDecoder Bool := do
  return atLeast n (← get).rest

/-- Go on without a value when a read runs out of data. -/
def optional (d : BitDecoder α) : BitDecoder (Option α) := fun c =>
  match d c with
  | .ok a c => .ok (some a) c
  | .error _ c => .ok none c

end BitDecoder

end RealMedia
