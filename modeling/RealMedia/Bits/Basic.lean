import RealMedia.Bytes.Basic

/-! Bit strings, most significant bit first: bytes as bits, bits as bytes, and fields of numbers. -/

namespace RealMedia

abbrev Bits := List Bool

namespace Bits

variable {v n : Nat} {b : UInt8} {l : Bytes}

/-- The low `width` bits of a value. -/
def ofNat : (width : Nat) → (value : Nat) → Bits
  | 0, _ => []
  | width + 1, value => value.testBit width :: ofNat width value

def toNat (bs : Bits) : Nat := bs.foldl (fun v b => 2 * v + b.toNat) 0

/-- The number whose `n` bits are all set. -/
def mask (n : Nat) : Nat := (1 <<< n) - 1

def ofByte (b : UInt8) : Bits := ofNat 8 b.toNat

def ofBytes (l : Bytes) : Bits := l.flatMap ofByte

/-- The bytes of a bit string, the last one filled up with zero bits. -/
def toBytes : Bits → Bytes
  | b₀ :: b₁ :: b₂ :: b₃ :: b₄ :: b₅ :: b₆ :: b₇ :: bs =>
    .ofNat (toNat [b₀, b₁, b₂, b₃, b₄, b₅, b₆, b₇]) :: toBytes bs
  | [] => []
  | bs => [.ofNat (toNat (bs ++ List.replicate (8 - bs.length) false))]

@[simp] theorem length_ofNat : (ofNat n v).length = n := by
  induction n with
  | zero => rfl
  | succ n ih => simp [ofNat, ih]

@[simp] theorem length_ofByte : (ofByte b).length = 8 := length_ofNat

@[simp] theorem length_ofBytes : (ofBytes l).length = 8 * l.length := by
  induction l with
  | nil => rfl
  | cons b l ih => simp [ofBytes] at *; omega

theorem ofBytes_append (a b : Bytes) : ofBytes (a ++ b) = ofBytes a ++ ofBytes b :=
  List.flatMap_append

end Bits

end RealMedia
