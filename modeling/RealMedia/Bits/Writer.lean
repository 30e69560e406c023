import RealMedia.Bits.Basic

/-!
Bit fields packed into bytes, most significant bit first. An accumulator holds the bits that do not
fill a byte yet.
-/

namespace RealMedia

/-- The low bits of a value. -/
structure BitField where
  value : UInt32
  width : Nat
  width_le : width ≤ 32 := by decide

namespace BitField

/-- The field of a number that fits 32 bits. -/
def ofNat (n v : Nat) (hn : n ≤ 32 := by decide) : BitField := ⟨.ofNat v, n, hn⟩

def bits (f : BitField) : Bits := Bits.ofNat f.width f.value.toNat

end BitField

/-- The bytes that are full, and the bits behind them, which are the low ones of the accumulator. -/
structure BitWriter where
  full : Bytes := []
  acc : UInt64 := 0
  count : Nat := 0
  count_lt : count < 8 := by decide

namespace BitWriter

/-- The whole bytes among the low `n` bits of an accumulator, from the highest of these bits on. -/
def wholeBytes (acc : UInt64) (n : Nat) : Bytes :=
  if 8 ≤ n then (acc >>> .ofNat (n - 8)).toUInt8 :: wholeBytes acc (n - 8) else []
termination_by n

/-- Write the low `n` bits of a value, 32 at most. -/
def put (w : BitWriter) (value : UInt32) (n : Nat) : BitWriter :=
  let acc := w.acc <<< .ofNat n ||| (value &&& .ofNat (Bits.mask n)).toUInt64
  let left := (w.count + n) % 8
  { full := w.full ++ wholeBytes acc (w.count + n)
    acc := acc &&& (1 <<< UInt64.ofNat left - 1)
    count := left
    count_lt := Nat.mod_lt _ (by decide) }

/-- Write fields one behind the other. -/
def putAll (w : BitWriter) (fs : List BitField) : BitWriter :=
  fs.foldl (fun w f => w.put f.value f.width) w

/-- All that has been written, the last byte filled up with zero bits. -/
def bytes (w : BitWriter) : Bytes :=
  if 0 < w.count then (w.put 0 (8 - w.count)).full else w.full

end BitWriter

end RealMedia
