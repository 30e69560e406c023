import RealMedia.Text.Utf8

/-!
Sequential decoding of a byte string. A read that asks for more than is left takes nothing and says
what it wanted.
-/

namespace RealMedia

structure OutOfData where
  wanted : Nat
  available : Nat
deriving DecidableEq

def OutOfData.message (e : OutOfData) : String :=
  s!"out of data: wanted {e.wanted} but only {e.available} available"

/-- How many bytes have been consumed, and the bytes that have not. -/
structure Cursor where
  pos : Nat
  rest : Bytes

abbrev Decoder := EStateM OutOfData Cursor

namespace Decoder

variable {α : Type}

/-- Decode from the start of a byte string. -/
def decode (d : Decoder α) (b : Bytes) : Except OutOfData α :=
  match d ⟨0, b⟩ with
  | .ok a _ => .ok a
  | .error e _ => .error e

def take (n : Nat) : Decoder Bytes := fun c =>
  match split? n c.rest with
  | some (a, rest) => .ok a ⟨c.pos + n, rest⟩
  | none => .error ⟨n, c.rest.length⟩ c

def skip (n : Nat) : Decoder Unit := do
  let _ ← take n

def u8 : Decoder UInt8 := fun c =>
  match c.rest with
  | b :: rest => .ok b ⟨c.pos + 1, rest⟩
  | short => .error ⟨1, short.length⟩ c

def u16 (order : ByteOrder) : Decoder UInt16 := fun c =>
  match c.rest with
  | a :: b :: rest =>
    let w := match order with
      | .big => word16 a b
      | .little => word16 b a
    .ok w ⟨c.pos + 2, rest⟩
  | short => .error ⟨2, short.length⟩ c

def u32 (order : ByteOrder) : Decoder UInt32 := fun c =>
  match c.rest with
  | p :: q :: r :: s :: rest =>
    let w := match order with
      | .big => word32 p q r s
      | .little => word32 s r q p
    .ok w ⟨c.pos + 4, rest⟩
  | short => .error ⟨4, short.length⟩ c

def be16 : Decoder UInt16 := u16 .big

def be32 : Decoder UInt32 := u32 .big

/-- A text behind its length in one byte. -/
def text8 : Decoder String := do
  let n ← u8
  return Utf8.decode (← take n.toNat)

/-- A text behind its length in a big endian 16-bit word. -/
def text16 : Decoder String := do
  let n ← be16
  return Utf8.decode (← take n.toNat)

/-- The bytes not consumed yet; they stay unconsumed. -/
def rest : Decoder Bytes := do
  return (← get).rest

end Decoder

end RealMedia
