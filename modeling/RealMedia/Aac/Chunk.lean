import RealMedia.Bytes.Basic

/-!
AAC frames in a packet of the container: the high half of the second byte counts them, their lengths
follow in 16-bit words, and then the frames without a gap.
-/

namespace RealMedia.Aac

/-- Why the frames of a packet cannot be told apart. -/
inductive ChunkFault
  | short (length needed : Nat)
  | inconsistent (length expected : Nat)

/-- The big endian words at the start of a byte string. -/
def lengths : Nat → Bytes → List Nat
  | n + 1, a :: b :: rest => (word16 a b).toNat :: lengths n rest
  | _, _ => []

/-- Consecutive pieces of the given lengths. -/
def slices : List Nat → Bytes → List Bytes
  | [], _ => []
  | n :: ns, b => b.take n :: slices ns (b.drop n)

def frames (chunk : Bytes) : Except ChunkFault (List Bytes) :=
  match chunk with
  | _ :: second :: table =>
    let count := (second >>> 4).toNat
    if atLeast (2 * count) table then
      let ns := lengths count table
      let expected := 2 + 2 * count + ns.foldr (· + ·) 0
      if chunk.length = expected then .ok (slices ns (table.drop (2 * count)))
      else .error (.inconsistent chunk.length expected)
    else .error (.short chunk.length (2 + 2 * count))
  | _ => .error (.short chunk.length 2)

end RealMedia.Aac
