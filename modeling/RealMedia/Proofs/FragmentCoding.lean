import RealMedia.Proofs.ReadBack
import RealMedia.RealVideo.Fragment

/-! Long fragment headers as they are written, and what is read back from them. -/

namespace RealMedia.RealVideo

open Decoder

/-- A number in 14 or 30 bits, and the bit in front of it. -/
structure PackedField where
  value : Nat
  wide : Bool
  flag : Bool

namespace PackedField

variable {x : PackedField} {flag narrow : Bool} {n : Nat}

def Fits (x : PackedField) : Prop := x.value < if x.wide then 1073741824 else 16384

instance (x : PackedField) : Decidable x.Fits := inferInstanceAs (Decidable (_ < _))

/-- The first word of a field. Its second bit is set in the narrow form. -/
def firstWord (flag narrow : Bool) (n : Nat) : UInt16 :=
  .ofNat (flag.toNat * 32768 + narrow.toNat * 16384 + n)

def bytes (x : PackedField) : Bytes :=
  if x.wide then bytes16 (firstWord x.flag false (x.value / 65536)) ++ bytes16 (.ofNat x.value)
  else bytes16 (firstWord x.flag true x.value)

theorem lt_of_fits (hx : x.Fits) : x.value < 1073741824 := by
  rw [Fits] at hx
  split at hx <;> omega

theorem toNat_firstWord (hn : n < 16384) :
    (firstWord flag narrow n).toNat = flag.toNat * 32768 + narrow.toNat * 16384 + n := by
  have := flag.toNat_le
  have := narrow.toNat_le
  rw [firstWord, UInt16.toNat_ofNat']
  omega

theorem firstWord_parts (flag narrow : Bool) (hn : n < 16384) :
    (firstWord flag narrow n).toNat.testBit 15 = flag ∧
      (firstWord flag narrow n).toNat.testBit 14 = narrow ∧
      (firstWord flag narrow n).toNat % 16384 = n := by
  rw [toNat_firstWord hn]
  simp only [Nat.testBit_eq_decide_div_mod_eq]
  cases flag <;> cases narrow <;>
    simp only [Bool.toNat_true, Bool.toNat_false, decide_eq_true_eq, decide_eq_false_iff_not] <;>
    omega

theorem yields_bytes (hx : x.Fits) : Yields FragmentHeader.packed x.bytes (x.value, x.flag) := by
  rcases x with ⟨value, wide, flag⟩
  cases wide with
  | false =>
    obtain ⟨hflag, hform, hvalue⟩ := firstWord_parts flag true hx
    rw [bytes, if_neg (by simp), ← List.append_nil (bytes16 _)]
    refine (yields_be16 _).bind ?_
    dsimp only
    rw [if_pos hform, hvalue, hflag]
    exact yields_pure _
  | true =>
    have hv : value < 1073741824 := hx
    obtain ⟨hflag, hform, hvalue⟩ :=
      firstWord_parts flag false (show value / 65536 < 16384 by omega)
    have hlow : (UInt16.ofNat value).toNat = value % 65536 := UInt16.toNat_ofNat'
    rw [bytes, if_pos rfl]
    refine (yields_be16 _).bind ?_
    dsimp only
    rw [if_neg (by simp [hform]), hvalue, hflag]
    have hlast := (yields_be16 (.ofNat value)).return
      fun w : UInt16 => (value / 65536 * 65536 + w.toNat, flag)
    rwa [hlow, Nat.div_add_mod'] at hlast

end PackedField

/-- The first byte of a header. -/
def FragmentKind.descriptor (k : FragmentKind) (low : Fin 64) : UInt8 :=
  .ofNat (low + 64 * match k with
    | .middle => 0
    | .short => 1
    | .tail => 2
    | .timed => 3)

theorem FragmentKind.ofDescriptor_descriptor (k : FragmentKind) (low : Fin 64) :
    ofDescriptor (k.descriptor low) = k := by
  cases k <;> revert low <;> decide

theorem FragmentKind.isLast_descriptor (k : FragmentKind) (low : Fin 64) :
    0x80 ≤ k.descriptor low ↔ k = .tail ∨ k = .timed := by
  cases k <;> revert low <;> decide

/-- A header with a length and a second number behind its first byte. -/
structure LongHeader where
  kind : FragmentKind
  /-- The six low bits of the first byte, which mean nothing. -/
  low : Fin 64
  subSequence : UInt8
  sequence : UInt8
  total : PackedField
  second : PackedField

namespace LongHeader

variable {x : LongHeader}

def descriptor (x : LongHeader) : UInt8 := x.kind.descriptor x.low

/-- Both numbers fit their forms, and the kind is none of the short one. -/
structure Fits (x : LongHeader) : Prop where
  kind : x.kind ≠ .short
  total : x.total.Fits
  second : x.second.Fits

instance (x : LongHeader) : Decidable x.Fits :=
  decidable_of_iff (x.kind ≠ .short ∧ x.total.Fits ∧ x.second.Fits)
    ⟨fun h => ⟨h.1, h.2.1, h.2.2⟩, fun h => ⟨h.kind, h.total, h.second⟩⟩

/-- A header with a time has no byte for the sub-sequence. -/
def bytes (x : LongHeader) : Bytes :=
  [x.descriptor] ++ ((if x.kind = .timed then [] else [x.subSequence]) ++
    (x.total.bytes ++ (x.second.bytes ++ [x.sequence])))

/-- What the header says. -/
def header (x : LongHeader) : FragmentHeader where
  descriptor := x.descriptor
  subSequence := if x.kind = .timed then 0 else x.subSequence &&& 0x7f
  sequence := x.sequence
  total := x.total.value
  offset := match x.kind with
    | .timed => 0
    | .tail => (x.total.value + 4294967296 - x.second.value) % 4294967296
    | _ => x.second.value
  merged := x.total.flag
  time := if x.kind = .timed then some (x.second.value * 1000000) else none

@[simp] theorem kind_descriptor (x : LongHeader) :
    FragmentKind.ofDescriptor x.descriptor = x.kind :=
  FragmentKind.ofDescriptor_descriptor ..

@[simp] theorem isLast_header (x : LongHeader) :
    x.header.isLast = true ↔ x.kind = .tail ∨ x.kind = .timed := by
  rw [FragmentHeader.isLast, decide_eq_true_eq]
  exact FragmentKind.isLast_descriptor ..

theorem yields_long (hx : x.Fits) (s : UInt8) :
    Yields (FragmentHeader.long x.descriptor s) (x.total.bytes ++ (x.second.bytes ++ [x.sequence]))
      { x.header with subSequence := s } := by
  refine (PackedField.yields_bytes hx.total).bind ((PackedField.yields_bytes hx.second).bind ?_)
  rw [← List.append_nil [x.sequence]]
  refine (yields_u8 _).bind ?_
  simp only [kind_descriptor]
  rcases x with ⟨kind, low, _, _, _, _⟩
  cases kind with
  | short => exact absurd rfl hx.kind
  | middle | tail | timed => exact yields_pure _

/-- A long header is read back, whatever follows it. -/
theorem yields_header (hx : x.Fits) : Yields FragmentHeader.decoder x.bytes x.header := by
  have hlong := yields_long hx
  refine (yields_u8 x.descriptor).bind ?_
  rw [kind_descriptor]
  cases hk : x.kind with
  | short => exact absurd hk hx.kind
  | timed =>
    have hsub : { x.header with subSequence := 0 } = x.header := by simp [header, hk]
    rw [if_pos rfl, List.nil_append, ← hsub]
    exact hlong 0
  | middle | tail =>
    have hsub : { x.header with subSequence := x.subSequence &&& 0x7f } = x.header := by
      simp [header, hk]
    rw [if_neg (by simp), ← hsub]
    exact (yields_u8 _).bind (hlong _)

end LongHeader

end RealMedia.RealVideo
