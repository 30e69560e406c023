import Mathlib.Data.Fintype.EquivFin
import Mathlib.Data.Nat.Bitwise
import Mathlib.Logic.Function.Iterate
import RealMedia.Ac3.Crc
import RealMedia.Proofs.BitStrings

/-!
Remainders by the check polynomial. Multiplication by x is linear and can be undone, so the check
word of a byte string is zero exactly if its bits leave no remainder.
-/

namespace RealMedia.Ac3

open Bits

variable {r s : UInt16} {as bs : Bits} {n v : Nat}

/-! ## Multiplication by x -/

theorem and_bit_iff (r : UInt16) {m : UInt16} {i : Nat} (hm : m.toNat = 2 ^ i) :
    r &&& m ≠ 0 ↔ r.toNat.testBit i = true := by
  rw [Ne, ← UInt16.toNat_inj, UInt16.toNat_and, hm, Nat.and_two_pow]
  cases r.toNat.testBit i <;> simp

/-- The top bit is carried into the other terms of the polynomial. -/
theorem shift_eq (r : UInt16) :
    shift r = r <<< 1 ^^^ if r.toNat.testBit 15 then polynomial else 0 := by
  rw [shift]
  simp only [and_bit_iff r (m := 0x8000) (i := 15) rfl]
  split <;> simp

theorem shift_xor (r s : UInt16) : shift (r ^^^ s) = shift r ^^^ shift s := by
  have hcarry : (if r.toNat.testBit 15 ^^ s.toNat.testBit 15 then polynomial else 0) =
      (if r.toNat.testBit 15 then polynomial else 0) ^^^
        (if s.toNat.testBit 15 then polynomial else 0) := by
    cases r.toNat.testBit 15 <;> cases s.toNat.testBit 15 <;> decide
  simp only [shift_eq, UInt16.toNat_xor, Nat.testBit_xor, UInt16.shiftLeft_xor, hcarry]
  ac_rfl

theorem toNat_double (r : UInt16) : (r <<< 1).toNat = 2 * r.toNat % 65536 := by
  rw [UInt16.toNat_shiftLeft, Nat.shiftLeft_eq, Nat.mul_comm]
  rfl

/-- Doubling loses the top bit and nothing else. -/
theorem double_half (r : UInt16) :
    (r <<< 1) >>> 1 ||| (if r.toNat.testBit 15 then 0x8000 else 0) = r := by
  have hr := r.toNat_lt
  have hhalf : ((r <<< 1) >>> 1).toNat = r.toNat % 2 ^ 15 := by
    have hshift : ((r <<< 1) >>> 1).toNat = (r <<< 1).toNat / 2 := by
      rw [UInt16.toNat_shiftRight, Nat.shiftRight_eq_div_pow]
      rfl
    rw [hshift, toNat_double]
    omega
  apply UInt16.toNat_inj.1
  rw [UInt16.toNat_or, hhalf]
  simp only [Nat.testBit_eq_decide_div_mod_eq, decide_eq_true_eq]
  split
  · have hlow : r.toNat % 2 ^ 15 < 2 ^ 15 := Nat.mod_lt _ (by omega)
    have hor := Nat.two_pow_add_eq_or_of_lt hlow 1
    rw [Nat.or_comm]
    refine hor.symm.trans ?_
    omega
  · refine (Nat.or_zero _).trans ?_
    omega

theorem unshift_shift (r : UInt16) : unshift (shift r) = r := by
  have hlow : (r <<< 1).toNat.testBit 0 = false := by
    rw [toNat_double, Nat.testBit_eq_decide_div_mod_eq, decide_eq_false_iff_not]
    omega
  have hpoly : polynomial.toNat.testBit 0 = true := rfl
  have hback := double_half r
  rw [unshift, shift_eq]
  simp only [and_bit_iff _ (m := 1) (i := 0) rfl, UInt16.toNat_xor, Nat.testBit_xor, hlow]
  -- the lowest bit tells whether the top bit has been carried
  cases htop : r.toNat.testBit 15 with
  | false => simpa [htop] using hback
  | true => simpa [htop, hpoly, UInt16.xor_assoc] using hback

theorem shift_unshift (r : UInt16) : shift (unshift r) = r := by
  have hfinite : Finite UInt16 := .of_injective UInt16.toFin fun _ _ => UInt16.toFin_inj.1
  have hleft : Function.LeftInverse unshift shift := unshift_shift
  obtain ⟨s, rfl⟩ := Finite.surjective_of_injective hleft.injective r
  rw [unshift_shift]

theorem iterate_shift_zero (n : Nat) : shift^[n] 0 = 0 := Function.iterate_fixed rfl n

theorem iterate_shift_xor (n : Nat) (r s : UInt16) :
    shift^[n] (r ^^^ s) = shift^[n] r ^^^ shift^[n] s := by
  induction n generalizing r s with
  | zero => rfl
  | succ n ih => rw [Function.iterate_succ_apply, shift_xor, ih]; rfl

theorem iterate_shift_eq_iff : shift^[n] r = s ↔ r = unshift^[n] s := by
  have hleft : Function.LeftInverse unshift shift := unshift_shift
  have hright : Function.RightInverse unshift shift := shift_unshift
  constructor
  · rintro rfl
    exact (hleft.iterate n r).symm
  · rintro rfl
    exact hright.iterate n s

theorem iterate_shift_eq_zero_iff : shift^[n] r = 0 ↔ r = 0 := by
  constructor
  · intro h
    rw [← iterate_shift_zero n] at h
    exact (Function.LeftInverse.injective unshift_shift).iterate n h
  · rintro rfl
    exact iterate_shift_zero n

/-! ## Remainders -/

/-- The remainder of a bit string, read as a polynomial with its first bit in front. -/
def remainder (bs : Bits) : UInt16 := bs.foldl (fun r b => shift r ^^^ b.toUInt16) 0

theorem foldl_remainder (r : UInt16) :
    bs.foldl (fun r b => shift r ^^^ b.toUInt16) r = shift^[bs.length] r ^^^ remainder bs := by
  induction bs generalizing r with
  | nil => simp [remainder]
  | cons b bs ih =>
    rw [remainder, List.foldl_cons, List.foldl_cons, ih, ih (shift 0 ^^^ b.toUInt16),
      iterate_shift_xor, iterate_shift_xor, List.length_cons, Function.iterate_succ_apply]
    have hzero : shift^[bs.length] (shift 0) = 0 := iterate_shift_zero (bs.length + 1)
    rw [hzero, UInt16.zero_xor, UInt16.xor_assoc]

theorem remainder_append :
    remainder (as ++ bs) = shift^[bs.length] (remainder as) ^^^ remainder bs := by
  rw [remainder, List.foldl_append, foldl_remainder, ← remainder]

theorem remainder_cons (b : Bool) :
    remainder (b :: bs) = shift^[bs.length] b.toUInt16 ^^^ remainder bs := by
  have h : remainder [b] = b.toUInt16 := by cases b <;> rfl
  rw [← List.singleton_append, remainder_append, h]

theorem remainder_concat (b : Bool) :
    remainder (bs ++ [b]) = shift (remainder bs) ^^^ b.toUInt16 := by
  rw [remainder, List.foldl_append, ← remainder]
  rfl

theorem remainder_zeros (n : Nat) : remainder (List.replicate n false) = 0 := by
  induction n with
  | zero => rfl
  | succ n ih =>
    rw [List.replicate_succ, remainder_cons, ih, UInt16.xor_zero]
    exact iterate_shift_zero _

/-- Remainders are linear. -/
theorem remainder_xor (h : as.length = bs.length) :
    remainder (List.zipWith (· ^^ ·) as bs) = remainder as ^^^ remainder bs := by
  induction as generalizing bs with
  | nil =>
    cases bs with
    | nil => rfl
    | cons b bs => cases h
  | cons a as ih =>
    cases bs with
    | nil => cases h
    | cons b bs =>
      have hlen : as.length = bs.length := Nat.succ.inj h
      have hbit : (a ^^ b).toUInt16 = a.toUInt16 ^^^ b.toUInt16 := by cases a <;> cases b <;> rfl
      rw [List.zipWith_cons_cons, remainder_cons, remainder_cons, remainder_cons, ih hlen,
        List.length_zipWith, hlen, Nat.min_self, hbit, iterate_shift_xor]
      ac_rfl

/-- A polynomial of low degree is its own remainder. -/
theorem remainder_short (h : bs.length ≤ 16) : remainder bs = .ofNat (toNat bs) := by
  induction bs using List.reverseRecOn with
  | nil => rfl
  | append_singleton bs b ih =>
    rw [List.length_append, List.length_singleton] at h
    have hlt : toNat bs < 2 ^ 15 :=
      Nat.lt_of_lt_of_le toNat_lt (Nat.pow_le_pow_right (by omega) (by omega))
    have hnum : (UInt16.ofNat (toNat bs)).toNat = toNat bs := by
      rw [UInt16.toNat_ofNat']
      omega
    have htop : (toNat bs).testBit 15 = false := Nat.testBit_lt_two_pow hlt
    rw [remainder_concat, ih (by omega), shift_eq, hnum, htop, if_neg Bool.false_ne_true,
      UInt16.xor_zero, toNat_concat]
    apply UInt16.toNat_inj.1
    rw [UInt16.toNat_xor, toNat_double, hnum, UInt16.toNat_ofNat', Nat.mod_eq_of_lt (by omega)]
    cases b with
    | false =>
      refine (Nat.xor_zero _).trans ?_
      rw [Bool.toNat_false]
      omega
    | true =>
      refine (Nat.xor_one_of_even (even_two_mul _)).trans ?_
      rw [Bool.toNat_true]
      omega

/-! ## Check words -/

theorem remainder_ofByte (b : UInt8) : remainder (ofByte b) = b.toUInt16 := by
  have hb := b.toNat_lt
  rw [remainder_short (by simp), ofByte, toNat_ofNat]
  apply UInt16.toNat_inj.1
  rw [UInt16.toNat_ofNat', UInt8.toNat_toUInt16]
  omega

theorem shift_byte (b : UInt8) : b.toUInt16 <<< 8 = shift^[8] b.toUInt16 := by
  have hb := b.toNat_lt
  have hword : remainder (ofByte b ++ List.replicate 8 false) = shift^[8] b.toUInt16 := by
    rw [remainder_append, remainder_zeros, remainder_ofByte, UInt16.xor_zero]
    rfl
  rw [← hword, remainder_short (by simp), toNat_append, ofByte, toNat_ofNat]
  apply UInt16.toNat_inj.1
  rw [UInt16.toNat_shiftLeft, UInt8.toNat_toUInt16, Nat.shiftLeft_eq, UInt16.toNat_ofNat']
  have hzeros : toNat (List.replicate 8 false) = 0 := rfl
  rw [hzeros]
  simp

theorem crcByte_eq (r : UInt16) (b : UInt8) :
    crcByte r b = shift^[8] (r ^^^ shift^[8] b.toUInt16) := by
  rw [← shift_byte]
  rfl

/-- The check word of bytes is the remainder of their bits with 16 zero bits behind them. -/
theorem crc_eq (b : Bytes) : crc b = shift^[16] (remainder (ofBytes b)) := by
  induction b using List.reverseRecOn with
  | nil => exact (iterate_shift_zero 16).symm
  | append_singleton l b ih =>
    have hbits : ofBytes [b] = ofByte b := List.flatMap_singleton ..
    have hswap (r : UInt16) : shift^[8] (shift^[16] r) = shift^[16] (shift^[8] r) :=
      (Function.Commute.refl shift).iterate_iterate 8 16 r
    have hboth (r : UInt16) : shift^[8] (shift^[8] r) = shift^[16] r := by
      rw [← Function.iterate_add_apply]
    rw [crc, List.foldl_append, ← crc, List.foldl_cons, List.foldl_nil, crcByte_eq, ih,
      iterate_shift_xor, hswap, hboth, ofBytes_append, hbits, remainder_append, remainder_ofByte,
      length_ofByte, iterate_shift_xor]

/-- A check word of zero and no remainder are the same. -/
theorem crc_eq_zero_iff (b : Bytes) : crc b = 0 ↔ remainder (ofBytes b) = 0 := by
  rw [crc_eq, iterate_shift_eq_zero_iff]

end RealMedia.Ac3
