import Mathlib.Algebra.Group.Nat.Even
import Mathlib.Order.Interval.Finset.Nat
import RealMedia.Proofs.Ac3Verdict
import RealMedia.Proofs.Remainders

/-!
Damage that the check word of a frame finds. The remainder of the difference is what tells a damaged
frame, and it is not zero if the errors are near each other or odd in number.
-/

namespace RealMedia

namespace Bits

variable {as bs : Bits}

/-- Whether an odd number of bits are set. -/
def parity : Bits → Bool
  | [] => false
  | b :: bs => b ^^ parity bs

theorem parity_append : parity (as ++ bs) = (parity as ^^ parity bs) := by
  induction as with
  | nil => simp [parity]
  | cons a as ih => simp [parity, ih]

theorem parity_xor (h : as.length = bs.length) :
    parity (List.zipWith (· ^^ ·) as bs) = (parity as ^^ parity bs) := by
  induction as generalizing bs with
  | nil =>
    cases bs with
    | nil => rfl
    | cons b bs => cases h
  | cons a as ih =>
    cases bs with
    | nil => cases h
    | cons b bs =>
      rw [List.zipWith_cons_cons, parity, parity, parity, ih (Nat.succ.inj h)]
      simp only [Bool.xor_assoc, Bool.xor_left_comm]

theorem parity_iff : parity bs = true ↔ Odd (bs.count true) := by
  induction bs with
  | nil => simp [parity]
  | cons b bs ih =>
    cases b with
    | false => simp [parity, ih]
    | true =>
      rw [parity, List.count_cons_self, Nat.odd_add_one, ← ih]
      simp

/-- Set bits as a count and as a set of places, the first place being `k`. -/
theorem card_set (bs : Bits) (k : Nat) :
    {i ∈ Finset.Ico k (k + bs.length) | bs[i - k]? = some true}.card = bs.count true := by
  induction bs using List.reverseRecOn with
  | nil => simp
  | append_singleton bs b ih =>
    have hsame : ∀ i ∈ Finset.Ico k (k + bs.length),
        (bs ++ [b])[i - k]? = some true ↔ bs[i - k]? = some true := by
      intro i hi
      rw [Finset.mem_Ico] at hi
      rw [List.getElem?_append_left (by omega)]
    have hlast : (bs ++ [b])[k + bs.length - k]? = some b := by simp
    rw [List.length_append, List.length_singleton, ← Nat.add_assoc,
      Nat.Ico_succ_right_eq_insert_Ico (Nat.le_add_right ..), Finset.filter_insert,
      Finset.filter_congr hsame, hlast]
    cases b with
    | false => simpa using ih
    | true =>
      rw [if_pos rfl, Finset.card_insert_of_notMem (by simp), ih]
      simp

end Bits

namespace Ac3

open Bits

variable {b c : Bytes} {bs : Bits} {i k n : Nat}

/-! ## Errors that leave a remainder -/

/-- Whether a remainder has an odd number of terms. -/
def wordParity (r : UInt16) : Bool := parity (ofNat 16 r.toNat)

theorem wordParity_xor (r s : UInt16) : wordParity (r ^^^ s) = (wordParity r ^^ wordParity s) := by
  rw [wordParity, UInt16.toNat_xor, ofNat_xor, parity_xor (by simp)]
  rfl

theorem wordParity_double (r : UInt16) :
    wordParity (r <<< 1) = (wordParity r ^^ r.toNat.testBit 15) := by
  have hhigh : wordParity r = (r.toNat.testBit 15 ^^ parity (ofNat 15 r.toNat)) := rfl
  have hlow : ofNat 16 (2 * r.toNat % 65536) = ofNat 15 r.toNat ++ [false] :=
    (ofNat_mod_pow (Nat.le_refl 16)).trans (ofNat_double 15 r.toNat)
  rw [wordParity, toNat_double, hlow, parity_append, hhigh]
  cases r.toNat.testBit 15 <;> simp [parity]

/-- With its leading term, which is lost in the word, the polynomial has four terms. -/
theorem wordParity_shift (r : UInt16) : wordParity (shift r) = wordParity r := by
  have hpoly : wordParity polynomial = true := by decide
  have hzero : wordParity 0 = false := by decide
  rw [shift_eq, wordParity_xor, wordParity_double]
  cases r.toNat.testBit 15 <;> simp [hpoly, hzero]

/-- A remainder has as many terms as the bits it is left by, up to an even number. -/
theorem wordParity_remainder (bs : Bits) : wordParity (remainder bs) = parity bs := by
  induction bs using List.reverseRecOn with
  | nil => decide
  | append_singleton bs b ih =>
    have hbit : wordParity b.toUInt16 = parity [b] := by cases b <;> decide
    rw [remainder_concat, wordParity_xor, wordParity_shift, ih, hbit, parity_append]

theorem remainder_of_odd (h : Odd (bs.count true)) : remainder bs ≠ 0 := by
  intro hr
  have hodd := parity_iff.2 h
  rw [← wordParity_remainder, hr] at hodd
  cases hodd

theorem remainder_short_eq_zero_iff (hlen : bs.length ≤ 16) : remainder bs = 0 ↔ true ∉ bs := by
  have hlt : toNat bs < 2 ^ 16 :=
    Nat.lt_of_lt_of_le toNat_lt (Nat.pow_le_pow_right (by omega) hlen)
  rw [remainder_short hlen, ← UInt16.toNat_inj, UInt16.toNat_ofNat', Nat.mod_eq_of_lt hlt]
  exact toNat_eq_zero_iff

/-- Bits that are set near each other leave a remainder, wherever they stand. -/
theorem remainder_of_near (hnear : ∀ i, bs[i]? = some true → k ≤ i ∧ i < k + 16)
    (hset : true ∈ bs) : remainder bs ≠ 0 := by
  have hsplit : bs = bs.take k ++ ((bs.drop k).take 16 ++ (bs.drop k).drop 16) := by
    rw [List.take_append_drop, List.take_append_drop]
  have hfront : true ∉ bs.take k := by
    intro h
    obtain ⟨i, hi⟩ := List.mem_iff_getElem?.1 h
    rw [List.getElem?_take] at hi
    split at hi
    · have := hnear i hi
      omega
    · cases hi
  have hback : true ∉ (bs.drop k).drop 16 := by
    intro h
    obtain ⟨i, hi⟩ := List.mem_iff_getElem?.1 h
    rw [List.drop_drop, List.getElem?_drop] at hi
    have := hnear _ hi
    omega
  have hmiddle : true ∈ (bs.drop k).take 16 := by
    rw [hsplit, List.mem_append, List.mem_append] at hset
    rcases hset with h | h | h
    · exact absurd h hfront
    · exact h
    · exact absurd h hback
  intro hr
  rw [hsplit, eq_zeros_iff.2 hfront, eq_zeros_iff.2 hback, remainder_append, remainder_append,
    remainder_zeros, remainder_zeros, iterate_shift_zero, UInt16.zero_xor, UInt16.xor_zero,
    iterate_shift_eq_zero_iff, remainder_short_eq_zero_iff (List.length_take_le ..)] at hr
  exact hr hmiddle

/-! ## Damaged frames -/

/-- The bits that the check word of a frame of `n` bytes protects, its own ones included. -/
def covered (b : Bytes) (n : Nat) : Bits := ((Bits.ofBytes b).take (8 * crcSpan n)).drop 16

/-- The protected bits in which two buffers differ, as places from the start of the frame. -/
def flipped (n : Nat) (b c : Bytes) : Finset Nat :=
  {i ∈ Finset.Ico 16 (8 * crcSpan n) | (Bits.ofBytes b)[i]? ≠ (Bits.ofBytes c)[i]?}

/-- The difference of what is protected in two buffers. -/
def errors (n : Nat) (b c : Bytes) : Bits := List.zipWith (· ^^ ·) (covered b n) (covered c n)

theorem crcMatches_iff_remainder : crcMatches b n = true ↔
    4 < crcSpan n ∧ crcSpan n ≤ b.length ∧ remainder (covered b n) = 0 := by
  rw [crcMatches_iff, crc_eq_zero_iff, Bits.ofBytes_drop, Bits.ofBytes_take, covered]

theorem length_covered (hlen : c.length = b.length) :
    (covered b n).length = (covered c n).length := by
  simp [covered, hlen]

theorem getElem?_covered (b : Bytes) (h : 16 ≤ i) :
    (covered b n)[i - 16]? = if i < 8 * crcSpan n then (Bits.ofBytes b)[i]? else none := by
  rw [covered, List.getElem?_drop, List.getElem?_take, Nat.add_sub_cancel' h]

theorem mem_flipped_iff : i ∈ flipped n b c ↔
    16 ≤ i ∧ (covered b n)[i - 16]? ≠ (covered c n)[i - 16]? := by
  rw [flipped, Finset.mem_filter, Finset.mem_Ico, and_assoc]
  refine and_congr_right ?_
  intro h
  rw [getElem?_covered b h, getElem?_covered c h]
  split <;> simp [*]

theorem mem_flipped_iff_errors (hlen : c.length = b.length) :
    i ∈ flipped n b c ↔ 16 ≤ i ∧ (errors n b c)[i - 16]? = some true := by
  rw [mem_flipped_iff, errors, getElem?_xor (length_covered hlen)]

theorem card_flipped (hlen : c.length = b.length) :
    (flipped n b c).card = (errors n b c).count true := by
  rw [← card_set (errors n b c) 16]
  congr 1
  ext i
  rw [mem_flipped_iff_errors hlen, Finset.mem_filter, Finset.mem_Ico]
  constructor
  · rintro ⟨hi, hset⟩
    have hlt := (List.getElem?_eq_some_iff.1 hset).1
    exact ⟨⟨hi, by omega⟩, hset⟩
  · rintro ⟨⟨hi, -⟩, hset⟩
    exact ⟨hi, hset⟩

theorem covered_of_unflipped (h : flipped n b c = ∅) : covered c n = covered b n := by
  apply List.ext_getElem?
  intro i
  have hout : i + 16 ∉ flipped n b c := by simp [h]
  rw [mem_flipped_iff, Nat.add_sub_cancel] at hout
  by_contra hne
  exact hout ⟨Nat.le_add_left .., Ne.symm hne⟩

theorem crcMatches_of_unflipped (hlen : c.length = b.length) (h : flipped n b c = ∅) :
    crcMatches c n = crcMatches b n := by
  rw [Bool.eq_iff_iff, crcMatches_iff_remainder, crcMatches_iff_remainder, covered_of_unflipped h,
    hlen]

/-- Linearity leaves nothing but the difference to look at. -/
theorem crcMatches_damaged (hlen : c.length = b.length) (hb : crcMatches b n = true)
    (hrem : remainder (errors n b c) ≠ 0) : crcMatches c n = false := by
  rw [← Bool.not_eq_true, crcMatches_iff_remainder]
  rintro ⟨-, -, hc⟩
  obtain ⟨-, -, hb⟩ := crcMatches_iff_remainder.1 hb
  rw [errors, remainder_xor (length_covered hlen), hb, hc] at hrem
  exact hrem rfl

/-- A frame whose check word matches does so no more with differences in up to 16 consecutive
protected bits, or in an odd number of them. Differences elsewhere change nothing. -/
theorem damage_found (n : Nat) (b c : Bytes) (hlen : c.length = b.length) :
    (crcMatches b n = true → (flipped n b c).Nonempty →
      (∃ k, flipped n b c ⊆ Finset.Ico k (k + 16)) → crcMatches c n = false) ∧
    (crcMatches b n = true → Odd (flipped n b c).card → crcMatches c n = false) ∧
    (flipped n b c = ∅ → crcMatches c n = crcMatches b n) := by
  refine ⟨?_, ?_, crcMatches_of_unflipped hlen⟩
  · -- The places of the errors count from behind the sync word.
    rintro hb ⟨i, hi⟩ ⟨k, hk⟩
    have hset := (mem_flipped_iff_errors hlen).1 hi
    refine crcMatches_damaged hlen hb (remainder_of_near (k := k - 16) ?_
      (List.mem_of_getElem? hset.2))
    intro j hj
    have hmem : j + 16 ∈ flipped n b c :=
      (mem_flipped_iff_errors hlen).2 ⟨Nat.le_add_left .., by simpa using hj⟩
    have hnear := Finset.mem_Ico.1 (hk hmem)
    omega
  · intro hb hodd
    rw [card_flipped hlen] at hodd
    exact crcMatches_damaged hlen hb (remainder_of_odd hodd)

/-- The start of a frame of 16 bytes, whose check word protects the first ten of them. -/
def soundStart : Bytes := [0x0b, 0x77, 0xf8, 0xaf, 0x14, 0x40, 0xe1, 0xdf, 0x20, 0x96, 0x55, 0xaa]

/-- With four errors within 14 bits. -/
def smearedStart : Bytes := [0x0b, 0x77, 0xf8, 0xaf, 0x17, 0xc0, 0xf1, 0xdf, 0x20, 0x96, 0x55, 0xaa]

/-- With three errors that are far from each other. -/
def speckledStart : Bytes :=
  [0x0b, 0x77, 0xf0, 0xaf, 0x14, 0x00, 0xe1, 0xdf, 0x20, 0x94, 0x55, 0xaa]

/-- With errors in front of the protected part and behind it. -/
def framedStart : Bytes := [0x1b, 0x77, 0xf8, 0xaf, 0x14, 0x40, 0xe1, 0xdf, 0x20, 0x96, 0x55, 0x2a]

theorem damage_found_sound :
    crcMatches soundStart 16 = true ∧
      (flipped 16 soundStart smearedStart = {38, 39, 40, 51} ∧
        crcMatches smearedStart 16 = false) ∧
      (flipped 16 soundStart speckledStart = {20, 41, 78} ∧
        crcMatches speckledStart 16 = false) ∧
      flipped 16 soundStart framedStart = ∅ ∧ crcMatches framedStart 16 = true := by
  have hsound : crcMatches soundStart 16 = true := by decide +kernel
  have hsmeared : flipped 16 soundStart smearedStart = {38, 39, 40, 51} := by decide +kernel
  have hspeckled : flipped 16 soundStart speckledStart = {20, 41, 78} := by decide +kernel
  have hframed : flipped 16 soundStart framedStart = ∅ := by decide +kernel
  obtain ⟨hnear, -, -⟩ := damage_found 16 soundStart smearedStart rfl
  obtain ⟨-, hodd, -⟩ := damage_found 16 soundStart speckledStart rfl
  obtain ⟨-, -, hsame⟩ := damage_found 16 soundStart framedStart rfl
  refine ⟨hsound, ⟨hsmeared, ?_⟩, ⟨hspeckled, ?_⟩, hframed, (hsame hframed).trans hsound⟩
  · exact hnear hsound (by rw [hsmeared]; decide) ⟨38, by rw [hsmeared]; decide⟩
  · exact hodd hsound (by rw [hspeckled]; decide)

end Ac3

end RealMedia
