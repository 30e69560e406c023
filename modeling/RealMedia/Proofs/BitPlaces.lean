import RealMedia.Proofs.BitReading

/-! The bits of a byte string by their places, and what the reading of bit fields takes there. -/

namespace RealMedia

/-- The bit at a place of a byte string, the most significant one of each byte first. -/
def bitAt (b : Bytes) (i : Nat) : Bool := (b.getD (i / 8) 0).toNat.testBit (7 - i % 8)

/-- The number in `n` bits from a place on, most significant bit first. -/
def numberAt (b : Bytes) (pos : Nat) : Nat → Nat
  | 0 => 0
  | n + 1 => 2 * numberAt b pos n + (bitAt b (pos + n)).toNat

/-- A cursor at a place of a byte string. -/
def cursorAt (b : Bytes) (pos : Nat) : BitCursor := ⟨pos, (Bits.ofBytes b).drop pos⟩

variable {b d : Bytes} {pos n i : Nat}

namespace Bits

theorem getElem?_ofNat {v : Nat} (hi : i < n) : (ofNat n v)[i]? = some (v.testBit (n - 1 - i)) := by
  induction n generalizing i with
  | zero => cases hi
  | succ n ih =>
    cases i with
    | zero => rfl
    | succ i =>
      have hplace : n + 1 - 1 - (i + 1) = n - 1 - i := by omega
      rw [ofNat, List.getElem?_cons_succ, ih (Nat.lt_of_succ_lt_succ hi), hplace]

theorem getElem?_ofBytes (hi : i < 8 * b.length) : (ofBytes b)[i]? = some (bitAt b i) := by
  induction b generalizing i with
  | nil => cases hi
  | cons x b ih =>
    rw [ofBytes_cons]
    by_cases hfirst : i < 8
    · have hbyte : i / 8 = 0 := by omega
      have hbit : i % 8 = i := by omega
      rw [List.getElem?_append_left (by rwa [length_ofByte]), ofByte, getElem?_ofNat hfirst, bitAt,
        hbyte, hbit]
      rfl
    · have hbyte : i / 8 = (i - 8) / 8 + 1 := by omega
      have hbit : i % 8 = (i - 8) % 8 := by omega
      rw [List.length_cons] at hi
      rw [List.getElem?_append_right (by rw [length_ofByte]; omega), length_ofByte,
        ih (by omega), bitAt, bitAt, hbyte, hbit]
      rfl

theorem toNat_take_drop (h : pos + n ≤ 8 * b.length) :
    toNat (((ofBytes b).drop pos).take n) = numberAt b pos n := by
  induction n with
  | zero => rfl
  | succ n ih =>
    have hbit : ((ofBytes b).drop pos)[n]? = some (bitAt b (pos + n)) := by
      rw [List.getElem?_drop, getElem?_ofBytes (by omega)]
    rw [List.take_add_one, hbit, Option.toList_some, toNat_concat, ih (by omega), numberAt]

end Bits

/-! ## The same bits elsewhere -/

theorem numberAt_congr (h : ∀ i, pos ≤ i → i < pos + n → bitAt b i = bitAt d i) :
    numberAt b pos n = numberAt d pos n := by
  induction n with
  | zero => rfl
  | succ n ih =>
    rw [numberAt, numberAt, h _ (by omega) (by omega), ih]
    intro i hle hlt
    exact h i hle (by omega)

/-- A bit depends on the byte that it is in only. -/
theorem bitAt_congr (h : b[i / 8]? = d[i / 8]?) : bitAt b i = bitAt d i := by
  rw [bitAt, bitAt, List.getD_eq_getElem?_getD, List.getD_eq_getElem?_getD, h]

theorem bitAt_take {k : Nat} (hi : i < 8 * k) : bitAt (b.take k) i = bitAt b i :=
  bitAt_congr (List.getElem?_take_of_lt (by omega))

theorem numberAt_lt (b : Bytes) (pos n : Nat) : numberAt b pos n < 2 ^ n := by
  induction n with
  | zero => simp [numberAt]
  | succ n ih =>
    rw [numberAt, Nat.pow_succ]
    cases bitAt b (pos + n) <;> simp <;> omega

/-! ## What is read at a place -/

namespace BitDecoder

theorem take_cursorAt (h : pos + n ≤ 8 * b.length) :
    take n (cursorAt b pos) = .ok (((Bits.ofBytes b).drop pos).take n) (cursorAt b (pos + n)) := by
  have hlen : n ≤ ((Bits.ofBytes b).drop pos).length := by
    rw [List.length_drop, Bits.length_ofBytes]
    omega
  have hsplit : split? n ((Bits.ofBytes b).drop pos) =
      some (((Bits.ofBytes b).drop pos).take n, (Bits.ofBytes b).drop (pos + n)) := by
    rw [split?_eq_some_iff, ← List.drop_drop, List.take_append_drop]
    exact ⟨rfl, List.length_take_of_le hlen⟩
  simp only [take, cursorAt, hsplit]

theorem take_cursorAt_short (hpos : pos ≤ 8 * b.length) (h : 8 * b.length < pos + n) :
    take n (cursorAt b pos) = .error ⟨n, 8 * b.length - pos⟩ (cursorAt b pos) := by
  have hlen : ((Bits.ofBytes b).drop pos).length = 8 * b.length - pos := by
    rw [List.length_drop, Bits.length_ofBytes]
  have hnone : split? n ((Bits.ofBytes b).drop pos) = none := by
    rw [split?_eq_none_iff, hlen]
    omega
  simp only [take, cursorAt, hnone, hlen]

theorem field_cursorAt (h : pos + n ≤ 8 * b.length) :
    field n (cursorAt b pos) = .ok (numberAt b pos n) (cursorAt b (pos + n)) := by
  rw [← Bits.toNat_take_drop h]
  exact map_of_ok (take_cursorAt h) Bits.toNat

theorem skip_cursorAt (h : pos + n ≤ 8 * b.length) :
    skip n (cursorAt b pos) = .ok () (cursorAt b (pos + n)) :=
  Decoder.bind_eq_ok.2 ⟨_, _, take_cursorAt h, rfl⟩

theorem flag_cursorAt (h : pos < 8 * b.length) :
    flag (cursorAt b pos) = .ok (bitAt b pos) (cursorAt b (pos + 1)) := by
  have hrest : (Bits.ofBytes b).drop pos = bitAt b pos :: (Bits.ofBytes b).drop (pos + 1) := by
    have hlt : pos < (Bits.ofBytes b).length := by rwa [Bits.length_ofBytes]
    have hbit := Bits.getElem?_ofBytes h
    rw [List.getElem?_eq_getElem hlt, Option.some.injEq] at hbit
    rw [List.drop_eq_getElem_cons hlt, hbit]
  simp only [flag, cursorAt, hrest]

theorem flag_cursorAt_short : flag (cursorAt b (8 * b.length)) =
    .error ⟨1, 0⟩ (cursorAt b (8 * b.length)) := by
  have hrest : (Bits.ofBytes b).drop (8 * b.length) = [] := by
    exact List.drop_eq_nil_iff.2 (Nat.le_of_eq Bits.length_ofBytes)
  simp only [flag, cursorAt, hrest]

end BitDecoder

end RealMedia
