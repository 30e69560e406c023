import Mathlib.Algebra.Group.Nat.Defs
import RealMedia.Bits.Basic

/-! Bit strings as numbers and as bytes. -/

namespace RealMedia.Bits

variable {i n v : Nat} {bs cs : Bits}

theorem foldl_toNat (v : Nat) :
    bs.foldl (fun v b => 2 * v + b.toNat) v = v * 2 ^ bs.length + toNat bs := by
  induction bs generalizing v with
  | nil => simp [toNat]
  | cons b bs ih =>
    simp only [toNat, List.foldl_cons, List.length_cons] at *
    rw [ih, ih (2 * 0 + b.toNat), Nat.pow_succ]
    grind

theorem toNat_cons (b : Bool) : toNat (b :: bs) = b.toNat * 2 ^ bs.length + toNat bs := by
  rw [toNat, List.foldl_cons, foldl_toNat, Nat.mul_zero, Nat.zero_add]

theorem toNat_append : toNat (bs ++ cs) = toNat bs * 2 ^ cs.length + toNat cs := by
  rw [toNat, List.foldl_append, foldl_toNat, ← toNat]

theorem toNat_concat (b : Bool) : toNat (bs ++ [b]) = 2 * toNat bs + b.toNat := by
  rw [toNat, List.foldl_append, ← toNat]
  rfl

theorem toNat_lt : toNat bs < 2 ^ bs.length := by
  induction bs with
  | nil => simp [toNat]
  | cons b bs ih =>
    rw [toNat_cons, List.length_cons, Nat.pow_succ]
    cases b <;> simp <;> omega

/-- A field keeps its value reduced to its width. -/
theorem toNat_ofNat : toNat (ofNat n v) = v % 2 ^ n := by
  induction n with
  | zero => simp [toNat, ofNat, Nat.mod_one]
  | succ n ih =>
    rw [ofNat, toNat_cons, ih, length_ofNat, Nat.mod_pow_succ, Nat.testBit_eq_decide_div_mod_eq]
    rcases Nat.mod_two_eq_zero_or_one (v / 2 ^ n) with h | h
    · simp [h]
    · simp [h]
      omega

theorem ofNat_mod_pow {w v : Nat} (hn : n ≤ w) : ofNat n (v % 2 ^ w) = ofNat n v := by
  induction n with
  | zero => rfl
  | succ n ih =>
    have hlt : n < w := hn
    rw [ofNat, ofNat, ih (Nat.le_of_lt hlt), Nat.testBit_mod_two_pow, decide_eq_true hlt,
      Bool.true_and]

theorem ofNat_toNat (bs : Bits) : ofNat bs.length (toNat bs) = bs := by
  induction bs with
  | nil => rfl
  | cons b bs ih =>
    have hlt : toNat bs < 2 ^ bs.length := toNat_lt
    have hlow : toNat (b :: bs) % 2 ^ bs.length = toNat bs := by
      rw [toNat_cons, Nat.mul_add_mod_self_right, Nat.mod_eq_of_lt hlt]
    have hhigh : (toNat (b :: bs)).testBit bs.length = b := by
      rw [toNat_cons, Nat.mul_comm, Nat.testBit_two_pow_mul_add _ hlt, if_neg (Nat.lt_irrefl _)]
      cases b <;> simp
    rw [List.length_cons, ofNat, hhigh, ← ofNat_mod_pow (Nat.le_refl _), hlow, ih]

theorem ofNat_xor (n v w : Nat) :
    ofNat n (v ^^^ w) = List.zipWith (· ^^ ·) (ofNat n v) (ofNat n w) := by
  induction n with
  | zero => rfl
  | succ n ih => rw [ofNat, ofNat, ofNat, ih, Nat.testBit_xor, List.zipWith_cons_cons]

theorem ofNat_double (n v : Nat) : ofNat (n + 1) (2 * v) = ofNat n v ++ [false] := by
  induction n with
  | zero => simp [ofNat, Nat.testBit_zero]
  | succ n ih =>
    have hbit : (2 * v).testBit (n + 1) = v.testBit n := by
      rw [Nat.testBit_succ, Nat.mul_div_cancel_left v (by omega)]
    rw [ofNat, ih, hbit]
    rfl

theorem toNat_eq_zero_iff : toNat bs = 0 ↔ true ∉ bs := by
  induction bs with
  | nil => simp [toNat]
  | cons b bs ih => cases b <;> simp [toNat_cons, ih]

theorem eq_zeros_iff : bs = List.replicate bs.length false ↔ true ∉ bs := by
  constructor
  · intro h
    rw [h]
    simp
  · intro h
    refine List.eq_replicate_iff.2 ⟨rfl, ?_⟩
    intro b hb
    cases b with
    | false => rfl
    | true => exact absurd hb h

/-- The bits that are set in a sum are those in which its parts differ. -/
theorem getElem?_xor (h : bs.length = cs.length) :
    (List.zipWith (· ^^ ·) bs cs)[i]? = some true ↔ bs[i]? ≠ cs[i]? := by
  rw [List.getElem?_zipWith]
  by_cases hi : i < bs.length
  · rw [List.getElem?_eq_getElem hi, List.getElem?_eq_getElem (h ▸ hi)]
    simp
  · rw [List.getElem?_eq_none (by omega), List.getElem?_eq_none (by omega)]
    simp

theorem ofBytes_cons (x : UInt8) (b : Bytes) : ofBytes (x :: b) = ofByte x ++ ofBytes b :=
  List.flatMap_cons

theorem ofBytes_take (b : Bytes) (n : Nat) : ofBytes (b.take n) = (ofBytes b).take (8 * n) := by
  induction b generalizing n with
  | nil => simp [ofBytes]
  | cons x b ih =>
    cases n with
    | zero => rfl
    | succ n =>
      have hlen : 8 * (n + 1) = (ofByte x).length + 8 * n := by
        rw [length_ofByte]
        omega
      rw [List.take_succ_cons, ofBytes_cons, ofBytes_cons, hlen, List.take_length_add_append, ih]

theorem ofBytes_drop (b : Bytes) (n : Nat) : ofBytes (b.drop n) = (ofBytes b).drop (8 * n) := by
  induction b generalizing n with
  | nil => simp [ofBytes]
  | cons x b ih =>
    cases n with
    | zero => rfl
    | succ n =>
      have hlen : 8 * (n + 1) = (ofByte x).length + 8 * n := by
        rw [length_ofByte]
        omega
      rw [List.drop_succ_cons, ofBytes_cons, hlen, List.drop_length_add_append, ih]

theorem ofByte_toNat (hb : bs.length = 8) : ofByte (.ofNat (toNat bs)) = bs := by
  have hlt : toNat bs < 2 ^ bs.length := toNat_lt
  rw [ofByte, UInt8.toNat_ofNat', ← hb, Nat.mod_eq_of_lt hlt, ofNat_toNat]

/-- Bits that no byte can be taken of are fewer than eight. -/
theorem length_lt_eight
    (h : ∀ b₀ b₁ b₂ b₃ b₄ b₅ b₆ b₇ cs, bs ≠ b₀ :: b₁ :: b₂ :: b₃ :: b₄ :: b₅ :: b₆ :: b₇ :: cs) :
    bs.length < 8 := by
  rcases bs with _ | ⟨b₀, _ | ⟨b₁, _ | ⟨b₂, _ | ⟨b₃, _ | ⟨b₄, _ | ⟨b₅, _ | ⟨b₆,
    _ | ⟨b₇, cs⟩⟩⟩⟩⟩⟩⟩⟩
  iterate 8 simp
  exact absurd rfl (h _ _ _ _ _ _ _ _ _)

/-- As bytes, bits have zero bits behind them that fill the last byte. -/
theorem ofBytes_toBytes (bs : Bits) :
    ∃ n < 8, ofBytes (toBytes bs) = bs ++ List.replicate n false := by
  fun_induction toBytes bs with
  | case1 b₀ b₁ b₂ b₃ b₄ b₅ b₆ b₇ bs ih =>
    obtain ⟨n, hn, hrest⟩ := ih
    refine ⟨n, hn, ?_⟩
    rw [ofBytes_cons, hrest, ofByte_toNat rfl]
    rfl
  | case2 => exact ⟨0, by omega, rfl⟩
  | case3 bs hshort hne =>
    have hlen : bs.length < 8 := length_lt_eight hshort
    have hpos : bs.length ≠ 0 := by
      intro h
      exact hne (List.eq_nil_of_length_eq_zero h)
    refine ⟨8 - bs.length, by omega, ?_⟩
    rw [ofBytes, List.flatMap_singleton, ofByte_toNat]
    rw [List.length_append, List.length_replicate]
    omega

end RealMedia.Bits
