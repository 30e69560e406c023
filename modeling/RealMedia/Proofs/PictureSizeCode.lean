import RealMedia.Proofs.BitReading
import RealMedia.RealVideo.PictureSize

/-!
The code of a picture size. A frame that begins with it has the size it was made of, whatever
follows, and no frame that ends inside it has a size.
-/

namespace RealMedia.RealVideo

open BitDecoder

/-! ## Units of four pixels -/

/-- As many bytes of 255 as the count says, and the byte that ends them. -/
structure Extension where
  full : Nat
  last : Fin 255

namespace Extension

variable {n : Nat} {c : Fin 255}

def bits (x : Extension) : Bits :=
  (List.replicate x.full 255 ++ [x.last.val]).flatMap (Bits.ofNat 8)

def value (x : Extension) : Nat := 4 * (255 * x.full + x.last)

theorem bits_zero : bits ⟨0, c⟩ = Bits.ofNat 8 c :=
  List.flatMap_singleton ..

theorem bits_succ : bits ⟨n + 1, c⟩ = Bits.ofNat 8 255 ++ bits ⟨n, c⟩ := by
  rw [bits, List.replicate_succ, List.cons_append, List.flatMap_cons, bits]

end Extension

theorem field_byte (b₀ b₁ b₂ b₃ b₄ b₅ b₆ b₇ : Bool) (pos : Nat) (rest : Bits) :
    field 8 ⟨pos, b₀ :: b₁ :: b₂ :: b₃ :: b₄ :: b₅ :: b₆ :: b₇ :: rest⟩ =
      .ok (Bits.toNat [b₀, b₁, b₂, b₃, b₄, b₅, b₆, b₇]) ⟨pos + 8, rest⟩ :=
  field_append [b₀, b₁, b₂, b₃, b₄, b₅, b₆, b₇] rest pos

/-- One byte at a time. -/
theorem extended_eq :
    extended = (field 8 >>= fun code =>
      if code = 255 then extended >>= fun n => pure ((4 * 255 + n) % 4294967296)
      else pure (4 * code)) := by
  funext ⟨pos, rest⟩
  change extendedFrom pos rest = EStateM.bind (field 8) _ _
  rw [EStateM.bind]
  fun_cases extendedFrom pos rest with
  | case1 b₀ b₁ b₂ b₃ b₄ b₅ b₆ b₇ rest code hcode n c hn =>
    have hext : extended ⟨pos + 8, rest⟩ = .ok n c := hn
    simp only [field_byte]
    rw [if_pos hcode]
    change _ = EStateM.bind extended _ _
    rw [EStateM.bind, hext]
    rfl
  | case2 b₀ b₁ b₂ b₃ b₄ b₅ b₆ b₇ rest code hcode e c he =>
    have hext : extended ⟨pos + 8, rest⟩ = .error e c := he
    simp only [field_byte]
    rw [if_pos hcode]
    change _ = EStateM.bind extended _ _
    rw [EStateM.bind, hext]
  | case3 b₀ b₁ b₂ b₃ b₄ b₅ b₆ b₇ rest code hcode =>
    simp only [field_byte]
    rw [if_neg hcode]
    rfl
  | case4 _ hlong =>
    have hnone : split? 8 rest = none := split?_eq_none_iff.2 (Bits.length_lt_eight hlong)
    have hfield : field 8 ⟨pos, rest⟩ = .error ⟨8, rest.length⟩ ⟨pos, rest⟩ := by
      change EStateM.map Bits.toNat (take 8) ⟨pos, rest⟩ = _
      simp only [EStateM.map, take, hnone]
    rw [hfield]

/-- A byte of 255 goes on, any other one ends the sum. -/
theorem codes_byte {b : Bits} {v a : Nat} (hv : v < 2 ^ 8)
    (hrest : Codes (if v = 255 then extended >>= fun n => pure ((4 * 255 + n) % 4294967296)
      else pure (4 * v)) b a) :
    Codes extended (Bits.ofNat 8 v ++ b) a := by
  rw [extended_eq]
  exact (codes_number hv).bind hrest

theorem codes_extended (x : Extension) : Codes extended x.bits (x.value % 4294967296) := by
  obtain ⟨n, c⟩ := x
  have hc := c.isLt
  induction n with
  | zero =>
    have hvalue : Extension.value ⟨0, c⟩ % 4294967296 = 4 * c := by
      simp only [Extension.value]
      omega
    rw [Extension.bits_zero, ← List.append_nil (Bits.ofNat 8 c), hvalue]
    refine codes_byte (by omega) ?_
    rw [if_neg (by omega)]
    exact codes_pure _
  | succ n ih =>
    have hvalue : Extension.value ⟨n + 1, c⟩ % 4294967296 =
        (4 * 255 + Extension.value ⟨n, c⟩ % 4294967296) % 4294967296 := by
      simp only [Extension.value]
      omega
    rw [Extension.bits_succ, hvalue]
    refine codes_byte (by decide) ?_
    rw [if_pos rfl]
    exact ih.return fun n => (4 * 255 + n) % 4294967296

/-! ## Widths and heights -/

inductive WidthCode where
  | table (i : Fin widths.length)
  | sum (x : Extension)

namespace WidthCode

def bits : WidthCode → Bits
  | table i => Bits.ofNat 3 i
  | sum x => Bits.ofNat 3 7 ++ x.bits

def value : WidthCode → Nat
  | table i => widths[i]
  | sum x => x.value

end WidthCode

/-- The bit behind the codes 6 and 7 tells the heights of the second table and the sum apart. -/
inductive HeightCode where
  | table (i : Fin heights.length)
  | more (i : Fin moreHeights.length)
  | sum (x : Extension)

namespace HeightCode

def bits : HeightCode → Bits
  | table i => Bits.ofNat 3 i
  | more i => Bits.ofNat 3 (6 + i / 2) ++ Bits.ofNat 1 (i % 2)
  | sum x => Bits.ofNat 3 7 ++ (Bits.ofNat 1 1 ++ x.bits)

def value : HeightCode → Nat
  | table i => heights[i]
  | more i => moreHeights[i]
  | sum x => x.value

end HeightCode

theorem mod_of_mem_tables : ∀ n ∈ widths ++ (heights ++ moreHeights), n % 4294967296 = n := by
  decide

theorem codes_width (w : WidthCode) : Codes width w.bits (w.value % 4294967296) := by
  cases w with
  | table i =>
    have hi : i.val < 2 ^ 3 := Nat.lt_trans i.isLt (by decide)
    have hsmall : widths[i] % 4294967296 = widths[i] :=
      mod_of_mem_tables _ (List.mem_append_left _ (List.getElem_mem _))
    rw [WidthCode.bits, WidthCode.value, hsmall, ← List.append_nil (Bits.ofNat 3 i)]
    refine (codes_number hi).bind ?_
    rw [List.getElem?_eq_getElem i.isLt]
    exact codes_pure _
  | sum x => exact (codes_number (by decide)).bind (codes_extended x)

theorem codes_height (h : HeightCode) : Codes height h.bits (h.value % 4294967296) := by
  cases h with
  | table i =>
    have hi : i.val < 2 ^ 3 := Nat.lt_trans i.isLt (by decide)
    have hsmall : heights[i] % 4294967296 = heights[i] :=
      mod_of_mem_tables _ (List.mem_append_right _ (List.mem_append_left _ (List.getElem_mem _)))
    rw [HeightCode.bits, HeightCode.value, hsmall, ← List.append_nil (Bits.ofNat 3 i)]
    refine (codes_number hi).bind ?_
    rw [List.getElem?_eq_getElem i.isLt]
    exact codes_pure _
  | more i =>
    have hsmall : moreHeights[i] % 4294967296 = moreHeights[i] :=
      mod_of_mem_tables _ (List.mem_append_right _ (List.mem_append_right _ (List.getElem_mem _)))
    have hi : i.val < 3 := i.isLt
    have hindex : 2 * (6 + i.val / 2 - 6) + i.val % 2 = i := by omega
    rw [HeightCode.value, hsmall]
    refine (codes_number (by omega)).bind ?_
    rw [List.getElem?_eq_none (by change 6 ≤ _; omega), ← List.append_nil (Bits.ofNat 1 _)]
    refine (codes_number (by omega)).bind ?_
    rw [hindex, List.getElem?_eq_getElem i.isLt]
    exact codes_pure _
  | sum x =>
    exact (codes_number (by decide)).bind ((codes_number (by decide)).bind (codes_extended x))

/-- What a frame begins with: bits that do not tell its size, and the code of the size. -/
structure SizeCode where
  front : Bits
  width : WidthCode
  height : HeightCode
  length_front : front.length = 26

namespace SizeCode

def bits (c : SizeCode) : Bits := c.front ++ (c.width.bits ++ c.height.bits)

def value (c : SizeCode) : Nat × Nat := (c.width.value, c.height.value)

end SizeCode

theorem codes_pictureSize (c : SizeCode) : Codes pictureSize c.bits
    (c.width.value % 4294967296, c.height.value % 4294967296) := by
  have hskip := codes_skip c.front
  rw [c.length_front] at hskip
  exact hskip.bind ((codes_width c.width).bind ((codes_height c.height).return _))

/-- The size is read off its code whatever follows, in 32 bits for each part, and off no part of the
code. -/
theorem size_of_code (c : SizeCode) (rest : Bits) :
    let frame := Bits.toBytes (c.bits ++ rest)
    pictureSize? frame = some (c.width.value % 4294967296, c.height.value % 4294967296) ∧
      (c.width.value < 4294967296 → c.height.value < 4294967296 →
        pictureSize? frame = some c.value) ∧
      ∀ n, 8 * n < c.bits.length → pictureSize? (frame.take n) = none := by
  obtain ⟨k, -, hbits⟩ := Bits.ofBytes_toBytes (c.bits ++ rest)
  rw [List.append_assoc] at hbits
  have hsize := (codes_pictureSize c).decode?_eq hbits
  refine ⟨hsize, ?_, ?_⟩
  · intro hwidth hheight
    rwa [Nat.mod_eq_of_lt hwidth, Nat.mod_eq_of_lt hheight] at hsize
  intro n hn
  have hcut : Bits.ofBytes ((Bits.toBytes (c.bits ++ rest)).take n) = c.bits.take (8 * n) := by
    rw [Bits.ofBytes_take, hbits, List.take_append_of_le_length (Nat.le_of_lt hn)]
  have hleft : c.bits.drop (8 * n) ≠ [] := by
    rw [ne_eq, List.drop_eq_nil_iff]
    omega
  exact (codes_pictureSize c).decode?_short (by rw [hcut, List.take_append_drop]) hleft

/-- Neither of these sizes is in a table. -/
def hd720 : SizeCode where
  front := List.replicate 26 false
  width := .sum ⟨1, 65⟩
  height := .sum ⟨0, 180⟩
  length_front := rfl

/-- Seven bytes have all of its bits but the last one. -/
theorem size_of_code_hd720 :
    pictureSize? (Bits.toBytes (hd720.bits ++ [true])) = some (1280, 720) ∧
      8 * 7 < hd720.bits.length ∧
      pictureSize? ((Bits.toBytes (hd720.bits ++ [true])).take 7) = none := by
  obtain ⟨-, hsize, hshort⟩ := size_of_code hd720 [true]
  exact ⟨hsize (by decide) (by decide), by decide, hshort 7 (by decide)⟩

end RealMedia.RealVideo
