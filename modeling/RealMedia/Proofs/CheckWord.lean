import RealMedia.Proofs.Ac3Frames
import RealMedia.Proofs.Remainders

/-!
The check word that is written into a frame. It stands in front of what it protects; among all words
that may stand there, it is the only one that matches.
-/

namespace RealMedia.Ac3

variable {b r : Bytes} {h : FrameHeader} {n : Nat} {w v : UInt16} {i : Nat}

/-- A byte string with a word in the place of the check word. -/
def stamp (b : Bytes) (w : UInt16) : Bytes := b.take 2 ++ bytes16 w ++ b.drop 4

/-- What stands in a buffer after the attempt to store its check word. -/
def stored (b : Bytes) : Bytes := ((writeCrc? b).map (·.2)).getD b

/-- The word that is stored in a frame of `n` bytes. -/
def checkWord (b : Bytes) (n : Nat) : UInt16 :=
  unshift^[8 * (crcSpan n - 2)] (crc (zeros 2 ++ (b.take (crcSpan n)).drop 4))

/-! ## Headers with another check word -/

theorem stamp_cons (p q s t : UInt8) (r : Bytes) (w : UInt16) :
    stamp (p :: q :: s :: t :: r) w = p :: q :: (bytes16 w ++ r) := rfl

theorem exists_four (hb : 4 ≤ b.length) : ∃ p q s t r, b = p :: q :: s :: t :: r := by
  match b, hb with
  | p :: q :: s :: t :: r, _ => exact ⟨p, q, s, t, r, rfl⟩

theorem length_stamp (hb : 4 ≤ b.length) : (stamp b w).length = b.length := by
  simp only [stamp, List.length_append, List.length_take, List.length_drop, length_bytes16]
  omega

theorem getElem?_stamp (hb : 4 ≤ b.length) (h₂ : i ≠ 2) (h₃ : i ≠ 3) : (stamp b w)[i]? = b[i]? := by
  obtain ⟨p, q, s, t, r, rfl⟩ := exists_four hb
  rw [stamp_cons]
  match i with
  | 0 | 1 | _ + 4 => rfl
  | 2 => exact absurd rfl h₂
  | 3 => exact absurd rfl h₃

theorem stamp_stamp (hb : 4 ≤ b.length) : stamp (stamp b v) w = stamp b w := by
  obtain ⟨p, q, s, t, r, rfl⟩ := exists_four hb
  rfl

theorem parse?_stamp (hb : headerSize ≤ b.length) :
    FrameHeader.parse? (stamp b w) = FrameHeader.parse? b := by
  have hfour : 4 ≤ b.length := Nat.le_trans (by decide) hb
  refine FrameHeader.parse?_congr (by rw [length_stamp hfour]) ?_
  intro i hi _
  exact bitAt_congr (getElem?_stamp hfour (by omega) (by omega))

/-! ## The only word that matches -/

theorem remainder_bytes16 (w : UInt16) : remainder (Bits.ofBytes (bytes16 w)) = w := by
  have hw := w.toNat_lt
  rw [remainder_short (by simp)]
  apply UInt16.toNat_inj.1
  simp [bytes16, Bits.ofBytes, Bits.toNat_append, Bits.ofByte, Bits.toNat_ofNat]
  omega

/-- A word in front of bytes matches if it is their check word, divided by x as often as there are
bits. -/
theorem crc_word_iff (w : UInt16) (r : Bytes) :
    crc (bytes16 w ++ r) = 0 ↔ w = unshift^[8 * r.length + 16] (crc (zeros 2 ++ r)) := by
  have hzeros : remainder (Bits.ofBytes (zeros 2 ++ r)) = remainder (Bits.ofBytes r) := by
    have h : remainder (Bits.ofBytes (zeros 2)) = 0 := remainder_zeros 16
    rw [Bits.ofBytes_append, remainder_append, h, iterate_shift_zero, UInt16.zero_xor]
  have hsum : remainder (Bits.ofBytes (bytes16 w ++ r)) =
      shift^[8 * r.length] w ^^^ remainder (Bits.ofBytes r) := by
    rw [Bits.ofBytes_append, remainder_append, remainder_bytes16, Bits.length_ofBytes]
  rw [crc_eq_zero_iff, hsum, UInt16.xor_eq_zero_iff, crc_eq, hzeros, ← iterate_shift_eq_iff,
    Nat.add_comm, Function.iterate_add_apply]
  exact ((Function.LeftInverse.injective unshift_shift).iterate 16).eq_iff.symm

theorem crcMatches_stamp_iff (hspan : 4 < crcSpan n) (hb : crcSpan n ≤ b.length) :
    crcMatches (stamp b w) n = true ↔ w = checkWord b n := by
  have hlong : crcSpan n ≤ (stamp b w).length := by
    rw [length_stamp (by omega)]
    exact hb
  have hregion : ((stamp b w).take (crcSpan n)).drop 2 =
      bytes16 w ++ (b.take (crcSpan n)).drop 4 := by
    obtain ⟨k, hk⟩ := Nat.exists_eq_add_of_lt hspan
    obtain ⟨p, q, s, t, r, rfl⟩ := exists_four (b := b) (by omega)
    rw [hk, Nat.add_assoc, Nat.add_comm, stamp_cons]
    rfl
  have hcount : 8 * ((b.take (crcSpan n)).drop 4).length + 16 = 8 * (crcSpan n - 2) := by
    rw [List.length_drop, List.length_take]
    omega
  have hmatch := crc_word_iff w ((b.take (crcSpan n)).drop 4)
  rw [hcount, ← hregion] at hmatch
  exact ⟨fun h => hmatch.1 (crcMatches_iff.1 h).2.2,
    fun h => crcMatches_iff.2 ⟨hspan, hlong, hmatch.2 h⟩⟩

/-- No frame is so short that its check word protects nothing. -/
theorem crcSpan_of_parse? (hp : FrameHeader.parse? b = some h) : 4 < crcSpan h.bytes :=
  (crcSpan_bounds (bounds_of_parse? hp).2.1).1

theorem repeat_eq_iterate (f : UInt16 → UInt16) (n : Nat) (r : UInt16) :
    Nat.repeat f n r = f^[n] r := by
  induction n with
  | zero => rfl
  | succ n ih => rw [Function.iterate_succ_apply', ← ih]; rfl

theorem writeCrc?_of_invalid (hp : FrameHeader.parse? b = none) : writeCrc? b = none := by
  rw [writeCrc?, hp]
  rfl

theorem writeCrc?_of_short (hp : FrameHeader.parse? b = some h) (hb : b.length < crcSpan h.bytes) :
    writeCrc? b = none := by
  simpa [writeCrc?, hp] using hb

theorem writeCrc?_of_whole (hp : FrameHeader.parse? b = some h) (hb : crcSpan h.bytes ≤ b.length) :
    writeCrc? b = some (checkWord b h.bytes, stamp b (checkWord b h.bytes)) := by
  simp [writeCrc?, hp, hb, repeat_eq_iterate, checkWord, stamp]

theorem writeCrc?_eq_none_iff : writeCrc? b = none ↔
    FrameHeader.parse? b = none ∨ ∃ h, FrameHeader.parse? b = some h ∧
      b.length < crcSpan h.bytes := by
  cases hp : FrameHeader.parse? b with
  | none => simp [writeCrc?_of_invalid hp]
  | some h =>
    by_cases hb : b.length < crcSpan h.bytes
    · simp [writeCrc?_of_short hp hb, hb]
    · simp [writeCrc?_of_whole hp (Nat.le_of_not_lt hb), hb]

/-- A word is stored only in a frame that is there up to the end of the protected part. -/
theorem exists_of_stored (hv : (writeCrc? b).map (·.1) = some v) :
    ∃ h, FrameHeader.parse? b = some h ∧ crcSpan h.bytes ≤ b.length ∧ v = checkWord b h.bytes ∧
      stored b = stamp b v := by
  cases hp : FrameHeader.parse? b with
  | none =>
    rw [writeCrc?_of_invalid hp] at hv
    cases hv
  | some h =>
    by_cases hb : b.length < crcSpan h.bytes
    · rw [writeCrc?_of_short hp hb] at hv
      cases hv
    · have hwhole := Nat.le_of_not_lt hb
      rw [writeCrc?_of_whole hp hwhole] at hv
      cases hv
      refine ⟨h, rfl, hwhole, rfl, ?_⟩
      rw [stored, writeCrc?_of_whole hp hwhole]
      rfl

/-- Where a check word is stored, the buffer holds it most significant byte first and is otherwise
as before, with the same header; the word matches, and no other one would. None is stored exactly if
the header is invalid or the protected part is not all there, and then the buffer is as before. -/
theorem check_word_stored (b : Bytes) :
    (∀ v, (writeCrc? b).map (·.1) = some v → ∃ h, FrameHeader.parse? b = some h ∧
      FrameHeader.parse? (stored b) = some h ∧ crcMatches (stored b) h.bytes = true ∧
      (stored b).length = b.length ∧ (∀ i, i ≠ 2 → i ≠ 3 → (stored b)[i]? = b[i]?) ∧
      ((stored b).drop 2).take 2 = bytes16 v ∧
      ∀ w, w ≠ v → crcMatches (stamp (stored b) w) h.bytes = false) ∧
    (writeCrc? b = none → stored b = b) ∧
    (writeCrc? b = none ↔ FrameHeader.parse? b = none ∨
      ∃ h, FrameHeader.parse? b = some h ∧ b.length < crcSpan h.bytes) := by
  refine ⟨?_, ?_, writeCrc?_eq_none_iff⟩
  · intro v hv
    obtain ⟨h, hp, hwhole, hword, hstored⟩ := exists_of_stored hv
    have hspan := crcSpan_of_parse? hp
    obtain ⟨hlong, -⟩ := decoder_of_parse? hp
    have hfour : 4 ≤ b.length := by omega
    rw [hstored]
    refine ⟨h, hp, ?_, ?_, length_stamp hfour, ?_, ?_, ?_⟩
    · rw [parse?_stamp hlong, hp]
    · exact (crcMatches_stamp_iff hspan hwhole).2 hword
    · intro i h₂ h₃
      exact getElem?_stamp hfour h₂ h₃
    · obtain ⟨p, q, s, t, r, rfl⟩ := exists_four hfour
      rfl
    · intro w hw
      rw [stamp_stamp hfour, ← Bool.not_eq_true, crcMatches_stamp_iff hspan hwhole, ← hword]
      exact hw
  · intro hnone
    rw [stored, hnone]
    rfl

/-- The silent frame, before its check word is known. -/
def unstampedFrame : Bytes := stamp silentFrame 0xffff

theorem check_word_stored_silent :
    (writeCrc? unstampedFrame).map (·.1) = some 0x72a1 ∧
      ∃ h, FrameHeader.parse? unstampedFrame = some h ∧
        FrameHeader.parse? (stored unstampedFrame) = some h ∧
        crcMatches (stored unstampedFrame) h.bytes = true ∧
        (stored unstampedFrame).length = unstampedFrame.length ∧
        (∀ i, i ≠ 2 → i ≠ 3 → (stored unstampedFrame)[i]? = unstampedFrame[i]?) ∧
        ((stored unstampedFrame).drop 2).take 2 = [0x72, 0xa1] ∧
        ∀ w, w ≠ 0x72a1 → crcMatches (stamp (stored unstampedFrame) w) h.bytes = false := by
  obtain ⟨hparsed, hintact, hwhole⟩ := judge_eq_frame judge_silentFrame
  have hfour : 4 ≤ silentFrame.length := by simp [silentFrame]
  have hparse : FrameHeader.parse? unstampedFrame = some silentHeader := by
    rw [unstampedFrame, parse?_stamp (by simp [silentFrame, headerSize]), hparsed]
  have hlong : crcSpan silentHeader.bytes ≤ unstampedFrame.length := by
    rw [unstampedFrame, length_stamp hfour]
    exact Nat.le_trans (crcSpan_le _) hwhole
  have hword : 0x72a1 = checkWord unstampedFrame silentHeader.bytes := by
    refine (crcMatches_stamp_iff (by decide) hlong).1 ?_
    rw [unstampedFrame, stamp_stamp hfour]
    exact hintact
  have hstored : (writeCrc? unstampedFrame).map (·.1) = some 0x72a1 := by
    rw [writeCrc?_of_whole hparse hlong, ← hword]
    rfl
  exact ⟨hstored, (check_word_stored unstampedFrame).1 _ hstored⟩

end RealMedia.Ac3
