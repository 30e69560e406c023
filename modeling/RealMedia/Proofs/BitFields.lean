import Mathlib.Algebra.GroupWithZero.Nat
import RealMedia.Bits.Writer
import RealMedia.Proofs.BitPlaces

/-!
Bit fields that are written and read. What has been put into a writer is read back field by field;
any reading of a byte string goes by the places of its bits, and what is refused moves nothing.
-/

namespace RealMedia

variable {b c : Bytes} {n m v w pos : Nat}

/-! ## Bits of numbers and of bytes -/

namespace Bits

theorem ofNat_congr (h : ∀ i < n, v.testBit i = w.testBit i) : ofNat n v = ofNat n w := by
  induction n with
  | zero => rfl
  | succ n ih => rw [ofNat, ofNat, h n (Nat.lt_succ_self n), ih fun i hi => h i (by omega)]

/-- The bits of a number are its high ones with its low ones behind them. -/
theorem ofNat_add (m n v : Nat) : ofNat (m + n) v = ofNat m (v >>> n) ++ ofNat n v := by
  induction m with
  | zero => rw [Nat.zero_add, ofNat, List.nil_append]
  | succ m ih =>
    rw [Nat.add_right_comm, ofNat, ofNat, ih, Nat.testBit_shiftRight, Nat.add_comm n m]
    rfl

theorem ofNat_zero (n : Nat) : ofNat n 0 = List.replicate n false := by
  induction n with
  | zero => rfl
  | succ n ih => rw [ofNat, ih, Nat.zero_testBit, List.replicate_succ]

theorem ofByte_injective : Function.Injective ofByte := by
  intro x y h
  have hx := x.toNat_lt
  have hy := y.toNat_lt
  have hsame : x.toNat % 2 ^ 8 = y.toNat % 2 ^ 8 := by
    rw [← toNat_ofNat, ← toNat_ofNat]
    exact congrArg toNat h
  exact UInt8.toNat_inj.1 (by omega)

theorem ofBytes_injective : Function.Injective ofBytes := by
  intro b c h
  induction b generalizing c with
  | nil =>
    have hlen : 0 = (ofBytes c).length := congrArg List.length h
    rw [length_ofBytes] at hlen
    exact (List.eq_nil_of_length_eq_zero (by omega)).symm
  | cons x b ih =>
    cases c with
    | nil => cases h
    | cons y c =>
      rw [ofBytes_cons, ofBytes_cons] at h
      obtain ⟨hfirst, hrest⟩ := List.append_inj h (by rw [length_ofByte, length_ofByte])
      rw [ofByte_injective hfirst, ih hrest]

/-- Only one byte string has given bits, with fewer than eight zero bits behind them. -/
theorem eq_toBytes {bs : Bits} {k : Nat} (hk : k < 8)
    (hb : ofBytes b = bs ++ List.replicate k false) : b = toBytes bs := by
  obtain ⟨j, hj, hbytes⟩ := ofBytes_toBytes bs
  have hlong := congrArg List.length hb
  have hbyteslong := congrArg List.length hbytes
  rw [length_ofBytes, List.length_append, List.length_replicate] at hlong hbyteslong
  have hpad : k = j := by omega
  apply ofBytes_injective
  rw [hb, hbytes, hpad]

end Bits

@[simp] theorem BitField.bits_ofNat (hn : n ≤ 32) :
    (BitField.ofNat n v hn).bits = Bits.ofNat n v := by
  rw [bits, ofNat, UInt32.toNat_ofNat', Bits.ofNat_mod_pow hn]

/-! ## What a writer holds -/

namespace BitWriter

variable {f : BitWriter} {a : UInt64} {x : UInt32}

/-- The bits that have been written. -/
def bits (f : BitWriter) : Bits := Bits.ofBytes f.full ++ Bits.ofNat f.count f.acc.toNat

theorem toNat_ofNat_shift (hn : n < 64) : (UInt64.ofNat n).toNat % 64 = n := by
  rw [UInt64.toNat_ofNat']
  omega

theorem ofByte_shiftRight (a : UInt64) (hn : n < 64) :
    Bits.ofByte (a >>> .ofNat n).toUInt8 = Bits.ofNat 8 (a.toNat >>> n) := by
  rw [Bits.ofByte, UInt64.toNat_toUInt8, Bits.ofNat_mod_pow (Nat.le_refl 8),
    UInt64.toNat_shiftRight, toNat_ofNat_shift hn]

/-- The whole bytes and the bits behind them are all the bits of the accumulator. -/
theorem ofBytes_wholeBytes (a : UInt64) (hn : n ≤ 64) :
    Bits.ofBytes (wholeBytes a n) ++ Bits.ofNat (n % 8) a.toNat = Bits.ofNat n a.toNat := by
  fun_induction wholeBytes a n with
  | case1 n hlong ih =>
    have hleft : n % 8 = (n - 8) % 8 := by omega
    have hbits : n = 8 + (n - 8) := by omega
    rw [Bits.ofBytes_cons, ofByte_shiftRight a (by omega), List.append_assoc, hleft,
      ih (by omega), ← Bits.ofNat_add, ← hbits]
  | case2 n hshort =>
    rw [Nat.mod_eq_of_lt (by omega)]
    rfl

/-- The bits of a field move the bits before them up. -/
theorem testBit_shift_or (hn : n ≤ 32) (i : Nat) (hi : i < 64) :
    (a <<< .ofNat n ||| (x &&& .ofNat (Bits.mask n)).toUInt64).toNat.testBit i =
      if i < n then x.toNat.testBit i else a.toNat.testBit (i - n) := by
  have hmask : (UInt32.ofNat (Bits.mask n)).toNat = 2 ^ n - 1 := by
    have hpow : 2 ^ n ≤ 2 ^ 32 := Nat.pow_le_pow_right (by decide) hn
    rw [UInt32.toNat_ofNat', Bits.mask, Nat.one_shiftLeft, Nat.mod_eq_of_lt]
    have := Nat.two_pow_pos n
    omega
  rw [UInt64.toNat_or, Nat.testBit_or, UInt64.toNat_shiftLeft, toNat_ofNat_shift (by omega),
    Nat.testBit_mod_two_pow, Nat.testBit_shiftLeft, UInt32.toNat_toUInt64, UInt32.toNat_and, hmask,
    Nat.and_two_pow_sub_one_eq_mod, Nat.testBit_mod_two_pow]
  by_cases hlow : i < n
  · simp [hlow, Nat.not_le.2 hlow]
  · simp [hlow, Nat.not_lt.1 hlow, hi]

/-- The mask that is left of the accumulator keeps the bits that are still to be written. -/
theorem ofNat_masked (a : UInt64) (hm : m < 8) :
    Bits.ofNat m (a &&& (1 <<< UInt64.ofNat m - 1)).toNat = Bits.ofNat m a.toNat := by
  have hmask : ∀ m < 8, (1 <<< UInt64.ofNat m - 1 : UInt64).toNat = 2 ^ m - 1 := by decide
  rw [UInt64.toNat_and, hmask m hm, Nat.and_two_pow_sub_one_eq_mod,
    Bits.ofNat_mod_pow (Nat.le_refl m)]

/-- What is put into a writer stands behind what is in it. -/
theorem bits_put (f : BitWriter) (x : UInt32) (hn : n ≤ 32) :
    (f.put x n).bits = f.bits ++ Bits.ofNat n x.toNat := by
  have hcount := f.count_lt
  have hmod : (f.count + n) % 8 < 8 := Nat.mod_lt _ (by decide)
  simp only [bits, put, Bits.ofBytes_append, List.append_assoc, List.append_cancel_left_eq]
  rw [ofNat_masked _ hmod, ofBytes_wholeBytes _ (by omega), Bits.ofNat_add]
  congr 1
  · refine Bits.ofNat_congr fun i hi => ?_
    rw [Nat.testBit_shiftRight, testBit_shift_or hn _ (by omega), if_neg (by omega),
      Nat.add_sub_cancel_left]
  · refine Bits.ofNat_congr fun i hi => ?_
    rw [testBit_shift_or hn i (by omega), if_pos hi]

theorem bits_putAll (f : BitWriter) (fs : List BitField) :
    (f.putAll fs).bits = f.bits ++ fs.flatMap BitField.bits := by
  induction fs generalizing f with
  | nil => rw [putAll, List.foldl_nil, List.flatMap_nil, List.append_nil]
  | cons x fs ih =>
    change ((f.put x.value x.width).putAll fs).bits = _
    rw [ih, bits_put f x.value x.width_le, List.append_assoc, List.flatMap_cons, BitField.bits]

theorem ofBytes_bytes (f : BitWriter) :
    ∃ k < 8, Bits.ofBytes f.bytes = f.bits ++ List.replicate k false := by
  have hcount := f.count_lt
  rw [bytes]
  split
  · -- The zero bits complete the last byte, so none are left in the accumulator.
    have hput := bits_put f 0 (n := 8 - f.count) (by omega)
    have hnone : (f.put 0 (8 - f.count)).count = 0 := by
      simp only [put]
      omega
    rw [bits, hnone, Bits.ofNat, List.append_nil, UInt32.toNat_zero, Bits.ofNat_zero] at hput
    exact ⟨8 - f.count, by omega, hput⟩
  · have hnone : f.count = 0 := by omega
    refine ⟨0, by decide, ?_⟩
    rw [bits, hnone, Bits.ofNat, List.replicate_zero, List.append_nil, List.append_nil]

/-- The accumulator makes the same bytes as their bits all at once. -/
theorem bytes_eq (f : BitWriter) : f.bytes = Bits.toBytes f.bits := by
  obtain ⟨k, hk, hbytes⟩ := f.ofBytes_bytes
  exact Bits.eq_toBytes hk hbytes

theorem bytes_putAll (fs : List BitField) :
    (putAll {} fs).bytes = Bits.toBytes (fs.flatMap BitField.bits) := by
  rw [bytes_eq, bits_putAll]
  rfl

end BitWriter

/-! ## Reading -/

/-- A call that reads bits. -/
inductive BitRequest
  | field (n : Nat)
  | flag
  | skip (n : Nat)

/-- What a reading gives. -/
inductive BitAnswer
  | number (v : Nat)
  | truth (b : Bool)
  | nothing

namespace BitRequest

open BitDecoder

/-- How many bits are asked for. -/
def wanted : BitRequest → Nat
  | field n | skip n => n
  | flag => 1

def decoder : BitRequest → BitDecoder BitAnswer
  | field n => .number <$> BitDecoder.field n
  | flag => .truth <$> BitDecoder.flag
  | skip n => (fun _ => .nothing) <$> BitDecoder.skip n

/-- What the bits of a byte string from a place on tell. -/
def answerAt (b : Bytes) (pos : Nat) : BitRequest → BitAnswer
  | field n => .number (numberAt b pos n)
  | flag => .truth (bitAt b pos)
  | skip _ => .nothing

/-- A call takes the bits from its place on if there are enough of them. -/
theorem decoder_of_enough (r : BitRequest) (h : pos + r.wanted ≤ 8 * b.length) :
    r.decoder (cursorAt b pos) = .ok (r.answerAt b pos) (cursorAt b (pos + r.wanted)) := by
  cases r with
  | field n => exact map_of_ok (field_cursorAt h) _
  | flag => exact map_of_ok (flag_cursorAt h) _
  | skip n => exact map_of_ok (skip_cursorAt h) _

/-- Else it takes none, and tells how many there are. -/
theorem decoder_of_short (r : BitRequest) (hpos : pos ≤ 8 * b.length)
    (h : 8 * b.length < pos + r.wanted) :
    r.decoder (cursorAt b pos) = .error ⟨r.wanted, 8 * b.length - pos⟩ (cursorAt b pos) := by
  cases r with
  | field n => exact map_of_error (map_of_error (take_cursorAt_short hpos h) _) _
  | flag =>
    obtain rfl : pos = 8 * b.length := Nat.le_antisymm hpos (Nat.le_of_lt_succ h)
    rw [Nat.sub_self]
    exact map_of_error flag_cursorAt_short _
  | skip n => exact map_of_error (bind_of_error (take_cursorAt_short hpos h)) _

end BitRequest

namespace BitCursor

/-- The answers to calls from a place on, and the place they end at: each call takes the bits at its
place if there are as many, and else it is refused and the place stays. -/
inductive Reads (b : Bytes) :
    Nat → List BitRequest → List (Except OutOfData BitAnswer) → Nat → Prop
  | done {pos : Nat} : Reads b pos [] [] pos
  | taken {pos stop : Nat} {r : BitRequest} {rs : List BitRequest}
    {more : List (Except OutOfData BitAnswer)} (enough : r.wanted ≤ 8 * b.length - pos)
    (rest : Reads b (pos + r.wanted) rs more stop) :
    Reads b pos (r :: rs) (.ok (r.answerAt b pos) :: more) stop
  | refused {pos stop : Nat} {r : BitRequest} {rs : List BitRequest}
    {more : List (Except OutOfData BitAnswer)} (short : 8 * b.length - pos < r.wanted)
    (rest : Reads b pos rs more stop) :
    Reads b pos (r :: rs) (.error ⟨r.wanted, 8 * b.length - pos⟩ :: more) stop

/-- A call, and the cursor that it leaves whether it succeeds or not. -/
def serve (c : BitCursor) (r : BitRequest) : BitCursor × Except OutOfData BitAnswer :=
  match r.decoder c with
  | .ok a d => (d, .ok a)
  | .error e d => (d, .error e)

def serveAll (c : BitCursor) : List BitRequest → BitCursor × List (Except OutOfData BitAnswer)
  | [] => (c, [])
  | r :: rs =>
    let (d, a) := c.serve r
    let (e, more) := d.serveAll rs
    (e, a :: more)

theorem serve_of_enough (r : BitRequest) (hpos : pos ≤ 8 * b.length)
    (h : r.wanted ≤ 8 * b.length - pos) :
    (cursorAt b pos).serve r = (cursorAt b (pos + r.wanted), .ok (r.answerAt b pos)) := by
  rw [serve, r.decoder_of_enough (by omega)]

theorem serve_of_short (r : BitRequest) (hpos : pos ≤ 8 * b.length)
    (h : 8 * b.length - pos < r.wanted) :
    (cursorAt b pos).serve r = (cursorAt b pos, .error ⟨r.wanted, 8 * b.length - pos⟩) := by
  rw [serve, r.decoder_of_short hpos (by omega)]

/-- Any calls go by the places of the bits, and leave the cursor at a place of the byte string. -/
theorem reads_serveAll (rs : List BitRequest) (hpos : pos ≤ 8 * b.length) :
    ∃ stop ≤ 8 * b.length, ((cursorAt b pos).serveAll rs).1 = cursorAt b stop ∧
      Reads b pos rs ((cursorAt b pos).serveAll rs).2 stop := by
  induction rs generalizing pos with
  | nil => exact ⟨pos, hpos, rfl, .done⟩
  | cons r rs ih =>
    rw [serveAll]
    by_cases h : r.wanted ≤ 8 * b.length - pos
    · have hnext : pos + r.wanted ≤ 8 * b.length := by omega
      obtain ⟨stop, hstop, hcursor, hreads⟩ := ih hnext
      rw [serve_of_enough r hpos h]
      exact ⟨stop, hstop, hcursor, .taken h hreads⟩
    · obtain ⟨stop, hstop, hcursor, hreads⟩ := ih hpos
      rw [serve_of_short r hpos (by omega)]
      exact ⟨stop, hstop, hcursor, .refused (by omega) hreads⟩

/-- Fields are read one behind the other. -/
theorem serveAll_fields (fs : List BitField) (pos : Nat) (rest : Bits) :
    serveAll ⟨pos, fs.flatMap BitField.bits ++ rest⟩ (fs.map fun f => .field f.width) =
      (⟨pos + (fs.map (·.width)).sum, rest⟩,
        fs.map fun f => .ok (.number (f.value.toNat % 2 ^ f.width))) := by
  induction fs generalizing pos with
  | nil => rfl
  | cons f fs ih =>
    have hserve : serve ⟨pos, f.bits ++ (fs.flatMap BitField.bits ++ rest)⟩ (.field f.width) =
        (⟨pos + f.width, fs.flatMap BitField.bits ++ rest⟩,
          .ok (.number (f.value.toNat % 2 ^ f.width))) := by
      have hfield := BitDecoder.yields_field f.width f.value.toNat pos
        (fs.flatMap BitField.bits ++ rest)
      rw [Bits.length_ofNat] at hfield
      have hdecoder : BitRequest.decoder (.field f.width) _ = _ :=
        BitDecoder.map_of_ok hfield BitAnswer.number
      rw [serve, BitField.bits, hdecoder]
    rw [List.flatMap_cons, List.append_assoc, List.map_cons, serveAll, hserve]
    simp only [ih, List.map_cons, List.sum_cons, Nat.add_assoc]

/-- What a writer makes of fields is read back as their values reduced to their widths, and fewer
than eight zero bits are left; it is the bits of the fields as bytes. More generally, all calls on
any byte string go by the places of its bits, and end at one of them. -/
theorem fields_read_back :
    (∀ fs : List BitField,
      let b := (BitWriter.putAll {} fs).bytes
      b = Bits.toBytes (fs.flatMap BitField.bits) ∧
        ∃ k < 8, serveAll ⟨0, Bits.ofBytes b⟩ (fs.map fun f => .field f.width) =
          (⟨(fs.map (·.width)).sum, List.replicate k false⟩,
            fs.map fun f => .ok (.number (f.value.toNat % 2 ^ f.width)))) ∧
    ∀ (b : Bytes) (rs : List BitRequest), ∃ stop ≤ 8 * b.length,
      (serveAll ⟨0, Bits.ofBytes b⟩ rs).1 = cursorAt b stop ∧
        Reads b 0 rs (serveAll ⟨0, Bits.ofBytes b⟩ rs).2 stop := by
  refine ⟨?_, ?_⟩
  · intro fs
    obtain ⟨k, hk, hbytes⟩ := (BitWriter.putAll {} fs).ofBytes_bytes
    refine ⟨BitWriter.bytes_putAll fs, k, hk, ?_⟩
    rw [hbytes, BitWriter.bits_putAll]
    have hread := serveAll_fields fs 0 (List.replicate k false)
    rwa [Nat.zero_add] at hread
  · intro b rs
    exact reads_serveAll (b := b) rs (Nat.zero_le _)

/-- Three bits and then 32, across five bytes. -/
example : (BitWriter.putAll {} [⟨0xfd, 3, by decide⟩, ⟨0x80000001, 32, by decide⟩]).bytes =
    [0xb0, 0x00, 0x00, 0x00, 0x20] := by
  decide +kernel

/-- A read that asks for too much leaves its bits to the next one. -/
example : serveAll ⟨0, Bits.ofBytes [0xa5]⟩ [.field 4, .field 5, .field 4, .skip 1] =
    (⟨8, []⟩, [.ok (.number 0xa), .error ⟨5, 4⟩, .ok (.number 0x5), .error ⟨1, 0⟩]) := rfl

end BitCursor

end RealMedia
