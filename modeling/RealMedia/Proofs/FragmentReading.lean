import RealMedia.Proofs.DecoderForms
import RealMedia.Proofs.FragmentCoding

/-! The fragment headers that are read are those that can be written. -/

namespace RealMedia.RealVideo

open Decoder

/-- A word is its two high bits and a number. -/
theorem PackedField.firstWord_of_parts (w : UInt16) :
    firstWord (w.toNat.testBit 15) (w.toNat.testBit 14) (w.toNat % 16384) = w := by
  have hlt := w.toNat_lt
  apply UInt16.toNat_inj.1
  rw [toNat_firstWord (Nat.mod_lt _ (by omega))]
  simp only [Nat.testBit_eq_decide_div_mod_eq]
  by_cases hflag : w.toNat / 2 ^ 15 % 2 = 1 <;> by_cases hform : w.toNat / 2 ^ 14 % 2 = 1 <;>
    simp only [hflag, hform, decide_true, decide_false, Bool.toNat_true, Bool.toNat_false] <;>
    omega

/-- A byte is its kind and six low bits. -/
theorem FragmentKind.descriptor_ofDescriptor (d : UInt8) :
    (ofDescriptor d).descriptor ⟨d.toNat % 64, Nat.mod_lt _ (by omega)⟩ = d := by
  have hlt := d.toNat_lt
  apply UInt8.toNat_inj.1
  simp only [descriptor, ofDescriptor, UInt8.lt_iff_toNat_lt, UInt8.toNat_ofNat', UInt8.reduceToNat]
  by_cases hmiddle : d.toNat < 64
  · simp only [hmiddle, if_true]
    omega
  by_cases hshort : d.toNat < 128
  · simp only [hmiddle, hshort, if_true, if_false]
    omega
  by_cases htail : d.toNat < 192
  · simp only [hmiddle, hshort, htail, if_true, if_false]
    omega
  · simp only [hmiddle, hshort, htail, if_false]
    omega

namespace FragmentHeader

variable {c e : Cursor} {h : FragmentHeader} {d s : UInt8} {v : Nat} {flag : Bool}

/-- A number that is read has stood there in one of its forms. -/
theorem packed_eq_ok (hd : packed c = .ok (v, flag) e) :
    ∃ x : PackedField, x.Fits ∧ x.value = v ∧ x.flag = flag ∧ c.rest = x.bytes ++ e.rest := by
  obtain ⟨first, c₁, hfirst, hd⟩ := bind_eq_ok.1 hd
  have hword := PackedField.firstWord_of_parts first
  cases hnarrow : first.toNat.testBit 14 with
  | true =>
    simp only [hnarrow, if_true] at hd
    cases hd
    rw [hnarrow] at hword
    refine ⟨⟨first.toNat % 16384, false, first.toNat.testBit 15⟩, Nat.mod_lt _ (by omega), rfl, rfl,
      ?_⟩
    rw [be16_eq_ok hfirst, PackedField.bytes, if_neg (by simp), hword]
  | false =>
    simp only [hnarrow] at hd
    obtain ⟨second, c₂, hsecond, hd⟩ := bind_eq_ok.1 hd
    cases hd
    rw [hnarrow] at hword
    have hlt := second.toNat_lt
    have hlow : UInt16.ofNat (first.toNat % 16384 * 65536 + second.toNat) = second := by
      apply UInt16.toNat_inj.1
      rw [UInt16.toNat_ofNat']
      omega
    have hhigh : (first.toNat % 16384 * 65536 + second.toNat) / 65536 = first.toNat % 16384 := by
      omega
    have hfits : first.toNat % 16384 * 65536 + second.toNat < 1073741824 := by omega
    refine ⟨⟨first.toNat % 16384 * 65536 + second.toNat, true, first.toNat.testBit 15⟩, hfits, rfl,
      rfl, ?_⟩
    rw [be16_eq_ok hfirst, be16_eq_ok hsecond, PackedField.bytes, if_pos rfl, hhigh, hlow, hword,
      List.append_assoc]

/-- A header in front of all that is left of a chunk. -/
def shortHeader (d : UInt8) (left : Nat) : FragmentHeader where
  descriptor := d
  subSequence := 0
  sequence := 0
  total := left % 4294967296
  offset := 0
  merged := false
  time := none

/-- The rest of a long header, whose first bytes have been read. -/
theorem long_eq_ok (raw : UInt8) (hd : long d s c = .ok h e)
    (hkind : FragmentKind.ofDescriptor d ≠ .short)
    (hs : s = if FragmentKind.ofDescriptor d = .timed then 0 else raw &&& 0x7f) :
    ∃ x : LongHeader, x.Fits ∧ x.descriptor = d ∧ x.subSequence = raw ∧ h = x.header ∧
      c.rest = x.total.bytes ++ (x.second.bytes ++ x.sequence :: e.rest) := by
  obtain ⟨⟨total, merged⟩, c₁, htotal, hd⟩ := bind_eq_ok.1 hd
  obtain ⟨⟨second, flag⟩, c₂, hsecond, hd⟩ := bind_eq_ok.1 hd
  dsimp only at hd
  obtain ⟨sequence, c₃, hsequence, hd⟩ := bind_eq_ok.1 hd
  obtain ⟨x, hx, rfl, rfl, hxrest⟩ := packed_eq_ok htotal
  obtain ⟨y, hy, rfl, rfl, hyrest⟩ := packed_eq_ok hsecond
  let z : LongHeader :=
    { kind := FragmentKind.ofDescriptor d, low := ⟨d.toNat % 64, Nat.mod_lt _ (by omega)⟩
      subSequence := raw, sequence, total := x, second := y }
  have hdesc : z.descriptor = d := FragmentKind.descriptor_ofDescriptor d
  have hrest : c₃ = e ∧ h = z.header := by
    cases hk : FragmentKind.ofDescriptor d with
    | short => exact absurd hk hkind
    | middle | tail | timed =>
      rw [hk] at hd
      cases hd
      refine ⟨rfl, ?_⟩
      rw [LongHeader.header, hdesc]
      simp [z, hk, hs]
  obtain ⟨rfl, hheader⟩ := hrest
  refine ⟨z, ⟨hkind, hx, hy⟩, hdesc, rfl, hheader, ?_⟩
  rw [hxrest, hyrest, u8_eq_ok hsequence]

/-- A header that is read is a short one in front of what is left, or one of the long ones. -/
theorem decoder_eq_ok (hd : decoder c = .ok h e) :
    (∃ d s, FragmentKind.ofDescriptor d = .short ∧ c.rest = d :: s :: e.rest ∧
      h = shortHeader d e.rest.length) ∨
    ∃ x : LongHeader, x.Fits ∧ c.rest = x.bytes ++ e.rest ∧ h = x.header := by
  obtain ⟨d, c₁, hdesc, hd⟩ := bind_eq_ok.1 hd
  have hfirst := u8_eq_ok hdesc
  cases hk : FragmentKind.ofDescriptor d with
  | short =>
    rw [hk] at hd
    obtain ⟨⟨⟩, c₂, hskip, hd⟩ := bind_eq_ok.1 hd
    obtain ⟨r, c₃, hr, hd⟩ := bind_eq_ok.1 hd
    obtain ⟨a, c₄, htake, hskip⟩ := bind_eq_ok.1 hskip
    cases hskip
    cases hr
    cases hd
    obtain ⟨b, hb, hlength⟩ := (accepts_take 1).taken _ _ _ htake
    obtain ⟨s, rfl⟩ := List.length_eq_one_iff.1 hlength
    exact .inl ⟨d, s, hk, by rw [hfirst, hb]; rfl, rfl⟩
  | timed =>
    rw [hk] at hd
    obtain ⟨x, hx, rfl, -, hheader, hrest⟩ := long_eq_ok 0 hd (by simp [hk]) (by simp [hk])
    rw [LongHeader.kind_descriptor] at hk
    refine .inr ⟨x, hx, ?_, hheader⟩
    rw [hfirst, hrest, LongHeader.bytes, if_pos hk]
    simp
  | middle | tail =>
    rw [hk] at hd
    obtain ⟨raw, c₂, hraw, hd⟩ := bind_eq_ok.1 hd
    obtain ⟨x, hx, rfl, rfl, hheader, hrest⟩ := long_eq_ok raw hd (by simp [hk]) (by simp [hk])
    rw [LongHeader.kind_descriptor] at hk
    refine .inr ⟨x, hx, ?_, hheader⟩
    rw [hfirst, u8_eq_ok hraw, hrest, LongHeader.bytes, if_neg (by simp [hk])]
    simp

/-- Only a header of the kind for it has a time, and it is marked as the last one of its frame. -/
structure Closing (h : FragmentHeader) : Prop where
  timed : h.time.isSome ↔ FragmentKind.ofDescriptor h.descriptor = .timed
  last : h.time.isSome → h.isLast = true

theorem closing_of_read (hd : decoder c = .ok h e) : h.Closing := by
  rcases decoder_eq_ok hd with ⟨d, s, hkind, -, rfl⟩ | ⟨x, -, -, rfl⟩
  · exact ⟨by simp [shortHeader, hkind], by simp [shortHeader]⟩
  · have htime : x.header.time.isSome ↔ x.kind = .timed := by simp [LongHeader.header]
    refine ⟨htime.trans (by rw [LongHeader.header, LongHeader.kind_descriptor]), ?_⟩
    intro h
    exact LongHeader.isLast_header x |>.2 (.inr (htime.1 h))

end FragmentHeader

/-- What holds of all headers that are read holds of those of a chunk. -/
theorem Fragment.forall_ofChunk {P : FragmentHeader → Prop}
    (hP : ∀ c h e, FragmentHeader.decoder c = .ok h e → P h) (chunk : Bytes) :
    ∀ f ∈ (ofChunk chunk).1, P f.header := by
  fun_induction ofChunk chunk with
  | case1 => simp
  | case2 chunk hlong header c hd parts more ih =>
    intro f hf
    rcases List.mem_cons.1 hf with rfl | hf
    · exact hP _ _ _ hd
    · exact ih f hf
  | case3 => simp

end RealMedia.RealVideo
