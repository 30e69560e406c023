import RealMedia.Proofs.FragmentReading

/-!
The two forms in which a fragment header is written. Each header is read back in front of any data,
and what does not begin with a whole header is refused.
-/

namespace RealMedia.RealVideo

open Decoder

/-- A header in one of its forms. -/
inductive WrittenHeader
  /-- Two bytes, the second of which means nothing. -/
  | short (low : Fin 64) (unused : UInt8)
  | long (x : LongHeader)

namespace WrittenHeader

variable {x y : WrittenHeader} {b data : Bytes} {c e : Cursor} {h : FragmentHeader} {pos : Nat}

def Fits : WrittenHeader → Prop
  | short .. => True
  | long x => x.Fits

def bytes : WrittenHeader → Bytes
  | short low unused => [FragmentKind.short.descriptor low, unused]
  | long x => x.bytes

/-- What the header says in front of so many bytes. -/
def header (left : Nat) : WrittenHeader → FragmentHeader
  | short low _ => FragmentHeader.shortHeader (FragmentKind.short.descriptor low) left
  | long x => x.header

theorem decoder_bytes (hx : x.Fits) (pos : Nat) (data : Bytes) :
    FragmentHeader.decoder ⟨pos, x.bytes ++ data⟩ =
      .ok (x.header data.length) ⟨pos + x.bytes.length, data⟩ := by
  cases x with
  | short low unused =>
    refine bind_eq_ok.2 ⟨_, ⟨pos + 1, unused :: data⟩, rfl, ?_⟩
    have hskip : skip 1 ⟨pos + 1, unused :: data⟩ = .ok () ⟨pos + 2, data⟩ :=
      (yields_take [unused]).return (fun _ => ()) (pos + 1) data
    rw [FragmentKind.ofDescriptor_descriptor]
    exact bind_eq_ok.2 ⟨(), _, hskip, rfl⟩
  | long x => exact LongHeader.yields_header hx pos data

/-- A header that is read has stood there in one of its forms. -/
theorem exists_of_decoder (hd : FragmentHeader.decoder c = .ok h e) :
    ∃ x : WrittenHeader, x.Fits ∧ c.rest = x.bytes ++ e.rest ∧ h = x.header e.rest.length := by
  rcases FragmentHeader.decoder_eq_ok hd with ⟨d, s, hkind, hrest, hh⟩ | ⟨x, hx, hrest, hh⟩
  · have hd := FragmentKind.descriptor_ofDescriptor d
    rw [hkind] at hd
    refine ⟨short ⟨d.toNat % 64, Nat.mod_lt _ (by omega)⟩ s, trivial, ?_, ?_⟩
    · rw [hrest, bytes, hd]
      rfl
    · rw [hh, header, hd]
  · exact ⟨long x, hx, hrest, hh⟩

/-- No header is the beginning of another one. -/
theorem eq_of_prefix (hx : x.Fits) (hy : y.Fits) (h : x.bytes <+: y.bytes) :
    x.bytes = y.bytes := by
  obtain ⟨r, hr⟩ := h
  have hlong := decoder_bytes hy 0 []
  rw [List.append_nil, ← hr, decoder_bytes hx 0 r] at hlong
  injection hlong with _ hrest
  injection hrest with _ hnil
  rw [← hr, hnil, List.append_nil]

/-- Bytes that do not begin with a whole header are refused. -/
theorem refused (h : ∀ x : WrittenHeader, x.Fits → ¬x.bytes <+: b) :
    ∃ e c, FragmentHeader.decoder ⟨pos, b⟩ = .error e c := by
  cases hd : FragmentHeader.decoder ⟨pos, b⟩ with
  | error e c => exact ⟨e, c, rfl⟩
  | ok header c =>
    obtain ⟨x, hx, hrest, -⟩ := exists_of_decoder hd
    exact (h x hx ⟨c.rest, hrest.symm⟩).elim

/-- A short header takes all that follows for the frame. -/
theorem total_short (low : Fin 64) (unused : UInt8) {left : Nat} (hleft : left < 4294967296) :
    ((short low unused).header left).total = left :=
  Nat.mod_eq_of_lt hleft

/-- An offset that counts back from the end. -/
theorem offset_tail {x : LongHeader} (hx : x.Fits) (hkind : x.kind = .tail)
    (hle : x.second.value ≤ x.total.value) :
    x.header.offset = x.total.value - x.second.value := by
  have hlt := PackedField.lt_of_fits hx.total
  simp only [LongHeader.header, hkind]
  omega

/-- Every header that fits its form is read back in front of any data, up to the first byte of it.
The length in a short one is that of the data, and an offset that counts back from the end is told
from the start. A header that breaks off is refused, and so is everything that does not begin with
one. -/
theorem headers_read_or_refused (pos : Nat) :
    (∀ x : WrittenHeader, x.Fits → ∀ data : Bytes,
      FragmentHeader.decoder ⟨pos, x.bytes ++ data⟩ =
        .ok (x.header data.length) ⟨pos + x.bytes.length, data⟩) ∧
    (∀ low unused left, left < 4294967296 → ((short low unused).header left).total = left) ∧
    (∀ x : LongHeader, x.Fits → x.kind = .tail → x.second.value ≤ x.total.value →
      x.header.offset = x.total.value - x.second.value) ∧
    (∀ x : WrittenHeader, x.Fits → ∀ b, b <+: x.bytes → b ≠ x.bytes →
      ∃ e c, FragmentHeader.decoder ⟨pos, b⟩ = .error e c) ∧
    ∀ b, (∃ x : WrittenHeader, x.Fits ∧ x.bytes <+: b) ∨
      ∃ e c, FragmentHeader.decoder ⟨pos, b⟩ = .error e c := by
  refine ⟨?_, ?_, ?_, ?_, ?_⟩
  · intro x hx data
    exact decoder_bytes hx pos data
  · intro low unused left hleft
    exact total_short low unused hleft
  · intro x hx hkind hle
    exact offset_tail hx hkind hle
  · intro x hx b hb hne
    refine refused ?_
    intro y hy hbegin
    have hsame := eq_of_prefix hy hx (hbegin.trans hb)
    rw [hsame] at hbegin
    exact hne (hb.eq_of_length_le hbegin.length_le)
  · intro b
    by_cases hbegin : ∃ x : WrittenHeader, x.Fits ∧ x.bytes <+: b
    · exact .inl hbegin
    · refine .inr (refused ?_)
      intro x hx hprefix
      exact hbegin ⟨x, hx, hprefix⟩

/-- A last fragment of a frame that has been put together before: its length takes 30 bits, and its
offset takes 14. -/
def wideTail : LongHeader where
  kind := .tail
  low := ⟨5, by decide⟩
  subSequence := 0xc3
  sequence := 9
  total := ⟨70000, true, true⟩
  second := ⟨300, false, false⟩

theorem headers_read_wideTail :
    wideTail.Fits ∧
      FragmentHeader.decoder ⟨4, [0x85, 0xc3, 0x80, 0x01, 0x11, 0x70, 0x41, 0x2c, 0x09, 0x41]⟩ =
        .ok ⟨0x85, 0x43, 9, 70000, 69700, true, none⟩ ⟨13, [0x41]⟩ ∧
      ∃ e c, FragmentHeader.decoder ⟨4, [0x85, 0xc3, 0x80, 0x01, 0x11, 0x70, 0x41]⟩ =
        .error e c := by
  have hfits : wideTail.Fits := by decide
  obtain ⟨hread, -, -, hcut, -⟩ := headers_read_or_refused 4
  refine ⟨hfits, hread (.long wideTail) hfits [0x41], ?_⟩
  exact hcut (.long wideTail) hfits _ ⟨[0x2c, 0x09], by decide⟩ (by decide)

end WrittenHeader

end RealMedia.RealVideo
