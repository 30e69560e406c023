import RealMedia.Text.Utf8

/-! Text read back from its own UTF-8 bytes. -/

namespace RealMedia

theorem toList_loop (b : ByteArray) (i : Nat) (r : List UInt8) :
    ByteArray.toList.loop b i r = r.reverse ++ b.data.toList.drop i := by
  fun_induction ByteArray.toList.loop b i r with
  | case1 i r hi ih =>
    have hlen : i < b.data.toList.length := by simpa using hi
    rw [ih, List.drop_eq_getElem_cons hlen, List.reverse_cons, List.append_assoc]
    exact congrArg (fun x => r.reverse ++ x :: _) (getElem!_pos b.data i hi)
  | case2 i r hi =>
    rw [List.drop_eq_nil_of_le (by simpa using Nat.le_of_not_lt hi), List.append_nil]

namespace Utf8

variable {found : List Char} {low high : UInt8} {bits k n : Nat}

theorem encode_eq (s : String) : encode s = s.toList.flatMap String.utf8EncodeChar := by
  have hbytes : s.toUTF8 = s.toList.utf8Encode := by
    rw [← String.toByteArray_ofList, String.ofList_toList]
    rfl
  rw [encode, hbytes, ByteArray.toList, toList_loop, List.utf8Encode, List.toList_data_toByteArray]
  rfl

theorem toNat_byte (hn : n < 256) : (UInt8.ofNat n).toNat = n := by
  rw [UInt8.toNat_ofNat', Nat.mod_eq_of_lt hn]

theorem lead_one (hn : n < 128) : lead (.ofNat n) = .whole (.ofNat n) := by
  have hb := toNat_byte (n := n) (by omega)
  rw [lead, if_pos (by rw [UInt8.lt_iff_toNat_lt, hb]; exact hn), hb]

theorem lead_two (hl : 2 ≤ n) (hn : n < 32) :
    lead (.ofNat (n + 192)) = .begins ⟨n, 1, 0x80, 0xbf⟩ := by
  have hb := toNat_byte (n := n + 192) (by omega)
  have hbits : (n + 192) % 32 = n := by omega
  simp only [lead, UInt8.lt_iff_toNat_lt, hb, UInt8.reduceToNat, hbits]
  rw [if_neg (by omega), if_neg (by omega), if_pos (by omega)]

/-- Where three bytes could say what two can, or name half of a pair, the second byte is bounded. -/
theorem lead_three (hn : n < 16) : lead (.ofNat (n + 224)) =
    .begins ⟨n, 2, if n = 0 then 0xa0 else 0x80, if n = 13 then 0x9f else 0xbf⟩ := by
  have hb := toNat_byte (n := n + 224) (by omega)
  have hbits : (n + 224) % 16 = n := by omega
  have hfirst : n + 224 = 224 ↔ n = 0 := by omega
  have hpairs : n + 224 = 237 ↔ n = 13 := by omega
  simp only [lead, UInt8.lt_iff_toNat_lt, ← UInt8.toNat_inj, hb, UInt8.reduceToNat, hbits, hfirst,
    hpairs]
  rw [if_neg (by omega), if_neg (by omega), if_neg (by omega), if_pos (by omega)]

/-- Four bytes start behind the reach of three and end with the last character. -/
theorem lead_four (hn : n < 5) : lead (.ofNat (n + 240)) =
    .begins ⟨n, 3, if n = 0 then 0x90 else 0x80, if n = 4 then 0x8f else 0xbf⟩ := by
  have hb := toNat_byte (n := n + 240) (by omega)
  have hbits : (n + 240) % 8 = n := by omega
  have hfirst : n + 240 = 240 ↔ n = 0 := by omega
  have hlast : n + 240 = 244 ↔ n = 4 := by omega
  simp only [lead, UInt8.lt_iff_toNat_lt, ← UInt8.toNat_inj, hb, UInt8.reduceToNat, hbits, hfirst,
    hlast]
  rw [if_neg (by omega), if_neg (by omega), if_neg (by omega), if_neg (by omega),
    if_pos (by omega)]

/-- A further byte of a character that is not yet whole. -/
theorem push_trail (hk : k < 64) (hl : low.toNat ≤ k + 128) (hh : k + 128 ≤ high.toNat) :
    Progress.push ⟨found, some ⟨bits, n + 2, low, high⟩⟩ (.ofNat (k + 128)) =
      ⟨found, some ⟨bits * 64 + k, n + 1, 0x80, 0xbf⟩⟩ := by
  have hb := toNat_byte (n := k + 128) (by omega)
  have hbits : (k + 128) % 64 = k := by omega
  simp only [Progress.push, UInt8.le_iff_toNat_le, hb, hl, hh, hbits, and_self, if_true]
  rfl

/-- The last byte of a character. -/
theorem push_last (hk : k < 64) (hl : low.toNat ≤ k + 128) (hh : k + 128 ≤ high.toNat) :
    Progress.push ⟨found, some ⟨bits, 1, low, high⟩⟩ (.ofNat (k + 128)) =
      ⟨.ofNat (bits * 64 + k) :: found, none⟩ := by
  have hb := toNat_byte (n := k + 128) (by omega)
  have hbits : (k + 128) % 64 = k := by omega
  simp only [Progress.push, UInt8.le_iff_toNat_le, hb, hl, hh, hbits, and_self, if_true]

theorem push_lead {b : UInt8} {u : Unfinished} (hb : lead b = .begins u) :
    Progress.push ⟨found, none⟩ b = ⟨found, some u⟩ := by
  simp only [Progress.push, Progress.fresh, hb]

theorem push_whole {b : UInt8} {c : Char} (hb : lead b = .whole c) :
    Progress.push ⟨found, none⟩ b = ⟨c :: found, none⟩ := by
  simp only [Progress.push, Progress.fresh, hb]

/-- The bytes of a character give the character. -/
theorem push_char (c : Char) (found : List Char) :
    (String.utf8EncodeChar c).foldl Progress.push ⟨found, none⟩ = ⟨c :: found, none⟩ := by
  have hvalid : c.val.toNat < 55296 ∨ 57343 < c.val.toNat ∧ c.val.toNat < 1114112 := c.valid
  have hc : Char.ofNat c.val.toNat = c := Char.ofNat_toNat c
  unfold String.utf8EncodeChar
  dsimp only
  generalize c.val.toNat = v at hvalid hc
  split
  · rw [List.foldl_cons, push_whole (lead_one (by omega)), hc]
    rfl
  split
  · have hwhole : v / 64 % 32 * 64 + v % 64 = v := by omega
    rw [List.foldl_cons, push_lead (lead_two (by omega) (by omega)), List.foldl_cons,
      push_last (by omega) (Nat.le_add_left ..) (by simp; omega), hwhole, hc]
    rfl
  split
  · have hwhole : (v / 4096 % 16 * 64 + v / 64 % 64) * 64 + v % 64 = v := by omega
    have hlow : (if v / 4096 % 16 = 0 then 0xa0 else 0x80 : UInt8).toNat ≤
        v / 64 % 64 + 128 := by
      split
      · change 160 ≤ _
        omega
      · exact Nat.le_add_left ..
    have hhigh : v / 64 % 64 + 128 ≤
        (if v / 4096 % 16 = 13 then 0x9f else 0xbf : UInt8).toNat := by
      split
      · change _ ≤ 159
        omega
      · change _ ≤ 191
        omega
    rw [List.foldl_cons, push_lead (lead_three (by omega)), List.foldl_cons,
      push_trail (by omega) hlow hhigh,
      List.foldl_cons, push_last (by omega) (Nat.le_add_left ..) (by simp; omega), hwhole, hc]
    rfl
  · have hwhole :
        ((v / 262144 % 8 * 64 + v / 4096 % 64) * 64 + v / 64 % 64) * 64 + v % 64 = v := by omega
    have hlow : (if v / 262144 % 8 = 0 then 0x90 else 0x80 : UInt8).toNat ≤
        v / 4096 % 64 + 128 := by
      split
      · change 144 ≤ _
        omega
      · exact Nat.le_add_left ..
    have hhigh : v / 4096 % 64 + 128 ≤
        (if v / 262144 % 8 = 4 then 0x8f else 0xbf : UInt8).toNat := by
      split
      · change _ ≤ 143
        omega
      · change _ ≤ 191
        omega
    rw [List.foldl_cons, push_lead (lead_four (by omega)), List.foldl_cons,
      push_trail (by omega) hlow hhigh,
      List.foldl_cons, push_trail (by omega) (Nat.le_add_left ..) (by simp; omega),
      List.foldl_cons, push_last (by omega) (Nat.le_add_left ..) (by simp; omega), hwhole, hc]
    rfl

theorem push_chars (cs found : List Char) :
    (cs.flatMap String.utf8EncodeChar).foldl Progress.push ⟨found, none⟩ =
      ⟨cs.reverse ++ found, none⟩ := by
  induction cs generalizing found with
  | nil => rfl
  | cons c cs ih =>
    rw [List.flatMap_cons, List.foldl_append, push_char, ih, List.reverse_cons, List.append_assoc]
    rfl

/-- Text comes back from its bytes. -/
theorem decode_encode (s : String) : decode (encode s) = s := by
  rw [encode_eq, decode, push_chars, Progress.chars, List.append_nil]
  simp

end Utf8

end RealMedia
