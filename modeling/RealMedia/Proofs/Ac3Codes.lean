import RealMedia.Proofs.Ac3Chunks
import RealMedia.Proofs.BitPlaces

/-!
The codes of an AC3 header by their places: which headers are accepted, and what the lengths that
they tell ensure. The check word ends inside the frame and behind the header, and each round of the
search that goes on leaves fewer bytes.
-/

namespace RealMedia

namespace Ac3

open BitDecoder

variable {b d : Bytes} {h : FrameHeader} {n pos : Nat}

/-! ## The length of a frame -/

theorem frameSize?_isSome_iff {rateCode sizeCode : Nat} :
    (frameSize? rateCode sizeCode).isSome ↔ rateCode ≤ 2 ∧ sizeCode ≤ 37 := by
  have hlen : bitRates.length = 19 := rfl
  rw [frameSize?]
  by_cases hsize : sizeCode / 2 < bitRates.length
  · rw [List.getElem?_eq_getElem hsize]
    match rateCode with
    | 0 | 1 | 2 => simp; omega
    | n + 3 => simp
  · rw [List.getElem?_eq_none (by omega)]
    simp
    omega

/-- The length of a frame comes from one of the bit rates. -/
theorem frameSize?_eq_some {rateCode sizeCode : Nat} (hn : frameSize? rateCode sizeCode = some n) :
    ∃ kbps ∈ bitRates, n = 4 * kbps ∨ n = 6 * kbps ∨
      n = 2 * (kbps * 1000 * 96 / 44100 + sizeCode % 2) := by
  rw [frameSize?] at hn
  cases hk : bitRates[sizeCode / 2]? with
  | none => simp [hk] at hn
  | some kbps =>
    refine ⟨kbps, List.mem_of_getElem? hk, ?_⟩
    simp only [hk, Option.bind_eq_bind, Option.bind_some] at hn
    split at hn
    · exact .inl (Option.some.inj hn).symm
    · exact .inr (.inr (Option.some.inj hn).symm)
    · exact .inr (.inl (Option.some.inj hn).symm)
    · cases hn

/-- A frame is a number of 16-bit words, and neither very short nor very long. -/
theorem frameSize?_bounds {rateCode sizeCode : Nat} (hn : frameSize? rateCode sizeCode = some n) :
    n % 2 = 0 ∧ 128 ≤ n ∧ n ≤ 3840 := by
  have hrate : ∀ kbps ∈ bitRates, 32 ≤ kbps ∧ kbps ≤ 640 := by decide
  obtain ⟨kbps, hk, hn⟩ := frameSize?_eq_some hn
  obtain ⟨hlow, hhigh⟩ := hrate kbps hk
  rcases hn with hn | hn | hn <;> omega

/-- The check word protects something, and not all of a frame. -/
theorem crcSpan_bounds (hn : 128 ≤ n) : 4 < crcSpan n ∧ crcSpan n < n := by
  rw [crcSpan]
  omega

/-! ## The codes of a header -/

namespace FrameHeader

/-- The code of the sample rate. -/
def rateCode (b : Bytes) : Nat := numberAt b 32 2

/-- The code of the bit rate and of the length. -/
def sizeCode (b : Bytes) : Nat := numberAt b 34 6

/-- The version of the bit stream. -/
def versionCode (b : Bytes) : Nat := numberAt b 40 5

/-- The audio coding mode. -/
def modeCode (b : Bytes) : Nat := numberAt b 48 3

/-- The bits of mix levels between the audio coding mode and the last flag. -/
def mixBits (acmod : Nat) : Nat :=
  (if acmod % 2 = 1 ∧ acmod ≠ 1 then 2 else 0) + (if acmod / 4 = 1 then 2 else 0) +
    if acmod = 2 then 2 else 0

/-- The header that the codes tell, if they are valid. -/
def told? (b : Bytes) : Option FrameHeader :=
  if maxBsid < versionCode b then none
  else do
    let bytes ← frameSize? (rateCode b) (sizeCode b)
    let sampleRate ← sampleRates[rateCode b]?
    let bitRate ← bitRates[sizeCode b / 2]?
    let front ← modeChannels[modeCode b]?
    let lfe := bitAt b (51 + mixBits (modeCode b))
    return { sampleRate, bitRate, bytes, bsid := versionCode b, bsmod := numberAt b 45 3,
             acmod := modeCode b, lfe, channels := front + lfe.toNat }

/-- Behind any mix levels the seven bytes have a bit for the flag. -/
theorem mixBits_le (acmod : Nat) : mixBits acmod ≤ 4 := by
  rw [mixBits]
  split <;> split <;> split <;> omega

theorem told?_isSome_iff :
    (told? b).isSome ↔ rateCode b ≤ 2 ∧ sizeCode b ≤ 37 ∧ versionCode b ≤ maxBsid := by
  rw [told?]
  by_cases hold : maxBsid < versionCode b
  case pos => simp [hold]
  rw [if_neg hold, ← and_assoc, ← frameSize?_isSome_iff]
  cases hbytes : frameSize? (rateCode b) (sizeCode b) with
  | none => simp
  | some bytes =>
    -- Whatever has a length has an entry in each of the tables.
    obtain ⟨hrate, hsize⟩ := frameSize?_isSome_iff.1 (Option.isSome_of_eq_some hbytes)
    have hrate : rateCode b < sampleRates.length := Nat.lt_succ_of_le hrate
    have hsize : sizeCode b / 2 < bitRates.length := by
      change _ < 19
      omega
    have hmode : modeCode b < modeChannels.length := numberAt_lt b 48 3
    rw [List.getElem?_eq_getElem hrate, List.getElem?_eq_getElem hsize,
      List.getElem?_eq_getElem hmode]
    simpa using hold

theorem frameSize?_of_told? (ht : told? b = some h) :
    frameSize? (rateCode b) (sizeCode b) = some h.bytes := by
  rw [told?] at ht
  split at ht
  · cases ht
  · simp only [Option.bind_eq_bind, Option.bind_eq_some_iff] at ht
    obtain ⟨bytes, hbytes, _, -, _, -, _, -, hh⟩ := ht
    cases hh
    exact hbytes

theorem told?_congr (hb : ∀ i, 32 ≤ i → i < 56 → bitAt b i = bitAt d i) : told? b = told? d := by
  have hnumber (pos n : Nat) (hpos : 32 ≤ pos) (hn : pos + n ≤ 56) :
      numberAt b pos n = numberAt d pos n :=
    numberAt_congr fun i hle hlt => hb i (by omega) (by omega)
  have hrate : rateCode b = rateCode d := hnumber 32 2 (by decide) (by decide)
  have hsize : sizeCode b = sizeCode d := hnumber 34 6 (by decide) (by decide)
  have hversion : versionCode b = versionCode d := hnumber 40 5 (by decide) (by decide)
  have hbsmod : numberAt b 45 3 = numberAt d 45 3 := hnumber 45 3 (by decide) (by decide)
  have hmode : modeCode b = modeCode d := hnumber 48 3 (by decide) (by decide)
  have hmix := mixBits_le (modeCode d)
  have hlfe : bitAt b (51 + mixBits (modeCode d)) = bitAt d (51 + mixBits (modeCode d)) :=
    hb _ (by omega) (by omega)
  simp only [told?, hrate, hsize, hversion, hbsmod, hmode, hlfe]

/-! ## What is read of them -/

/-- Bits that are skipped only in some cases move the place of what follows. -/
theorem leads_skip {α : Type} {x : α} {p : Prop} [Decidable p] {f : Unit → BitDecoder α}
    (h : pos + (if p then n else 0) ≤ 8 * b.length)
    (hf : ∃ e, f () (cursorAt b (pos + if p then n else 0)) = .ok x e) :
    ∃ e, (if p then skip n >>= f else f ()) (cursorAt b pos) = .ok x e := by
  by_cases hp : p
  · rw [if_pos hp] at h hf ⊢
    exact leads_of_ok (skip_cursorAt h) hf
  · rw [if_neg hp] at h hf ⊢
    exact hf

/-- In seven bytes no read runs out of bits. -/
theorem decoder_cursorAt (hb : headerSize ≤ b.length) :
    ∃ e, decoder (cursorAt b 0) =
      .ok (if numberAt b 0 16 = 0x0b77 then told? b else none) e := by
  have hlong : 56 ≤ 8 * b.length := by
    simp only [headerSize] at hb
    omega
  have hfirst : field 16 (cursorAt b 0) = .ok (numberAt b 0 16) (cursorAt b 16) :=
    field_cursorAt (by omega)
  have hword : skip 16 (cursorAt b 16) = .ok () (cursorAt b 32) := skip_cursorAt (by omega)
  have hrate : field 2 (cursorAt b 32) = .ok (rateCode b) (cursorAt b 34) :=
    field_cursorAt (by omega)
  have hsize : field 6 (cursorAt b 34) = .ok (sizeCode b) (cursorAt b 40) :=
    field_cursorAt (by omega)
  have hversion : field 5 (cursorAt b 40) = .ok (versionCode b) (cursorAt b 45) :=
    field_cursorAt (by omega)
  have hbsmod : field 3 (cursorAt b 45) = .ok (numberAt b 45 3) (cursorAt b 48) :=
    field_cursorAt (by omega)
  have hmode : field 3 (cursorAt b 48) = .ok (modeCode b) (cursorAt b 51) :=
    field_cursorAt (by omega)
  unfold decoder
  refine leads_of_ok hfirst ?_
  by_cases hsync : numberAt b 0 16 = 0x0b77
  case neg =>
    rw [if_pos hsync, if_neg hsync]
    exact ⟨_, rfl⟩
  rw [if_neg fun hne => hne hsync, if_pos hsync, told?]
  refine leads_of_ok hword (leads_of_ok hrate (leads_of_ok hsize (leads_of_ok hversion ?_)))
  refine leads_of_ok hbsmod (leads_of_ok hmode ?_)
  by_cases hold : maxBsid < versionCode b
  case pos =>
    rw [if_pos hold, if_pos hold]
    exact ⟨_, rfl⟩
  rw [if_neg hold, if_neg hold]
  cases frameSize? (rateCode b) (sizeCode b) with
  | none => exact ⟨_, rfl⟩
  | some bytes => ?_
  cases sampleRates[rateCode b]? with
  | none => exact ⟨_, rfl⟩
  | some sampleRate => ?_
  cases bitRates[sizeCode b / 2]? with
  | none => exact ⟨_, rfl⟩
  | some bitRate => ?_
  cases modeChannels[modeCode b]? with
  | none => exact ⟨_, rfl⟩
  | some front => ?_
  have hmix := mixBits_le (modeCode b)
  simp only [mixBits, ← Nat.add_assoc] at hmix ⊢
  refine leads_skip (by omega) (leads_skip (by omega) (leads_skip (by omega) ?_))
  exact leads_of_ok (flag_cursorAt (by omega)) ⟨_, rfl⟩

/-- A header is what the codes tell in at least seven bytes that begin with a sync word. -/
theorem parse?_eq (b : Bytes) :
    parse? b = if headerSize ≤ b.length ∧ numberAt b 0 16 = 0x0b77 then told? b else none := by
  have hbits : 8 * headerSize = 56 := rfl
  rw [parse?]
  by_cases hlong : headerSize ≤ b.length
  case neg => rw [if_neg (by simpa using hlong), if_neg fun h => hlong h.1]
  rw [if_pos (by simpa using hlong)]
  have htake : headerSize ≤ (b.take headerSize).length := by
    rw [List.length_take]
    omega
  obtain ⟨e, he⟩ := decoder_cursorAt htake
  have hsync : numberAt (b.take headerSize) 0 16 = numberAt b 0 16 :=
    numberAt_congr fun i _ hi => bitAt_take (by omega)
  have htold : told? (b.take headerSize) = told? b :=
    told?_congr fun i _ hi => bitAt_take (by omega)
  have hread : decoder ⟨0, Bits.ofBytes (b.take headerSize)⟩ =
      .ok (if numberAt b 0 16 = 0x0b77 then told? b else none) e := by
    rw [← hsync, ← htold]
    exact he
  rw [decode?, hread, Option.join_some]
  simp only [hlong, true_and]

/-- What stands in the place of the check word decides nothing about the header. -/
theorem parse?_congr (hlen : headerSize ≤ b.length ↔ headerSize ≤ d.length)
    (hb : ∀ i, i < 16 ∨ 32 ≤ i → i < 56 → bitAt b i = bitAt d i) : parse? b = parse? d := by
  have hsync : numberAt b 0 16 = numberAt d 0 16 :=
    numberAt_congr fun i _ hi => hb i (.inl (by omega)) (by omega)
  have htold : told? b = told? d := told?_congr fun i hle hi => hb i (.inr hle) hi
  simp only [parse?_eq, hlen, hsync, htold]

end FrameHeader

open FrameHeader

theorem sync_iff (hb : 2 ≤ b.length) : numberAt b 0 16 = 0x0b77 ↔ [0x0b, 0x77] <+: b := by
  match b, hb with
  | x :: y :: r, _ =>
    have hword : numberAt (x :: y :: r) 0 16 = x.toNat * 256 + y.toNat := by
      rw [← Bits.toNat_take_drop (by simp only [List.length_cons]; omega), List.drop_zero,
        ← Bits.ofBytes_take _ 2]
      simp [Bits.ofBytes, Bits.toNat_append, Bits.ofByte, Bits.toNat_ofNat]
    have hx := x.toNat_lt
    have hy := y.toNat_lt
    simp only [List.cons_prefix_cons, List.nil_prefix, and_true, hword, ← UInt8.toNat_inj]
    change _ ↔ 11 = _ ∧ 119 = _
    omega

theorem parse?_isSome_iff : (parse? b).isSome ↔ headerSize ≤ b.length ∧ [0x0b, 0x77] <+: b ∧
    rateCode b ≤ 2 ∧ sizeCode b ≤ 37 ∧ versionCode b ≤ maxBsid := by
  rw [parse?_eq]
  by_cases hlong : headerSize ≤ b.length
  case neg => simp [hlong]
  rw [← sync_iff (Nat.le_trans (by decide) hlong), ← told?_isSome_iff]
  by_cases hsync : numberAt b 0 16 = 0x0b77
  · simp [hlong, hsync]
  · simp [hsync]

/-- A header is found only behind a sync word. -/
theorem sync_of_parse? (hp : parse? b = some h) : ∃ r, b = 0x0b :: 0x77 :: r := by
  obtain ⟨-, ⟨r, hr⟩, -⟩ := parse?_isSome_iff.1 (Option.isSome_of_eq_some hp)
  exact ⟨r, hr.symm⟩

theorem bounds_of_parse? (hp : parse? b = some h) :
    h.bytes % 2 = 0 ∧ 128 ≤ h.bytes ∧ h.bytes ≤ 3840 := by
  rw [parse?_eq] at hp
  split at hp
  · exact frameSize?_bounds (frameSize?_of_told? hp)
  · cases hp

theorem even_of_parse? (hp : parse? b = some h) : h.bytes % 2 = 0 := (bounds_of_parse? hp).1

/-- Behind a sync word a header is a matter of the next bytes but two. -/
theorem parse?_of_codes (hb : [0x0b, 0x77] <+: b) (hd : [0x0b, 0x77] <+: d)
    (hcodes : (b.drop 4).take 3 = (d.drop 4).take 3) : parse? b = parse? d := by
  obtain ⟨r, rfl⟩ := hb
  obtain ⟨s, rfl⟩ := hd
  have hlen := congrArg List.length hcodes
  simp only [List.length_take, List.length_drop] at hlen
  refine parse?_congr (by simp only [headerSize]; omega) ?_
  intro i hi hlt
  apply bitAt_congr
  rcases hi with hi | hi
  · obtain h | h : i / 8 = 0 ∨ i / 8 = 1 := by omega
    · rw [h]
      rfl
    · rw [h]
      rfl
  · obtain ⟨j, hj⟩ := Nat.exists_eq_add_of_le (show 4 ≤ i / 8 by omega)
    have hbyte := congrArg (·[j]?) hcodes
    simp only [List.getElem?_take_of_lt (show j < 3 by omega), List.getElem?_drop] at hbyte
    rw [hj, hbyte]

end Ac3

namespace Ac3Framer

open Ac3 Ac3.FrameHeader

variable {f g : Ac3Framer} {out : Outputs}

/-- What a step at a sync word leaves in the buffer is an end of it. -/
theorem suffix_stepAtSync (hs : f.stepAtSync = .next g out) : g.buffer <:+ f.buffer := by
  obtain ⟨more, -, hstep⟩ := f.stepAtSync_eq
  rw [hs] at hstep
  split at hstep
  · cases hstep
    exact List.drop_suffix ..
  · cases hstep
  · cases hstep
    rw [buffer_emit]
    exact List.drop_suffix ..

theorem next_of_after {before : Outputs} {s : Step} (hs : s.after before = .next g out) :
    ∃ more, s = .next g more := by
  cases s with
  | wait f more | lost f more => cases hs
  | next f more =>
    cases hs
    exact ⟨more, rfl⟩

theorem suffix_step (hs : f.step = .next g out) : g.buffer <:+ f.buffer := by
  cases hn : findSync f.buffer 0 with
  | none =>
    -- Whatever the last byte is, the search waits or is lost.
    rw [step, hn] at hs
    dsimp only at hs
    split at hs <;> split at hs <;> cases hs
  | some n =>
    obtain ⟨-, -, hstep⟩ := step_of_sync hn
    rw [hstep] at hs
    split at hs
    · cases hs
    · obtain ⟨more, hmore⟩ := next_of_after hs
      exact (suffix_stepAtSync hmore).trans (List.drop_suffix ..)

/-- A step that goes on takes bytes off the front of the buffer. -/
theorem drop_of_step (hs : f.step = .next g out) :
    ∃ n, 0 < n ∧ n ≤ f.buffer.length ∧ g.buffer = f.buffer.drop n := by
  have hshort := length_step hs
  exact ⟨f.buffer.length - g.buffer.length, by omega, Nat.sub_le _ _,
    List.suffix_iff_eq_drop.1 (suffix_step hs)⟩

/-- A header is accepted exactly if there are seven bytes of it, they begin with the sync word and the
codes of sample rate, length and version are valid. No read in seven bytes runs out of bits, and
behind the sync word the header depends on the bytes 4 to 6 only. A frame is a number of 16-bit
words between 128 and 3840 bytes; it is longer than its header, and its check word ends behind its
own place and before the end of the frame. So each step of the search that goes on takes bytes off
the buffer. -/
theorem header_by_codes (b : Bytes) :
    ((parse? b).isSome ↔ headerSize ≤ b.length ∧ [0x0b, 0x77] <+: b ∧
      rateCode b ≤ 2 ∧ sizeCode b ≤ 37 ∧ versionCode b ≤ 10) ∧
    (headerSize ≤ b.length →
      ∃ r e, FrameHeader.decoder ⟨0, Bits.ofBytes (b.take headerSize)⟩ = .ok r e) ∧
    (∀ d, [0x0b, 0x77] <+: b → [0x0b, 0x77] <+: d → (b.drop 4).take 3 = (d.drop 4).take 3 →
      parse? b = parse? d) ∧
    (∀ h, parse? b = some h → (h.bytes % 2 = 0 ∧ 128 ≤ h.bytes ∧ h.bytes ≤ 3840) ∧
      headerSize < h.bytes ∧ 4 < crcSpan h.bytes ∧ crcSpan h.bytes < h.bytes) ∧
    ∀ (f g : Ac3Framer) (out : Outputs), f.buffer = b → f.step = .next g out →
      ∃ n, 0 < n ∧ n ≤ b.length ∧ g.buffer = b.drop n := by
  refine ⟨parse?_isSome_iff, ?_, ?_, ?_, ?_⟩
  · intro hb
    obtain ⟨e, he⟩ := decoder_cursorAt (b := b.take headerSize) (by
      rw [List.length_take]
      omega)
    exact ⟨_, e, he⟩
  · intro d hb hd hcodes
    exact parse?_of_codes hb hd hcodes
  · intro h hp
    obtain ⟨heven, hlow, hhigh⟩ := bounds_of_parse? hp
    exact ⟨⟨heven, hlow, hhigh⟩, Nat.lt_of_lt_of_le (by decide) hlow, crcSpan_bounds hlow⟩
  · rintro f g out rfl hs
    exact drop_of_step hs

/-- A framer that has received one frame. -/
def oneFrame : Ac3Framer :=
  { header := bareHeader 1, swapped := false, window := 0, strict := false, buffer := silentFrame }

/-- The frame with other bytes in the place of its check word and behind its header. -/
def otherFrame : Bytes := [0x0b, 0x77, 0, 0, 0x00, 0x40, 0xe1, 0xff]

theorem step_oneFrame : ∃ g out, oneFrame.step = .next g out := by
  obtain ⟨-, hj, hstep⟩ := step_of_sync (f := oneFrame) (n := 0) rfl
  obtain ⟨out, -, hsync⟩ := (oneFrame.discard 0).stepAtSync_eq
  have hframe : judgeSynced (oneFrame.discard 0).buffer = .frame silentHeader :=
    hj.symm.trans judge_silentFrame
  rw [hframe] at hsync
  rw [hsync] at hstep
  exact ⟨_, _, hstep⟩

theorem header_by_codes_silent :
    (parse? silentFrame).isSome ∧ headerSize ≤ silentFrame.length ∧
      (∃ r e, FrameHeader.decoder ⟨0, Bits.ofBytes (silentFrame.take headerSize)⟩ = .ok r e) ∧
      ([0x0b, 0x77] <+: otherFrame ∧
        (silentFrame.drop 4).take 3 = (otherFrame.drop 4).take 3 ∧
        parse? silentFrame = parse? otherFrame) ∧
      (parse? silentFrame = some silentHeader ∧ headerSize < silentHeader.bytes ∧
        4 < crcSpan silentHeader.bytes ∧ crcSpan silentHeader.bytes < silentHeader.bytes) ∧
      ∃ g out, oneFrame.step = .next g out ∧
        ∃ n, 0 < n ∧ n ≤ silentFrame.length ∧ g.buffer = silentFrame.drop n := by
  obtain ⟨haccepted, hreads, hcodes, hsizes, hsteps⟩ := header_by_codes silentFrame
  have hparsed : parse? silentFrame = some silentHeader := (judge_eq_frame judge_silentFrame).1
  have hlong : headerSize ≤ silentFrame.length := by decide +kernel
  have hsync : [0x0b, 0x77] <+: silentFrame := ⟨_, rfl⟩
  have hother : [0x0b, 0x77] <+: otherFrame := ⟨_, rfl⟩
  obtain ⟨g, out, hstep⟩ := step_oneFrame
  refine ⟨Option.isSome_of_eq_some hparsed, hlong, hreads hlong, ⟨hother, rfl, ?_⟩,
    ⟨hparsed, (hsizes _ hparsed).2⟩, g, out, hstep, hsteps _ g out rfl hstep⟩
  exact hcodes _ hsync hother rfl

end Ac3Framer

end RealMedia
