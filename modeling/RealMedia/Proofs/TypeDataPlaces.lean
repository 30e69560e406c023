import RealMedia.Proofs.TypeDataReadBack

/-!
The places at which the fields of a stream's type data stand. All that are looked at lie inside the
data, so reading by place is the same as decoding in order.
-/

namespace RealMedia

variable {b : Bytes} {i n : Nat}

/-! ## Fields by place -/

/-- The word at a place. There is none if a byte of it would lie outside. -/
def word16At? (b : Bytes) (i : Nat) : Option UInt16 := do
  return word16 (← b[i]?) (← b[i + 1]?)

def word32At? (b : Bytes) (i : Nat) : Option UInt32 := do
  return word32 (← b[i]?) (← b[i + 1]?) (← b[i + 2]?) (← b[i + 3]?)

def fourCCAt? (b : Bytes) (i : Nat) : Option FourCC := do
  return ⟨← b[i]?, ← b[i + 1]?, ← b[i + 2]?, ← b[i + 3]?⟩

/-- The bytes from a place on, which may be the end. -/
def from? (b : Bytes) (i : Nat) : Option Bytes := if i ≤ b.length then some (b.drop i) else none

theorem word16At?_drop (b : Bytes) (i : Nat) : word16At? b i = word16At? (b.drop i) 0 := by
  simp only [word16At?, List.getElem?_drop, Nat.add_zero, Nat.zero_add]

theorem word32At?_drop (b : Bytes) (i : Nat) : word32At? b i = word32At? (b.drop i) 0 := by
  simp only [word32At?, List.getElem?_drop, Nat.add_zero, Nat.zero_add]

theorem fourCCAt?_drop (b : Bytes) (i : Nat) : fourCCAt? b i = fourCCAt? (b.drop i) 0 := by
  simp only [fourCCAt?, List.getElem?_drop, Nat.add_zero, Nat.zero_add]

theorem exists_word16At (hi : i + 2 ≤ b.length) : ∃ w, word16At? b i = some w := by
  refine ⟨word16 b[i] b[i + 1], ?_⟩
  rw [word16At?, List.getElem?_eq_getElem (by omega), List.getElem?_eq_getElem (by omega)]
  rfl

theorem exists_word32At (hi : i + 4 ≤ b.length) : ∃ w, word32At? b i = some w := by
  refine ⟨word32 b[i] b[i + 1] b[i + 2] b[i + 3], ?_⟩
  rw [word32At?, List.getElem?_eq_getElem (by omega), List.getElem?_eq_getElem (by omega),
    List.getElem?_eq_getElem (by omega), List.getElem?_eq_getElem (by omega)]
  rfl

theorem exists_fourCCAt (hi : i + 4 ≤ b.length) : ∃ f, fourCCAt? b i = some f := by
  refine ⟨⟨b[i], b[i + 1], b[i + 2], b[i + 3]⟩, ?_⟩
  rw [fourCCAt?, List.getElem?_eq_getElem (by omega), List.getElem?_eq_getElem (by omega),
    List.getElem?_eq_getElem (by omega), List.getElem?_eq_getElem (by omega)]
  rfl

theorem fourCCAt?_outside (hi : b.length < i + 4) : fourCCAt? b i = none := by
  have hshort : (b.drop i).length < 4 := by
    rw [List.length_drop]
    omega
  rw [fourCCAt?_drop]
  generalize b.drop i = u at hshort
  rcases u with _ | ⟨p, _ | ⟨q, _ | ⟨r, _ | ⟨s, t⟩⟩⟩⟩
  iterate 4 rfl
  exact absurd hshort (by simp)

theorem from?_eq (hi : i ≤ b.length) : from? b i = some (b.drop i) := if_pos hi

theorem begins_drop (f : FourCC) (b : Bytes) (i : Nat) :
    f.begins (b.drop i) = true ↔ fourCCAt? b i = some f := by
  rw [fourCCAt?_drop]
  rcases b.drop i with _ | ⟨p, _ | ⟨q, _ | ⟨r, _ | ⟨s, t⟩⟩⟩⟩
  iterate 4 exact iff_of_false Bool.false_ne_true nofun
  change decide (f = ⟨p, q, r, s⟩) = true ↔ some ⟨p, q, r, s⟩ = some f
  rw [decide_eq_true_eq, Option.some.injEq, eq_comm]

/-! ## Decoders by place -/

namespace Decoder

variable {α β : Type} {f : α → Decoder β}

/-- What the decoder makes of the bytes from a place on. -/
def valueAt? (d : Decoder α) (b : Bytes) (i : Nat) : Option α :=
  match d ⟨i, b.drop i⟩ with
  | .ok a _ => some a
  | .error _ _ => none

theorem toOption_decode (d : Decoder α) (b : Bytes) : (d.decode b).toOption = d.valueAt? b 0 := by
  rw [decode, valueAt?, List.drop_zero]
  cases d ⟨0, b⟩ <;> rfl

theorem valueAt?_pure (a : α) (b : Bytes) (i : Nat) : valueAt? (pure a) b i = some a := rfl

theorem valueAt?_rest (f : Bytes → Decoder β) (b : Bytes) (i : Nat) :
    valueAt? (rest >>= f) b i = valueAt? (f (b.drop i)) b i := rfl

theorem valueAt?_u8 (f : UInt8 → Decoder β) (b : Bytes) (i : Nat) :
    valueAt? (u8 >>= f) b i = b[i]?.bind fun w => valueAt? (f w) b (i + 1) := by
  have hplace : b[i]? = (b.drop i)[0]? := by rw [List.getElem?_drop, Nat.add_zero]
  simp only [valueAt?, hplace, ← List.drop_drop]
  rcases b.drop i with _ | ⟨p, t⟩ <;> rfl

theorem valueAt?_be16 (f : UInt16 → Decoder β) (b : Bytes) (i : Nat) :
    valueAt? (be16 >>= f) b i = (word16At? b i).bind fun w => valueAt? (f w) b (i + 2) := by
  simp only [valueAt?, word16At?_drop b i, ← List.drop_drop]
  rcases b.drop i with _ | ⟨p, _ | ⟨q, t⟩⟩ <;> rfl

theorem valueAt?_be32 (f : UInt32 → Decoder β) (b : Bytes) (i : Nat) :
    valueAt? (be32 >>= f) b i = (word32At? b i).bind fun w => valueAt? (f w) b (i + 4) := by
  simp only [valueAt?, word32At?_drop b i, ← List.drop_drop]
  rcases b.drop i with _ | ⟨p, _ | ⟨q, _ | ⟨r, _ | ⟨s, t⟩⟩⟩⟩ <;> rfl

theorem valueAt?_fourCC (f : FourCC → Decoder β) (b : Bytes) (i : Nat) :
    valueAt? (fourCC >>= f) b i = (fourCCAt? b i).bind fun w => valueAt? (f w) b (i + 4) := by
  simp only [valueAt?, fourCCAt?_drop b i, ← List.drop_drop]
  rcases b.drop i with _ | ⟨p, _ | ⟨q, _ | ⟨r, _ | ⟨s, t⟩⟩⟩⟩ <;> rfl

theorem valueAt?_skip (n : Nat) (f : Unit → Decoder β) (b : Bytes) (i : Nat) :
    valueAt? (skip n >>= f) b i =
      if n ≤ b.length - i then valueAt? (f ()) b (i + n) else none := by
  rw [← List.length_drop]
  simp only [valueAt?, ← List.drop_drop]
  generalize b.drop i = r
  change (match EStateM.bind (EStateM.bind (take n) _) f ⟨i, r⟩ with
    | .ok a _ => some a
    | .error _ _ => none) = _
  simp only [EStateM.bind, take, split?]
  by_cases hn : n ≤ r.length
  · rw [if_pos hn, if_pos (atLeast_iff.2 hn), List.splitAt_eq]
    rfl
  · rw [if_neg hn, if_neg (by simpa using hn)]

end Decoder

namespace Container

open Decoder

namespace TypeData

variable {tag : FourCC} {least : Nat}

/-! ## Type data by place -/

/-- Whether the tag stands at a place, if the data has the length that such data has at least. -/
def tagAt? (least : Nat) (tag : FourCC) (i : Nat) (b : Bytes) : Option Bool :=
  if least ≤ b.length then (fourCCAt? b i).map (· = tag) else some false

def videoAt? (b : Bytes) : Option VideoType := do
  return { fourcc := ← fourCCAt? b 8, width := ← word16At? b 12, height := ← word16At? b 14
           bitsPerPixel := ← word16At? b 16, rate := ← word32At? b 22 }

/-- The names in audio of the older form. Each of their places hangs on what stands in front of it,
and is looked at only behind a test of the length. -/
def codecAt? (b : Bytes) : Option (Option FourCC × Bytes) := do
  if b.length < 1 then return (none, [])
  let codec := 1 + (← b[0]?).toNat
  if b.length < codec + 1 then return (none, [])
  if (← b[codec]?) ≠ 4 then return (none, [])
  if b.length < codec + 5 then return (none, [])
  return (some (← fourCCAt? b (codec + 1)), ← from? b (codec + 5))

/-- What follows the fields of audio of the newer form, behind its length. -/
def extraAt? (b : Bytes) : Option Bytes := if b.length ≤ 74 then some [] else from? b 74

/-- The inner option is for audio of the newer form that is too short for its fields. -/
def audioAt? (b : Bytes) : Option (Option AudioType) := do
  let version ← word16At? b 4
  let formatTag ← fourCCAt? b 8
  let flavor ← word16At? b 22
  if version = 4 then
    let codec ← codecAt? (← from? b 56)
    return some
      { version, fourcc := codec.1, formatTag, flavor, sampleRate := ← word16At? b 48
        sampleSize := ← word16At? b 52, channels := ← word16At? b 54, extra := codec.2 }
  if b.length < 70 then return none
  return some
    { version, fourcc := some (← fourCCAt? b 66), formatTag, flavor, sampleRate := ← word16At? b 54
      sampleSize := ← word16At? b 58, channels := ← word16At? b 60, extra := ← extraAt? b }

/-- Type data read by place. Without a value a place has been looked at that lies outside. -/
def parseAt? (b : Bytes) : Option TypeData := do
  if ← tagAt? videoLength videoTag 4 b then return .video (← videoAt? b)
  if ← tagAt? audioLength audioTag 0 b then return ((← audioAt? b).map .audio).getD .other
  return .other

theorem tagAt?_eq (hi : i + 4 ≤ least) :
    tagAt? least tag i b = some (atLeast least b && tag.begins (b.drop i)) := by
  rw [tagAt?]
  by_cases hb : least ≤ b.length
  · obtain ⟨f, hf⟩ := exists_fourCCAt (b := b) (i := i) (by omega)
    have hbegins := begins_drop tag b i
    rw [hf, Option.some.injEq] at hbegins
    rw [if_pos hb, atLeast_iff.2 hb, hf, Option.map_some, Bool.true_and, Option.some.injEq,
      Bool.eq_iff_iff, decide_eq_true_eq, hbegins]
  · have hshort : atLeast least b = false := atLeast_eq_false.2 (by omega)
    rw [if_neg hb, hshort, Bool.false_and]

theorem videoAt?_eq (hb : videoLength ≤ b.length) :
    ∃ v, videoAt? b = some v ∧ (videoDecoder.decode b).toOption = some v := by
  rw [videoLength] at hb
  obtain ⟨fourcc, hfourcc⟩ := exists_fourCCAt (b := b) (i := 8) (by omega)
  obtain ⟨width, hwidth⟩ := exists_word16At (b := b) (i := 12) (by omega)
  obtain ⟨height, hheight⟩ := exists_word16At (b := b) (i := 14) (by omega)
  obtain ⟨depth, hdepth⟩ := exists_word16At (b := b) (i := 16) (by omega)
  obtain ⟨rate, hrate⟩ := exists_word32At (b := b) (i := 22) (by omega)
  refine ⟨⟨fourcc, width, height, depth, rate⟩, ?_, ?_⟩
  · rw [videoAt?, hfourcc, hwidth, hheight, hdepth, hrate]
    rfl
  · simp only [toOption_decode, videoDecoder, valueAt?_skip, valueAt?_fourCC, valueAt?_be16,
      valueAt?_be32, valueAt?_pure, Nat.reduceAdd, Nat.zero_add, hfourcc, hwidth, hheight, hdepth,
      hrate, Option.bind_some]
    rw [if_pos (by omega), if_pos (by omega)]

theorem codecAt?_eq (b : Bytes) :
    codecAt? b = some ((codecDecoder.decode b).toOption.getD (none, [])) := by
  simp only [toOption_decode, codecDecoder, valueAt?_u8, valueAt?_skip, codecAt?, Nat.zero_add]
  by_cases hempty : b.length < 1
  · rw [if_pos hempty, List.getElem?_eq_none (by omega)]
    rfl
  rw [if_neg hempty, List.getElem?_eq_getElem (by omega), Option.bind_eq_bind, Option.bind_some,
    Option.bind_some]
  generalize hcodec : 1 + b[0].toNat = codec
  by_cases hname : b.length < codec + 1
  · rw [if_pos hname, List.getElem?_eq_none (by omega), Option.bind_none, ite_self]
    rfl
  have hinside : b[0].toNat ≤ b.length - 1 := by omega
  rw [if_neg hname, if_pos hinside, List.getElem?_eq_getElem (by omega), Option.bind_eq_bind,
    Option.bind_some, Option.bind_some]
  by_cases hfour : b[codec] ≠ 4
  · rw [if_pos hfour, if_pos hfour]
    rfl
  rw [if_neg hfour, if_neg hfour, valueAt?_fourCC]
  by_cases hshort : b.length < codec + 5
  · rw [if_pos hshort, fourCCAt?_outside (by omega)]
    rfl
  · obtain ⟨f, hf⟩ := exists_fourCCAt (b := b) (i := codec + 1) (by omega)
    rw [if_neg hshort, hf, from?_eq (by omega)]
    rfl

theorem extraAt?_eq (b : Bytes) : extraAt? b = some (b.drop 74) := by
  rw [extraAt?]
  by_cases hnone : b.length ≤ 74
  · rw [if_pos hnone, List.drop_eq_nil_of_le hnone]
  · rw [if_neg hnone, from?_eq (by omega)]

theorem audioAt?_eq (hb : audioLength ≤ b.length) :
    audioAt? b = some (audioDecoder.decode b).toOption := by
  rw [audioLength] at hb
  have hstart : 4 ≤ b.length - 0 ∧ 2 ≤ b.length - 6 ∧ 10 ≤ b.length - 12 ∧ 24 ≤ b.length - 24 := by
    omega
  obtain ⟨version, hversion⟩ := exists_word16At (b := b) (i := 4) (by omega)
  obtain ⟨tag, htag⟩ := exists_fourCCAt (b := b) (i := 8) (by omega)
  obtain ⟨flavor, hflavor⟩ := exists_word16At (b := b) (i := 22) (by omega)
  simp only [toOption_decode, audioDecoder, valueAt?_skip, valueAt?_fourCC, valueAt?_be16,
    audioAt?, Nat.reduceAdd, Nat.zero_add, hversion, htag, hflavor, Option.bind_eq_bind,
    Option.bind_some, hstart, if_true]
  by_cases hfour : version = 4
  · obtain ⟨rate, hrate⟩ := exists_word16At (b := b) (i := 48) (by omega)
    obtain ⟨size, hsize⟩ := exists_word16At (b := b) (i := 52) (by omega)
    obtain ⟨channels, hchannels⟩ := exists_word16At (b := b) (i := 54) (by omega)
    have hgap : 2 ≤ b.length - 50 := by omega
    rw [if_pos hfour, if_pos hfour, from?_eq hb]
    simp only [toOption_decode, valueAt?_be16, valueAt?_skip, valueAt?_rest, valueAt?_pure,
      codecAt?_eq, hrate, hsize, hchannels, hgap, if_true, Nat.reduceAdd, Option.bind_some]
    rfl
  · rw [if_neg hfour, if_neg hfour]
    by_cases hshort : b.length < 70
    · have hname : fourCCAt? b 66 = none := fourCCAt?_outside hshort
      simp only [hshort, hname, valueAt?_be16, valueAt?_skip, valueAt?_fourCC, if_true,
        Nat.reduceAdd, Option.bind_none, Option.bind_fun_none, ite_self]
      rfl
    · obtain ⟨rate, hrate⟩ := exists_word16At (b := b) (i := 54) (by omega)
      obtain ⟨size, hsize⟩ := exists_word16At (b := b) (i := 58) (by omega)
      obtain ⟨channels, hchannels⟩ := exists_word16At (b := b) (i := 60) (by omega)
      obtain ⟨fourcc, hfourcc⟩ := exists_fourCCAt (b := b) (i := 66) (by omega)
      have hgaps : 6 ≤ b.length - 48 ∧ 2 ≤ b.length - 56 ∧ 4 ≤ b.length - 62 := by omega
      simp only [hshort, extraAt?_eq, hrate, hsize, hchannels, hfourcc, hgaps, valueAt?_be16,
        valueAt?_skip, valueAt?_fourCC, valueAt?_rest, valueAt?_pure, if_true, if_false,
        Nat.reduceAdd, Option.bind_some, List.drop_drop]
      rfl

/-- All places at which type data is looked at lie inside it, and what is read by place is what is
decoded in order. -/
theorem parseAt?_eq (b : Bytes) : parseAt? b = some (parse b) := by
  rw [parseAt?, parse, tagAt?_eq (by decide), tagAt?_eq (by decide), List.drop_zero]
  simp only [Option.bind_eq_bind, Option.bind_some]
  by_cases hvideo : (atLeast videoLength b && videoTag.begins (b.drop 4)) = true
  · obtain ⟨v, hplace, hv⟩ := videoAt?_eq (atLeast_iff.1 (Bool.and_eq_true _ _ ▸ hvideo).1)
    rw [if_pos hvideo, if_pos hvideo, hplace]
    cases hd : videoDecoder.decode b with
    | ok w =>
      rw [hd] at hv
      cases hv
      rfl
    | error e =>
      rw [hd] at hv
      cases hv
  rw [if_neg hvideo, if_neg hvideo]
  by_cases haudio : (atLeast audioLength b && audioTag.begins b) = true
  · rw [if_pos haudio, if_pos haudio,
      audioAt?_eq (atLeast_iff.1 (Bool.and_eq_true _ _ ▸ haudio).1)]
    cases audioDecoder.decode b <;> rfl
  · rw [if_neg haudio, if_neg haudio]
    rfl

/-- Written type data is read back: video with its size at 12 bits per pixel, audio of both forms
with its rate, sample size and channels and all its extra data. A codec name of another length than
four is none, and nothing is read behind it. Whatever the bytes are, reading looks at no place
outside them. -/
theorem type_data_read_back :
    (∀ fourcc width height fps, parse (videoBytes fourcc width height fps) = .video
      { fourcc, width, height, bitsPerPixel := 12, rate := frameRateWord fps }) ∧
    (∀ fourcc rate size channels extra, parse (audio5Bytes fourcc rate size channels extra) = .audio
      { version := 5, fourcc := some fourcc, formatTag := ⟨0x2e, 0x72, 0x61, 0x35⟩, flavor := 0
        sampleRate := rate, sampleSize := size, channels, extra }) ∧
    (∀ fourcc rate size channels extra,
      parse (audio4Bytes (FourCC.bytes fourcc) rate size channels extra) = .audio
        { version := 4, fourcc := some fourcc, formatTag := ⟨0x2e, 0x72, 0x61, 0x34⟩, flavor := 0
          sampleRate := rate, sampleSize := size, channels, extra }) ∧
    (∀ codec rate size channels extra, codec.length ≤ 255 → codec.length ≠ 4 →
      parse (audio4Bytes codec rate size channels extra) = .audio
        { version := 4, fourcc := none, formatTag := ⟨0x2e, 0x72, 0x61, 0x34⟩, flavor := 0
          sampleRate := rate, sampleSize := size, channels, extra := [] }) ∧
    ∀ b, parseAt? b = some (parse b) := by
  refine ⟨parse_videoBytes, parse_audio5Bytes, ?_, ?_, parseAt?_eq⟩
  · intro fourcc rate size channels extra
    rw [parse_audio4Bytes, namesOf_four]
  · intro codec rate size channels extra hb hfour
    rw [parse_audio4Bytes, namesOf_other extra hb hfour]

/-- A codec name of five letters. -/
theorem type_data_read_back_sipr5 : (ascii "sipr5").length ≤ 255 ∧ (ascii "sipr5").length ≠ 4 ∧
    parse (audio4Bytes (ascii "sipr5") 8000 16 1 [1, 2]) = .audio
      { version := 4, fourcc := none, formatTag := ⟨0x2e, 0x72, 0x61, 0x34⟩, flavor := 0
        sampleRate := 8000, sampleSize := 16, channels := 1, extra := [] } :=
  ⟨by decide, by decide,
    type_data_read_back.2.2.2.1 (ascii "sipr5") 8000 16 1 [1, 2] (by decide) (by decide)⟩

end TypeData

end Container

end RealMedia
