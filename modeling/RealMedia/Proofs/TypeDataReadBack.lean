import RealMedia.Proofs.ReadBack

/-! What the type data of a stream description is read as. -/

namespace RealMedia

namespace Container

open Decoder

namespace TypeData

theorem leads_videoBytes (fourcc : FourCC) (width height : UInt16) (fps : Float) :
    Leads videoDecoder (videoBytes fourcc width height fps)
      ⟨fourcc, width, height, 12, frameRateWord fps⟩ := by
  have hb : videoBytes fourcc width height fps = (bytes32 34 ++ videoTag.bytes) ++ (fourcc.bytes ++
      (bytes16 width ++ (bytes16 height ++ (bytes16 12 ++ (zeros 4 ++
        (bytes32 (frameRateWord fps) ++ zeros 8)))))) := by
    simp only [videoBytes, List.append_assoc]
  rw [hb]
  exact leads_skip rfl fun _ => (yields_fourCC _).leads ((yields_be16 _).leads
    ((yields_be16 _).leads ((yields_be16 _).leads (leads_skip rfl fun _ =>
      (yields_be32 _).leads (leads_pure _ _)))))

/-- What is read of drafted video. -/
theorem parse_videoBytes (fourcc : FourCC) (width height : UInt16) (fps : Float) :
    parse (videoBytes fourcc width height fps) =
      .video ⟨fourcc, width, height, 12, frameRateWord fps⟩ := by
  have hvideo : (atLeast videoLength (videoBytes fourcc width height fps) &&
      videoTag.begins ((videoBytes fourcc width height fps).drop 4)) = true := rfl
  rw [parse, hvideo, if_pos rfl,
    decode_of_leads (leads_videoBytes fourcc width height fps)]

/-- A description that starts like audio is none of video. -/
theorem parse_audio {a : AudioType} {b r : Bytes} {version : UInt16}
    (hb : b = audioTag.bytes ++ (bytes16 version ++ (zeros 2 ++ r)))
    (hlong : audioLength ≤ b.length) (hd : Leads audioDecoder b a) : parse b = .audio a := by
  have hvideo : ¬ (atLeast videoLength b && videoTag.begins (b.drop 4)) = true := by
    intro hvideo
    obtain ⟨v, hv⟩ := (videoTag.begins_iff _).1 (Bool.and_eq_true _ _ ▸ hvideo).2
    rw [hb] at hv
    have hthird : (0 : UInt8) = videoTag.c := congrArg (·.getD 2 0) hv
    exact absurd hthird (by decide)
  have haudio : (atLeast audioLength b && audioTag.begins b) = true := by
    rw [Bool.and_eq_true, atLeast_iff, FourCC.begins_iff]
    exact ⟨hlong, _, hb⟩
  rw [parse, if_neg hvideo, if_pos haudio, decode_of_leads hd]

theorem exists_fourCC {b : Bytes} (hb : b.length = 4) : ∃ f : FourCC, f.bytes = b := by
  match b, hb with
  | [p, q, r, s], _ => exact ⟨⟨p, q, r, s⟩, rfl⟩

/-- The names in a description of the older form, and what is behind them. -/
def namesBytes (codec extra : Bytes) : Bytes :=
  [4] ++ (ascii "Int4" ++ ([.ofNat codec.length] ++ (codec ++ extra)))

theorem leads_names (f : FourCC) (extra : Bytes) :
    Leads codecDecoder (namesBytes f.bytes extra) (some f, extra) :=
  (yields_u8 _).leads (leads_skip rfl fun _ => (yields_u8 _).leads
    ((yields_fourCC f).leads (leads_rest (leads_pure _ _))))

/-- What is read of the names. -/
def namesOf (codec extra : Bytes) : Option FourCC × Bytes :=
  (codecDecoder.decode (namesBytes codec extra)).toOption.getD (none, [])

theorem namesOf_four (f : FourCC) (extra : Bytes) : namesOf f.bytes extra = (some f, extra) := by
  rw [namesOf, decode_of_leads (leads_names f extra)]
  rfl

/-- A codec name of another length is none, and the data behind it is not looked at. -/
theorem namesOf_other {codec : Bytes} (extra : Bytes) (hb : codec.length ≤ 255)
    (hfour : codec.length ≠ 4) : namesOf codec extra = (none, []) := by
  have hlength : UInt8.ofNat codec.length ≠ 4 := by
    intro h
    have hnat := congrArg UInt8.toNat h
    rw [UInt8.toNat_ofNat', Nat.mod_eq_of_lt (by omega)] at hnat
    exact hfour hnat
  have hleads : Leads codecDecoder (namesBytes codec extra) (none, []) := by
    refine (yields_u8 _).leads (leads_skip rfl fun _ => (yields_u8 _).leads ?_)
    rw [if_pos hlength]
    exact leads_pure _ _
  rw [namesOf, decode_of_leads hleads]
  rfl

theorem audio4Bytes_eq (codec : Bytes) (rate size channels : UInt16) (extra : Bytes) :
    audio4Bytes codec rate size channels extra = audioTag.bytes ++ (bytes16 4 ++ (zeros 2 ++
      (FourCC.bytes ⟨0x2e, 0x72, 0x61, 0x34⟩ ++ ((zeros 4 ++ bytes16 4 ++ bytes32 0x4e) ++
        (zeros 2 ++ (zeros 24 ++ (bytes16 rate ++ (zeros 2 ++ (bytes16 size ++
          (bytes16 channels ++ namesBytes codec extra)))))))))) := by
  simp only [audio4Bytes, audioStart, namesBytes, List.append_assoc]
  rfl

theorem leads_audio4Bytes (codec : Bytes) (rate size channels : UInt16) (extra : Bytes) :
    Leads audioDecoder (audio4Bytes codec rate size channels extra)
      { version := 4, fourcc := (namesOf codec extra).1, formatTag := ⟨0x2e, 0x72, 0x61, 0x34⟩
        flavor := 0, sampleRate := rate, sampleSize := size, channels
        extra := (namesOf codec extra).2 } := by
  rw [audio4Bytes_eq]
  exact leads_skip rfl fun _ => (yields_be16 _).leads (leads_skip rfl fun _ =>
    (yields_fourCC _).leads (leads_skip rfl fun _ => yields_zero16.leads (leads_skip rfl fun _ =>
      (yields_be16 _).leads (leads_skip rfl fun _ => (yields_be16 _).leads ((yields_be16 _).leads
        (leads_rest (leads_pure _ _)))))))

/-- What is read of drafted audio of the older form. -/
theorem parse_audio4Bytes (codec : Bytes) (rate size channels : UInt16) (extra : Bytes) :
    parse (audio4Bytes codec rate size channels extra) = .audio
      { version := 4, fourcc := (namesOf codec extra).1, formatTag := ⟨0x2e, 0x72, 0x61, 0x34⟩
        flavor := 0, sampleRate := rate, sampleSize := size, channels
        extra := (namesOf codec extra).2 } := by
  refine parse_audio (audio4Bytes_eq codec rate size channels extra) ?_
    (leads_audio4Bytes codec rate size channels extra)
  rw [audio4Bytes_eq]
  simp only [List.length_append, FourCC.length_bytes, length_bytes16, length_bytes32, zeros,
    List.length_replicate, audioLength]
  omega

theorem audio5Bytes_eq (fourcc : FourCC) (rate size channels : UInt16) (extra : Bytes) :
    audio5Bytes fourcc rate size channels extra = audioTag.bytes ++ (bytes16 5 ++ (zeros 2 ++
      (FourCC.bytes ⟨0x2e, 0x72, 0x61, 0x35⟩ ++ ((zeros 4 ++ bytes16 5 ++ bytes32 0x4e) ++
        (zeros 2 ++ (zeros 24 ++ (zeros 6 ++ (bytes16 rate ++ (zeros 2 ++ (bytes16 size ++
          (bytes16 channels ++ (ascii "genr" ++ (fourcc.bytes ++
            if extra.isEmpty then [] else bytes32 (.ofNat extra.length) ++ extra))))))))))))) := by
  simp only [audio5Bytes, audioStart, List.append_assoc]
  rfl

/-- The extra data is found behind its length, or there is neither. -/
theorem drop_extraBytes (extra : Bytes) :
    (if extra.isEmpty then [] else bytes32 (.ofNat extra.length) ++ extra).drop 4 = extra := by
  cases extra <;> rfl

theorem leads_audio5Bytes (fourcc : FourCC) (rate size channels : UInt16) (extra : Bytes) :
    Leads audioDecoder (audio5Bytes fourcc rate size channels extra)
      { version := 5, fourcc := some fourcc, formatTag := ⟨0x2e, 0x72, 0x61, 0x35⟩, flavor := 0
        sampleRate := rate, sampleSize := size, channels, extra } := by
  have hextra := drop_extraBytes extra
  rw [audio5Bytes_eq]
  generalize (if extra.isEmpty then [] else bytes32 (.ofNat extra.length) ++ extra) = behind at hextra
  subst hextra
  exact leads_skip rfl fun _ => (yields_be16 _).leads (leads_skip rfl fun _ =>
    (yields_fourCC _).leads (leads_skip rfl fun _ => yields_zero16.leads (leads_skip rfl fun _ =>
      leads_skip rfl fun _ => (yields_be16 _).leads (leads_skip rfl fun _ => (yields_be16 _).leads
        ((yields_be16 _).leads (leads_skip rfl fun _ => (yields_fourCC _).leads
          (leads_rest (leads_pure _ _))))))))

/-- What is read of drafted audio of the newer form. -/
theorem parse_audio5Bytes (fourcc : FourCC) (rate size channels : UInt16) (extra : Bytes) :
    parse (audio5Bytes fourcc rate size channels extra) = .audio
      { version := 5, fourcc := some fourcc, formatTag := ⟨0x2e, 0x72, 0x61, 0x35⟩, flavor := 0
        sampleRate := rate, sampleSize := size, channels, extra } := by
  refine parse_audio (audio5Bytes_eq fourcc rate size channels extra) ?_
    (leads_audio5Bytes fourcc rate size channels extra)
  rw [audio5Bytes_eq]
  simp only [List.length_append, FourCC.length_bytes, length_bytes16, length_bytes32, zeros,
    List.length_replicate, audioLength]
  omega

end TypeData

end Container

end RealMedia
