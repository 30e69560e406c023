import RealMedia.Aac.Config
import RealMedia.Proofs.BitFields

/-! What is read back from the codec record of AAC audio. -/

namespace RealMedia

namespace Aac

open BitDecoder

variable {c : Config} {r : Bits} {b : Bytes}

theorem frequency_lt : ∀ rate ∈ frequencies, rate < 16777216 := by decide

theorem frequency_of_index {rate index : Nat} (hi : frequencyIndex? rate = some index) :
    index < 13 ∧ frequency? index = some rate := by
  obtain ⟨hlt, hrate, -⟩ := List.findIdx?_eq_some_iff_getElem.1 hi
  refine ⟨hlt, ?_⟩
  rw [frequency?, List.getElem?_eq_getElem hlt, eq_of_beq hrate]

namespace Config

/-- What a record keeps of a configuration. -/
def recorded (c : Config) : Config where
  profile := if c.sbr then .sbr else if c.profile = .sbr then .lc else c.profile
  sampleRate := c.sampleRate % 16777216
  outputRate := (if c.sbr then c.outputRate else c.sampleRate) % 16777216
  channels := c.channels % 16
  sbr := c.sbr

theorem yields_objectType {v : Nat} (hv : v < 31) : Yields objectType (Bits.ofNat 5 v) v := by
  have hread : v % 2 ^ 5 = v := by omega
  have := yields_field 5 v
  rw [hread] at this
  rw [objectType, ← List.append_nil (Bits.ofNat 5 v)]
  refine this.bind ?_
  rw [if_neg (by omega)]
  exact yields_pure v

theorem yields_rate (v : Nat) : Yields rate (rateBits v) (some (v % 16777216)) := by
  rw [rate, rateBits]
  cases hi : frequencyIndex? v with
  | none =>
    refine (yields_field 4 15).bind ?_
    exact (yields_field 24 v).return some
  | some index =>
    obtain ⟨hindex, hrate⟩ := frequency_of_index hi
    have hlt : v < 16777216 := frequency_lt v (List.mem_of_getElem? hrate)
    dsimp only
    rw [← List.append_nil (Bits.ofNat 4 index)]
    refine (yields_field 4 index).bind ?_
    rw [if_neg (by omega), Nat.mod_eq_of_lt (show index < 2 ^ 4 by omega), hrate,
      Nat.mod_eq_of_lt hlt]
    exact yields_pure _

theorem yields_coreDetails : Yields coreDetails (Bits.ofNat 3 0) () := fun _ _ => rfl

/-- The extension that announces band replication. -/
def extensionBits (outputRate : Nat) : Bits :=
  Bits.ofNat 11 extensionMark ++ (Bits.ofNat 5 sbrObject ++ ([true] ++ rateBits outputRate))

theorem yields_extension (sampleRate outputRate : Nat) :
    Yields (extension sampleRate) (extensionBits outputRate) (some (outputRate % 16777216)) := by
  intro pos r
  have hlong : has 16 ⟨pos, extensionBits outputRate ++ r⟩ =
      .ok true ⟨pos, extensionBits outputRate ++ r⟩ := rfl
  refine Decoder.bind_eq_ok.2 ⟨true, _, hlong, ?_⟩
  rw [if_neg (by decide), extensionBits]
  clear hlong
  revert pos r
  refine (yields_field 11 extensionMark).bind ?_
  rw [if_neg (by decide)]
  refine (yields_objectType (show sbrObject < 31 by decide)).bind ?_
  rw [if_neg (by decide)]
  refine (yields_flag true).optional.bind ?_
  rw [if_neg (by decide)]
  exact (yields_rate outputRate).optional.return fun x => some (x.join.getD (2 * sampleRate))

theorem extension_of_short (sampleRate pos : Nat) (hr : r.length < 16) :
    extension sampleRate ⟨pos, r⟩ = .ok none ⟨pos, r⟩ := by
  have hshort : has 16 ⟨pos, r⟩ = .ok false ⟨pos, r⟩ := by
    have hfalse : atLeast 16 r = false := atLeast_eq_false.2 hr
    change EStateM.Result.ok (atLeast 16 r) _ = _
    rw [hfalse]
  exact Decoder.bind_eq_ok.2 ⟨false, _, hshort, rfl⟩

/-- The object type tells the profile of the core coder. -/
theorem ofObjectType?_objectType (p : Profile) :
    Profile.ofObjectType? p.objectType = some (if p = .sbr then .lc else p) := by
  cases p <;> rfl

theorem ne_sbr_of_objectType {n : Nat} {p : Profile} (hp : Profile.ofObjectType? n = some p) :
    p ≠ .sbr := by
  rintro rfl
  rw [Profile.ofObjectType?.eq_def] at hp
  split at hp <;> cases hp

theorem bits_eq (c : Config) :
    c.bits = Bits.ofNat 5 c.profile.objectType ++ (rateBits c.sampleRate ++
      (Bits.ofNat 4 c.channels ++ (Bits.ofNat 3 0 ++
        if c.sbr then extensionBits c.outputRate else []))) := by
  simp only [bits, extensionBits, List.append_assoc]

/-- What a record keeps is read back from it, also if something follows the announcement of band
replication. -/
theorem parse?_append (hb : c.sbr = true ∨ b = []) : parse? (c.bytes ++ b) = some c.recorded := by
  obtain ⟨n, hn, hbits⟩ := Bits.ofBytes_toBytes c.bits
  have hobject : c.profile.objectType < 5 := by
    cases c.profile <;> decide
  have hread : ∃ e, decoder ⟨0, Bits.ofBytes (c.bytes ++ b)⟩ = .ok (some c.recorded) e := by
    rw [Bits.ofBytes_append, bytes, hbits, bits_eq]
    simp only [List.append_assoc]
    refine (yields_objectType (by omega)).leads ?_
    refine (yields_rate _).leads ((yields_field 4 _).leads ?_)
    rw [if_neg (by simp only [sbrObject, stereoObject]; omega), ofObjectType?_objectType]
    refine yields_coreDetails.leads ?_
    cases hs : c.sbr with
    | true =>
      rw [if_pos rfl, recorded, hs]
      exact (yields_extension _ _).leads ⟨_, rfl⟩
    | false =>
      obtain rfl : b = [] := by simpa [hs] using hb
      rw [if_neg Bool.false_ne_true, List.nil_append, recorded, hs]
      refine leads_of_ok (extension_of_short _ _ ?_) ⟨_, rfl⟩
      rw [List.length_append, List.length_replicate, Bits.length_ofBytes]
      simp only [List.length_nil]
      omega
  obtain ⟨e, he⟩ := hread
  rw [parse?, decode?, he]
  rfl

theorem parse?_bytes (c : Config) : parse? c.bytes = some c.recorded := by
  have h := parse?_append (c := c) (.inr rfl)
  rwa [List.append_nil] at h

/-- A configuration as it is read from a record or told by a container. -/
structure Coherent (c : Config) : Prop where
  profile : c.profile = .sbr ↔ c.sbr = true
  plain : c.sbr = false → c.outputRate = c.sampleRate
  rate : c.sampleRate < 16777216

/-- Only the output rate and the channels may be too large for their fields. -/
theorem recorded_of_coherent (hc : c.Coherent) :
    c.recorded = { c with outputRate := c.outputRate % 16777216, channels := c.channels % 16 } := by
  have hrate := Nat.mod_eq_of_lt hc.rate
  cases hs : c.sbr with
  | true =>
    have hprofile := hc.profile.2 hs
    simp only [recorded, hs, hprofile, hrate, if_true]
  | false =>
    have hprofile : c.profile ≠ .sbr := by
      intro hsbr
      rw [hc.profile.1 hsbr] at hs
      cases hs
    have hplain := hc.plain hs
    simp only [recorded, hs, hprofile, hrate, hplain, Bool.false_eq_true, if_false]

/-- A record keeps a configuration that fits its fields. -/
theorem recorded_eq_iff (hc : c.Coherent) :
    c.recorded = c ↔ c.channels < 16 ∧ c.outputRate < 16777216 := by
  rw [recorded_of_coherent hc]
  constructor
  · intro hsame
    have hchannels : c.channels % 16 = c.channels := congrArg channels hsame
    have hrate : c.outputRate % 16777216 = c.outputRate := congrArg outputRate hsame
    omega
  · rintro ⟨hchannels, hrate⟩
    rw [Nat.mod_eq_of_lt hchannels, Nat.mod_eq_of_lt hrate]

/-- A configuration that fits the fields of a record is read back from it, and what follows a record
that announces band replication is not looked at. -/
theorem record_read_back (hc : c.Coherent) (hrate : c.outputRate < 16777216)
    (hchannels : c.channels < 16) :
    parse? c.bytes = some c ∧ (c.sbr = true → ∀ b, parse? (c.bytes ++ b) = some c) := by
  have hkept : c.recorded = c := (recorded_eq_iff hc).2 ⟨hchannels, hrate⟩
  refine ⟨?_, ?_⟩
  · rw [parse?_bytes, hkept]
  · intro hs b
    rw [parse?_append (.inl hs), hkept]

/-- Both rates are written out in 24 bits, as neither has a code. -/
theorem record_read_back_uncoded :
    parse? (bytes ⟨.sbr, 22051, 16777215, 15, true⟩) = some ⟨.sbr, 22051, 16777215, 15, true⟩ ∧
      ∀ b, parse? (bytes ⟨.sbr, 22051, 16777215, 15, true⟩ ++ b) =
        some ⟨.sbr, 22051, 16777215, 15, true⟩ := by
  obtain ⟨halone, hbehind⟩ := record_read_back (c := ⟨.sbr, 22051, 16777215, 15, true⟩)
    ⟨by decide, by decide, by decide⟩ (by decide) (by decide)
  exact ⟨halone, hbehind rfl⟩

/-- What is read back from the record of a configuration is this one exactly if it fits. -/
theorem parse?_bytes_iff (hc : c.Coherent) :
    parse? c.bytes = some c ↔ c.channels < 16 ∧ c.outputRate < 16777216 := by
  rw [parse?_bytes, Option.some.injEq, recorded_eq_iff hc]

theorem ensures_rate : Ensures rate fun r => ∀ v ∈ r, v < 16777216 := by
  refine (ensures_field 4).bind fun index _ => ?_
  split
  · refine (ensures_field 24).bind fun v hv => ensures_pure ?_
    rintro _ ⟨⟩
    exact hv
  · refine ensures_pure ?_
    intro v hv
    exact frequency_lt v (List.mem_of_getElem? hv)

theorem ensures_coherent : Ensures decoder fun r => ∀ c ∈ r, c.Coherent := by
  -- A record that is refused has no configuration.
  have hnone : Ensures (pure none) fun r : Option Config => ∀ c ∈ r, c.Coherent :=
    ensures_pure (by simp)
  unfold decoder
  refine ensures_bind fun object => ensures_rate.bind fun sampleRate hrate => ?_
  split
  case h_2 => exact hnone
  refine ensures_bind fun channels => ?_
  split
  · refine ensures_bind fun outputRate => ?_
    split
    case h_2 => exact hnone
    refine ensures_bind fun core => ?_
    split
    case h_2 => exact hnone
    refine ensures_pure ?_
    rintro c ⟨⟩
    exact ⟨by simp, by simp, hrate _ rfl⟩
  split
  case h_2 => exact hnone
  rename_i profile hprofile
  have hcore := ne_sbr_of_objectType hprofile
  refine ensures_bind fun _ => ensures_bind fun replicated => ?_
  split
  · refine ensures_pure ?_
    rintro c ⟨⟩
    exact ⟨by simp, by simp, hrate _ rfl⟩
  · refine ensures_pure ?_
    rintro c ⟨⟩
    exact ⟨by simp [hcore], by simp, hrate _ rfl⟩

theorem coherent_of_parse? (hp : parse? b = some c) : c.Coherent := by
  rw [parse?, Option.join_eq_some_iff, decode?] at hp
  split at hp
  · rename_i r e hd
    cases hp
    exact ensures_coherent _ _ _ hd c rfl
  · cases hp

/-! ## The record as fields -/

/-- A sample rate by its code, or in 24 bits of its own. -/
def rateFields (rate : Nat) : List BitField :=
  match frequencyIndex? rate with
  | some index => [.ofNat 4 index]
  | none => [.ofNat 4 15, .ofNat 24 rate]

/-- The fields of the record of a configuration, in order. -/
def fields (c : Config) : List BitField :=
  .ofNat 5 c.profile.objectType :: rateFields c.sampleRate ++
    [.ofNat 4 c.channels, .ofNat 3 0] ++
    if c.sbr then
      .ofNat 11 extensionMark :: .ofNat 5 sbrObject :: .ofNat 1 1 :: rateFields c.outputRate
    else []

theorem bits_rateFields (rate : Nat) :
    (rateFields rate).flatMap BitField.bits = rateBits rate := by
  rw [rateFields, rateBits]
  cases frequencyIndex? rate <;> simp

theorem bits_fields (c : Config) : c.fields.flatMap BitField.bits = c.bits := by
  have hflag : Bits.ofNat 1 1 = [true] := rfl
  rw [fields, bits]
  cases c.sbr <;> simp [bits_rateFields, hflag]

/-- The record is what a writer makes of these fields. -/
theorem bytes_eq_written (c : Config) : c.bytes = (BitWriter.putAll {} c.fields).bytes := by
  rw [BitWriter.bytes_putAll, bits_fields, bytes]

end Config

end Aac

end RealMedia
