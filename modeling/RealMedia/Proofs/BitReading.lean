import RealMedia.Bits.Decoder
import RealMedia.Proofs.BitStrings
import RealMedia.Proofs.DecoderForms

/-! What decoders of bit fields take, what they make of it, and where they run out of bits. -/

namespace RealMedia.BitDecoder

variable {α β : Type} {d : BitDecoder α} {f : α → BitDecoder β} {a : α} {x : β} {b c r u v : Bits}
  {P : α → Prop} {Q : β → Prop} {n : Nat}

theorem map_of_ok {c e : BitCursor} (hd : d c = .ok a e) (g : α → β) :
    (g <$> d) c = .ok (g a) e := by
  change EStateM.map g d c = _
  rw [EStateM.map, hd]

theorem map_of_error {c e : BitCursor} {o : OutOfData} (hd : d c = .error o e) (g : α → β) :
    (g <$> d) c = .error o e := by
  change EStateM.map g d c = _
  rw [EStateM.map, hd]

theorem bind_of_error {c e : BitCursor} {o : OutOfData} (hd : d c = .error o e) :
    (d >>= f) c = .error o e := by
  change EStateM.bind d f c = _
  rw [EStateM.bind, hd]

theorem take_append (a r : Bits) (p : Nat) :
    take a.length ⟨p, a ++ r⟩ = .ok a ⟨p + a.length, r⟩ := by
  simp only [take, split?_append]

theorem field_append (a r : Bits) (p : Nat) :
    field a.length ⟨p, a ++ r⟩ = .ok (Bits.toNat a) ⟨p + a.length, r⟩ :=
  map_of_ok (take_append a r p) Bits.toNat

/-! ## What is made of the bits -/

/-- Whatever the decoder makes of its bits has the property. -/
def Ensures (d : BitDecoder α) (P : α → Prop) : Prop := ∀ c a e, d c = .ok a e → P a

theorem ensures_pure (ha : P a) : Ensures (pure a) P := by
  intro c x e h
  cases h
  exact ha

theorem Ensures.bind (hd : Ensures d P) (hf : ∀ a, P a → Ensures (f a) Q) :
    Ensures (d >>= f) Q := by
  intro c x e h
  obtain ⟨a, c', ha, hx⟩ := Decoder.bind_eq_ok.1 h
  exact hf a (hd c a c' ha) c' x e hx

theorem ensures_bind (hf : ∀ a, Ensures (f a) Q) : Ensures (d >>= f) Q := by
  intro c x e h
  obtain ⟨a, c', -, hx⟩ := Decoder.bind_eq_ok.1 h
  exact hf a c' x e hx

theorem ensures_field (n : Nat) : Ensures (field n) (· < 2 ^ n) := by
  intro c v e h
  change EStateM.map Bits.toNat (take n) c = _ at h
  rw [EStateM.map] at h
  split at h
  · rename_i bs c' htake
    cases h
    rw [take] at htake
    split at htake
    · rename_i a rest hsplit
      cases htake
      have hlen := (split?_eq_some_iff.1 hsplit).2
      rw [← hlen]
      exact Bits.toNat_lt
    · cases htake
  · cases h

/-! ## The bits that are taken -/

/-- The decoder takes exactly these bits, whatever follows them, and makes this value of them. -/
def Yields (d : BitDecoder α) (b : Bits) (a : α) : Prop :=
  ∀ pos r, d ⟨pos, b ++ r⟩ = .ok a ⟨pos + b.length, r⟩

theorem yields_pure (a : α) : Yields (pure a) [] a := fun _ _ => rfl

theorem Yields.bind (hd : Yields d b a) (hf : Yields (f a) c x) : Yields (d >>= f) (b ++ c) x := by
  intro pos r
  refine Decoder.bind_eq_ok.2 ⟨a, ⟨pos + b.length, c ++ r⟩, ?_, ?_⟩
  · rw [List.append_assoc]
    exact hd pos (c ++ r)
  · rw [hf, List.length_append, Nat.add_assoc]

theorem Yields.return (hd : Yields d b a) (g : α → β) :
    Yields (d >>= fun a => pure (g a)) b (g a) := by
  have hb := hd.bind (f := fun a => pure (g a)) (yields_pure (g a))
  rwa [List.append_nil] at hb

/-- What a decoder leaves is left to the rest of the decoding. -/
theorem leads_of_ok {c e : BitCursor} (hd : d c = .ok a e) (hf : ∃ e', f a e = .ok x e') :
    ∃ e', (d >>= f) c = .ok x e' := by
  obtain ⟨e', he⟩ := hf
  exact ⟨e', Decoder.bind_eq_ok.2 ⟨a, e, hd, he⟩⟩

theorem Yields.leads (hd : Yields d b a) {pos : Nat}
    (hf : ∃ e, f a ⟨pos + b.length, r⟩ = .ok x e) : ∃ e, (d >>= f) ⟨pos, b ++ r⟩ = .ok x e :=
  leads_of_ok (hd pos r) hf

theorem yields_field (n v : Nat) : Yields (field n) (Bits.ofNat n v) (v % 2 ^ n) := by
  intro pos r
  have hread := field_append (Bits.ofNat n v) r pos
  rw [Bits.toNat_ofNat] at hread
  simpa only [Bits.length_ofNat] using hread

theorem yields_flag (x : Bool) : Yields flag [x] x := fun _ _ => rfl

theorem Yields.optional (hd : Yields d b a) : Yields (optional d) b (some a) := by
  intro pos r
  simp only [BitDecoder.optional, hd pos r]

/-! ## Codes -/

/-- The bits are a code of the value: they are taken whatever follows them, and where only a part of
them is left the decoder runs out of bits. -/
structure Codes (d : BitDecoder α) (b : Bits) (a : α) : Prop where
  yields : Yields d b a
  short : ∀ pos u v, b = u ++ v → v ≠ [] → ∃ e c, d ⟨pos, u⟩ = .error e c

theorem codes_pure (a : α) : Codes (pure a) [] a where
  yields := yields_pure a
  short := by
    intro pos u v hb hv
    exact absurd (List.append_eq_nil_iff.1 hb.symm).2 hv

/-- A code behind another one is a code. -/
theorem Codes.bind (hd : Codes d b a) (hf : Codes (f a) c x) : Codes (d >>= f) (b ++ c) x where
  yields := hd.yields.bind hf.yields
  short := by
    intro pos u v hb hv
    change ∃ e r, EStateM.bind d f ⟨pos, u⟩ = .error e r
    -- The bits end either in the first code or behind it.
    have hbehind : ∀ w, u = b ++ w → c = w ++ v →
        ∃ e r, EStateM.bind d f ⟨pos, u⟩ = .error e r := by
      rintro w rfl hc
      obtain ⟨e, r, he⟩ := hf.short (pos + b.length) w v hc hv
      refine ⟨e, r, ?_⟩
      rw [EStateM.bind, hd.yields pos w]
      exact he
    rcases List.append_eq_append_iff.1 hb with ⟨w, hu, hc⟩ | ⟨w, hbu, hvw⟩
    · exact hbehind w hu hc
    · by_cases hw : w = []
      · subst hw
        rw [List.append_nil] at hbu
        exact hbehind [] (by rw [hbu, List.append_nil]) hvw.symm
      · obtain ⟨e, r, he⟩ := hd.short pos u w hbu hw
        exact ⟨e, r, bind_of_error he⟩

theorem Codes.return (hd : Codes d b a) (g : α → β) :
    Codes (d >>= fun a => pure (g a)) b (g a) := by
  have hb := hd.bind (f := fun a => pure (g a)) (codes_pure (g a))
  rwa [List.append_nil] at hb

theorem codes_take (b : Bits) : Codes (take b.length) b b where
  yields pos r := take_append b r pos
  short := by
    intro pos u v hb hv
    have hpos := List.length_pos_iff.2 hv
    have hnone : split? b.length u = none := by
      rw [split?_eq_none_iff, hb, List.length_append]
      omega
    simp only [take, hnone]
    exact ⟨_, _, rfl⟩

theorem codes_skip (b : Bits) : Codes (skip b.length) b () := (codes_take b).return _

theorem codes_field (n v : Nat) : Codes (field n) (Bits.ofNat n v) (v % 2 ^ n) where
  yields := yields_field n v
  short := by
    intro pos u v' hb hv
    have htake := codes_take (Bits.ofNat n v)
    rw [Bits.length_ofNat] at htake
    obtain ⟨e, c, he⟩ := htake.short pos u v' hb hv
    exact ⟨e, c, map_of_error he Bits.toNat⟩

/-- A number that fits is a code of itself. -/
theorem codes_number {v : Nat} (hv : v < 2 ^ n) : Codes (field n) (Bits.ofNat n v) v := by
  have hcode := codes_field n v
  rwa [Nat.mod_eq_of_lt hv] at hcode

variable {l : Bytes}

/-- Bytes whose bits begin with a code are decoded. -/
theorem Codes.decode?_eq (hd : Codes d b a) (hl : Bits.ofBytes l = b ++ r) :
    d.decode? l = some a := by
  rw [decode?, hl, hd.yields]

/-- Bytes whose bits are only a part of a code are not. -/
theorem Codes.decode?_short (hd : Codes d b a) (hl : b = Bits.ofBytes l ++ v) (hv : v ≠ []) :
    d.decode? l = none := by
  obtain ⟨e, c, he⟩ := hd.short 0 _ v hl hv
  rw [decode?, he]

end RealMedia.BitDecoder
