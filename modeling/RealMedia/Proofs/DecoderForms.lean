import RealMedia.Proofs.ReadBack

/-! What a decoder accepts: exactly the byte strings of a form, whatever follows them. -/

namespace RealMedia

/-- A byte string behind its length in one byte. -/
def behind8 (t : Bytes) : Bytes := .ofNat t.length :: t

/-- A byte string behind its length in a big endian 16-bit word. -/
def behind16 (t : Bytes) : Bytes := bytes16 (.ofNat t.length) ++ t

/-- A byte string behind its length in a big endian 32-bit word. -/
def behind32 (t : Bytes) : Bytes := bytes32 (.ofNat t.length) ++ t

namespace Decoder

variable {α β : Type} {d : Decoder α} {f : α → Decoder β} {P Q R : Bytes → Prop} {b : Bytes}
  {c e : Cursor} {x : β} {m n : Nat}

/-- The byte strings of a length. -/
def Long (n : Nat) (b : Bytes) : Prop := b.length = n

/-- The byte strings of one form with those of another behind them. -/
def Then (P Q : Bytes → Prop) (b : Bytes) : Prop := ∃ u v, b = u ++ v ∧ P u ∧ Q v

/-- A success takes a byte string of the form, and no byte string of the form is refused. -/
structure Accepts (d : Decoder α) (P : Bytes → Prop) : Prop where
  taken : ∀ c a e, d c = .ok a e → ∃ b, c.rest = b ++ e.rest ∧ P b
  takes : ∀ pos b r, P b → ∃ a p, d ⟨pos, b ++ r⟩ = .ok a ⟨p, r⟩

theorem bind_eq_ok {ε σ : Type} {d : EStateM ε σ α} {f : α → EStateM ε σ β} {c e : σ} :
    (d >>= f) c = .ok x e ↔ ∃ a c', d c = .ok a c' ∧ f a c' = .ok x e := by
  change EStateM.bind d f c = .ok x e ↔ _
  unfold EStateM.bind
  constructor
  · intro h
    split at h
    · rename_i a c' hd
      exact ⟨a, c', hd, h⟩
    · cases h
  · rintro ⟨a, c', hd, hf⟩
    rw [hd]
    exact hf

theorem then_assoc : Then (Then P Q) R = Then P (Then Q R) := by
  funext b
  apply propext
  constructor
  · rintro ⟨_, w, rfl, ⟨u, v, rfl, hu, hv⟩, hw⟩
    exact ⟨u, v ++ w, List.append_assoc .., hu, v, w, rfl, hv, hw⟩
  · rintro ⟨u, _, rfl, hu, v, w, rfl, hv, hw⟩
    exact ⟨u ++ v, w, (List.append_assoc ..).symm, ⟨u, v, rfl, hu, hv⟩, hw⟩

theorem then_long : Then (Long m) (Long n) = Long (m + n) := by
  funext b
  apply propext
  constructor
  · rintro ⟨u, v, rfl, hu, hv⟩
    rw [Long, List.length_append, hu, hv]
  · intro hb
    have hb : b.length = m + n := hb
    refine ⟨b.take m, b.drop m, (List.take_append_drop m b).symm, ?_, ?_⟩
    · exact List.length_take_of_le (by omega)
    · rw [Long, List.length_drop]
      omega

theorem then_long_then : Then (Long m) (Then (Long n) P) = Then (Long (m + n)) P := by
  rw [← then_assoc, then_long]

theorem then_nothing : Then P (Long 0) = P := by
  funext b
  apply propext
  constructor
  · rintro ⟨u, v, rfl, hu, hv⟩
    rwa [List.eq_nil_of_length_eq_zero hv, List.append_nil]
  · intro hb
    exact ⟨b, [], (List.append_nil b).symm, hb, rfl⟩

theorem accepts_pure (a : α) : Accepts (pure a) (Long 0) where
  taken := by
    rintro c _ _ ⟨⟩
    exact ⟨[], rfl, rfl⟩
  takes := by
    intro pos b r hb
    rw [List.eq_nil_of_length_eq_zero hb]
    exact ⟨a, pos, rfl⟩

theorem Accepts.bind (hd : Accepts d P) (hf : ∀ a, Accepts (f a) Q) :
    Accepts (d >>= f) (Then P Q) where
  taken := by
    intro c x e h
    obtain ⟨a, c', hd', hf'⟩ := bind_eq_ok.1 h
    obtain ⟨u, hu, hp⟩ := hd.taken _ _ _ hd'
    obtain ⟨v, hv, hq⟩ := (hf a).taken _ _ _ hf'
    exact ⟨u ++ v, by rw [hu, hv, List.append_assoc], u, v, rfl, hp, hq⟩
  takes := by
    rintro pos _ r ⟨u, v, rfl, hu, hv⟩
    obtain ⟨a, p, hd'⟩ := hd.takes pos u (v ++ r) hu
    obtain ⟨x, q, hf'⟩ := (hf a).takes p v r hv
    refine ⟨x, q, bind_eq_ok.2 ⟨a, _, ?_, hf'⟩⟩
    rw [List.append_assoc]
    exact hd'

/-- A value made of what has been taken takes nothing more. -/
theorem Accepts.return (hd : Accepts d P) (g : α → β) : Accepts (d >>= fun a => pure (g a)) P := by
  have := hd.bind fun a => accepts_pure (g a)
  rwa [then_nothing] at this

theorem accepts_take (n : Nat) : Accepts (take n) (Long n) where
  taken := by
    intro c a e h
    unfold take at h
    split at h
    · rename_i r rest hs
      cases h
      obtain ⟨hr, hl⟩ := split?_eq_some_iff.1 hs
      exact ⟨a, hr, hl⟩
    · cases h
  takes := by
    rintro pos b r rfl
    exact ⟨_, _, yields_take b pos r⟩

theorem u8_eq_ok {w : UInt8} (h : u8 c = .ok w e) : c.rest = w :: e.rest := by
  unfold u8 at h
  split at h
  · rename_i hr
    cases h
    exact hr
  · cases h

/-- A success of a word tells which word stood there. -/
theorem be16_eq_ok {w : UInt16} (h : be16 c = .ok w e) : c.rest = bytes16 w ++ e.rest := by
  unfold be16 u16 at h
  split at h
  · rename_i p q rest hr
    cases h
    rw [hr, bytes16_word16]
    rfl
  · cases h

theorem be32_eq_ok {w : UInt32} (h : be32 c = .ok w e) : c.rest = bytes32 w ++ e.rest := by
  unfold be32 u32 at h
  split at h
  · rename_i p q r s rest hr
    cases h
    rw [hr, bytes32_word32]
    rfl
  · cases h

theorem fourCC_eq_ok {w : FourCC} (h : fourCC c = .ok w e) : c.rest = w.bytes ++ e.rest := by
  unfold fourCC at h
  split at h
  · rename_i p q r s rest hr
    cases h
    rw [hr]
    rfl
  · cases h

theorem accepts_be16 : Accepts be16 (Long 2) where
  taken c w e h := ⟨bytes16 w, be16_eq_ok h, rfl⟩
  takes := by
    intro pos b r hb
    match b, hb with
    | [p, q], _ =>
      have := yields_be16 (word16 p q) pos r
      rw [bytes16_word16] at this
      exact ⟨_, _, this⟩

theorem accepts_be32 : Accepts be32 (Long 4) where
  taken c w e h := ⟨bytes32 w, be32_eq_ok h, rfl⟩
  takes := by
    intro pos b r hb
    match b, hb with
    | [p, q, s, t], _ =>
      have := yields_be32 (word32 p q s t) pos r
      rw [bytes32_word32] at this
      exact ⟨_, _, this⟩

/-- Texts of up to 255 bytes behind their length. -/
def Text8 (b : Bytes) : Prop := ∃ t : Bytes, t.length < 256 ∧ b = behind8 t

def Text16 (b : Bytes) : Prop := ∃ t : Bytes, t.length < 65536 ∧ b = behind16 t

def Data32 (b : Bytes) : Prop := ∃ t : Bytes, t.length < 4294967296 ∧ b = behind32 t

theorem accepts_text8 : Accepts text8 Text8 where
  taken := by
    intro c x e h
    obtain ⟨n, c', hn, hrest⟩ := bind_eq_ok.1 h
    obtain ⟨b, hb, hlen⟩ := ((accepts_take n.toNat).return Utf8.decode).taken _ _ _ hrest
    have hlen : b.length = n.toNat := hlen
    have := n.toNat_lt
    refine ⟨behind8 b, ?_, b, by omega, rfl⟩
    rw [u8_eq_ok hn, hb, behind8, hlen, UInt8.ofNat_toNat, List.cons_append]
  takes := by
    rintro pos _ r ⟨t, ht, rfl⟩
    exact ⟨_, _, yields_text8 (by omega) pos r⟩

theorem accepts_text16 : Accepts text16 Text16 where
  taken := by
    intro c x e h
    obtain ⟨n, c', hn, hrest⟩ := bind_eq_ok.1 h
    obtain ⟨b, hb, hlen⟩ := ((accepts_take n.toNat).return Utf8.decode).taken _ _ _ hrest
    have hlen : b.length = n.toNat := hlen
    have := n.toNat_lt
    refine ⟨behind16 b, ?_, b, by omega, rfl⟩
    rw [be16_eq_ok hn, hb, behind16, hlen, UInt16.ofNat_toNat, List.append_assoc]
  takes := by
    rintro pos _ r ⟨t, ht, rfl⟩
    exact ⟨_, _, yields_text16 (by omega) pos r⟩

/-- A length of 32 bits, and as many bytes. -/
theorem accepts_data32 (g : Bytes → β) :
    Accepts (be32 >>= fun n => take n.toNat >>= fun b => pure (g b)) Data32 where
  taken := by
    intro c x e h
    obtain ⟨n, c', hn, hrest⟩ := bind_eq_ok.1 h
    obtain ⟨b, hb, hlen⟩ := ((accepts_take n.toNat).return g).taken _ _ _ hrest
    have hlen : b.length = n.toNat := hlen
    have := n.toNat_lt
    refine ⟨behind32 b, ?_, b, by omega, rfl⟩
    rw [be32_eq_ok hn, hb, behind32, hlen, UInt32.ofNat_toNat, List.append_assoc]
  takes := by
    rintro pos _ r ⟨t, ht, rfl⟩
    have hn : (UInt32.ofNat t.length).toNat = t.length := by
      rw [UInt32.toNat_ofNat']
      omega
    have htake := (yields_take t).return g
    rw [← hn] at htake
    exact ⟨_, _, (yields_be32 _).bind htake pos r⟩

/-- A byte string is decoded if it starts with one of the form. -/
theorem Accepts.decode_iff (hd : Accepts d P) :
    (∃ a, d.decode b = .ok a) ↔ ∃ u v, b = u ++ v ∧ P u := by
  unfold decode
  constructor
  · rintro ⟨a, h⟩
    split at h
    · rename_i e hok
      obtain ⟨u, hu, hp⟩ := hd.taken _ _ _ hok
      exact ⟨u, e.rest, hu, hp⟩
    · cases h
  · rintro ⟨u, v, rfl, hu⟩
    obtain ⟨a, p, hok⟩ := hd.takes 0 u v hu
    exact ⟨a, by rw [hok]⟩

/-- A form of a length is met by every byte string that is long enough. -/
theorem long_iff : (∃ u v, b = u ++ v ∧ Long n u) ↔ n ≤ b.length := by
  constructor
  · rintro ⟨u, v, rfl, hu⟩
    have hu : u.length = n := hu
    rw [List.length_append]
    omega
  · intro hn
    exact ⟨b.take n, b.drop n, (List.take_append_drop n b).symm, List.length_take_of_le hn⟩

end Decoder

namespace Container

open Decoder

theorem FileHeader.accepts_decoder : Accepts decoder (Long 8) := by
  have h := accepts_be32.bind fun v => accepts_be32.return fun n => FileHeader.mk v n
  rwa [then_long] at h

theorem DataHeader.accepts_decoder : Accepts decoder (Long 8) := by
  have h := accepts_be32.bind fun n => accepts_be32.return fun next => DataHeader.mk n next
  rwa [then_long] at h

theorem Properties.accepts_decoder : Accepts decoder (Long 40) := by
  have h : Accepts decoder _ := accepts_be32.bind fun _ => accepts_be32.bind fun _ =>
    accepts_be32.bind fun _ => accepts_be32.bind fun _ => accepts_be32.bind fun _ =>
      accepts_be32.bind fun _ => accepts_be32.bind fun _ => accepts_be32.bind fun _ =>
        accepts_be32.bind fun _ => accepts_be16.bind fun _ => accepts_be16.return _
  simpa only [then_long] using h

theorem Content.accepts_decoder :
    Accepts decoder (Then Text16 (Then Text16 (Then Text16 Text16))) :=
  accepts_text16.bind fun _ => accepts_text16.bind fun _ => accepts_text16.bind fun _ =>
    accepts_text16.return _

theorem MediaHeader.accepts_decoder :
    Accepts decoder (Then (Long 30) (Then Text8 (Then Text8 Data32))) := by
  have h : Accepts decoder _ := accepts_be16.bind fun _ => accepts_be32.bind fun _ =>
    accepts_be32.bind fun _ => accepts_be32.bind fun _ => accepts_be32.bind fun _ =>
      accepts_be32.bind fun _ => accepts_be32.bind fun _ => accepts_be32.bind fun _ =>
        accepts_text8.bind fun _ => accepts_text8.bind fun _ => accepts_data32 _
  simpa only [then_long_then] using h

end Container

end RealMedia
