import RealMedia.Container.Chain
import RealMedia.Container.Draft
import RealMedia.Proofs.TextRoundTrip

/-! What is read back from written words, texts and headers. -/

namespace RealMedia

theorem length_encode (s : String) : (Utf8.encode s).length = s.utf8ByteSize := by
  rw [Utf8.encode, ByteArray.toList, toList_loop]
  simp

namespace Decoder

variable {α β : Type} {d : Decoder α} {f : α → Decoder β} {a : α} {x : β} {b c r : Bytes}

/-- The decoder takes exactly these bytes, whatever follows them, and makes this value of them. -/
def Yields (d : Decoder α) (b : Bytes) (a : α) : Prop :=
  ∀ pos r, d ⟨pos, b ++ r⟩ = .ok a ⟨pos + b.length, r⟩

theorem yields_pure (a : α) : Yields (pure a) [] a := fun _ _ => rfl

theorem Yields.bind (hd : Yields d b a) (hf : Yields (f a) c x) : Yields (d >>= f) (b ++ c) x := by
  intro pos r
  have hrest := hf (pos + b.length) r
  rw [Nat.add_assoc, ← List.length_append] at hrest
  change EStateM.bind d f ⟨pos, b ++ c ++ r⟩ = _
  rw [List.append_assoc, EStateM.bind, hd pos (c ++ r)]
  exact hrest

theorem Yields.return (hd : Yields d b a) (g : α → β) :
    Yields (d >>= fun a => pure (g a)) b (g a) := by
  have hb := hd.bind (f := fun a => pure (g a)) (yields_pure (g a))
  rwa [List.append_nil] at hb

theorem yields_take (b : Bytes) : Yields (take b.length) b b := by
  intro pos r
  simp only [take, split?_append]

theorem yields_u8 (w : UInt8) : Yields u8 [w] w := fun _ _ => rfl

theorem yields_be16 (w : UInt16) : Yields be16 (bytes16 w) w := by
  intro pos r
  change EStateM.Result.ok _ _ = _
  simp only [word16_bytes16]
  rfl

theorem yields_be32 (w : UInt32) : Yields be32 (bytes32 w) w := by
  intro pos r
  change EStateM.Result.ok _ _ = _
  simp only [word32_bytes32]
  rfl

theorem yields_fourCC (f : FourCC) : Yields fourCC f.bytes f := fun _ _ => rfl

theorem yields_zero16 : Yields be16 (zeros 2) 0 := yields_be16 0

theorem yields_zero32 : Yields be32 (zeros 4) 0 := yields_be32 0

theorem yields_text8 (hb : b.length ≤ 255) :
    Yields text8 ([.ofNat b.length] ++ b) (Utf8.decode b) := by
  refine (yields_u8 _).bind ?_
  have hn : (UInt8.ofNat b.length).toNat = b.length := by
    rw [UInt8.toNat_ofNat']
    omega
  rw [hn]
  exact (yields_take b).return _

theorem yields_text16 (hb : b.length ≤ 65535) :
    Yields text16 (bytes16 (.ofNat b.length) ++ b) (Utf8.decode b) := by
  refine (yields_be16 _).bind ?_
  have hn : (UInt16.ofNat b.length).toNat = b.length := by
    rw [UInt16.toNat_ofNat']
    omega
  rw [hn]
  exact (yields_take b).return _

/-- The decoder makes this value of the bytes, of which some may be left. -/
def Leads (d : Decoder α) (b : Bytes) (a : α) : Prop := ∀ pos, ∃ c, d ⟨pos, b⟩ = .ok a c

theorem leads_pure (a : α) (b : Bytes) : Leads (pure a) b a := fun _ => ⟨_, rfl⟩

theorem Yields.leads (hd : Yields d b a) (hf : Leads (f a) c x) : Leads (d >>= f) (b ++ c) x := by
  intro pos
  change ∃ e, EStateM.bind d f ⟨pos, b ++ c⟩ = .ok x e
  rw [EStateM.bind, hd pos c]
  exact hf _

theorem leads_skip {n : Nat} {g : Unit → Decoder β} (hb : b.length = n)
    (hg : ∀ u, Leads (g u) c x) : Leads (skip n >>= g) (b ++ c) x := by
  subst hb
  have hskip : Yields (skip b.length) b () := (yields_take b).return _
  exact hskip.leads (hg ())

theorem leads_rest {g : Bytes → Decoder β} (hg : Leads (g b) b x) : Leads (rest >>= g) b x := hg

theorem decode_of_leads (hd : Leads d b a) : d.decode b = .ok a := by
  obtain ⟨c, hc⟩ := hd 0
  rw [decode, hc]

theorem decode_of_yields (hd : Yields d b a) : d.decode b = .ok a := by
  have := hd 0 []
  rw [List.append_nil] at this
  simp only [decode, this]

end Decoder

open Decoder

theorem Source.read_of_yields {α : Type} {d : Decoder α} {b r : Bytes} {a : α} {s : Source}
    (hd : Yields d b a) (hs : s.rest = b ++ r) : s.read d = (some a, s.advance b.length) := by
  have := hd 0 r
  rw [Source.read, hs, this, Nat.zero_add]

theorem Source.rest_advance {b r : Bytes} {s : Source} (hs : s.rest = b ++ r) :
    (s.advance b.length).rest = r := by
  simp only [advance, hs, List.drop_left]

namespace Container

theorem ObjectHeader.yields_bytes (h : ObjectHeader) : Yields decoder h.bytes h := by
  rw [bytes, List.append_assoc]
  exact (yields_fourCC _).bind ((yields_be32 _).bind ((yields_be16 _).return _))

theorem PacketHeader.yields_bytes (h : PacketHeader) : Yields decoder h.bytes h := by
  have hb : h.bytes = bytes16 h.version ++ (bytes16 h.length ++ (bytes16 h.stream ++
      (bytes32 h.timestamp ++ ([h.reserved] ++ [h.flags])))) := by simp [bytes]
  rw [hb]
  exact (yields_be16 _).bind ((yields_be16 _).bind ((yields_be16 _).bind ((yields_be32 _).bind
    ((yields_u8 _).bind ((yields_u8 _).return _)))))

theorem DataHeader.yields_bytes (n : UInt32) : Yields decoder (bytes32 n ++ zeros 4) ⟨n, 0⟩ :=
  (yields_be32 n).bind (yields_zero32.return _)

theorem FileHeader.yields_bytes (n : UInt32) : Yields decoder (zeros 4 ++ bytes32 n) ⟨0, n⟩ :=
  yields_zero32.bind ((yields_be32 n).return _)

namespace Draft

/-- The description of a stream as it is read back. -/
def mediaHeader (stream : UInt16) (mime : String) (typeData : Bytes) : MediaHeader :=
  { stream, maxBitRate := 0, avgBitRate := 0, maxPacketSize := 0, avgPacketSize := 0
    startTime := 0, preroll := 0, duration := 0, name := Utf8.decode []
    mime := Utf8.decode (Utf8.encode mime), typeData }

theorem yields_mediaBytes {stream : UInt16} {mime : String} {typeData : Bytes}
    (hm : (Utf8.encode mime).length ≤ 255) (ht : typeData.length < 4294967296) :
    Yields MediaHeader.decoder (mediaBytes stream mime typeData)
      (mediaHeader stream mime typeData) := by
  have hb : mediaBytes stream mime typeData = bytes16 stream ++ (zeros 4 ++ (zeros 4 ++ (zeros 4 ++
      (zeros 4 ++ (zeros 4 ++ (zeros 4 ++ (zeros 4 ++ (([.ofNat ([] : Bytes).length] ++ []) ++
        (([.ofNat (Utf8.encode mime).length] ++ Utf8.encode mime) ++
          (bytes32 (.ofNat typeData.length) ++ typeData)))))))))) := by
    simp only [mediaBytes, List.append_assoc]
    rfl
  have hn : (UInt32.ofNat typeData.length).toNat = typeData.length := by
    rw [UInt32.toNat_ofNat']
    omega
  rw [hb]
  refine (yields_be16 _).bind (yields_zero32.bind (yields_zero32.bind (yields_zero32.bind
    (yields_zero32.bind (yields_zero32.bind (yields_zero32.bind (yields_zero32.bind
      ((yields_text8 (by simp)).bind ((yields_text8 hm).bind ((yields_be32 _).bind ?_))))))))))
  rw [hn]
  exact (yields_take typeData).return _

/-- The properties of a drafted file, as they are read back. -/
def properties (d : Draft) : Properties :=
  { maxBitRate := 0, avgBitRate := 0, maxPacketSize := 0, avgPacketSize := 0
    packets := .ofNat d.sections.flatten.length, duration := d.duration, preroll := 0
    indexOffset := 0, dataOffset := 0, streams := .ofNat d.streams, flags := 0 }

theorem yields_propertiesBytes (d : Draft) :
    Yields Properties.decoder d.propertiesBytes d.properties := by
  have hb : d.propertiesBytes = zeros 4 ++ (zeros 4 ++ (zeros 4 ++ (zeros 4 ++
      (bytes32 (.ofNat d.sections.flatten.length) ++ (bytes32 d.duration ++ (zeros 4 ++
        (zeros 4 ++ (zeros 4 ++ (bytes16 (.ofNat d.streams) ++ zeros 2))))))))) := by
    simp only [propertiesBytes, List.append_assoc]
    rfl
  rw [hb]
  exact yields_zero32.bind (yields_zero32.bind (yields_zero32.bind (yields_zero32.bind
    ((yields_be32 _).bind ((yields_be32 _).bind (yields_zero32.bind (yields_zero32.bind
      (yields_zero32.bind ((yields_be16 _).bind (yields_zero16.return _))))))))))

theorem yields_text16Bytes {s : String} (hs : (Utf8.encode s).length ≤ 65535) :
    Yields text16 (text16Bytes s) s := by
  have hy := yields_text16 hs
  rwa [Utf8.decode_encode] at hy

theorem yields_contentBytes {c : Content} (ht : (Utf8.encode c.title).length ≤ 65535)
    (ha : (Utf8.encode c.author).length ≤ 65535) (hc : (Utf8.encode c.copyright).length ≤ 65535)
    (hm : (Utf8.encode c.comment).length ≤ 65535) :
    Yields Content.decoder (contentBytes c) c := by
  have hb : contentBytes c = text16Bytes c.title ++ (text16Bytes c.author ++
      (text16Bytes c.copyright ++ text16Bytes c.comment)) := by
    simp only [contentBytes, List.append_assoc]
  rw [hb]
  exact (yields_text16Bytes ht).bind ((yields_text16Bytes ha).bind ((yields_text16Bytes hc).bind
    ((yields_text16Bytes hm).return _)))

end Draft

end Container

end RealMedia
