import RealMedia.Proofs.ObjectChain
import RealMedia.Proofs.Opening

/-! The files that are opened: those whose headers follow the grammar of the container. -/

namespace RealMedia

open Container Decoder

variable {o : Options} {hs : Headers} {x : Object} {xs : List Object} {file b r : Bytes}
  {s t : Source} {d : Demultiplexer}

namespace Container

/-- The mark of the file header, in letters of either case. -/
def IsFileMark (id : FourCC) : Prop :=
  id.a = 0x2e ∧ id.b ∈ [0x52, 0x72] ∧ id.c ∈ [0x4d, 0x6d] ∧ id.d ∈ [0x46, 0x66]

/-- What the payload of an object that has a meaning must start with. -/
structure Object.Readable (x : Object) : Prop where
  properties : x.header.id = propertiesId → 40 ≤ x.payload.length
  /-- Four texts, each behind its length. -/
  content : x.header.id = contentId → ∃ title author copyright comment r : Bytes,
    (∀ t ∈ [title, author, copyright, comment], t.length < 65536) ∧
    x.payload = behind16 title ++ behind16 author ++ behind16 copyright ++ behind16 comment ++ r
  /-- Fields of thirty bytes, two texts and the data of the codec, each behind its length. -/
  media : x.header.id = mediaId → ∃ fields name mime data r : Bytes, fields.length = 30 ∧
    (∀ t ∈ [name, mime], t.length < 256) ∧ data.length < 4294967296 ∧
    x.payload = fields ++ behind8 name ++ behind8 mime ++ behind32 data ++ r

/-- A file header, whole objects that can be read, and the start of a data object. -/
structure Grammar (file : Bytes) (first : Object) (xs : List Object) (last : ObjectHeader)
    (behind : Bytes) : Prop where
  file_eq : file = first.bytes ++ xs.flatMap Object.bytes ++ last.bytes ++ behind
  mark : IsFileMark first.header.id
  first_whole : first.Whole
  first_long : 8 ≤ first.payload.length
  objects : ∀ x ∈ xs, x.header.id ≠ dataId ∧ x.Whole ∧ x.Readable
  last_data : last.id = dataId
  last_long : 8 ≤ behind.length

/-- A small letter is meant by itself and by its capital. -/
theorem lowerAscii_eq_letter {a l : UInt8} (hl : 0x61 ≤ l ∧ l ≤ 0x7a) :
    lowerAscii a = l ↔ a ∈ [l - 0x20, l] := by
  unfold lowerAscii
  split <;> grind

theorem lowerAscii_eq_dot {a : UInt8} : lowerAscii a = 0x2e ↔ a = 0x2e := by
  unfold lowerAscii
  split <;> grind

theorem isRealMedia_iff (id : FourCC) : isRealMedia (id.bytes ++ r) = true ↔ IsFileMark id := by
  have hmark : fileId.bytes.map lowerAscii = [0x2e, 0x72, 0x6d, 0x66] := by decide
  obtain ⟨a, b, c, d⟩ := id
  have hb := lowerAscii_eq_letter (a := b) (l := 0x72) (by decide)
  have hc := lowerAscii_eq_letter (a := c) (l := 0x6d) (by decide)
  have hd := lowerAscii_eq_letter (a := d) (l := 0x66) (by decide)
  change decide ([a, b, c, d].map lowerAscii = fileId.bytes.map lowerAscii) = true ↔ _
  rw [hmark]
  simp only [decide_eq_true_eq, List.map_cons, List.map_nil, List.cons.injEq, and_true,
    lowerAscii_eq_dot, hb, hc, hd]
  rfl

theorem Properties.decode_iff :
    (∃ p, Properties.decoder.decode b = .ok p) ↔ 40 ≤ b.length :=
  Properties.accepts_decoder.decode_iff.trans long_iff

theorem Content.decode_iff : (∃ c, Content.decoder.decode b = .ok c) ↔
    ∃ title author copyright comment r : Bytes,
      (∀ t ∈ [title, author, copyright, comment], t.length < 65536) ∧
      b = behind16 title ++ behind16 author ++ behind16 copyright ++ behind16 comment ++ r := by
  rw [Content.accepts_decoder.decode_iff]
  constructor
  · rintro ⟨_, r, rfl, _, _, rfl, ⟨title, ht, rfl⟩, _, _, rfl, ⟨author, ha, rfl⟩, _, _, rfl,
      ⟨copyright, hc, rfl⟩, ⟨comment, hm, rfl⟩⟩
    refine ⟨title, author, copyright, comment, r, ?_, ?_⟩
    · simpa using ⟨ht, ha, hc, hm⟩
    · simp only [List.append_assoc]
  · rintro ⟨title, author, copyright, comment, r, hfit, rfl⟩
    refine ⟨_, r, rfl, ?_⟩
    simp only [List.append_assoc]
    exact ⟨_, _, rfl, ⟨title, hfit _ (by simp), rfl⟩, _, _, rfl, ⟨author, hfit _ (by simp), rfl⟩,
      _, _, rfl, ⟨copyright, hfit _ (by simp), rfl⟩, ⟨comment, hfit _ (by simp), rfl⟩⟩

theorem MediaHeader.decode_iff : (∃ m, MediaHeader.decoder.decode b = .ok m) ↔
    ∃ fields name mime data r : Bytes, fields.length = 30 ∧
      (∀ t ∈ [name, mime], t.length < 256) ∧ data.length < 4294967296 ∧
      b = fields ++ behind8 name ++ behind8 mime ++ behind32 data ++ r := by
  rw [MediaHeader.accepts_decoder.decode_iff]
  constructor
  · rintro ⟨_, r, rfl, fields, _, rfl, hf, _, _, rfl, ⟨name, hn, rfl⟩, _, _, rfl,
      ⟨mime, hm, rfl⟩, ⟨data, hd, rfl⟩⟩
    refine ⟨fields, name, mime, data, r, hf, ?_, hd, ?_⟩
    · simpa using ⟨hn, hm⟩
    · simp only [List.append_assoc]
  · rintro ⟨fields, name, mime, data, r, hf, hfit, hd, rfl⟩
    refine ⟨_, r, rfl, ?_⟩
    simp only [List.append_assoc]
    exact ⟨fields, _, rfl, hf, _, _, rfl, ⟨name, hfit _ (by simp), rfl⟩, _, _, rfl,
      ⟨mime, hfit _ (by simp), rfl⟩, ⟨data, hd, rfl⟩⟩

theorem Grammar.rest_eq {first : Object} {last : ObjectHeader} {k : DataHeader}
    (hg : Grammar file first xs last (k.bytes ++ r)) :
    (Source.ofBytes file).rest = first.bytes ++ (chainBytes xs last k ++ r) := by
  rw [Source.ofBytes, hg.file_eq]
  simp only [chainBytes, List.append_assoc]

/-- What is left of the file behind the headers of its data. -/
theorem Grammar.rest_behind {first : Object} {last : ObjectHeader} {k : DataHeader}
    (hg : Grammar file first xs last (k.bytes ++ r)) :
    ((Source.ofBytes file).advance (first.bytes.length + (chainBytes xs last k).length)).rest =
      r := by
  rw [← Source.advance_advance]
  exact Source.rest_advance (Source.rest_advance hg.rest_eq)

end Container

theorem decodePayload_isOk {α : Type} {d : Decoder α} :
    (∃ a, decodePayload d b = .ok a) ↔ ∃ a, d.decode b = .ok a := by
  unfold decodePayload
  cases d.decode b with
  | ok a =>
    constructor
    · intro _
      exact ⟨a, rfl⟩
    · intro _
      exact ⟨a, rfl⟩
  | error e =>
    constructor
    · rintro ⟨a, ha⟩
      cases ha
    · rintro ⟨a, ha⟩
      cases ha

namespace Headers

theorem add_isOk (o : Options) (hs : Headers) (x : Object) :
    (∃ r, hs.add o x = .ok r) ↔ x.Readable := by
  have hcontent : contentId ≠ propertiesId := by decide
  have hmedia : mediaId ≠ propertiesId ∧ mediaId ≠ contentId := by decide
  have hbind : ∀ {α : Type} {d : Decoder α} {g : α → Headers × List Note},
      (∃ r, (decodePayload d x.payload >>= fun a => pure (g a)) = .ok r) ↔
        ∃ a, d.decode x.payload = .ok a := by
    intro α d g
    rw [← decodePayload_isOk]
    cases decodePayload d x.payload <;> simp [bind, Except.bind, pure, Except.pure]
  by_cases hp : x.header.id = propertiesId
  · have hadd : hs.add o x = _ := if_pos hp
    rw [hadd, hbind, Properties.decode_iff]
    constructor
    · intro h
      refine ⟨fun _ => h, ?_, ?_⟩
      · intro hi
        exact absurd (hi.symm.trans hp) hcontent
      · intro hi
        exact absurd (hi.symm.trans hp) hmedia.1
    · intro h
      exact h.properties hp
  by_cases hc : x.header.id = contentId
  · have hadd : hs.add o x = _ := (if_neg hp).trans (if_pos hc)
    rw [hadd, hbind, Content.decode_iff]
    constructor
    · intro h
      refine ⟨fun hi => absurd hi hp, fun _ => h, ?_⟩
      intro hi
      exact absurd (hi.symm.trans hc) hmedia.2
    · intro h
      exact h.content hc
  by_cases hm : x.header.id = mediaId
  · have hadd : hs.add o x = _ := (if_neg hp).trans ((if_neg hc).trans (if_pos hm))
    rw [hadd, hbind, MediaHeader.decode_iff]
    constructor
    · intro h
      exact ⟨fun hi => absurd hi hp, fun hi => absurd hi hc, fun _ => h⟩
    · intro h
      exact h.media hm
  · have hadd : hs.add o x = _ := (if_neg hp).trans ((if_neg hc).trans (if_neg hm))
    rw [hadd]
    constructor
    · intro _
      exact ⟨fun hi => absurd hi hp, fun hi => absurd hi hc, fun hi => absurd hi hm⟩
    · intro _
      exact ⟨_, rfl⟩

theorem addAll_isOk (o : Options) (hs : Headers) (xs : List Object) :
    (∃ r, (hs.addAll o xs).1 = .ok r) ↔ ∀ x ∈ xs, x.Readable := by
  induction xs generalizing hs with
  | nil => simp [addAll]
  | cons x xs ih =>
    rw [List.forall_mem_cons, ← add_isOk o hs, addAll]
    cases hs.add o x with
    | error e => simp
    | ok r => simp [ih]

end Headers

namespace Demultiplexer

theorem decodePayload_fileHeader :
    (∃ f, decodePayload FileHeader.decoder b = .ok f) ↔ 8 ≤ b.length :=
  decodePayload_isOk.trans (FileHeader.accepts_decoder.decode_iff.trans long_iff)

theorem readFileHeader_iff {f : FileHeader} :
    readFileHeader s = .ok (f, t) ↔ ∃ (x : Object) (r : Bytes),
      s.rest = x.bytes ++ r ∧ x.Whole ∧ decodePayload FileHeader.decoder x.payload = .ok f ∧
        t = s.advance x.bytes.length := by
  unfold readFileHeader
  constructor
  · intro hf
    split at hf
    · cases hf
    · rename_i h u ho
      obtain ⟨r, hs, rfl⟩ := ObjectHeader.read_iff.1 ho
      split at hf
      · cases hf
      · rename_i payload v hp
        obtain ⟨hwhole, r, hrest, rfl⟩ := readPayload_iff.1 hp
        cases hd : decodePayload FileHeader.decoder payload with
        | error e =>
          rw [hd] at hf
          cases hf
        | ok g =>
          rw [hd] at hf
          cases hf
          rw [Source.rest_advance hs] at hrest
          refine ⟨⟨h, payload⟩, r, ?_, hwhole, hd, ?_⟩
          · rw [hs, hrest, Object.bytes, List.append_assoc]
          · rw [Source.advance_advance, Object.bytes, List.length_append]
  · rintro ⟨x, r, hs, hwhole, hf, rfl⟩
    rw [Object.bytes, List.append_assoc] at hs
    have ho := ObjectHeader.read_iff.2 ⟨_, hs, rfl⟩
    have hp := readPayload_iff.2 ⟨hwhole, r, Source.rest_advance hs, rfl⟩
    rw [ho]
    dsimp only
    rw [hp]
    simp only [hf, Except.map, Source.advance_advance, Object.bytes, List.length_append]

/-- A file is opened if it follows the grammar, at the first packet. -/
theorem ofBytes_iff_grammar : (ofBytes o file).1 = .ok d ↔ ∃ first xs last k behind f hs,
    Grammar file first xs last (DataHeader.bytes k ++ behind) ∧
      decodePayload FileHeader.decoder first.payload = .ok f ∧
      (Headers.addAll o {} xs).1 = .ok hs ∧
      d = opened o f hs k
        ((Source.ofBytes file).advance (first.bytes.length + (chainBytes xs last k).length)) := by
  constructor
  · intro hd
    obtain ⟨hmark, f, t, xs, k, u, hs, hfile, hchain, hadd, rfl⟩ := ofBytes_eq_ok.1 hd
    obtain ⟨first, r, heq, hwhole, hf, rfl⟩ := readFileHeader_iff.1 hfile
    obtain ⟨last, behind, hc, hrest, rfl⟩ := readChain_iff.1 hchain
    rw [Source.rest_advance heq] at hrest
    have heq : file = first.bytes ++ r := heq
    have hreadable := (Headers.addAll_isOk o {} xs).1 ⟨hs, hadd⟩
    refine ⟨first, xs, last, k, behind, f, hs, ⟨?_, ?_, hwhole, ?_, ?_, hc.last, ?_⟩, hf, hadd, ?_⟩
    · rw [heq, hrest]
      simp only [chainBytes, List.append_assoc]
    · rw [heq, Object.bytes, ObjectHeader.bytes, List.append_assoc, List.append_assoc,
        List.append_assoc] at hmark
      exact (isRealMedia_iff _).1 hmark
    · exact decodePayload_fileHeader.1 ⟨f, hf⟩
    · intro x hx
      exact ⟨(hc.objects x hx).1, (hc.objects x hx).2, hreadable x hx⟩
    · rw [List.length_append, DataHeader.length_bytes]
      omega
    · rw [Source.advance_advance]
  · rintro ⟨first, xs, last, k, behind, f, hs, hg, hf, hadd, rfl⟩
    have hfile := hg.rest_eq
    have hread := readFileHeader_iff.2 ⟨first, _, hfile, hg.first_whole, hf, rfl⟩
    have hc : Chained xs last :=
      ⟨fun x hx => ⟨(hg.objects x hx).1, (hg.objects x hx).2.1⟩, hg.last_data⟩
    have hchain := readChain_iff.2 ⟨last, behind, hc, Source.rest_advance hfile, rfl⟩
    rw [Source.advance_advance] at hchain
    refine ofBytes_eq_ok.2 ⟨?_, f, _, xs, k, _, hs, hread, hchain, hadd, rfl⟩
    rw [hg.file_eq, Object.bytes, ObjectHeader.bytes]
    simp only [List.append_assoc]
    exact (isRealMedia_iff _).2 hg.mark

/-- A file that follows the grammar is opened. -/
theorem opened_of_grammar {first : Object} {last : ObjectHeader} (o : Options)
    (hg : Grammar file first xs last b) : ∃ k behind f hs,
      b = DataHeader.bytes k ++ behind ∧
      decodePayload FileHeader.decoder first.payload = .ok f ∧
      (Headers.addAll o {} xs).1 = .ok hs ∧
      (ofBytes o file).1 = .ok (opened o f hs k
        ((Source.ofBytes file).advance (first.bytes.length + (chainBytes xs last k).length))) := by
  obtain ⟨k, behind, rfl⟩ := DataHeader.exists_bytes hg.last_long
  obtain ⟨f, hf⟩ := decodePayload_fileHeader.2 hg.first_long
  obtain ⟨hs, hadd⟩ := (Headers.addAll_isOk o {} xs).2 fun x hx => (hg.objects x hx).2.2
  exact ⟨k, behind, f, hs, rfl, hf, hadd,
    ofBytes_iff_grammar.2 ⟨first, xs, last, k, behind, f, hs, hg, hf, hadd, rfl⟩⟩

theorem ofBytes_isOk_iff : (∃ d, (ofBytes o file).1 = .ok d) ↔
    ∃ first xs last behind, Grammar file first xs last behind := by
  constructor
  · rintro ⟨d, hd⟩
    obtain ⟨first, xs, last, k, behind, f, hs, hg, -⟩ := ofBytes_iff_grammar.1 hd
    exact ⟨first, xs, last, _, hg⟩
  · rintro ⟨first, xs, last, behind, hg⟩
    obtain ⟨k, r, f, hs, -, -, -, hopen⟩ := opened_of_grammar o hg
    exact ⟨_, hopen⟩

/-- A file is opened if it follows the grammar, and else refused for its headers. -/
theorem opens_iff_grammar (o : Options) (file : Bytes) :
    ((∃ d, (ofBytes o file).1 = .ok d) ↔
      ∃ first xs last behind, Grammar file first xs last behind) ∧
    ((∃ fault, (ofBytes o file).1 = .error (.header fault)) ↔
      ¬ ∃ first xs last behind, Grammar file first xs last behind) := by
  refine ⟨ofBytes_isOk_iff, ?_⟩
  rw [← ofBytes_isOk_iff (o := o)]
  constructor
  · rintro ⟨fault, he⟩ ⟨d, hd⟩
    rw [he] at hd
    cases hd
  · intro hnot
    cases hr : (ofBytes o file).1 with
    | ok d => exact absurd ⟨d, hr⟩ hnot
    | error e =>
      obtain ⟨fault, rfl⟩ := ofBytes_fault hr
      exact ⟨fault, rfl⟩

end Demultiplexer

end RealMedia
