import RealMedia.Proofs.Ac3Frames
import RealMedia.Proofs.StreamIndependence

/-!
Swapped AC3 in a file: the frames of a stream come out as they went in, wherever their bytes are cut
into packets, and whatever other streams lie between.
-/

namespace RealMedia

open Container Container.Draft

variable {o : Options} {ws : List Written} {id : Nat} {ss : List Step} {m : Description}
  {c : FourCC} {ts : List Track} {t : Track} {xs : List Ac3.Frame}

/-- The code is "dnet", each letter in either case. -/
def FourCC.IsDnet (f : FourCC) : Prop :=
  f.a ∈ [0x64, 0x44] ∧ f.b ∈ [0x6e, 0x4e] ∧ f.c ∈ [0x65, 0x45] ∧ f.d ∈ [0x74, 0x54]

instance (f : FourCC) : Decidable f.IsDnet := inferInstanceAs (Decidable (_ ∧ _))

theorem equalsIgnoringCase_iff {a b : String} :
    equalsIgnoringCase a b = true ↔ a.toList.map Char.toLower = b.toList.map Char.toLower := by
  simp only [equalsIgnoringCase, decide_eq_true_eq, ← String.toList_inj, String.toList_map]

theorem FourCC.IsDnet.text (hc : c.IsDnet) : equalsIgnoringCase c.text "dnet" = true := by
  rw [equalsIgnoringCase_iff, FourCC.text, Utf8.decode, String.toList_ofList]
  rcases c with ⟨p, q, r, s⟩
  simp only [IsDnet, List.mem_cons, List.not_mem_nil, or_false] at hc
  rcases hc with ⟨rfl | rfl, rfl | rfl, rfl | rfl, rfl | rfl⟩ <;> decide +kernel

namespace Container

/-- The name of the codec in an audio description. -/
def Description.codec? (m : Description) : Option FourCC :=
  match TypeData.parse m.typeData with
  | .audio a => a.fourcc
  | _ => none

/-- The codec that audio is drafted with is the one read from its description. -/
theorem Description.codec?_drafted (stream : UInt16) (c : FourCC) (rate channels : UInt16)
    (extra : Bytes) :
    (Step.audio4 stream c.bytes rate channels extra).description?.bind codec? = some c ∧
      (Step.audio5 stream c rate channels extra).description?.bind codec? = some c := by
  constructor <;> rfl

end Container

theorem id_trackFor (ht : trackFor o m = some t) : t.id = m.stream.toNat := id_trackOf ht

theorem audioTrack_dnet (o : Options) (h : MediaHeader) {a : AudioType} (ha : a.fourcc = some c)
    (hc : c.IsDnet) : ∃ k, (audioTrack o h a).1 = ⟨.ac3 (.ofOptions k true o), false⟩ := by
  have hname : (a.fourcc.isSome && equalsIgnoringCase (audioHeader h a).fourcc "dnet") = true := by
    rw [audioHeader, ha]
    exact hc.text
  rw [audioTrack]
  dsimp only
  rw [if_pos hname]
  exact ⟨_, rfl⟩

/-- Audio under the name "dnet" is swapped AC3. -/
theorem trackFor_dnet (hm : m.codec? = some c) (hc : c.IsDnet)
    (hw : o.wantsAudio m.stream.toNat = true) :
    ∃ k, trackFor o m = some ⟨.ac3 (.ofOptions k true o), false⟩ := by
  rw [Description.codec?] at hm
  cases hp : TypeData.parse m.typeData with
  | video v => simp [hp] at hm
  | other => simp [hp] at hm
  | audio a =>
    rw [hp] at hm
    obtain ⟨k, hk⟩ := audioTrack_dnet o (mediaHeader m.stream m.mime m.typeData) hm hc
    refine ⟨k, ?_⟩
    rw [trackFor, trackOf_audio hp hw, hk]

theorem find?_addTrack (o : Options) (ts : List Track) (m : Description) (id : Nat) :
    (addTrack o ts m).find? (·.id = id) = (ts.find? (·.id = id)).or
      (if m.stream.toNat = id then trackFor o m else none) := by
  rw [addTrack_eq]
  by_cases hany : ts.any (·.id = m.stream.toNat) = true
  · rw [if_pos hany]
    split
    · rename_i hi
      have hsome : (ts.find? (·.id = id)).isSome := by rwa [List.isSome_find?, ← hi]
      rw [Option.or_of_isSome hsome]
    · rw [Option.or_none]
  · rw [if_neg hany, List.find?_append]
    congr 1
    cases ht : trackFor o m with
    | none => simp
    | some t => simp [id_trackFor ht]

/-- The track of a stream is the one that the first description to give one gives. -/
theorem find?_tracksOf (o : Options) (ms : List Description) (id : Nat) :
    (tracksOf o ms).find? (·.id = id) =
      (ms.filter (·.stream.toNat = id)).findSome? (trackFor o) := by
  have hall : ∀ ts, (ms.foldl (addTrack o) ts).find? (·.id = id) =
      (ts.find? (·.id = id)).or ((ms.filter (·.stream.toNat = id)).findSome? (trackFor o)) := by
    induction ms with
    | nil => simp
    | cons m ms ih =>
      intro ts
      rw [List.foldl_cons, ih, find?_addTrack, Option.or_assoc]
      by_cases hi : m.stream.toNat = id
      · rw [if_pos hi, List.filter_cons_of_pos (by simpa using hi), List.findSome?_cons]
        cases trackFor o m <;> rfl
      · rw [if_neg hi, List.filter_cons_of_neg (by simpa using hi), Option.none_or]
  exact hall []

theorem find?_tracksOf_first {ms : List Description}
    (hm : ms.find? (·.stream.toNat = id) = some m) (ht : trackFor o m = some t) :
    (tracksOf o ms).find? (·.id = id) = some t := by
  rw [find?_tracksOf]
  rw [← List.head?_filter] at hm
  obtain ⟨rest, hrest⟩ := List.head?_eq_some_iff.1 hm
  rw [hrest, List.findSome?_cons, ht]

theorem own_kept (id : Nat) (ss : List Step) :
    own id (kept ss) =
      (own id (asked ss)).filter fun w => w.payload.length ≤ PacketHeader.maxPayload := by
  simp only [own, kept, List.filter_filter, Bool.and_comm]

/-- The chunk that a framer gets of a packet. -/
def chunkOf (w : Written) : Chunk := { data := w.payload, time := w.header.time }

/-- An AC3 track that is not lost hands its packets to its framer one by one. -/
theorem Track.takeAll_ac3 {f g : Ac3Framer} {out : Outputs}
    (hf : f.processAll (ws.map chunkOf) = (g, out, none)) :
    Track.takeAll o ⟨.ac3 f, false⟩ ws = (⟨.ac3 g, false⟩, out) := by
  induction ws generalizing f out with
  | nil =>
    cases hf
    rfl
  | cons w ws ih =>
    rw [List.map_cons, Ac3Framer.processAll] at hf
    rcases hp : f.process (chunkOf w) with ⟨e, first, fault⟩
    rw [hp] at hf
    cases fault with
    | some fault => cases hf
    | none =>
      have htake : Track.take o ⟨.ac3 f, false⟩ w.header w.payload = (⟨.ac3 e, false⟩, first) := by
        rw [chunkOf] at hp
        simp only [Track.take, Track.push, Bool.false_eq_true, if_false, hp]
      rcases hr : e.processAll (ws.map chunkOf) with ⟨g', rest, fault⟩
      simp only [hr] at hf
      cases hf
      simp only [Track.takeAll, htake, ih hr]

/-- Nothing is dropped at the end if no byte is left. -/
theorem Track.close_ac3 {g : Ac3Framer} (hg : g.left = 0) :
    Track.close o ⟨.ac3 g, false⟩ = (⟨.ac3 g, false⟩, []) := by
  simp [Track.close, Track.drain, Ac3Framer.flush, hg]

/-- What the track of swapped AC3 makes of packets that hold frames. -/
theorem Track.play_swapped (k : StreamHeader)
    (hx : ws.flatMap (·.payload) = Ac3.swapPairs (Ac3.joined xs)) :
    ∃ f out, Track.play o ⟨.ac3 (.ofOptions k true o), false⟩ ws = (⟨.ac3 f, false⟩, out) ∧
      List.Forall₂ Carries (packets out) xs ∧ f.dropped = 0 ∧
      f.first = xs.head?.map (·.header) := by
  have hdata : (ws.map chunkOf).flatMap (·.data) = Ac3.swapPairs (Ac3.joined xs) := by
    rw [← hx, List.flatMap_map]
    rfl
  obtain ⟨g, out, hrun, hout, hleft, hdropped, hfirst⟩ := Ac3Framer.processAll_swapped k o hdata
  refine ⟨g, out, ?_, hout, hdropped, hfirst⟩
  simp only [Track.play, Track.takeAll_ac3 hrun, Track.close_ac3 hleft, List.append_nil]

/-- The frames of a swapped AC3 stream survive being written to a file and read from it. The stream
is wanted, and the first of its descriptions gives it the name "dnet". -/
theorem swapped_ac3_survives (o : Options) (id : Nat) (hs : Sound ss)
    (hm : (described ss).find? (·.stream.toNat = id) = some m) (hc : m.codec? = some c)
    (hn : c.IsDnet) (hw : o.wantsAudio id = true)
    (hp : ∀ w ∈ own id (asked ss), w.payload.length ≤ PacketHeader.maxPayload)
    (hx : (own id (asked ss)).flatMap (·.payload) = Ac3.swapPairs (Ac3.joined xs)) :
    ∃ d, (Demultiplexer.ofBytes o (file ss)).1 = .ok d ∧ (∃ n, d.run.reads = .ok n) ∧
      List.Forall₂ Carries (ofStream id d.run.out) xs ∧ d.run.final.isDisabled id = false ∧
      ∃ f, d.run.final.track? id = some ⟨.ac3 f, false⟩ ∧ f.dropped = 0 ∧
        f.first = xs.head?.map (·.header) := by
  obtain ⟨d, hd, hopen⟩ := opens_file hs o
  obtain ⟨htrack, hout, hlost⟩ := run_stream hopen id
  refine ⟨d, hd, (run_openedAt hopen).1, ?_⟩
  have hid : m.stream.toNat = id := by simpa using List.find?_some hm
  have hkept : own id (kept ss) = own id (asked ss) := by
    rw [own_kept, List.filter_eq_self]
    intro w hw
    simpa using hp w hw
  obtain ⟨k, hk⟩ := trackFor_dnet (o := o) hc hn (by rwa [hid])
  have hfind := find?_tracksOf_first hm hk
  obtain ⟨k', -, hnamed⟩ := named_ac3 (seen (ac3Ids (tracksOf o (described ss))) (sectionsOf ss).1)
    (.ofOptions k true o) false
  obtain ⟨f, out, hplay, hcarry, hdropped, hfirst⟩ := Track.play_swapped (o := o) k' hx
  have htracks : (tracksAt o (described ss) (sectionsOf ss).1).find? (·.id = id) =
      some ⟨.ac3 (.ofOptions k' true o), false⟩ := by
    rw [find?_tracksAt, hfind, Option.map_some, hnamed]
    rfl
  rw [htracks, flatten_sectionsOf, hkept, Option.map_some, hplay] at htrack hout hlost
  rw [hout, hlost]
  exact ⟨by simpa using hcarry, rfl, f, htrack, hdropped, hfirst⟩

namespace Ac3

/-- A frame of another rate and length, with a sync word behind what its check word protects. -/
def echo : Frame where
  data := [0x0b, 0x77, 0x4f, 0x9e, 0x41, 0x40, 0x40] ++ zeros 79 ++ [0x0b, 0x77] ++ zeros 52
  header :=
    { sampleRate := 44100, bitRate := 32, bytes := 140, bsid := 8, bsmod := 0, acmod := 2,
      lfe := false, channels := 2 }
  parsed := by decide +kernel
  whole := rfl
  intact := by
    have hcrc : crc ([0x4f, 0x9e, 0x41, 0x40, 0x40] ++ zeros 79) = 0 :=
      crc_append_zeros (by decide +kernel) 79
    simpa [crcMatches, crcSpan, zeros] using hcrc

end Ac3

/-- Two frames of a stream, cut inside a swapped word of the first and behind it with nothing
between, and packets of another stream, over two sections. -/
def interlude : List Step :=
  [.audio4 1 [0x44, 0x6e, 0x65, 0x54] 48000 6 [], .audio5 2 ⟨0x63, 0x6f, 0x6f, 0x6b⟩ 8000 1 [],
    .packet 1 20 true ((Ac3.swapPairs (Ac3.joined [Ac3.silence, Ac3.echo])).take 33),
    .packet 2 0 true [5], .packet 1 0 false [], .nextSection, .packet 2 10 true [6],
    .packet 1 60 true ((Ac3.swapPairs (Ac3.joined [Ac3.silence, Ac3.echo])).drop 33), .index]

theorem sound_interlude : Sound interlude := by
  refine ⟨?_, by decide +kernel⟩
  intro s hs
  simp only [interlude, List.mem_cons, List.not_mem_nil, or_false] at hs
  rcases hs with rfl | rfl | rfl | rfl | rfl | rfl | rfl | rfl | rfl
  · rintro m ⟨⟩
    exact fits_description (by decide) (by decide)
  · rintro m ⟨⟩
    exact fits_description (by decide) (by decide)
  all_goals rintro m ⟨⟩

theorem payloads_interlude : (own 1 (asked interlude)).map (·.payload) =
    [(Ac3.swapPairs (Ac3.joined [Ac3.silence, Ac3.echo])).take 33, [],
      (Ac3.swapPairs (Ac3.joined [Ac3.silence, Ac3.echo])).drop 33] := rfl

/-- No junk is allowed at all. -/
theorem swapped_ac3_survives_interlude : ∃ d,
    (Demultiplexer.ofBytes { resyncWindow := 0 } (file interlude)).1 = .ok d ∧
      Sound interlude ∧ (∃ n, d.run.reads = .ok n) ∧
      List.Forall₂ Carries (ofStream 1 d.run.out) [Ac3.silence, Ac3.echo] ∧
      d.run.final.isDisabled 1 = false ∧
      ∃ f, d.run.final.track? 1 = some ⟨.ac3 f, false⟩ ∧ f.dropped = 0 ∧
        f.first = some Ac3.silentHeader := by
  have hlength : ∀ b ∈ (own 1 (asked interlude)).map (·.payload),
      b.length ≤ PacketHeader.maxPayload := by
    rw [payloads_interlude]
    decide +kernel
  have hbytes : (own 1 (asked interlude)).flatMap (·.payload) =
      Ac3.swapPairs (Ac3.joined [Ac3.silence, Ac3.echo]) := by
    rw [List.flatMap_def, payloads_interlude]
    simp
  have hcodec := Description.codec?_drafted 1 ⟨0x44, 0x6e, 0x65, 0x54⟩ 48000 6 []
  obtain ⟨d, hd, hrest⟩ := swapped_ac3_survives { resyncWindow := 0 } 1 sound_interlude rfl
    hcodec.1 (by decide) rfl (fun w hw => hlength _ (List.mem_map_of_mem hw)) hbytes
  exact ⟨d, hd, sound_interlude, hrest⟩

end RealMedia
