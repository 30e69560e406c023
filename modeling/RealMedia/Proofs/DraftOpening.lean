import RealMedia.Proofs.DraftLayout
import RealMedia.Proofs.Opening

/-! A drafted file is opened, with the tracks that the draft describes, at its first packet. -/

namespace RealMedia

open Container Container.Draft Decoder

variable {o : Options} {hs : Headers} {ss : List Step} {d : Draft} {x : FourCC × Bytes}
  {xs : List (FourCC × Bytes)} {m : Description}

/-- The tracks with one for a further description, if it asks for one. -/
def addTrack (o : Options) (ts : List Track) (m : Description) : List Track :=
  (Headers.addMedia o { tracks := ts } (mediaHeader m.stream m.mime m.typeData)).1.tracks

def tracksOf (o : Options) (ms : List Description) : List Track := ms.foldl (addTrack o) []

/-- The track that a description alone gives. -/
def trackFor (o : Options) (m : Description) : Option Track :=
  (trackOf o (mediaHeader m.stream m.mime m.typeData)).1

/-- A description is passed over if its stream has a track. -/
theorem addTrack_eq (o : Options) (ts : List Track) (m : Description) :
    addTrack o ts m = if ts.any (·.id = m.stream.toNat) then ts
      else ts ++ (trackFor o m).toList := by
  rw [addTrack, Headers.addMedia]
  by_cases hany : ts.any (·.id = m.stream.toNat) = true
  · rw [if_pos hany, mediaHeader]
    simp only [if_pos hany]
  · rw [if_neg hany, mediaHeader]
    simp only [if_neg hany]
    rfl

theorem decodePayload_of_yields {α : Type} {d : Decoder α} {b : Bytes} {a : α}
    (hd : Yields d b a) : decodePayload d b = .ok a := by
  rw [decodePayload, decode_of_yields hd]
  rfl

namespace Headers

/-- What the headers are behind an object that is read without fault. -/
def Adds (o : Options) (hs : Headers) (x : FourCC × Bytes) (r : Headers) : Prop :=
  (hs.add o (objectOf x)).map (·.1) = .ok r

theorem addMedia_eq (o : Options) (hs : Headers) (m : MediaHeader) :
    (hs.addMedia o m).1 =
      { hs with tracks := (Headers.addMedia o { tracks := hs.tracks } m).1.tracks } := by
  simp only [addMedia]
  split <;> rfl

theorem adds_media (hm : (Utf8.encode m.mime).length ≤ 255)
    (hf : FitsObject (descriptionBytes m).length) :
    Adds o hs (mediaId, descriptionBytes m) { hs with tracks := addTrack o hs.tracks m } := by
  have ht : m.typeData.length < 4294967296 := by
    simp only [FitsObject, descriptionBytes, mediaBytes, List.length_append] at hf
    omega
  rw [Adds, add, id_objectOf, payload_objectOf, if_neg (show mediaId ≠ propertiesId by decide),
    if_neg (show mediaId ≠ contentId by decide), if_pos rfl, descriptionBytes,
    decodePayload_of_yields (yields_mediaBytes hm ht)]
  exact congrArg _ (addMedia_eq o hs _)

theorem adds_other (hx : x.1 ∉ [propertiesId, contentId, mediaId, dataId]) : Adds o hs x hs := by
  simp only [List.mem_cons, List.not_mem_nil, or_false, not_or] at hx
  rw [Adds, add, id_objectOf, if_neg hx.1, if_neg hx.2.1, if_neg hx.2.2.1]
  rfl

theorem adds_properties (d : Draft) :
    Adds o hs (propertiesId, d.propertiesBytes) { hs with properties := some d.properties } := by
  rw [Adds, add, id_objectOf, payload_objectOf, if_pos rfl,
    decodePayload_of_yields (yields_propertiesBytes d)]
  rfl

theorem adds_content {c : Content} (hc : (Step.content c).Fits) :
    Adds o hs (contentId, contentBytes c) { hs with content := some c } := by
  have hy := yields_contentBytes (hc c.title (by simp)) (hc c.author (by simp))
    (hc c.copyright (by simp)) (hc c.comment (by simp))
  rw [Adds, add, id_objectOf, payload_objectOf, if_neg (show contentId ≠ propertiesId by decide),
    if_pos rfl, decodePayload_of_yields hy]
  rfl

/-- What the headers are behind several objects that are all read without fault. -/
def AddsAll (o : Options) (hs : Headers) (xs : List (FourCC × Bytes)) (r : Headers) : Prop :=
  (hs.addAll o (xs.map objectOf)).1 = .ok r

theorem addsAll_nil : AddsAll o hs [] hs := rfl

theorem addsAll_cons {r u : Headers} (hx : Adds o hs x r) (hxs : AddsAll o r xs u) :
    AddsAll o hs (x :: xs) u := by
  rw [Adds] at hx
  rw [AddsAll, List.map_cons, addAll]
  cases hadd : hs.add o (objectOf x) with
  | error e =>
    rw [hadd] at hx
    cases hx
  | ok y =>
    rw [hadd] at hx
    cases hx
    exact hxs

/-- The objects of a draft give the tracks of its descriptions. -/
theorem addsAll_steps (hf : ∀ s ∈ ss, s.Fits) (hs : Headers) :
    AddsAll o hs (ss.filterMap Step.object?)
      { hs with tracks := (described ss).foldl (addTrack o) hs.tracks } := by
  induction ss generalizing hs with
  | nil => exact addsAll_nil
  | cons s ss ih =>
    have hrest := fun r => ih (fun s hs => hf s (by simp [hs])) r
    have hmedia : ∀ m, s.object? = some (mediaId, descriptionBytes m) →
        s.description? = some m →
        (Utf8.encode m.mime).length ≤ 255 ∧ FitsObject (descriptionBytes m).length →
        AddsAll o hs ((s :: ss).filterMap Step.object?)
          { hs with tracks := (described (s :: ss)).foldl (addTrack o) hs.tracks } := by
      intro m ho hm hfits
      rw [described, List.filterMap_cons_some ho, List.filterMap_cons_some hm]
      exact addsAll_cons (adds_media hfits.1 hfits.2) (hrest _)
    have hfit := hf s (by simp)
    cases s with
    | media | video | audio4 | audio5 => exact hmedia _ rfl rfl (hfit _ rfl)
    | object id payload =>
      have ho : (Step.object id payload).object? = some (id, payload) := rfl
      have hm : (Step.object id payload).description? = none := rfl
      rw [described, List.filterMap_cons_some ho, List.filterMap_cons_none hm]
      exact addsAll_cons (adds_other hfit.1) (hrest hs)
    | duration | content | packet | nextSection | index =>
      rw [described, List.filterMap_cons_none rfl, List.filterMap_cons_none rfl]
      exact hrest hs

/-- The headers of a drafted file, as they are read. -/
def drafted (o : Options) (ss : List Step) : Headers where
  properties := some (({} : Draft).run ss).1.properties
  content := (({} : Draft).run ss).1.content
  tracks := tracksOf o (described ss)

/-- All objects in front of the data of a draft are read without fault. -/
theorem addsAll_headerObjects (hf : ∀ s ∈ ss, s.Fits) :
    AddsAll o {} (({} : Draft).run ss).1.headerObjects (drafted o ss) := by
  have hcontent := content_run (d := {}) (fun c hc => by cases hc) hf
  have hobjects : (({} : Draft).run ss).1.objects = ss.filterMap Step.object? := by
    rw [objects_run]
    rfl
  rw [headerObjects, hobjects, drafted]
  refine addsAll_cons (adds_properties _) ?_
  cases hc : (({} : Draft).run ss).1.content with
  | none => exact addsAll_steps hf _
  | some c => exact addsAll_cons (adds_content (hcontent c hc)) (addsAll_steps hf _)

end Headers

namespace Container.Draft

/-- Every length and count that a reader goes by fits the field it is written to. -/
structure Sound (ss : List Step) : Prop where
  steps : ∀ s ∈ ss, s.Fits
  sections : ∀ ps ∈ (({} : Draft).run ss).1.sections, ps.length < 4294967296

theorem Sound.counts (hs : Sound ss) : (sectionsOf ss).1.length < 4294967296 ∧
    ∀ ws ∈ (sectionsOf ss).2, ws.length < 4294967296 := by
  have hall := hs.sections
  rw [sections_drafted] at hall
  constructor
  · have := hall ((sectionsOf ss).1.map writtenBytes) List.mem_cons_self
    rwa [List.length_map] at this
  · intro ws hws
    have := hall (ws.map writtenBytes) (List.mem_cons_of_mem _ (List.mem_map_of_mem hws))
    rwa [List.length_map] at this

end Container.Draft

/-- A demultiplexer that has just been opened, for the streams described and at these packets. -/
structure OpenedAt (o : Options) (ms : List Description) (now later : List Written)
    (d : Demultiplexer) : Prop where
  options : d.options = o
  tracks : d.tracks = nameVersions (seen (ac3Ids (tracksOf o ms)) now) (tracksOf o ms)
  announced : d.announced = false
  done : d.done = false
  taken : d.taken = 0
  remains : Remains d.declared d.source.rest now later

/-- A drafted file that has just been opened. -/
def Opened (o : Options) (ss : List Step) (d : Demultiplexer) : Prop :=
  OpenedAt o (described ss) (sectionsOf ss).1 (sectionsOf ss).2.flatten d

/-- The file header is found at the start, and the objects of the draft behind it. -/
theorem readFileHeader_lead {s : Source} {r : Bytes} (hs : s.rest = lead d ++ r) :
    ∃ t, Demultiplexer.readFileHeader s = .ok (⟨0, .ofNat (d.headerObjects.length + 1)⟩, t) ∧
      t.rest = d.headerObjects.flatMap (fun o => objectBytes o.1 o.2) ++ r := by
  have hfits : FitsObject (zeros 4 ++ bytes32 (.ofNat (d.headerObjects.length + 1))).length := by
    rw [List.length_append, length_bytes32]
    decide
  rw [lead, List.append_assoc] at hs
  obtain ⟨t, u, ho, hp, hu⟩ := read_object (x := (fileId, _)) hfits hs
  refine ⟨u, ?_, hu⟩
  rw [Demultiplexer.readFileHeader, ho]
  simp only [hp, decodePayload_of_yields (FileHeader.yields_bytes _)]
  rfl

theorem fits_object (hf : ∀ s ∈ ss, s.Fits) :
    ∀ x ∈ ss.filterMap Step.object?, x.1 ≠ dataId ∧ FitsObject x.2.length := by
  intro x hx
  obtain ⟨s, hs, hx⟩ := List.mem_filterMap.1 hx
  have hfit := hf s hs
  cases s with
  | media | video | audio4 | audio5 =>
    cases hx
    exact ⟨show mediaId ≠ dataId by decide, (hfit _ rfl).2⟩
  | object id payload =>
    cases hx
    exact ⟨fun h => hfit.1 (by simp [show id = dataId from h]), hfit.2⟩
  | duration | content | packet | nextSection | index => cases hx

theorem fits_content {c : Content} (hc : (Step.content c).Fits) :
    FitsObject (contentBytes c).length := by
  have h₁ := hc c.title (by simp)
  have h₂ := hc c.author (by simp)
  have h₃ := hc c.copyright (by simp)
  have h₄ := hc c.comment (by simp)
  simp only [FitsObject, ObjectHeader.length, contentBytes, text16Bytes, List.length_append,
    length_bytes16]
  omega

theorem fits_headerObjects (hf : ∀ s ∈ ss, s.Fits) :
    ∀ x ∈ (({} : Draft).run ss).1.headerObjects, x.1 ≠ dataId ∧ FitsObject x.2.length := by
  intro x hx
  have hcontent := content_run (d := {}) (fun c hc => by cases hc) hf
  rw [headerObjects, objects_run, List.cons_append, List.mem_cons, List.mem_append] at hx
  rcases hx with rfl | hx | hx
  · refine ⟨show propertiesId ≠ dataId by decide, ?_⟩
    simp only [propertiesBytes, List.length_append, length_bytes32, length_bytes16, zeros,
      List.length_replicate]
    decide
  · obtain ⟨c, hc, rfl⟩ := Option.map_eq_some_iff.1 (Option.mem_toList.1 hx)
    exact ⟨show contentId ≠ dataId by decide, fits_content (hcontent c hc)⟩
  · exact fits_object hf x hx

/-- A file that starts like a sound draft is opened at the first packet, with the headers of the
draft. -/
theorem opens_lead {b r : Bytes} (hs : Sound ss) (o : Options)
    (hb : b = lead (({} : Draft).run ss).1 ++ (firstHeaders ss ++ r)) :
    ∃ f s, (Demultiplexer.ofBytes o b).1 = .ok (Demultiplexer.opened o f (.drafted o ss)
        (packetCount ((sectionsOf ss).1.map writtenBytes)) s) ∧ s.rest = r := by
  obtain ⟨s, hread, hrest⟩ := readFileHeader_lead (s := .ofBytes b) hb
  have hadd := Headers.addsAll_headerObjects (o := o) hs.steps
  rw [firstHeaders, List.append_assoc] at hrest
  obtain ⟨t, hchain, ht⟩ := readChain_written (fits_headerObjects hs.steps) hrest
  have hreal : isRealMedia b = true := by
    rw [hb]
    rfl
  exact ⟨_, t,
    Demultiplexer.ofBytes_eq_ok.2 ⟨hreal, _, s, _, _, t, _, hread, hchain, hadd, rfl⟩, ht⟩

/-- The file of a sound draft is opened, even if it is cut, at the packets that are whole. -/
theorem opens_cut {n : Nat} (hs : Sound ss) (hn : dataStart ss ≤ n) (o : Options) :
    ∃ d, (Demultiplexer.ofBytes o ((file ss).take n)).1 = .ok d ∧
      OpenedAt o (described ss) (sectionsOf (trim n ss)).1 (sectionsOf (trim n ss)).2.flatten d := by
  obtain ⟨hnow, hlater⟩ := hs.counts
  have hcut : (file ss).take n = lead (({} : Draft).run ss).1 ++ (firstHeaders ss ++
      (behindStart (({} : Draft).run ss).1.index ss).take (n - dataStart ss)) := by
    rw [dataStart] at hn ⊢
    rw [file_eq, List.take_append, List.take_of_length_le (by omega), List.take_append,
      List.take_of_length_le (by rw [length_firstHeaders]; omega), length_firstHeaders,
      Nat.sub_sub]
  obtain ⟨f, s, hopen, hrest⟩ := opens_lead hs o hcut
  have hremains := remains_trim hlater (({} : Draft).run ss).1.index hn
  have hcount : (packetCount ((sectionsOf ss).1.map writtenBytes)).packets.toNat =
      (sectionsOf ss).1.length := by
    rw [packetCount, UInt32.toNat_ofNat', List.length_map]
    omega
  rw [← hrest, ← hcount] at hremains
  refine ⟨_, hopen, rfl, ?_, rfl, rfl, rfl, hremains⟩
  rw [Demultiplexer.opened, findVersions_remains hremains rfl]
  rfl

/-- A sound draft gives a file that is opened. -/
theorem opens_file (hs : Sound ss) (o : Options) :
    ∃ d, (Demultiplexer.ofBytes o (file ss)).1 = .ok d ∧ Opened o ss d := by
  have hwhole : trim (file ss).length ss = ss := trimFrom_long (by rw [length_file]; omega)
  obtain ⟨d, hd, hopen⟩ := opens_cut hs (n := (file ss).length) (by rw [length_file]; omega) o
  rw [List.take_length] at hd
  rw [hwhole] at hopen
  exact ⟨d, hd, hopen⟩

namespace Container.Draft

/-- The texts of a step fit their fields, and a raw object is none of the objects that have a
meaning. -/
def Step.Limited : Step → Prop
  | .content c => ∀ t ∈ [c.title, c.author, c.copyright, c.comment], (Utf8.encode t).length ≤ 65535
  | .object id _ => id ∉ [propertiesId, contentId, mediaId, dataId]
  | s => ∀ m ∈ s.description?, (Utf8.encode m.mime).length ≤ 255

theorem length_le_flatMap {α : Type} {f : α → Bytes} {a : α} {l : List α} (ha : a ∈ l) :
    (f a).length ≤ (l.flatMap f).length := by
  rw [List.flatMap_def]
  exact (List.sublist_flatten_of_mem (List.mem_map_of_mem ha)).length_le

theorem length_object_le (hx : x ∈ d.headerObjects) :
    ObjectHeader.length + x.2.length ≤ d.bytes.length := by
  have := length_le_flatMap (f := fun o : FourCC × Bytes => objectBytes o.1 o.2) hx
  rw [length_objectBytes] at this
  simp only [bytes, List.length_append]
  omega

theorem kept_cons (s : Step) (ss : List Step) : kept (s :: ss) = kept [s] ++ kept ss := by
  rw [kept, asked, ← List.singleton_append, List.filterMap_append, List.filter_append]
  rfl

/-- A packet takes at least a byte of the file. -/
theorem length_kept_le (ss : List Step) : (kept ss).length ≤ (file ss).length := by
  have hroom : (kept ss).length ≤ room ss := by
    induction ss with
    | nil => exact Nat.le_refl _
    | cons s ss ih =>
      have hone : (kept [s]).length ≤ s.room := by
        cases s with
        | packet stream timestamp key payload =>
          by_cases hp : payload.length ≤ PacketHeader.maxPayload
          · have hlen : (kept [.packet stream timestamp key payload]).length ≤ 1 :=
              List.length_filter_le _ _
            rw [Step.room, if_pos hp, PacketHeader.size]
            omega
          · simp [kept, asked, Step.packet?, hp]
        | duration | content | media | video | audio4 | audio5 | object | nextSection | index =>
          exact Nat.zero_le _
      rw [kept_cons, List.length_append, room]
      omega
  rw [length_file]
  omega

/-- The counts of the sections fit if the number of all packets does. -/
theorem sound_of_kept (hs : ∀ s ∈ ss, s.Fits) (hk : (kept ss).length < 4294967296) : Sound ss := by
  refine ⟨hs, ?_⟩
  rw [← flatten_sectionsOf, List.length_append] at hk
  intro ps hps
  rw [sections_drafted] at hps
  rcases List.mem_cons.1 hps with rfl | hps
  · rw [List.length_map]
    omega
  · obtain ⟨ws, hws, rfl⟩ := List.mem_map.1 hps
    have hlen := (List.sublist_flatten_of_mem hws).length_le
    rw [List.length_map]
    omega

/-- In a file that is small enough all lengths fit their fields. -/
theorem sound_of_length (hl : ∀ s ∈ ss, s.Limited) (hf : (file ss).length < 4294967296) :
    Sound ss := by
  have hfits : ∀ x ∈ ss.filterMap Step.object?, FitsObject x.2.length := by
    intro x hx
    have hmem : x ∈ (({} : Draft).run ss).1.headerObjects := by
      rw [headerObjects, objects_run]
      simp [hx]
    exact Nat.lt_of_le_of_lt (length_object_le hmem) hf
  refine sound_of_kept ?_ (Nat.lt_of_le_of_lt (length_kept_le ss) hf)
  intro s hs
  have hlimit := hl s hs
  have hobject : ∀ x, s.object? = some x → FitsObject x.2.length :=
    fun x hx => hfits x (List.mem_filterMap.2 ⟨s, hs, hx⟩)
  cases s with
  | content c => exact hlimit
  | object id payload => exact ⟨hlimit, hobject _ rfl⟩
  | media | video | audio4 | audio5 =>
    intro m hm
    cases hm
    exact ⟨hlimit _ rfl, hobject _ rfl⟩
  | duration | packet | nextSection | index => rintro m ⟨⟩

end Container.Draft

end RealMedia
