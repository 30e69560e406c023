import RealMedia.Proofs.HeaderGrammar
import RealMedia.Proofs.ListedFile
import RealMedia.Proofs.PacketsRead

/-!
The demultiplexer comes across the same data objects and packets of a drafted file as its listing
does.
-/

namespace RealMedia

open Container Container.Draft

namespace Demultiplexer

variable {o : Options} {d e : Demultiplexer} {out : Outputs} {m : Landmark} {ms : List Landmark}
  {w : Written} {ws : List Written} {wss : List (List Written)} {ss : List Step} {b : Bytes}
  {pos left : Nat} {index : Bool}

/-! ## What is read -/

/-- What the next read comes across: a packet, or the header of a data object, behind which no
packet has been read. -/
def marks (d : Demultiplexer) : List Landmark :=
  match d.next? with
  | some w => [w.landmark d.source.pos]
  | none =>
    match d.read.2.2 with
    | .ok .moreData => if d.read.1.taken = 0 then [.data d.source.pos] else []
    | _ => []

/-- What several reads come across. -/
def marksOver (d : Demultiplexer) : (reads : Nat) → List Landmark
  | 0 => []
  | n + 1 => d.marks ++ d.read.1.marksOver n

/-- Read to the end, the demultiplexer comes across these landmarks, one with each read but the
last. -/
structure Walks (d : Demultiplexer) (ms : List Landmark) : Prop where
  reads : ∀ n before, (d.runFrom n before).reads = .ok (n + ms.length)
  marks : d.marksOver (ms.length + 1) = ms

theorem walks_done (hn : d.next? = none) (hr : d.read = (e, out, .ok .done)) : Walks d [] where
  reads n before := by
    rw [runFrom_eq, hr]
    rfl
  marks := by
    rw [List.length_nil, marksOver, marks, hn, hr]
    rfl

theorem walks_more (hr : d.read = (e, out, .ok .moreData)) (hm : d.marks = [m])
    (he : Walks e ms) : Walks d (m :: ms) where
  reads n before := by
    rw [runFrom_eq, hr]
    simp only [he.reads, List.length_cons, Nat.add_assoc, Nat.add_comm 1]
  marks := by
    rw [List.length_cons, marksOver, hr, he.marks, hm]
    rfl

/-- The demultiplexer stands in front of these bytes, with so many packets of the section to
come. -/
structure StandsAt (d : Demultiplexer) (pos left : Nat) (b : Bytes) : Prop where
  pos : d.source.pos = pos
  rest : d.source.rest = b
  left : d.declared = d.taken + left
  announced : d.announced = true
  unfinished : d.done = false

theorem StandsAt.read_eq (hd : StandsAt d pos left b) (hr : d.readNext = (e, out, .ok .moreData)) :
    d.read = (e, out, .ok .moreData) := by
  rw [read, if_neg (by simp [hd.unfinished]), ensureAnnounced, if_pos hd.announced]
  simp only [hr, List.nil_append]

theorem written_header (w : Written) : w.header.written w.payload = w := by
  rw [PacketHeader.written, isKey_header]
  rfl

/-- A packet that stands there whole is the next one. -/
theorem StandsAt.next?_eq (hw : w.payload.length ≤ PacketHeader.maxPayload)
    (hd : StandsAt d pos (left + 1) (writtenBytes w ++ b)) : d.next? = some w := by
  have hs := hd.rest
  have hlong : PacketHeader.size ≤ d.source.rest.length := by
    rw [hs, List.length_append, length_writtenBytes]
    omega
  rw [writtenBytes_eq, List.append_assoc] at hs
  obtain ⟨hread, hrest⟩ := read_header hs
  obtain ⟨htake, -⟩ := read_payload hrest
  rw [next?_of_header hd.unfinished hlong (by rw [hd.left]; omega) hread,
    Written.payload?_header hw, Option.bind_some, htake, Option.map_some, written_header]

theorem walks_packet (hw : w.payload.length ≤ PacketHeader.maxPayload)
    (hd : StandsAt d pos (left + 1) (writtenBytes w ++ b))
    (hmore : ∀ e, StandsAt e (pos + (writtenBytes w).length) left b → Walks e ms) :
    Walks d (w.landmark pos :: ms) := by
  obtain ⟨e, out, hnext, hg⟩ := readNext_packet hw hd.rest (by rw [hd.left]; omega)
  have hafter : StandsAt e (pos + (writtenBytes w).length) left b := by
    refine ⟨?_, hg.rest, ?_, hg.announced.trans hd.announced, hg.done.trans hd.unfinished⟩
    · rw [hg.pos, hd.pos]
    · rw [hg.declared, hg.taken, hd.left]
      omega
  have hmark : d.marks = [w.landmark pos] := by rw [marks, hd.next?_eq hw, hd.pos]
  exact walks_more (hd.read_eq hnext) hmark (hmore e hafter)

/-- The packets of a section are read in turn. -/
theorem walks_packets (hw : ∀ w ∈ ws, w.payload.length ≤ PacketHeader.maxPayload)
    (hd : StandsAt d pos ws.length ((ws.map writtenBytes).flatten ++ b))
    (hmore : ∀ e, StandsAt e (pos + (ws.map writtenBytes).flatten.length) 0 b → Walks e ms) :
    Walks d (packetMarks pos ws ++ ms) := by
  induction ws generalizing d pos with
  | nil => exact hmore d hd
  | cons w ws ih =>
    rw [List.map_cons, List.flatten_cons, List.append_assoc] at hd
    refine walks_packet (hw w (by simp)) hd ?_
    intro e he
    refine ih (fun w hmem => hw w (by simp [hmem])) he ?_
    intro f hf
    refine hmore f ?_
    rwa [List.map_cons, List.flatten_cons, List.length_append, ← Nat.add_assoc]

theorem length_sectionOf (ws : List Written) :
    (sectionOf ws).length = sectionStart + (ws.map writtenBytes).flatten.length := by
  rw [sectionOf, sectionBytes_eq, List.length_append, List.length_append,
    ObjectHeader.length_bytes, DataHeader.length_bytes, sectionStart, Nat.add_assoc]

/-- Behind the last packet of a section the next one is entered. -/
theorem walks_section (hw : Countable ws) (hd : StandsAt d pos 0 (sectionOf ws ++ b))
    (hmore : ∀ e, StandsAt e (pos + (sectionOf ws).length) 0 b → Walks e ms) :
    Walks d (.data pos :: packetMarks (pos + sectionStart) ws ++ ms) := by
  have hend : d.declared ≤ d.taken := Nat.le_of_eq hd.left
  have hs := hd.rest
  rw [sectionOf, sectionBytes_eq, List.append_assoc, List.append_assoc] at hs
  obtain ⟨s, hrest, hpos, hnext⟩ := readNext_section (show _ = dataId from rfl) hs hend
  have hread := hd.read_eq hnext
  have hmark : d.marks = [.data pos] := by
    rw [marks, next?_of_end hend, hread, ← hd.pos]
    rfl
  have hinside : Walks { d with
      source := s, declared := (packetCount (ws.map writtenBytes)).packets.toNat, taken := 0 }
      (packetMarks (pos + sectionStart) ws ++ ms) := by
    refine walks_packets hw.packets
      ⟨hpos.trans (by rw [hd.pos]), hrest, ?_, hd.announced, hd.unfinished⟩ ?_
    · rw [Nat.zero_add, packetCount, UInt32.toNat_ofNat', List.length_map]
      exact Nat.mod_eq_of_lt hw.count
    · intro e he
      refine hmore e ?_
      rwa [length_sectionOf, ← Nat.add_assoc]
  exact walks_more hread hmark hinside

theorem StandsAt.read_finish (hd : StandsAt d pos left b) (hr : d.readNext = e.finishAfter out) :
    ∃ f more, d.read = (f, more, .ok .done) := by
  rw [read, if_neg (by simp [hd.unfinished]), ensureAnnounced, if_pos hd.announced]
  dsimp only
  rw [hr]
  exact ⟨_, _, rfl⟩

/-- At the end of the data nothing more is come across. -/
theorem walks_end (hd : StandsAt d pos 0 (indexBytes index)) : Walks d [] := by
  have hend : d.declared ≤ d.taken := Nat.le_of_eq hd.left
  have hs := hd.rest
  cases index with
  | false =>
    have hshort : d.source.rest.length < PacketHeader.size := by
      rw [hs]
      decide
    have hnext : d.readNext = d.finishAfter [] := by
      rw [readNext, if_pos (by simpa using hshort)]
    obtain ⟨f, more, hread⟩ := hd.read_finish hnext
    exact walks_done (next?_of_end hend) hread
  | true =>
    have hlong : PacketHeader.size ≤ d.source.rest.length := by
      rw [hs]
      decide
    obtain ⟨t, ho, -⟩ := read_objectHeader (x := (indexId, zeros 10)) (r := [])
      (hs.trans (List.append_nil _).symm)
    have hnext : d.readNext =
        ({ d with source := t } : Demultiplexer).finishAfter [.note (.endObject indexId)] := by
      rw [readNext, if_neg (by simpa using hlong), if_pos hend, readSection, ho]
      rfl
    obtain ⟨f, more, hread⟩ := hd.read_finish hnext
    exact walks_done (next?_of_end hend) hread

theorem walks_sections (hw : ∀ ws ∈ wss, Countable ws)
    (hd : StandsAt d pos 0 (wss.flatMap sectionOf ++ indexBytes index)) :
    Walks d (sectionMarks pos wss) := by
  induction wss generalizing d pos with
  | nil => exact walks_end hd
  | cons ws wss ih =>
    rw [List.flatMap_cons, List.append_assoc] at hd
    refine walks_section (hw ws (by simp)) hd ?_
    intro e he
    exact ih (fun ws hmem => hw ws (by simp [hmem])) he

/-! ## From the start of a file -/

/-- A file is opened at a place inside it. -/
theorem pos_ofBytes (ho : (ofBytes o b).1 = .ok d) :
    d.source.pos + d.source.rest.length = b.length := by
  obtain ⟨first, xs, last, k, behind, f, hs, hg, -, -, rfl⟩ := ofBytes_iff_grammar.1 ho
  have hfile : b.length = _ := congrArg List.length hg.rest_eq
  rw [opened, hg.rest_behind, hfile, List.length_append, List.length_append, ← Nat.add_assoc]
  exact congrArg (· + behind.length) (Nat.zero_add _)

/-- Handing the headers over does not move the source. -/
theorem marksOver_announce (ha : d.announced = false) (hd : d.done = false) (n : Nat) :
    d.marksOver (n + 1) = d.announce.1.marksOver (n + 1) := by
  have hnext : d.announce.1.next? = d.next? := rfl
  have hmarks : d.marks = d.announce.1.marks := by
    rw [marks, marks, read_announce ha hd, hnext]
    rfl
  rw [marksOver, marksOver, hmarks, read_announce ha hd]

/-- The file of a draft is opened behind the header of its first data object. -/
theorem stands_file (hs : Sound ss) (o : Options) :
    ∃ d, (ofBytes o (file ss)).1 = .ok d ∧ d.announced = false ∧ d.done = false ∧
      StandsAt d.announce.1 (dataStart ss) (sectionsOf ss).1.length
        (behindStart (({} : Draft).run ss).1.index ss) := by
  obtain ⟨f, s, hopen, hrest⟩ := opens_lead hs o (file_eq ss)
  have hpos : s.pos + s.rest.length = (file ss).length := pos_ofBytes hopen
  refine ⟨_, hopen, rfl, rfl, ?_, hrest, ?_, rfl, rfl⟩
  · rw [hrest, file_eq, List.length_append, List.length_append, length_firstHeaders] at hpos
    rw [dataStart]
    change s.pos = _
    omega
  · change (packetCount _).packets.toNat = 0 + _
    rw [Nat.zero_add, packetCount, UInt32.toNat_ofNat', List.length_map]
    exact Nat.mod_eq_of_lt hs.counts.1

/-- It is read through all sections. -/
theorem walks_file (hs : Sound ss) (hf : (file ss).length < 4294967296) (o : Options) :
    ∃ d n, (ofBytes o (file ss)).1 = .ok d ∧ d.run.reads = .ok n ∧
      (d.marksOver (n + 1)).length = n ∧
      .data (d.source.pos - sectionStart) :: d.marksOver (n + 1) =
        sectionMarks (lead (({} : Draft).run ss).1).length (writtenSections ss) := by
  obtain ⟨d, hopen, ha, hd, hstands⟩ := stands_file hs o
  have hall := countable_sections hs hf
  obtain ⟨ms, hms, hwalks⟩ : ∃ ms, Landmark.data (lead (({} : Draft).run ss).1).length :: ms =
      sectionMarks (lead (({} : Draft).run ss).1).length (writtenSections ss) ∧
        Walks d.announce.1 ms := by
    refine ⟨packetMarks (dataStart ss) (sectionsOf ss).1 ++
      sectionMarks (dataStart ss + ((sectionsOf ss).1.map writtenBytes).flatten.length)
        (sectionsOf ss).2, ?_, ?_⟩
    · rw [writtenSections, sectionMarks, length_sectionOf, ← Nat.add_assoc]
      rfl
    · refine walks_packets (hall _ List.mem_cons_self).packets hstands ?_
      intro e he
      exact walks_sections (fun ws hmem => hall ws (List.mem_cons_of_mem _ hmem)) he
  have hpos : d.source.pos = dataStart ss := hstands.pos
  refine ⟨d, ms.length, hopen, ?_, ?_, ?_⟩
  · rw [run, runFrom_announce ha hd, hwalks.reads, Nat.zero_add]
  · rw [marksOver_announce ha hd, hwalks.marks]
  · rw [marksOver_announce ha hd, hwalks.marks, ← hms, hpos, dataStart, Nat.add_sub_cancel]

/-- The listing of the file of a draft shows each of its objects where it stands, and below each
data object the packets that were written to it, and the demultiplexer comes across the same data
objects and packets at the same places. The listing does not break off and warns of nothing. -/
theorem walked_alike (hl : ∀ s ∈ ss, s.Limited) (hf : (file ss).length < 4294967296)
    (name : String) (o : Options) : ∃ d n lines,
    (ofBytes o (file ss)).1 = .ok d ∧ d.run.reads = .ok n ∧
      Listing.fileReport true name (file ss) = { lines } ∧
      file ss = ((fileObjects ss).flatMap fun x => objectBytes x.1 x.2) ∧
      lines.filterMap Listing.Line.sighting? = sightings 0 (fileObjects ss) ∧
      lines.filterMap Listing.Line.landmark? =
        .data (d.source.pos - sectionStart) :: d.marksOver (n + 1) ∧
      (d.marksOver (n + 1)).length = n ∧
      lines.filterMap Listing.Line.landmark? =
        sectionMarks (lead (({} : Draft).run ss).1).length (writtenSections ss) ∧
      ∀ l ∈ lines, l.warns = false := by
  have hs := sound_of_length hl hf
  obtain ⟨d, n, hopen, hrun, hcount, hmarks⟩ := walks_file hs hf o
  have hshows := Listing.shows_file hs hf name
  refine ⟨d, n, (Listing.fileReport true name (file ss)).lines, hopen, hrun, ?_, file_objects ss,
    hshows.objects, ?_, hcount, hshows.landmarks, hshows.calm⟩
  · rw [← hshows.fault]
  · rw [hmarks, hshows.landmarks]

/-- The second of three sections is empty, and the packet in the third is of no stream. -/
def patchwork : List Step :=
  [.audio4 1 (ascii "cook") 8000 1 [], .object ⟨0x4c, 0x4f, 0x47, 0x4f⟩ [1, 2],
    .packet 1 0 true [5], .nextSection, .nextSection, .packet 9 40 false [6, 7], .index]

theorem limited_patchwork : ∀ s ∈ patchwork, s.Limited := by
  intro s hs
  simp only [patchwork, List.mem_cons, List.not_mem_nil, or_false] at hs
  rcases hs with rfl | rfl | rfl | rfl | rfl | rfl | rfl
  · rintro m ⟨⟩
    rw [length_encode]
    decide
  · change _ ∉ _
    decide
  all_goals rintro m ⟨⟩

theorem walked_alike_patchwork : ∃ d lines,
    (ofBytes {} (file patchwork)).1 = .ok d ∧ d.run.reads = .ok 4 ∧
      Listing.fileReport true "patchwork" (file patchwork) = { lines } ∧
      lines.filterMap Listing.Line.landmark? =
        [.data 212, .packet 230 1 0 1 true, .data 243, .data 261, .packet 279 9 40 2 false] ∧
      d.marksOver 5 =
        [.packet 230 1 0 1 true, .data 243, .data 261, .packet 279 9 40 2 false] ∧
      ∀ l ∈ lines, l.warns = false := by
  obtain ⟨d, n, lines, hopen, hrun, hlist, -, -, hsame, hcount, hmarks, hcalm⟩ :=
    walked_alike limited_patchwork (by decide +kernel) "patchwork" {}
  have hall : sectionMarks (lead (({} : Draft).run patchwork).1).length
      (writtenSections patchwork) =
        [.data 212, .packet 230 1 0 1 true, .data 243, .data 261, .packet 279 9 40 2 false] := by
    decide +kernel
  rw [hall] at hmarks
  obtain ⟨-, hread⟩ := List.cons.inj (hsame.symm.trans hmarks)
  have hfour : n = 4 := by
    rw [← hcount, hread]
    rfl
  subst hfour
  exact ⟨d, lines, hopen, hrun, hlist, hmarks, hread, hcalm⟩

end Demultiplexer

end RealMedia
