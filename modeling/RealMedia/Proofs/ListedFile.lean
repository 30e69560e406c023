import RealMedia.Listing.Walk
import RealMedia.Proofs.DraftOpening
import RealMedia.Proofs.PlainAudio

/-!
What the listing of a drafted file shows: each object where it stands, and below each data object
the packets that were written to it.
-/

namespace RealMedia

open Container Container.Draft Decoder

/-- What a walk over the data of a file comes across. -/
inductive Landmark
  | data (pos : Nat)
  | packet (pos : Nat) (stream : UInt16) (timestamp : UInt32) (length : Nat) (key : Bool)
deriving DecidableEq

/-- An object as a line shows it. -/
structure Sighting where
  id : FourCC
  pos : Nat
  size : Nat
  version : Nat

def Container.Written.landmark (pos : Nat) (w : Written) : Landmark :=
  .packet pos w.stream w.timestamp w.payload.length w.key

namespace Container.Draft

variable {ss : List Step}

/-- The packets of all sections of a draft. -/
def writtenSections (ss : List Step) : List (List Written) :=
  (sectionsOf ss).1 :: (sectionsOf ss).2

/-- The data object of a section. -/
def dataObject (ws : List Written) : FourCC × Bytes :=
  (dataId, bytes32 (.ofNat (ws.map writtenBytes).length) ++ zeros 4 ++
    (ws.map writtenBytes).flatten)

/-- All objects of the file of a draft. -/
def fileObjects (ss : List Step) : List (FourCC × Bytes) :=
  let d := (({} : Draft).run ss).1
  (fileId, zeros 4 ++ bytes32 (.ofNat (d.headerObjects.length + 1))) :: d.headerObjects ++
    ((writtenSections ss).map dataObject ++ if d.index then [(indexId, zeros 10)] else [])

/-- The file holds nothing else. -/
theorem file_objects (ss : List Step) :
    file ss = (fileObjects ss).flatMap fun x => objectBytes x.1 x.2 := by
  have hdata : ∀ ws, sectionBytes (ws.map writtenBytes) =
      objectBytes (dataObject ws).1 (dataObject ws).2 := fun _ => rfl
  rw [file, bytes, sections_drafted, fileObjects, writtenSections]
  simp only [List.flatMap_cons, List.flatMap_append, List.flatMap_map, List.map_cons,
    List.cons_append, List.append_assoc, hdata]
  split <;> simp

/-- The lengths of a section fit. -/
structure Countable (ws : List Written) : Prop where
  packets : ∀ w ∈ ws, w.payload.length ≤ PacketHeader.maxPayload
  count : ws.length < 4294967296
  fits : FitsObject (dataObject ws).2.length

theorem countable_sections (hs : Sound ss) (hf : (file ss).length < 4294967296) :
    ∀ ws ∈ writtenSections ss, Countable ws := by
  obtain ⟨hnow, hlater⟩ := hs.counts
  intro ws hws
  refine ⟨?_, ?_, ?_⟩
  · intro w hw
    have hkept : w ∈ kept ss := by
      rw [← flatten_sectionsOf, ← List.flatten_cons]
      exact List.mem_flatten_of_mem hws hw
    simpa using (List.mem_filter.1 hkept).2
  · exact (List.mem_cons.1 hws).elim (fun h => h ▸ hnow) (hlater ws)
  · have hmem : dataObject ws ∈ fileObjects ss := by
      simp [fileObjects, List.mem_map_of_mem hws]
    have hle := length_le_flatMap (f := fun x : FourCC × Bytes => objectBytes x.1 x.2) hmem
    rw [← file_objects, length_objectBytes] at hle
    exact Nat.lt_of_le_of_lt hle hf

end Container.Draft

/-- Packets that stand one behind the other. -/
def packetMarks : (pos : Nat) → List Written → List Landmark
  | _, [] => []
  | pos, w :: ws => w.landmark pos :: packetMarks (pos + (writtenBytes w).length) ws

/-- Sections that stand one behind the other, with their packets. -/
def sectionMarks : (pos : Nat) → List (List Written) → List Landmark
  | _, [] => []
  | pos, ws :: wss =>
    .data pos :: packetMarks (pos + sectionStart) ws ++
      sectionMarks (pos + (sectionOf ws).length) wss

/-- Objects that stand one behind the other, each under a header that tells its size. -/
def sightings : (pos : Nat) → List (FourCC × Bytes) → List Sighting
  | _, [] => []
  | pos, x :: xs =>
    let size := (objectBytes x.1 x.2).length
    { id := x.1, pos, size, version := 0 } :: sightings (pos + size) xs

namespace Listing

variable {r q : Report} {os os' : List Sighting} {ms ms' : List Landmark} {s : Source}
  {id : FourCC} {payload b : Bytes} {x : FourCC × Bytes} {xs : List (FourCC × Bytes)}
  {ws : List Written} {ss : List Step}

def Line.sighting? : Line → Option Sighting
  | object h pos => some ⟨h.id, pos, h.size.toNat, h.version.toNat⟩
  | _ => none

def Line.landmark? : Line → Option Landmark
  | object h pos => if h.id = dataId then some (.data pos) else none
  | packet h payload pos => some (.packet pos h.stream h.timestamp payload h.isKey)
  | _ => none

/-- The line tells of something that is wrong, or not listed. -/
def Line.warns : Line → Bool
  | invalidSize .. | packetTooSmall .. | sectionEnds .. | morePackets .. => true
  | _ => false

/-- A report that did not break off shows these objects and landmarks, and warns of nothing. -/
structure Shows (r : Report) (os : List Sighting) (ms : List Landmark) : Prop where
  fault : r.fault = none
  objects : r.lines.filterMap Line.sighting? = os
  landmarks : r.lines.filterMap Line.landmark? = ms
  calm : ∀ l ∈ r.lines, l.warns = false

theorem Shows.andThen (hr : Shows r os ms) (hq : Shows q os' ms') :
    Shows (r.andThen q) (os ++ os') (ms ++ ms') := by
  have hboth : r.andThen q = { q with lines := r.lines ++ q.lines } := by
    rw [Report.andThen, hr.fault]
  rw [hboth]
  refine ⟨hq.fault, ?_, ?_, ?_⟩
  · rw [List.filterMap_append, hr.objects, hq.objects]
  · rw [List.filterMap_append, hr.landmarks, hq.landmarks]
  · intro l hl
    exact (List.mem_append.1 hl).elim (hr.calm l) (hq.calm l)

/-- A line that only describes. -/
def Line.Describes (l : Line) : Prop :=
  l.sighting? = none ∧ l.landmark? = none ∧ l.warns = false

theorem shows_describing {ls : List Line} (hl : ∀ l ∈ ls, l.Describes) :
    Shows { lines := ls } [] [] where
  fault := rfl
  objects := List.filterMap_eq_nil_iff.2 fun l hmem => (hl l hmem).1
  landmarks := List.filterMap_eq_nil_iff.2 fun l hmem => (hl l hmem).2.1
  calm l hmem := (hl l hmem).2.2

theorem shows_line {l : Line} (hl : l.Describes) : Shows { lines := [l] } [] [] :=
  shows_describing (by simpa using hl)

/-! ## Objects -/

/-- An object other than a data object that is described under its header. -/
structure Readable (x : FourCC × Bytes) : Prop where
  other : x.1 ≠ dataId
  fits : FitsObject x.2.length
  shows : Shows (payloadReport x.1 x.2) [] []

theorem shows_decoded {α : Type} {d : Decoder α} {a : α} {lines : α → List Line}
    (hd : d.decode payload = .ok a) (hl : ∀ l ∈ lines a, l.Describes) :
    Shows (decoded d payload lines) [] [] := by
  rw [decoded, hd]
  exact shows_describing hl

theorem describes_typeLine (b : Bytes) : (typeLine b).Describes := by
  rw [typeLine]
  split <;> exact ⟨rfl, rfl, rfl⟩

theorem shows_media {m : Description} (hm : (Utf8.encode m.mime).length ≤ 255)
    (hf : FitsObject (descriptionBytes m).length) :
    Shows (payloadReport mediaId (descriptionBytes m)) [] [] := by
  have ht : m.typeData.length < 4294967296 := by
    simp only [FitsObject, descriptionBytes, mediaBytes, List.length_append] at hf
    omega
  rw [payloadReport, if_neg (by decide), if_neg (by decide), if_pos rfl]
  refine shows_decoded (decode_of_yields (yields_mediaBytes hm ht)) ?_
  intro l hl
  rcases List.mem_cons.1 hl with rfl | hl
  · exact ⟨rfl, rfl, rfl⟩
  · cases List.mem_singleton.1 hl
    exact describes_typeLine _

theorem shows_content {c : Content} (hc : (Step.content c).Fits) :
    Shows (payloadReport contentId (contentBytes c)) [] [] := by
  have hy := yields_contentBytes (hc c.title (by simp)) (hc c.author (by simp))
    (hc c.copyright (by simp)) (hc c.comment (by simp))
  rw [payloadReport, if_neg (by decide), if_pos rfl]
  refine shows_decoded (decode_of_yields hy) ?_
  intro l hl
  obtain ⟨p, -, rfl⟩ := List.mem_map.1 hl
  exact ⟨rfl, rfl, rfl⟩

theorem shows_properties (d : Draft) :
    Shows (payloadReport propertiesId d.propertiesBytes) [] [] := by
  rw [payloadReport, if_pos rfl]
  refine shows_decoded (decode_of_yields (yields_propertiesBytes d)) ?_
  intro l hl
  cases List.mem_singleton.1 hl
  exact ⟨rfl, rfl, rfl⟩

theorem shows_raw (hid : id ∉ [propertiesId, contentId, mediaId, dataId]) :
    Shows (payloadReport id payload) [] [] := by
  simp only [List.mem_cons, List.not_mem_nil, or_false, not_or] at hid
  rw [payloadReport, if_neg hid.1, if_neg hid.2.1, if_neg hid.2.2.1]
  split
  · exact shows_describing (by simp)
  · exact shows_line ⟨rfl, rfl, rfl⟩

theorem readable_raw (hid : id ∉ [propertiesId, contentId, mediaId, dataId])
    (hf : FitsObject payload.length) : Readable (id, payload) where
  other := fun h => hid (by simp [show id = dataId from h])
  fits := hf
  shows := shows_raw hid

/-! ## Packets -/

theorem shows_closing (total keys : Nat) : Shows (closing total total keys) [] [] := by
  rw [closing, if_neg (Nat.lt_irrefl _), List.nil_append]
  exact shows_line ⟨rfl, rfl, rfl⟩

/-- A packet that is whole is listed, and then the next ones. -/
theorem shows_packet {w : Written} {stop total left n listed keys : Nat}
    (hw : w.payload.length ≤ PacketHeader.maxPayload) (hs : s.rest = writtenBytes w ++ b)
    (hstop : s.pos + (writtenBytes w).length ≤ stop)
    (hmore : Shows (packetLines true stop total left (n + 1) (listed + 1) (keys + w.key.toNat)
      (s.advance (writtenBytes w).length)) [] ms) :
    Shows (packetLines true stop total (left + 1) n listed keys s) [] (w.landmark s.pos :: ms) := by
  rw [writtenBytes_eq, List.append_assoc] at hs
  obtain ⟨hread, -⟩ := read_header hs
  have hroom : ¬stop < s.pos + PacketHeader.size := by
    rw [length_writtenBytes] at hstop
    omega
  rw [length_writtenBytes, ← Source.advance_advance] at hmore
  rw [packetLines, if_neg hroom, hread]
  simp only [Written.payload?_header hw, isKey_header, Bool.true_or, if_true, Bool.toNat_true]
  refine ⟨hmore.fault, hmore.objects, ?_, List.forall_mem_cons.2 ⟨rfl, hmore.calm⟩⟩
  rw [List.filterMap_cons_some (by rfl), hmore.landmarks, isKey_header]
  rfl

/-- All packets of a section are listed. -/
theorem shows_packets {stop total n listed keys : Nat}
    (hw : ∀ w ∈ ws, w.payload.length ≤ PacketHeader.maxPayload)
    (hs : s.rest = (ws.map writtenBytes).flatten ++ b)
    (hstop : s.pos + (ws.map writtenBytes).flatten.length ≤ stop)
    (hall : listed + ws.length = total) :
    Shows (packetLines true stop total ws.length n listed keys s) [] (packetMarks s.pos ws) := by
  induction ws generalizing s n listed keys with
  | nil =>
    subst hall
    exact shows_closing _ _
  | cons w ws ih =>
    rw [List.map_cons, List.flatten_cons, List.append_assoc] at hs
    rw [List.map_cons, List.flatten_cons, List.length_append] at hstop
    rw [List.length_cons] at hall
    refine shows_packet (hw w (by simp)) hs (by omega) ?_
    refine ih (fun w hmem => hw w (by simp [hmem])) (Source.rest_advance hs) ?_ (by omega)
    change s.pos + (writtenBytes w).length + _ ≤ stop
    omega

/-! ## The file -/

/-- What a listing says below the header of an object. -/
def inner (x : FourCC × Bytes) (s : Source) : Report :=
  if x.1 = dataId then
    dataReport true (s.pos + (objectBytes x.1 x.2).length) (s.advance ObjectHeader.length)
  else payloadReport x.1 x.2

theorem size_objectOf (hx : FitsObject x.2.length) :
    (objectOf x).header.size.toNat = (objectBytes x.1 x.2).length := by
  rw [whole_objectOf hx, length_objectBytes, payload_objectOf]

/-- An object that fits is listed, and then the next ones. -/
theorem objectReport_object (hx : FitsObject x.2.length) (hs : s.rest = objectBytes x.1 x.2 ++ b) :
    objectReport true s =
      (({ lines := [.object (objectOf x).header s.pos] } : Report).andThen (inner x s)).andThen
        (objectReport true (s.advance (objectBytes x.1 x.2).length)) := by
  have hlong : (objectBytes x.1 x.2).length ≤ s.rest.length := by
    rw [hs, List.length_append]
    omega
  have hbody : s.rest = (objectOf x).header.bytes ++ (x.2 ++ b) := by
    rw [hs, objectBytes, List.append_assoc]
    rfl
  have hread := ObjectHeader.read_iff.2 ⟨_, hbody, rfl⟩
  have hpayload : (s.advance ObjectHeader.length).rest.take
      ((objectBytes x.1 x.2).length - ObjectHeader.length) = x.2 := by
    have hrest : (s.advance ObjectHeader.length).rest = x.2 ++ b := Source.rest_advance hbody
    rw [hrest, length_objectBytes, Nat.add_sub_cancel_left, List.take_left]
  rw [length_objectBytes] at hlong
  rw [objectReport, if_neg (by simpa using Nat.le_trans (Nat.le_add_right _ _) hlong), hread]
  simp only [size_objectOf hx]
  rw [if_neg ?_]
  · rw [ObjectHeader.length_bytes, hpayload]
    rfl
  · rw [length_objectBytes]
    simp only [Bool.not_eq_true', atLeast_eq_false]
    omega

theorem shows_section (hw : Countable ws) (hs : s.rest = sectionOf ws ++ b) :
    Shows (inner (dataObject ws) s) [] (packetMarks (s.pos + sectionStart) ws) := by
  have hcount : (packetCount (ws.map writtenBytes)).packets.toNat = ws.length := by
    rw [packetCount, UInt32.toNat_ofNat', List.length_map]
    exact Nat.mod_eq_of_lt hw.count
  rw [sectionOf, sectionBytes_eq, List.append_assoc, List.append_assoc] at hs
  have hrest : (s.advance ObjectHeader.length).rest = _ := Source.rest_advance hs
  have hread := DataHeader.read_iff.2 ⟨_, hrest, rfl⟩
  rw [inner, if_pos (show (dataObject ws).1 = dataId from rfl), dataReport, hread]
  have hfirst : Shows { lines := [.packets (packetCount (ws.map writtenBytes))] } [] [] :=
    shows_line ⟨rfl, rfl, rfl⟩
  refine hfirst.andThen ?_
  rw [hcount]
  refine shows_packets hw.packets (Source.rest_advance hrest) ?_ (Nat.zero_add _)
  change s.pos + ObjectHeader.length + 8 + _ ≤ _
  rw [length_objectBytes, dataObject, List.length_append, List.length_append, length_bytes32]
  simp only [zeros, List.length_replicate]
  omega

/-- Objects that stand one behind the other from a position on, and the landmarks among them. -/
inductive LaidOut : (pos : Nat) → List (FourCC × Bytes) → List Landmark → Prop
  | nil (pos : Nat) : LaidOut pos [] []
  | other {pos : Nat} {x : FourCC × Bytes} {xs : List (FourCC × Bytes)} {ms : List Landmark}
    (hx : Readable x) (hr : LaidOut (pos + (objectBytes x.1 x.2).length) xs ms) :
    LaidOut pos (x :: xs) ms
  | data {pos : Nat} {ws : List Written} {xs : List (FourCC × Bytes)} {ms : List Landmark}
    (hw : Countable ws) (hr : LaidOut (pos + (sectionOf ws).length) xs ms) :
    LaidOut pos (dataObject ws :: xs) (.data pos :: packetMarks (pos + sectionStart) ws ++ ms)

theorem shows_header (hx : FitsObject x.2.length) (pos : Nat) :
    Shows { lines := [.object (objectOf x).header pos] }
      [⟨x.1, pos, (objectBytes x.1 x.2).length, 0⟩]
      (if x.1 = dataId then [.data pos] else []) where
  fault := rfl
  objects := by
    rw [List.filterMap_cons_some (by rfl), size_objectOf hx]
    rfl
  landmarks := by
    rw [List.filterMap_cons, Line.landmark?, id_objectOf]
    split <;> simp_all
  calm := by
    intro l hl
    cases List.mem_singleton.1 hl
    rfl

/-- The listing goes from object to object. -/
theorem LaidOut.shows {pos : Nat} (hl : LaidOut pos xs ms) (hp : s.pos = pos)
    (hs : s.rest = xs.flatMap fun x => objectBytes x.1 x.2) :
    Shows (objectReport true s) (sightings pos xs) ms := by
  induction hl generalizing s with
  | nil pos =>
    have hempty : s.rest = [] := hs
    rw [objectReport, if_pos (by rw [hempty]; rfl)]
    exact shows_describing (by simp)
  | @other pos x xs ms hx hr ih =>
    subst hp
    rw [List.flatMap_cons] at hs
    have hfirst := shows_header hx.fits s.pos
    have hinner : Shows (inner x s) [] [] := by
      rw [inner, if_neg hx.other]
      exact hx.shows
    rw [if_neg hx.other] at hfirst
    rw [objectReport_object hx.fits hs]
    exact (hfirst.andThen hinner).andThen (ih rfl (Source.rest_advance hs))
  | @data pos ws xs ms hw hr ih =>
    subst hp
    rw [List.flatMap_cons] at hs
    have hfirst := shows_header hw.fits s.pos
    rw [if_pos (show (dataObject ws).1 = dataId from rfl)] at hfirst
    rw [objectReport_object hw.fits hs]
    exact (hfirst.andThen (shows_section hw hs)).andThen (ih rfl (Source.rest_advance hs))

theorem LaidOut.others {pos : Nat} {ys : List (FourCC × Bytes)} (hx : ∀ x ∈ xs, Readable x)
    (hr : LaidOut (pos + (xs.flatMap fun x => objectBytes x.1 x.2).length) ys ms) :
    LaidOut pos (xs ++ ys) ms := by
  induction xs generalizing pos with
  | nil => exact hr
  | cons x xs ih =>
    rw [List.flatMap_cons, List.length_append, ← Nat.add_assoc] at hr
    exact .other (hx x (by simp)) (ih (fun x hmem => hx x (by simp [hmem])) hr)

theorem LaidOut.sections {pos : Nat} {ys : List (FourCC × Bytes)} {wss : List (List Written)}
    (hw : ∀ ws ∈ wss, Countable ws)
    (hr : LaidOut (pos + (wss.flatMap sectionOf).length) ys []) :
    LaidOut pos (wss.map dataObject ++ ys) (sectionMarks pos wss) := by
  induction wss generalizing pos with
  | nil => exact hr
  | cons ws wss ih =>
    rw [List.flatMap_cons, List.length_append, ← Nat.add_assoc] at hr
    exact .data (hw ws (by simp)) (ih (fun ws hmem => hw ws (by simp [hmem])) hr)

theorem readable_headerObjects (hf : ∀ s ∈ ss, s.Fits) :
    ∀ x ∈ (({} : Draft).run ss).1.headerObjects, Readable x := by
  intro x hx
  obtain ⟨hother, hfits⟩ := fits_headerObjects hf x hx
  refine ⟨hother, hfits, ?_⟩
  have hcontent := content_run (d := {}) (fun c hc => by cases hc) hf
  rw [headerObjects, objects_run, List.cons_append, List.mem_cons, List.mem_append] at hx
  rcases hx with rfl | hx | hx
  · exact shows_properties _
  · obtain ⟨c, hc, rfl⟩ := Option.map_eq_some_iff.1 (Option.mem_toList.1 hx)
    exact shows_content (hcontent c hc)
  · obtain ⟨s, hs, hx⟩ := List.mem_filterMap.1 hx
    have hfit := hf s hs
    cases s with
    | media | video | audio4 | audio5 =>
      cases hx
      exact shows_media (hfit _ rfl).1 (hfit _ rfl).2
    | object id payload =>
      cases hx
      exact shows_raw hfit.1
    | duration | content | packet | nextSection | index => cases hx

theorem laidOut_file (hs : Sound ss) (hf : (file ss).length < 4294967296) :
    LaidOut 0 (fileObjects ss)
      (sectionMarks (lead (({} : Draft).run ss).1).length (writtenSections ss)) := by
  have hlead : (lead (({} : Draft).run ss).1).length = 0 + (((fileId, zeros 4 ++ bytes32 (.ofNat
      ((({} : Draft).run ss).1.headerObjects.length + 1))) ::
        (({} : Draft).run ss).1.headerObjects).flatMap fun x => objectBytes x.1 x.2).length := by
    rw [Nat.zero_add]
    rfl
  refine LaidOut.others ?_ ?_
  · refine List.forall_mem_cons.2
      ⟨readable_raw (by decide) ?_, readable_headerObjects hs.steps⟩
    rw [List.length_append, length_bytes32]
    decide
  · rw [← hlead]
    refine LaidOut.sections (countable_sections hs hf) ?_
    split
    · exact .other (readable_raw (by decide) (by decide)) (.nil _)
    · exact .nil _

/-- The listing of the file of a draft. -/
theorem shows_file (hs : Sound ss) (hf : (file ss).length < 4294967296) (name : String) :
    Shows (fileReport true name (file ss)) (sightings 0 (fileObjects ss))
      (sectionMarks (lead (({} : Draft).run ss).1).length (writtenSections ss)) := by
  have hfirst : Shows { lines := [.file name, .size (file ss).length, .blank] } [] [] := by
    refine shows_describing ?_
    intro l hl
    simp only [List.mem_cons, List.not_mem_nil, or_false] at hl
    rcases hl with rfl | rfl | rfl <;> exact ⟨rfl, rfl, rfl⟩
  exact hfirst.andThen ((laidOut_file hs hf).shows rfl (file_objects ss))

end Listing

end RealMedia
