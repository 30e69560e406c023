import RealMedia.Demux.Open
import RealMedia.Proofs.ObjectChain

/-! What a drafted file holds, and the chain of objects that is found in it. -/

namespace RealMedia.Container

/-- A packet as a draft is asked for it. -/
structure Written where
  stream : UInt16
  timestamp : UInt32
  key : Bool
  payload : Bytes

/-- The header under which a packet is written. -/
def Written.header (w : Written) : PacketHeader :=
  { version := 0, length := .ofNat (PacketHeader.size + w.payload.length), stream := w.stream
    timestamp := w.timestamp, reserved := 0, flags := if w.key then 2 else 0 }

theorem Written.payload?_header {w : Written} (hw : w.payload.length ≤ PacketHeader.maxPayload) :
    w.header.payload? = some w.payload.length := by
  have hlen : w.header.length.toNat = PacketHeader.size + w.payload.length := by
    simp only [header, UInt16.toNat_ofNat']
    simp only [PacketHeader.size, PacketHeader.maxPayload] at *
    omega
  rw [PacketHeader.payload?, hlen, if_pos (by omega)]
  simp

/-- A stream as a draft describes it. -/
structure Description where
  stream : UInt16
  mime : String
  typeData : Bytes

/-- A length whose object still has a size of 32 bits. -/
def FitsObject (n : Nat) : Prop := ObjectHeader.length + n < 4294967296

instance (n : Nat) : Decidable (FitsObject n) := inferInstanceAs (Decidable (_ < _))

def objectOf (x : FourCC × Bytes) : Object :=
  ⟨⟨x.1, .ofNat (ObjectHeader.length + x.2.length), 0⟩, x.2⟩

variable {xs : List (FourCC × Bytes)} {x : FourCC × Bytes} {ps : List Bytes} {b r : Bytes}
  {s : Source} {id : FourCC}

@[simp] theorem id_objectOf (x : FourCC × Bytes) : (objectOf x).header.id = x.1 := rfl

@[simp] theorem payload_objectOf (x : FourCC × Bytes) : (objectOf x).payload = x.2 := rfl

theorem bytes_objectOf (x : FourCC × Bytes) : (objectOf x).bytes = objectBytes x.1 x.2 := rfl

theorem whole_objectOf (hx : FitsObject x.2.length) : (objectOf x).Whole := by
  change (UInt32.ofNat _).toNat = _
  rw [UInt32.toNat_ofNat']
  exact Nat.mod_eq_of_lt hx

theorem length_objectBytes : (objectBytes id b).length = ObjectHeader.length + b.length := by
  simp only [objectBytes, ObjectHeader.bytes, ObjectHeader.length, List.length_append,
    FourCC.length_bytes, length_bytes32, length_bytes16]

theorem read_objectHeader (hs : s.rest = objectBytes x.1 x.2 ++ r) :
    ∃ t, s.read ObjectHeader.decoder = (some (objectOf x).header, t) ∧ t.rest = x.2 ++ r := by
  rw [objectBytes, List.append_assoc] at hs
  exact ⟨_, Source.read_of_yields (ObjectHeader.yields_bytes _) hs, Source.rest_advance hs⟩

/-- A whole object is read at once, header and payload. -/
theorem read_object (hx : FitsObject x.2.length) (hs : s.rest = objectBytes x.1 x.2 ++ r) :
    ∃ t u, s.read ObjectHeader.decoder = (some (objectOf x).header, t) ∧
      readPayload (objectOf x).header t = (.ok x.2, u) ∧ u.rest = r := by
  obtain ⟨t, ht, hrest⟩ := read_objectHeader hs
  exact ⟨t, _, ht, readPayload_iff.2 ⟨whole_objectOf hx, _, hrest, rfl⟩, Source.rest_advance hrest⟩

/-- The two headers in front of the packets of a data object. -/
def sectionHeader (ps : List Bytes) : ObjectHeader :=
  (objectOf (dataId, bytes32 (.ofNat ps.length) ++ zeros 4 ++ ps.flatten)).header

def packetCount (ps : List Bytes) : DataHeader := ⟨.ofNat ps.length, 0⟩

theorem sectionBytes_eq (ps : List Bytes) :
    Draft.sectionBytes ps = (sectionHeader ps).bytes ++ ((packetCount ps).bytes ++ ps.flatten) := by
  have hzero : zeros 4 = bytes32 0 := by decide
  simp only [Draft.sectionBytes, objectBytes, sectionHeader, objectOf, packetCount,
    DataHeader.bytes, hzero]

/-- The chain in front of the first data object is what was written there. -/
theorem readChain_written (hx : ∀ x ∈ xs, x.1 ≠ dataId ∧ FitsObject x.2.length)
    (hs : s.rest = xs.flatMap (fun o => objectBytes o.1 o.2) ++
      ((sectionHeader ps).bytes ++ ((packetCount ps).bytes ++ r))) :
    ∃ t, readChain s = (xs.map objectOf, .data (packetCount ps) t) ∧ t.rest = r := by
  have hchain : Chained (xs.map objectOf) (sectionHeader ps) := by
    refine ⟨?_, rfl⟩
    intro y hy
    obtain ⟨x, hmem, rfl⟩ := List.mem_map.1 hy
    exact ⟨(hx x hmem).1, whole_objectOf (hx x hmem).2⟩
  have hrest : s.rest = chainBytes (xs.map objectOf) (sectionHeader ps) (packetCount ps) ++ r := by
    rw [hs]
    simp only [chainBytes, List.flatMap_map, bytes_objectOf, List.append_assoc]
  exact ⟨_, readChain_chained hchain hrest, Source.rest_advance hrest⟩

namespace Draft

variable {d : Draft} {m : Description} {ss : List Step} {w : Written} {pss : List (List Bytes)}

def Step.packet? : Step → Option Written
  | .packet stream timestamp key payload => some { stream, timestamp, key, payload }
  | _ => none

def Step.description? : Step → Option Description
  | .media stream mime typeData => some { stream, mime, typeData }
  | .video stream fourcc width height fps =>
    some { stream, mime := videoMime, typeData := TypeData.videoBytes fourcc width height fps }
  | .audio4 stream codec rate channels extra =>
    some { stream, mime := audioMime
           typeData := TypeData.audio4Bytes codec rate 16 channels extra }
  | .audio5 stream fourcc rate channels extra =>
    some { stream, mime := audioMime
           typeData := TypeData.audio5Bytes fourcc rate 16 channels extra }
  | _ => none

def descriptionBytes (m : Description) : Bytes := mediaBytes m.stream m.mime m.typeData

/-- The object that a step adds in front of the data. -/
def Step.object? : Step → Option (FourCC × Bytes)
  | .object id payload => some (id, payload)
  | s => s.description?.map fun m => (mediaId, descriptionBytes m)

/-- Every length of a step fits the field it is written to, and a raw object is none of the objects
that have a meaning. -/
def Step.Fits : Step → Prop
  | .content c => ∀ t ∈ [c.title, c.author, c.copyright, c.comment], (Utf8.encode t).length ≤ 65535
  | .object id payload =>
    id ∉ [propertiesId, contentId, mediaId, dataId] ∧ FitsObject payload.length
  | s => ∀ m ∈ s.description?,
    (Utf8.encode m.mime).length ≤ 255 ∧ FitsObject (descriptionBytes m).length

theorem fits_description (hm : m.mime.utf8ByteSize ≤ 255) (ht : m.typeData.length ≤ 4294966784) :
    (Utf8.encode m.mime).length ≤ 255 ∧ FitsObject (descriptionBytes m).length := by
  rw [length_encode]
  refine ⟨hm, ?_⟩
  simp only [FitsObject, ObjectHeader.length, descriptionBytes, mediaBytes, zeros,
    List.length_append, length_encode, length_bytes16, length_bytes32, List.length_replicate,
    List.length_cons, List.length_nil]
  omega

def writtenBytes (w : Written) : Bytes := packetBytes w.stream w.timestamp w.key w.payload

/-- The packets that are asked for. -/
def asked (ss : List Step) : List Written := ss.filterMap Step.packet?

/-- The packets that are not left out. -/
def kept (ss : List Step) : List Written :=
  (asked ss).filter fun w => w.payload.length ≤ PacketHeader.maxPayload

def described (ss : List Step) : List Description := ss.filterMap Step.description?

theorem run_cons (d : Draft) (s : Step) (ss : List Step) :
    (d.run (s :: ss)).1 = ((d.apply s).1.run ss).1 := by
  have hnotes : ∀ (ss : List Step) (d : Draft) (a b : List Note),
      (ss.foldl (fun r s => ((r.1.apply s).1, r.2 ++ (r.1.apply s).2)) (d, a)).1 =
        (ss.foldl (fun r s => ((r.1.apply s).1, r.2 ++ (r.1.apply s).2)) (d, b)).1 := by
    intro ss
    induction ss with
    | nil => intros; rfl
    | cons s ss ih => intro d a b; exact ih _ _ _
  exact hnotes ss _ _ _

theorem objects_run (d : Draft) (ss : List Step) :
    (d.run ss).1.objects = d.objects ++ ss.filterMap Step.object? := by
  induction ss generalizing d with
  | nil => simp [run]
  | cons s ss ih =>
    rw [run_cons, ih, List.filterMap_cons]
    cases s with
    | packet stream timestamp key payload =>
      simp only [apply]
      split <;> rfl
    | duration | content | nextSection | index => rfl
    | media | video | audio4 | audio5 | object =>
      simp [apply, addMedia, Step.object?, Step.description?, descriptionBytes]

/-- The packets of a draft made in these steps, those of its first section and those of each later
one. -/
def sectionsOf : List Step → List Written × List (List Written)
  | [] => ([], [])
  | .packet stream timestamp key payload :: ss =>
    if payload.length ≤ PacketHeader.maxPayload then
      ({ stream, timestamp, key, payload } :: (sectionsOf ss).1, (sectionsOf ss).2)
    else sectionsOf ss
  | .nextSection :: ss => ([], (sectionsOf ss).1 :: (sectionsOf ss).2)
  | _ :: ss => sectionsOf ss

/-- The sections hold the packets that are asked for and not left out, in order. -/
theorem flatten_sectionsOf (ss : List Step) :
    (sectionsOf ss).1 ++ (sectionsOf ss).2.flatten = kept ss := by
  induction ss with
  | nil => rfl
  | cons s ss ih =>
    rw [kept, asked] at ih ⊢
    cases s with
    | packet stream timestamp key payload =>
      rw [List.filterMap_cons_some (by rfl), sectionsOf]
      by_cases hp : payload.length ≤ PacketHeader.maxPayload
      · rw [if_pos hp, List.filter_cons_of_pos (by simpa using hp), ← ih]
        rfl
      · rw [if_neg hp, List.filter_cons_of_neg (by simpa using hp)]
        exact ih
    | duration | content | media | video | audio4 | audio5 | object | nextSection | index => exact ih

theorem addPacket_append (ps : List (List Bytes)) (q : List Bytes) (b : Bytes) :
    addPacket (ps ++ [q]) b = ps ++ [q ++ [b]] := by
  induction ps with
  | nil => rfl
  | cons p ps ih =>
    cases ps with
    | nil => rfl
    | cons p' ps => exact congrArg _ ih

/-- Packets go to the end of the last section. -/
theorem sections_run (hd : d.sections = pss ++ [ps]) (ss : List Step) :
    (d.run ss).1.sections = pss ++ (ps ++ (sectionsOf ss).1.map writtenBytes) ::
      (sectionsOf ss).2.map (·.map writtenBytes) := by
  induction ss generalizing d pss ps with
  | nil =>
    rw [sectionsOf, List.map_nil, List.map_nil, List.append_nil]
    exact hd
  | cons s ss ih =>
    rw [run_cons]
    cases s with
    | packet stream timestamp key payload =>
      rw [sectionsOf]
      by_cases hp : payload.length ≤ PacketHeader.maxPayload
      · simp only [apply, if_pos hp]
        rw [ih (by rw [hd, addPacket_append])]
        simp [writtenBytes]
      · simp only [apply, if_neg hp]
        exact ih hd
    | nextSection =>
      simp only [apply, sectionsOf]
      rw [ih (show d.sections ++ [[]] = (pss ++ [ps]) ++ [[]] by rw [hd])]
      simp
    | duration | content | media | video | audio4 | audio5 | object | index => exact ih hd

theorem sections_drafted (ss : List Step) :
    (({} : Draft).run ss).1.sections = (sectionsOf ss).1.map writtenBytes ::
      (sectionsOf ss).2.map (·.map writtenBytes) :=
  sections_run (show ({} : Draft).sections = [] ++ [[]] from rfl) ss

/-- Every text of a draft that follows the limits does. -/
theorem content_run (hd : ∀ c ∈ d.content, (Step.content c).Fits) (hf : ∀ s ∈ ss, s.Fits) :
    ∀ c ∈ (d.run ss).1.content, (Step.content c).Fits := by
  induction ss generalizing d with
  | nil => exact hd
  | cons s ss ih =>
    rw [run_cons]
    refine ih ?_ fun s hs => hf s (by simp [hs])
    cases s with
    | content c =>
      intro c' hc
      cases hc
      exact hf _ (by simp)
    | packet stream timestamp key payload =>
      simp only [apply]
      split <;> exact hd
    | duration | media | video | audio4 | audio5 | object | nextSection | index => exact hd

end Draft

end RealMedia.Container
