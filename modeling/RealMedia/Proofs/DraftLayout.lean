import RealMedia.Proofs.PacketChain

/-! Where the packets of a draft stand in its file, and which of them a cut file still holds. -/

namespace RealMedia.Container.Draft

variable {ss as bs : List Step} {s : Step} {w : Written} {n pos : Nat} {index : Bool}

/-- The file of a draft made in these steps. -/
def file (ss : List Step) : Bytes := (({} : Draft).run ss).1.bytes

/-- What a file holds in front of its data. -/
def lead (d : Draft) : Bytes :=
  objectBytes fileId (zeros 4 ++ bytes32 (.ofNat (d.headerObjects.length + 1))) ++
    d.headerObjects.flatMap fun o => objectBytes o.1 o.2

/-- The length of the two headers in front of the packets of a section. -/
def sectionStart : Nat := ObjectHeader.length + 8

/-- The position behind the headers of the first section. -/
def dataStart (ss : List Step) : Nat := (lead (({} : Draft).run ss).1).length + sectionStart

def sectionOf (ws : List Written) : Bytes := sectionBytes (ws.map writtenBytes)

def indexBytes (index : Bool) : Bytes := if index then objectBytes indexId (zeros 10) else []

/-- What a file holds behind the headers of its first section. -/
def behindStart (index : Bool) (ss : List Step) : Bytes :=
  ((sectionsOf ss).1.map writtenBytes).flatten ++
    ((sectionsOf ss).2.flatMap sectionOf ++ indexBytes index)

/-- The headers in front of the packets of the first section. -/
def firstHeaders (ss : List Step) : Bytes :=
  (sectionHeader ((sectionsOf ss).1.map writtenBytes)).bytes ++
    (packetCount ((sectionsOf ss).1.map writtenBytes)).bytes

theorem file_eq (ss : List Step) :
    file ss = lead (({} : Draft).run ss).1 ++
      (firstHeaders ss ++ behindStart (({} : Draft).run ss).1.index ss) := by
  rw [file, bytes, sections_drafted, List.flatMap_cons, sectionBytes_eq, List.flatMap_map]
  simp only [lead, firstHeaders, behindStart, indexBytes, List.append_assoc]
  rfl

/-- The bytes that a step adds behind the headers of the first section. -/
def Step.room : Step → Nat
  | .packet _ _ _ payload =>
    if payload.length ≤ PacketHeader.maxPayload then PacketHeader.size + payload.length else 0
  | .nextSection => sectionStart
  | _ => 0

def room : List Step → Nat
  | [] => 0
  | s :: ss => s.room + room ss

/-- The steps without the packets that do not end by position `n`, where the first of the steps
stands at `pos`. -/
def trimFrom (n : Nat) : Nat → List Step → List Step
  | _, [] => []
  | pos, s :: ss =>
    if s.packet?.isSome ∧ n < pos + s.room then trimFrom n (pos + s.room) ss
    else s :: trimFrom n (pos + s.room) ss

/-- The steps without the packets that are not wholly inside the first `n` bytes of the file. -/
def trim (n : Nat) (ss : List Step) : List Step := trimFrom n (dataStart ss) ss

/-- What a step adds behind the headers of the first section, in front of the steps after it. -/
def Step.front (ss : List Step) : Step → Bytes
  | .packet stream timestamp key payload =>
    if payload.length ≤ PacketHeader.maxPayload then
      writtenBytes { stream, timestamp, key, payload }
    else []
  | .nextSection => firstHeaders ss
  | _ => []

theorem length_writtenBytes (w : Written) :
    (writtenBytes w).length = PacketHeader.size + w.payload.length := by
  rw [writtenBytes_eq, List.length_append, PacketHeader.length_bytes]

theorem length_firstHeaders (ss : List Step) : (firstHeaders ss).length = sectionStart := by
  rw [firstHeaders, List.length_append, ObjectHeader.length_bytes, DataHeader.length_bytes]
  rfl

theorem Step.length_front (s : Step) (ss : List Step) : (s.front ss).length = s.room := by
  cases s with
  | packet stream timestamp key payload =>
    rw [front, room]
    split
    · exact length_writtenBytes _
    · rfl
  | nextSection => exact length_firstHeaders ss
  | duration | content | media | video | audio4 | audio5 | object | index => rfl

theorem behindStart_cons (index : Bool) (s : Step) (ss : List Step) :
    behindStart index (s :: ss) = s.front ss ++ behindStart index ss := by
  cases s with
  | packet stream timestamp key payload =>
    rw [behindStart, Step.front, sectionsOf]
    split
    · simp only [behindStart, List.map_cons, List.flatten_cons, List.append_assoc]
    · rfl
  | nextSection =>
    simp only [behindStart, Step.front, sectionsOf, List.map_nil, List.flatten_nil,
      List.nil_append, List.flatMap_cons, sectionOf, sectionBytes_eq, firstHeaders,
      List.append_assoc]
  | duration | content | media | video | audio4 | audio5 | object | index => rfl

theorem behindStart_append (index : Bool) (as bs : List Step) :
    ∃ u, behindStart index (as ++ bs) = u ++ behindStart index bs ∧
      u.length = room as := by
  induction as with
  | nil => exact ⟨[], rfl, rfl⟩
  | cons s as ih =>
    obtain ⟨u, hu, hlen⟩ := ih
    refine ⟨s.front (as ++ bs) ++ u, ?_, ?_⟩
    · rw [List.cons_append, behindStart_cons, hu, List.append_assoc]
    · rw [List.length_append, s.length_front, hlen, room]

theorem trimFrom_append (n pos : Nat) (as bs : List Step) : trimFrom n pos (as ++ bs) =
    trimFrom n pos as ++ trimFrom n (pos + room as) bs := by
  induction as generalizing pos with
  | nil => rfl
  | cons s as ih =>
    rw [List.cons_append, trimFrom, trimFrom, ih, room, ← Nat.add_assoc]
    split <;> rfl

/-- A packet stays among the steps exactly if it is wholly inside the first `n` bytes of the file. -/
theorem trim_packet (n : Nat) (as bs : List Step) {w : Written}
    (hw : w.payload.length ≤ PacketHeader.maxPayload) :
    let s := Step.packet w.stream w.timestamp w.key w.payload
    let ss := as ++ s :: bs
    ∃ u v, file ss = u ++ writtenBytes w ++ v ∧
      trim n ss = trimFrom n (dataStart ss) as ++
        (if (u ++ writtenBytes w).length ≤ n then [s] else []) ++
        trimFrom n (u ++ writtenBytes w).length bs := by
  intro s ss
  have hroom : s.room = (writtenBytes w).length := by
    rw [Step.room, if_pos hw, length_writtenBytes]
  obtain ⟨u, hu, hlen⟩ := behindStart_append (({} : Draft).run ss).1.index as (s :: bs)
  have hpos : (lead (({} : Draft).run ss).1 ++ (firstHeaders ss ++ u)).length =
      dataStart ss + room as := by
    rw [List.length_append, List.length_append, length_firstHeaders, hlen, dataStart,
      Nat.add_assoc]
  refine ⟨lead (({} : Draft).run ss).1 ++ (firstHeaders ss ++ u),
    behindStart (({} : Draft).run ss).1.index bs, ?_, ?_⟩
  · rw [file_eq, hu, behindStart_cons, Step.front, if_pos hw]
    simp only [List.append_assoc]
  · rw [trim, trimFrom_append, List.length_append, hpos, trimFrom, hroom, List.append_assoc]
    congr 1
    by_cases hin : dataStart ss + room as + (writtenBytes w).length ≤ n
    · rw [if_pos hin, if_neg (by omega)]
      rfl
    · rw [if_neg hin, if_pos ⟨rfl, by omega⟩]
      rfl

theorem length_file (ss : List Step) : (file ss).length = dataStart ss +
    (room ss + (indexBytes (({} : Draft).run ss).1.index).length) := by
  obtain ⟨u, hu, hlen⟩ := behindStart_append (({} : Draft).run ss).1.index ss []
  rw [List.append_nil] at hu
  rw [file_eq, List.length_append, List.length_append, length_firstHeaders, hu, List.length_append,
    hlen, dataStart, Nat.add_assoc]
  rfl

/-- Nothing is removed from a file that is not cut. -/
theorem trimFrom_long (hn : pos + room ss ≤ n) : trimFrom n pos ss = ss := by
  induction ss generalizing pos with
  | nil => rfl
  | cons s ss ih =>
    rw [room] at hn
    rw [trimFrom, if_neg (by omega), ih (by omega)]

theorem kept_trimFrom_cons (hn : n < pos + s.room)
    (hss : kept (trimFrom n (pos + s.room) ss) = []) : kept (trimFrom n pos (s :: ss)) = [] := by
  rw [trimFrom]
  split
  · exact hss
  · rename_i hs
    have hnone : s.packet? = none := by
      rw [← Option.not_isSome_iff_eq_none]
      intro hp
      exact hs ⟨hp, hn⟩
    rw [kept, asked, List.filterMap_cons_none hnone]
    exact hss

/-- Behind the cut there are no packets. -/
theorem kept_trimFrom (hn : n < pos) (ss : List Step) : kept (trimFrom n pos ss) = [] := by
  induction ss generalizing pos with
  | nil => rfl
  | cons s ss ih => exact kept_trimFrom_cons (by omega) (ih (by omega))

/-- The index has no packets in it, however much of it is there. -/
theorem remains_index (index : Bool) (n : Nat) : Remains 0 ((indexBytes index).take n) [] [] := by
  cases index with
  | false =>
    rw [indexBytes, if_neg (by simp), List.take_nil]
    exact .short (by decide)
  | true =>
    by_cases hn : n < PacketHeader.size
    · refine .short ?_
      rw [List.length_take]
      omega
    · rw [indexBytes, if_pos rfl, objectBytes, List.take_append, List.take_of_length_le]
      · exact .other (by decide)
      · rw [ObjectHeader.length_bytes, ObjectHeader.length]
        rw [PacketHeader.size] at hn
        omega

/-- What a step adds holds no whole packet if it is cut. -/
theorem remains_front (ss : List Step) (hn : n < s.room) :
    Remains (sectionsOf (s :: ss)).1.length ((s.front ss).take n) [] [] := by
  by_cases hshort : n < PacketHeader.size
  · refine .short ?_
    rw [List.length_take]
    omega
  rw [PacketHeader.size] at hshort
  cases s with
  | packet stream timestamp key payload =>
    rw [Step.room] at hn
    split at hn
    · rename_i hp
      rw [sectionsOf, if_pos hp, Step.front, if_pos hp, writtenBytes_eq, List.take_append,
        List.take_of_length_le]
      · refine .torn hp ?_
        rw [List.length_take, PacketHeader.length_bytes, PacketHeader.size]
        rw [PacketHeader.size] at hn
        change min (n - 12) payload.length < payload.length
        omega
      · rw [PacketHeader.length_bytes, PacketHeader.size]
        omega
    · omega
  | nextSection =>
    rw [Step.room, sectionStart, ObjectHeader.length] at hn
    rw [sectionsOf, Step.front, firstHeaders, List.take_append, List.take_of_length_le]
    · refine .uncounted rfl ?_
      rw [List.length_take, ObjectHeader.length_bytes, ObjectHeader.length]
      omega
    · rw [ObjectHeader.length_bytes, ObjectHeader.length]
      omega
  | duration | content | media | video | audio4 | audio5 | object | index =>
    exact absurd hn (Nat.not_lt_zero n)

/-- A file that is cut holds the packets that are wholly inside, and breaks off. -/
theorem remains_trim (hf : ∀ ws ∈ (sectionsOf ss).2, ws.length < 4294967296) (index : Bool)
    (hpos : pos ≤ n) :
    Remains (sectionsOf ss).1.length ((behindStart index ss).take (n - pos))
      (sectionsOf (trimFrom n pos ss)).1 (sectionsOf (trimFrom n pos ss)).2.flatten := by
  induction ss generalizing pos with
  | nil => exact remains_index index _
  | cons s ss ih =>
    rw [behindStart_cons, List.take_append, s.length_front, Nat.sub_sub]
    by_cases hin : pos + s.room ≤ n
    · have hkeep : trimFrom n pos (s :: ss) = s :: trimFrom n (pos + s.room) ss := by
        rw [trimFrom, if_neg (by omega)]
      have hwhole : (s.front ss).take (n - pos) = s.front ss := by
        rw [List.take_of_length_le]
        rw [s.length_front]
        omega
      rw [hkeep, hwhole]
      cases s with
      | packet stream timestamp key payload =>
        rw [Step.front, sectionsOf, sectionsOf]
        rw [sectionsOf] at hf
        split
        · rename_i hp
          rw [if_pos hp] at hf
          exact .packet hp (ih hf hin)
        · rename_i hp
          rw [if_neg hp] at hf
          exact ih hf hin
      | nextSection =>
        have hfit := hf (sectionsOf ss).1 (by simp [sectionsOf])
        have hcount : (packetCount ((sectionsOf ss).1.map writtenBytes)).packets.toNat =
            (sectionsOf ss).1.length := by
          rw [packetCount, UInt32.toNat_ofNat', List.length_map]
          omega
        have hrest := ih (fun ws hws => hf ws (by simp [sectionsOf, hws])) hin
        rw [← hcount] at hrest
        rw [Step.front, firstHeaders, List.append_assoc]
        exact .next rfl hrest
      | duration | content | media | video | audio4 | audio5 | object | index => exact ih hf hin
    · have hcut : n < pos + s.room := by omega
      obtain ⟨hnow, hlater⟩ := List.append_eq_nil_iff.1 ((flatten_sectionsOf _).trans
        (kept_trimFrom_cons hcut (kept_trimFrom hcut ss)))
      have hnone : n - (pos + s.room) = 0 := by omega
      rw [hnow, hlater, hnone, List.take_zero, List.append_nil]
      exact remains_front ss (by omega)

end RealMedia.Container.Draft
