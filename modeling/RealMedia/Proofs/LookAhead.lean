import RealMedia.Proofs.DraftLayout
import RealMedia.Proofs.HeaderGrammar
import RealMedia.Proofs.TrackSetup

/-! What is left of looking ahead into a file: the names of AC3 streams, and nothing else. -/

namespace RealMedia

open Container

variable {o : Options} {file : Bytes} {hs : Headers} {t : Track} {d : Demultiplexer} {id : Nat}
  {m : MediaHeader} {wanted : List Nat} {p : StoredPacket} {ps : List StoredPacket}

namespace Container

/-- A packet of the stream that has a fifth byte. -/
def StoredPacket.Shows (id : Nat) (p : StoredPacket) : Prop :=
  p.header.stream.toNat = id ∧ 4 < p.payload.length

instance (id : Nat) (p : StoredPacket) : Decidable (p.Shows id) :=
  inferInstanceAs (Decidable (_ ∧ _))

/-- The top five bits of the fifth byte. -/
def StoredPacket.version? (p : StoredPacket) : Option Nat := p.payload[4]?.map (·.toNat / 8)

/-- The version in the first packet of a stream that has a fifth byte. -/
def shownVersion? (id : Nat) (ps : List StoredPacket) : Option Nat :=
  (ps.find? (·.Shows id)).bind (·.version?)

theorem shownVersion?_skip (hp : ¬ p.Shows id) :
    shownVersion? id (p :: ps) = shownVersion? id ps := by
  rw [shownVersion?, List.find?_cons_of_neg (by simpa using hp)]
  rfl

/-- What is found for one of the streams asked for does not depend on the others. -/
theorem lookup_versionsIn (hw : id ∈ wanted) :
    (versionsIn wanted ps).lookup id = shownVersion? id ps := by
  induction ps generalizing wanted with
  | nil => rfl
  | cons p ps ih =>
    have hother : p.header.stream.toNat ≠ id → ¬ p.Shows id := fun hne hs => hne hs.1
    rw [versionsIn]
    split
    case isFalse hnone =>
      rw [shownVersion?_skip, ih hw]
      apply hother
      rintro rfl
      exact hnone (by simpa using hw)
    split
    case h_1 u v w x b r hb =>
      by_cases hid : p.header.stream.toNat = id
      · have hshows : p.Shows id := ⟨hid, by simp [hb]⟩
        rw [shownVersion?, List.find?_cons_of_pos (by simpa using hshows), hid,
          List.lookup_cons_self, Option.bind_some, StoredPacket.version?, hb]
        exact congrArg some (Nat.shiftRight_eq_div_pow b.toNat 3)
      · rw [shownVersion?_skip (hother hid), List.lookup_cons,
          ih (List.mem_filter.2 ⟨hw, by simpa using Ne.symm hid⟩), beq_false_of_ne (Ne.symm hid)]
    case h_2 hshort =>
      rw [shownVersion?_skip, ih hw]
      rintro ⟨-, hlong⟩
      rcases hb : p.payload with _ | ⟨u, _ | ⟨v, _ | ⟨w, _ | ⟨x, _ | ⟨b, r⟩⟩⟩⟩⟩
      case cons.cons.cons.cons.cons => exact hshort u v w x b r hb
      all_goals
        rw [hb] at hlong
        exact absurd hlong (by simp)

end Container

/-- An AC3 track under another codec name. -/
def Track.rename (name : String) (t : Track) : Track :=
  match t.route with
  | .ac3 f => { t with route := .ac3 { f with header := { f.header with codecId := name } } }
  | _ => t

theorem Track.codecId_rename {name : String} (ht : (t.rename name).isAc3 = true) :
    (t.rename name).header.codecId = name := by
  rcases t with ⟨route, disabled⟩
  cases route with
  | ac3 => rfl
  | video | aac | plain => cases ht

theorem Track.rename_other {name : String} (ht : t.isAc3 = false) : t.rename name = t := by
  rcases t with ⟨route, disabled⟩
  cases route with
  | ac3 => cases ht
  | video | aac | plain => rfl

theorem Track.id_rename (name : String) (t : Track) : (t.rename name).id = t.id := by
  rcases t with ⟨route, disabled⟩
  cases route <;> rfl

theorem Track.isAc3_rename (name : String) (t : Track) : (t.rename name).isAc3 = t.isAc3 := by
  rcases t with ⟨route, disabled⟩
  cases route <;> rfl

theorem Track.rename_rename (name old : String) (t : Track) :
    (t.rename old).rename name = t.rename name := by
  rcases t with ⟨route, disabled⟩
  cases route <;> rfl

/-- The headers name AC3 streams without a version. -/
theorem rename_trackOf (ht : (trackOf o m).1 = some t) : t.rename (ac3CodecId none) = t := by
  cases setUp_trackOf ht <;> rfl

/-- Each track is named for what its own stream shows. -/
theorem nameVersions_shown (hn : ∀ t ∈ hs.tracks, t.rename (ac3CodecId none) = t)
    (ps : List StoredPacket) : nameVersions (versionsIn (ac3Ids hs.tracks) ps) hs.tracks =
      hs.tracks.map fun t => t.rename (ac3CodecId (shownVersion? t.id ps)) := by
  rw [nameVersions_eq]
  apply List.map_congr_left
  intro t ht
  by_cases hac3 : t.isAc3 = true
  · have hid : t.id ∈ ac3Ids hs.tracks :=
      List.mem_map_of_mem (List.mem_filter.2 ⟨ht, hac3⟩)
    rw [named, lookup_versionsIn hid]
    cases shownVersion? t.id ps with
    | none => exact (hn t ht).symm
    | some v => rfl
  · have hother : t.isAc3 = false := by simpa using hac3
    rw [named_other _ hother, Track.rename_other hother]

namespace Demultiplexer

/-- A file that is open at a place, as its headers alone describe it, but for the names of AC3
streams, which are as packets show them. -/
structure LookedAhead (o : Options) (file : Bytes) (hs : Headers) (declared place : Nat)
    (ps : List StoredPacket) (d : Demultiplexer) : Prop where
  data : d.source.data = file
  pos : d.source.pos = place
  tracks : d.tracks = hs.tracks.map fun t => t.rename (ac3CodecId (shownVersion? t.id ps))
  fileHeader : (readFileHeader (.ofBytes file)).map (·.1) = .ok d.fileHeader
  properties : d.properties = hs.properties
  content : d.content = hs.content
  options : d.options = o
  declared : d.declared = declared
  fresh : d.taken = 0 ∧ d.announced = false ∧ d.done = false

/-- Behind opening a file, its first packet is next. The packets in front of the first damage have
given AC3 streams their names, each stream by its own first packet of five bytes or more, and that
is all that is left of looking ahead. -/
theorem look_ahead_names_only (ho : (ofBytes o file).1 = .ok d) :
    ∃ first xs last k behind hs ps,
      Grammar file first xs last (DataHeader.bytes k ++ behind) ∧
      InFront k.packets.toNat behind ps ∧ (Headers.addAll o {} xs).1 = .ok hs ∧
      LookedAhead o file hs k.packets.toNat
        (first.bytes.length + (xs.flatMap Object.bytes).length + 18) ps d ∧
      ∀ t ∈ d.tracks,
        (∃ x ∈ xs, ∃ m, x.Describes m ∧ (trackOf o m).1 = some (t.rename (ac3CodecId none)) ∧
          (t.isAc3 = true ↔ m.Dnet)) ∧
        (t.isAc3 = true →
          (shownVersion? t.id ps = some 9 → t.header.codecId = "A_AC3/BSID9") ∧
          (shownVersion? t.id ps = some 10 → t.header.codecId = "A_AC3/BSID10") ∧
          (shownVersion? t.id ps ≠ some 9 → shownVersion? t.id ps ≠ some 10 →
            t.header.codecId = "A_AC3")) := by
  obtain ⟨first, xs, last, k, behind, f, hs, hg, hf, hadd, rfl⟩ := ofBytes_iff_grammar.1 ho
  obtain ⟨ps, hps⟩ := exists_inFront k.packets.toNat behind
  have hdescribed : ∀ t ∈ hs.tracks, ∃ x ∈ xs, ∃ m, x.Describes m ∧ (trackOf o m).1 = some t := by
    intro t ht
    exact (Headers.described_addAll hadd t ht).resolve_left (by simp)
  have hplain : ∀ t ∈ hs.tracks, t.rename (ac3CodecId none) = t := by
    intro t ht
    obtain ⟨x, hx, m, hm, hof⟩ := hdescribed t ht
    exact rename_trackOf hof
  have htracks := nameVersions_shown hplain ps
  rw [← findVersions_inFront (hg.rest_behind.symm ▸ hps)] at htracks
  have hread := readFileHeader_iff.2 ⟨first, _, hg.rest_eq, hg.first_whole, hf, rfl⟩
  refine ⟨first, xs, last, k, behind, hs, ps, hg, hps, hadd,
    ⟨rfl, ?_, htracks, by rw [hread]; rfl, rfl, rfl, rfl, rfl, rfl, rfl, rfl⟩, ?_⟩
  · change 0 + (first.bytes.length + (chainBytes xs last k).length) = _
    rw [chainBytes, List.length_append, List.length_append, ObjectHeader.length_bytes,
      DataHeader.length_bytes, ObjectHeader.length]
    omega
  · intro t ht
    rw [opened, htracks] at ht
    obtain ⟨u, hu, rfl⟩ := List.mem_map.1 ht
    obtain ⟨x, hx, m, hm, hof⟩ := hdescribed u hu
    refine ⟨⟨x, hx, m, hm, ?_, ?_⟩, fun hac3 => ?_⟩
    · rw [Track.rename_rename, hplain u hu]
      exact hof
    · rw [Track.isAc3_rename]
      exact isAc3_trackOf hof
    rw [Track.codecId_rename hac3, Track.id_rename]
    refine ⟨fun h => by rw [h]; rfl, fun h => by rw [h]; rfl, fun h₉ h₁₀ => ?_⟩
    rw [ac3CodecId]
    · intro h
      exact h₉ h
    · intro h
      exact h₁₀ h

/-- Three streams of AC3 whose packets are mixed. The last packet has lost its last byte. -/
def threefold : Bytes :=
  let dnet : FourCC := ⟨0x64, 0x6e, 0x65, 0x74⟩
  (Draft.file
    [.audio5 1 dnet 48000 2 [], .audio5 2 dnet 48000 2 [], .audio5 3 dnet 48000 2 [],
      .packet 1 0 true [80, 80, 80, 80], .packet 2 0 true [0, 0, 0, 0, 87], .packet 7 0 true [],
      .packet 1 20 true [0, 0, 0, 0, 72, 0], .packet 2 20 true [0, 0, 0, 0, 72],
      .packet 3 0 true [0, 0, 0, 0, 72, 0]]).dropLast

/-- The first stream is named by its second packet, the second stream by its first one, and the
third by none. The search for them ends with the file, 97 bytes behind the place where it is open. -/
theorem look_ahead_names_only_threefold : ∃ d, (ofBytes {} threefold).1 = .ok d ∧
    d.streams.map (·.codecId) = ["A_AC3/BSID9", "A_AC3/BSID10", "A_AC3"] ∧
    (findVersions d.declared (ac3Ids d.tracks) d.source).2.pos = threefold.length ∧
    d.source.pos + 97 = threefold.length ∧
    ∃ first xs last k behind hs ps,
      Grammar threefold first xs last (DataHeader.bytes k ++ behind) ∧
      InFront k.packets.toNat behind ps ∧ (Headers.addAll {} {} xs).1 = .ok hs ∧
      LookedAhead {} threefold hs k.packets.toNat
        (first.bytes.length + (xs.flatMap Object.bytes).length + 18) ps d ∧
      ∀ t ∈ d.tracks,
        (∃ x ∈ xs, ∃ m, x.Describes m ∧ (trackOf {} m).1 = some (t.rename (ac3CodecId none)) ∧
          (t.isAc3 = true ↔ m.Dnet)) ∧
        (t.isAc3 = true →
          (shownVersion? t.id ps = some 9 → t.header.codecId = "A_AC3/BSID9") ∧
          (shownVersion? t.id ps = some 10 → t.header.codecId = "A_AC3/BSID10") ∧
          (shownVersion? t.id ps ≠ some 9 → shownVersion? t.id ps ≠ some 10 →
            t.header.codecId = "A_AC3")) := by
  have hnames : ((ofBytes {} threefold).1.toOption.map fun d => d.streams.map (·.codecId)) =
      some ["A_AC3/BSID9", "A_AC3/BSID10", "A_AC3"] := by decide +kernel
  have hplaces : ((ofBytes {} threefold).1.toOption.map fun d =>
      ((findVersions d.declared (ac3Ids d.tracks) d.source).2.pos, d.source.pos + 97)) =
        some (threefold.length, threefold.length) := by decide +kernel
  cases hd : (ofBytes {} threefold).1 with
  | error e =>
    rw [hd] at hnames
    cases hnames
  | ok d =>
    rw [hd, Except.toOption, Option.map_some, Option.some.injEq] at hnames hplaces
    obtain ⟨hends, hopen⟩ := Prod.mk.inj hplaces
    exact ⟨d, rfl, hnames, hends, hopen, look_ahead_names_only hd⟩

end Demultiplexer

end RealMedia
