import RealMedia.Proofs.Ac3Cuts
import RealMedia.Proofs.Opening
import RealMedia.Proofs.StreamView

/-! The tracks that are set up from stream descriptions: one for each stream, under its id. -/

namespace RealMedia

open Container

variable {o : Options} {t : Track} {ts : List Track} {hs : Headers}

/-- The tracks that there are for the description of a stream. -/
inductive SetUp (o : Options) (m : MediaHeader) : Track → Prop
  | video (v : VideoType) : SetUp o m (videoTrack m v).1
  | ac3 (a : AudioType) : SetUp o m
    { route := .ac3 (.ofOptions
        { audioHeader m a with family := .ac3, codecId := ac3CodecId none, codecPrivate := [] }
        true o) }
  | aac (a : AudioType) : SetUp o m
    { route := .aac (.ofConfig
        { audioHeader m a with family := .aac, codecPrivate := [], duplicateData := true }
        (aacConfig o m.stream.toNat (audioHeader m a).fourcc a)) }
  | plain (a : AudioType) : SetUp o m { route := .plain { header := audioHeader m a } none none 0 }

theorem setUp_audioTrack (o : Options) (m : MediaHeader) (a : AudioType) :
    SetUp o m (audioTrack o m a).1 := by
  rw [audioTrack]
  dsimp only
  split
  · exact .ac3 a
  · split
    · exact .aac a
    · exact .plain a

theorem setUp_trackOf {m : MediaHeader} (ht : (trackOf o m).1 = some t) : SetUp o m t := by
  rw [trackOf] at ht
  split at ht
  · split at ht
    · cases ht
      exact .video _
    · cases ht
  · split at ht
    · cases ht
      exact setUp_audioTrack ..
    · cases ht
  · cases ht

theorem trackOf_video {m : MediaHeader} {v : VideoType} (hp : TypeData.parse m.typeData = .video v)
    (hw : o.wantsVideo m.stream.toNat = true) : (trackOf o m).1 = some (videoTrack m v).1 := by
  rw [trackOf, hp]
  dsimp only
  rw [if_pos hw]

theorem trackOf_audio {m : MediaHeader} {a : AudioType} (hp : TypeData.parse m.typeData = .audio a)
    (hw : o.wantsAudio m.stream.toNat = true) : (trackOf o m).1 = some (audioTrack o m a).1 := by
  rw [trackOf, hp]
  dsimp only
  rw [if_pos hw]

theorem id_trackOf {m : MediaHeader} (ht : (trackOf o m).1 = some t) : t.id = m.stream.toNat := by
  cases setUp_trackOf ht <;> rfl

/-- The description is one of audio under the name "dnet", each letter in either case. -/
def Container.MediaHeader.Dnet (m : MediaHeader) : Prop :=
  ∃ a c, TypeData.parse m.typeData = .audio a ∧ a.fourcc = some c ∧
    equalsIgnoringCase c.text "dnet" = true

theorem isAc3_audioTrack {m : MediaHeader} {a : AudioType} : (audioTrack o m a).1.isAc3 = true ↔
    ∃ c, a.fourcc = some c ∧ equalsIgnoringCase c.text "dnet" = true := by
  rw [audioTrack]
  dsimp only
  cases hc : a.fourcc with
  | none => simp [Track.isAc3]
  | some c =>
    have hname : (audioHeader m a).fourcc = c.text := by rw [audioHeader, hc]; rfl
    rw [hname]
    split
    · rename_i hdnet
      exact iff_of_true rfl ⟨c, rfl, by simpa using hdnet⟩
    · rename_i hdnet
      refine iff_of_false ?_ ?_
      · split <;> exact Bool.false_ne_true
      · rintro ⟨_, ⟨⟩, hd⟩
        exact hdnet (by simpa using hd)

/-- The tracks of AC3 are those of the streams named "dnet". -/
theorem isAc3_trackOf {m : MediaHeader} (ht : (trackOf o m).1 = some t) : t.isAc3 = true ↔ m.Dnet := by
  cases hp : TypeData.parse m.typeData with
  | other => simp [trackOf, hp] at ht
  | video v =>
    rw [trackOf, hp] at ht
    dsimp only at ht
    split at ht
    · cases ht
      refine iff_of_false Bool.false_ne_true ?_
      rintro ⟨a, c, ha, -⟩
      cases hp.symm.trans ha
    · cases ht
  | audio a =>
    rw [trackOf, hp] at ht
    dsimp only at ht
    split at ht
    · cases ht
      rw [isAc3_audioTrack]
      constructor
      · rintro ⟨c, hc, hdnet⟩
        exact ⟨a, c, hp, hc, hdnet⟩
      · rintro ⟨b, c, hb, hc, hdnet⟩
        cases hp.symm.trans hb
        exact ⟨c, hc, hdnet⟩
    · cases ht

theorem distinct_addMedia (hd : Distinct hs.tracks) (m : MediaHeader) :
    Distinct (hs.addMedia o m).1.tracks := by
  rw [Headers.addMedia]
  dsimp only
  split
  · exact hd
  · rename_i hnone
    cases ht : (trackOf o m).1 with
    | none => simpa using hd
    | some t =>
      have hid := id_trackOf ht
      simp only [Bool.not_eq_true, List.any_eq_false, decide_eq_true_eq] at hnone
      rw [Option.toList_some, Distinct, List.map_append, List.nodup_append]
      refine ⟨hd, by simp, ?_⟩
      intro i hi j hj
      obtain ⟨s, hs, rfl⟩ := List.mem_map.1 hi
      simp only [List.map_cons, List.map_nil, List.mem_singleton] at hj
      rw [hj, hid]
      exact hnone s hs

theorem id_finalize (t : Track) : t.finalize.id = t.id := by
  rw [Track.finalize]
  split
  · rename_i f hr
    rw [Track.id_of_route hr]
    rfl
  · rfl

/-- The track of an AC3 stream under the name of its version, if that has been found. -/
def named (versions : List (Nat × Nat)) (t : Track) : Track :=
  ((versions.lookup t.id).map t.setVersion).getD t

theorem named_ac3 (versions : List (Nat × Nat)) (f : Ac3Framer) (lost : Bool) :
    ∃ k, k.id = f.header.id ∧
      named versions ⟨.ac3 f, lost⟩ = ⟨.ac3 (f.relabel k f.strict), lost⟩ := by
  rw [named]
  cases versions.lookup (Track.id ⟨.ac3 f, lost⟩) with
  | none => exact ⟨f.header, rfl, rfl⟩
  | some v => exact ⟨{ f.header with codecId := ac3CodecId (some v) }, rfl, rfl⟩

theorem named_other (versions : List (Nat × Nat)) (ht : t.isAc3 = false) :
    named versions t = t := by
  rw [named]
  cases versions.lookup t.id with
  | none => rfl
  | some v =>
    rcases t with ⟨route, lost⟩
    cases route with
    | ac3 => cases ht
    | video | aac | plain => rfl

theorem id_named (versions : List (Nat × Nat)) (t : Track) : (named versions t).id = t.id := by
  by_cases ht : t.isAc3 = false
  · rw [named_other versions ht]
  · rcases t with ⟨route, lost⟩
    cases route with
    | ac3 f =>
      obtain ⟨k, hk, hn⟩ := named_ac3 versions f lost
      rw [hn]
      exact hk
    | video | aac | plain => exact absurd rfl ht

/-- Naming a version changes nothing in a header but the codec name. -/
theorem header_named (versions : List (Nat × Nat)) (t : Track) :
    ∃ name, (named versions t).header = { t.header with codecId := name } := by
  rw [named]
  cases versions.lookup t.id with
  | none => exact ⟨t.header.codecId, rfl⟩
  | some v =>
    rcases t with ⟨route, lost⟩
    cases route with
    | ac3 f => exact ⟨ac3CodecId (some v), rfl⟩
    | video | aac | plain => exact ⟨_, rfl⟩

theorem nameVersions_eq (versions : List (Nat × Nat)) (ts : List Track) :
    nameVersions versions ts = ts.map (named versions) := rfl

/-- What is true of the track of each description, whatever the framer of an AC3 track, is true of
all tracks of an open file. -/
theorem forall_tracks_ofBytes {P : Track → Prop} {file : Bytes} {d : Demultiplexer}
    (hm : ∀ m t, (trackOf o m).1 = some t → P t)
    (hn : ∀ f g lost, P ⟨.ac3 f, lost⟩ → P ⟨.ac3 g, lost⟩)
    (ho : (Demultiplexer.ofBytes o file).1 = .ok d) : ∀ t ∈ d.tracks, P t := by
  refine Demultiplexer.tracks_ofBytes (P := fun ts => ∀ t ∈ ts, P t) ?_ ?_ (by simp) ho
  · intro hs m hp t ht
    exact (Headers.mem_addMedia ht).elim (hp t) (hm m t)
  · intro versions ts hp t ht
    rw [nameVersions_eq] at ht
    obtain ⟨s, hs, rfl⟩ := List.mem_map.1 ht
    have hps := hp s hs
    by_cases hother : s.isAc3 = false
    · rwa [named_other versions hother]
    · rcases s with ⟨route, lost⟩
      cases route with
      | ac3 f =>
        obtain ⟨k, -, hk⟩ := named_ac3 versions f lost
        rw [hk]
        exact hn _ _ _ hps
      | video | aac | plain => exact absurd rfl hother

end RealMedia
