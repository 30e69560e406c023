import Mathlib.Data.List.Forall2
import RealMedia.Proofs.DraftOpening
import RealMedia.Proofs.TrackSetup
import RealMedia.Proofs.TypeDataReadBack

/-! The headers that a draft describes are the ones read back from its file. -/

namespace RealMedia

open Container Container.Draft

variable {o : Options} {ss : List Step} {s : Step} {d : Draft} {h : StreamHeader} {t : Track}
  {ts : List Track}

namespace Container

namespace Draft

def Step.duration? : Step → Option UInt32
  | .duration ms => some ms
  | _ => none

def Step.content? : Step → Option Content
  | .content c => some c
  | _ => none

/-- The stream that a step describes. -/
def Step.stream? (s : Step) : Option UInt16 := s.description?.map (·.stream)

/-- The texts of a step fit their fields, a stream is one of video or audio, and a raw object is
none of the objects that have a meaning. -/
def Step.Usual : Step → Prop
  | .content c => ∀ t ∈ [c.title, c.author, c.copyright, c.comment], (Utf8.encode t).length ≤ 65535
  | .object id _ => id ∉ [propertiesId, contentId, mediaId, dataId]
  | .media .. => False
  | _ => True

instance : (s : Step) → Decidable s.Usual
  | .content _ => inferInstanceAs (Decidable (∀ t ∈ _, _ ≤ _))
  | .object .. => inferInstanceAs (Decidable (_ ∉ _))
  | .media .. => .isFalse id
  | .duration _ | .video .. | .audio4 .. | .audio5 .. | .packet .. | .nextSection | .index =>
    .isTrue trivial

theorem mime_short (mime : String) (hm : mime ∈ [videoMime, audioMime]) :
    (Utf8.encode mime).length ≤ 255 := by
  rw [length_encode]
  revert mime
  decide

theorem Step.Usual.limited (hs : s.Usual) : s.Limited := by
  cases s with
  | content | object => exact hs
  | media => exact hs.elim
  | video | audio4 | audio5 =>
    rintro m ⟨⟩
    exact mime_short _ (by simp)
  | duration | packet | nextSection | index => rintro m ⟨⟩

/-- The header is that of the stream that a step describes. Audio in AAC has the rates of its own
configuration, and a codec name of another length than four is none. -/
def Step.Gives : Step → StreamHeader → Prop
  | .video stream fourcc width height _, h =>
    h.id = stream.toNat ∧ h.kind = .video ∧ h.fourcc = fourcc.text ∧
      ∃ v, h.params = .video v ∧ v.pixelWidth = width.toNat ∧ v.pixelHeight = height.toNat
  | .audio4 stream codec rate channels _, h =>
    h.id = stream.toNat ∧ h.kind = .audio ∧ (codec.length = 4 → h.fourcc = Utf8.decode codec ∧
      (isAac h.fourcc = false →
        ∃ a, h.params = .audio a ∧ a.sampleRate = rate.toNat ∧ a.channels = channels.toNat))
  | .audio5 stream fourcc rate channels _, h =>
    h.id = stream.toNat ∧ h.kind = .audio ∧ h.fourcc = fourcc.text ∧
      (isAac h.fourcc = false →
        ∃ a, h.params = .audio a ∧ a.sampleRate = rate.toNat ∧ a.channels = channels.toNat)
  | _, _ => False

/-- The steps that describe a stream first. -/
def firsts (ss : List Step) : List Step :=
  (ss.filter (·.stream?.isSome)).eraseDupsBy fun s t => s.stream? = t.stream?

theorem Step.Gives.id_eq (hg : s.Gives h) : s.stream?.map (·.toNat) = some h.id := by
  cases s with
  | video | audio4 | audio5 => exact congrArg some hg.1.symm
  | duration | content | media | object | packet | nextSection | index => exact hg.elim

/-- The codec name is not told by a step. -/
theorem Step.Gives.rename (hg : s.Gives h) (name : String) :
    s.Gives { h with codecId := name } := by
  cases s <;> exact hg

/-- What each step tells anew holds when it has been told last. -/
theorem last_run {α : Type} {f : Draft → Option α} {g : Step → Option α}
    (hf : ∀ d s, f (d.apply s).1 = (g s).or (f d)) (d : Draft) (ss : List Step) :
    f (d.run ss).1 = (ss.filterMap g).getLast?.or (f d) := by
  induction ss generalizing d with
  | nil => rfl
  | cons s ss ih =>
    rw [run_cons, ih, hf, ← Option.or_assoc]
    cases hs : g s with
    | none => rw [List.filterMap_cons_none hs, Option.or_none]
    | some a =>
      rw [List.filterMap_cons_some hs, List.getLast?_cons]
      cases (ss.filterMap g).getLast? <;> rfl

/-- A packet tells nothing of the headers, be it left out or not. -/
theorem apply_packet (d : Draft) (stream : UInt16) (timestamp : UInt32) (key : Bool)
    (payload : Bytes) :
    (d.apply (.packet stream timestamp key payload)).1.duration = d.duration ∧
      (d.apply (.packet stream timestamp key payload)).1.content = d.content := by
  simp only [apply]
  split <;> exact ⟨rfl, rfl⟩

theorem duration_drafted (ss : List Step) :
    (({} : Draft).run ss).1.duration = (ss.filterMap Step.duration?).getLast?.getD 0 := by
  have hlast := last_run (f := fun d => some d.duration) (g := Step.duration?) ?_ {} ss
  · rw [← Option.getD_some (a := (({} : Draft).run ss).1.duration) (b := 0), hlast]
    cases (ss.filterMap Step.duration?).getLast? <;> rfl
  · intro d s
    cases s with
    | packet => exact congrArg some (apply_packet ..).1
    | duration | content | media | video | audio4 | audio5 | object | nextSection | index => rfl

theorem content_drafted (ss : List Step) :
    (({} : Draft).run ss).1.content = (ss.filterMap Step.content?).getLast? := by
  have hlast := last_run (f := Draft.content) (g := Step.content?) ?_ {} ss
  · rw [hlast]
    exact Option.or_none
  · intro d s
    cases s with
    | packet => exact (apply_packet ..).2
    | duration | content | media | video | audio4 | audio5 | object | nextSection | index => rfl

theorem packets_drafted (ss : List Step) :
    (({} : Draft).run ss).1.sections.flatten.length = (kept ss).length := by
  rw [sections_drafted, List.flatten_cons, ← List.map_flatten, ← List.map_append,
    flatten_sectionsOf, List.length_map]

theorem streams_drafted (hu : ∀ s ∈ ss, s.Usual) :
    (({} : Draft).run ss).1.streams = ss.countP (·.stream?.isSome) := by
  rw [streams, objects_run]
  change (ss.filterMap Step.object?).countP _ = _
  rw [List.countP_filterMap]
  apply List.countP_congr
  intro s hs
  have hs := hu s hs
  cases s with
  | object id payload =>
    have hid : id ≠ mediaId := fun hid => hs (by simp [hid])
    simp [Step.object?, Step.stream?, Step.description?, hid]
  | media => exact hs.elim
  | video | audio4 | audio5 => simp [Step.object?, Step.stream?, Step.description?]
  | duration | content | packet | nextSection | index => rfl

end Draft

end Container

theorem header_audioTrack (o : Options) (m : MediaHeader) (a : AudioType) :
    let h := (audioTrack o m a).1.header
    h.id = m.stream.toNat ∧ h.kind = .audio ∧ h.fourcc = (a.fourcc.getD a.formatTag).text ∧
      (isAac h.fourcc = false →
        ∃ p, h.params = .audio p ∧ p.sampleRate = a.sampleRate.toNat ∧
          p.channels = a.channels.toNat) := by
  rw [audioTrack]
  dsimp only
  split
  · exact ⟨rfl, rfl, rfl, fun _ => ⟨_, rfl, rfl, rfl⟩⟩
  split
  · rename_i haac
    refine ⟨rfl, rfl, rfl, fun hno => ?_⟩
    have haac := (Bool.and_eq_true _ _ ▸ haac).2
    exact absurd (haac.symm.trans hno) (by decide)
  · exact ⟨rfl, rfl, rfl, fun _ => ⟨_, rfl, rfl, rfl⟩⟩

/-- Every description of video or audio gives a track, if all streams are asked for. -/
theorem gives_trackFor {m : Description} (hs : s.Usual) (hm : s.description? = some m)
    (hw : ∀ id, o.wantsVideo id = true ∧ o.wantsAudio id = true) :
    ∃ t, trackFor o m = some t ∧ s.Gives t.header := by
  cases s with
  | video stream fourcc width height fps =>
    cases hm
    have hv := TypeData.parse_videoBytes fourcc width height fps
    exact ⟨_, trackOf_video hv (hw _).1, rfl, rfl, rfl, _, rfl, rfl, rfl⟩
  | audio4 stream codec rate channels extra =>
    cases hm
    have ha := TypeData.parse_audio4Bytes codec rate 16 channels extra
    obtain ⟨hid, hkind, hname, hparams⟩ :=
      header_audioTrack o (mediaHeader stream audioMime _) _
    refine ⟨_, trackOf_audio ha (hw _).2, hid, hkind, ?_⟩
    intro hlen
    obtain ⟨f, rfl⟩ := TypeData.exists_fourCC hlen
    rw [TypeData.namesOf_four] at hname hparams
    exact ⟨hname, hparams⟩
  | audio5 stream fourcc rate channels extra =>
    cases hm
    have ha := TypeData.parse_audio5Bytes fourcc rate 16 channels extra
    obtain ⟨hid, hkind, hname, hparams⟩ :=
      header_audioTrack o (mediaHeader stream audioMime _) _
    exact ⟨_, trackOf_audio ha (hw _).2, hid, hkind, hname, hparams⟩
  | media => exact hs.elim
  | duration | content | object | packet | nextSection | index => cases hm

/-- A stream has a track if a step before has described it. -/
theorem any_gives {before : List Step}
    (hb : List.Forall₂ (fun s t => s.Gives t.header) before ts) (i : UInt16) :
    (before.any fun s => some i = s.stream?) = ts.any (·.id = i.toNat) := by
  induction hb with
  | nil => rfl
  | @cons s t _ _ hg _ ih =>
    obtain ⟨j, hj, hid⟩ := Option.map_eq_some_iff.1 hg.id_eq
    have hsame : some i = s.stream? ↔ t.id = i.toNat := by
      rw [hj, Option.some.injEq, Track.id, ← hid, UInt16.toNat_inj, eq_comm]
    rw [List.any_cons, List.any_cons, ih, decide_eq_decide.2 hsame]

/-- The tracks so far are those of the steps that have described a stream first. -/
theorem gives_tracks (hu : ∀ s ∈ ss, s.Usual)
    (hw : ∀ id, o.wantsVideo id = true ∧ o.wantsAudio id = true) {before : List Step}
    (hb : List.Forall₂ (fun s t => s.Gives t.header) before.reverse ts) :
    List.Forall₂ (fun s t => s.Gives t.header)
      (List.eraseDupsBy.loop (fun s t => s.stream? = t.stream?)
        (ss.filter (·.stream?.isSome)) before)
      ((described ss).foldl (addTrack o) ts) := by
  induction ss generalizing before ts with
  | nil => exact hb
  | cons s ss ih =>
    obtain ⟨hs, hrest⟩ := List.forall_mem_cons.1 hu
    cases hm : s.description? with
    | none =>
      rw [described, List.filterMap_cons_none hm,
        List.filter_cons_of_neg (by simp [Step.stream?, hm])]
      exact ih hrest hb
    | some m =>
      have hstream : s.stream? = some m.stream := by rw [Step.stream?, hm]; rfl
      have hany := any_gives hb m.stream
      rw [List.any_reverse, ← hstream] at hany
      rw [described, List.filterMap_cons_some hm, List.foldl_cons, addTrack_eq, ← hany,
        List.filter_cons_of_pos (by simp [hstream]), List.eraseDupsBy.loop]
      cases hseen : before.any (fun t => s.stream? = t.stream?) with
      | true => exact ih hrest hb
      | false =>
        obtain ⟨t, ht, hg⟩ := gives_trackFor hs hm hw
        refine ih hrest ?_
        rw [ht, List.reverse_cons]
        exact List.rel_append hb (.cons hg .nil)

/-- The file of a draft opens, and its headers say what the draft does: the duration and the texts
that were told last, how many packets were kept and streams described, and in their order the
streams, each as it was described first. -/
theorem headers_read_back (o : Options) (hu : ∀ s ∈ ss, s.Usual)
    (hsize : (file ss).length < 4294967296) :
    ∃ d p, (Demultiplexer.ofBytes o (file ss)).1 = .ok d ∧ d.properties = some p ∧
      p.duration = (ss.filterMap Step.duration?).getLast?.getD 0 ∧
      p.packets.toNat = (kept ss).length ∧
      p.streams.toNat = ss.countP (·.stream?.isSome) % 65536 ∧
      d.content = (ss.filterMap Step.content?).getLast? ∧
      ((∀ id, o.wantsVideo id = true ∧ o.wantsAudio id = true) →
        List.Forall₂ Step.Gives (firsts ss) d.streams) := by
  have hs := sound_of_length (fun s hs => (hu s hs).limited) hsize
  have hkept := Nat.lt_of_le_of_lt (length_kept_le ss) hsize
  obtain ⟨f, s, hopen, -⟩ := opens_lead hs o (file_eq ss)
  refine ⟨_, _, hopen, rfl, duration_drafted ss, ?_, ?_, content_drafted ss, ?_⟩
  · rw [Draft.properties, packets_drafted, UInt32.toNat_ofNat', Nat.mod_eq_of_lt hkept]
  · rw [Draft.properties, streams_drafted hu, UInt16.toNat_ofNat']
  · intro hw
    have htracks : List.Forall₂ (fun s t => s.Gives t.header) (firsts ss)
        (tracksOf o (described ss)) := gives_tracks hu hw .nil
    rw [Demultiplexer.streams, Demultiplexer.opened, nameVersions_eq, List.map_map,
      List.forall₂_map_right_iff]
    refine htracks.imp ?_
    intro s t hg
    obtain ⟨name, hname⟩ := header_named _ t
    rw [Function.comp_apply, hname]
    exact hg.rename name

def rv40 : Step := .video 1 ⟨0x52, 0x56, 0x34, 0x30⟩ 320 240 25.0

def cook : Step := .audio4 2 (ascii "cook") 8000 1 [1, 2, 3]

def unnamed : Step := .audio4 3 (ascii "ra") 22050 2 []

/-- Three streams, one of them described twice, and a title that is told twice. -/
def album : List Step :=
  [.content ⟨"A", "", "", ""⟩, .duration 60000, rv40, cook, .object ⟨0x58, 0x58, 0x58, 0x58⟩ [1, 2],
    .audio5 1 ⟨0x72, 0x61, 0x61, 0x63⟩ 44100 2 [], .content ⟨"Ä", "€", "", "𝄞"⟩, unnamed,
    .packet 2 0 true [4], .nextSection, .duration 90000, .packet 1 40 false [5, 6], .index]

/-- The second title holds, and the second description of the stream is passed over. -/
theorem headers_read_back_album : ∃ d p, (Demultiplexer.ofBytes {} (file album)).1 = .ok d ∧
    d.properties = some p ∧ p.duration = 90000 ∧ p.packets.toNat = 2 ∧ p.streams.toNat = 4 ∧
    d.content = some ⟨"Ä", "€", "", "𝄞"⟩ ∧
    List.Forall₂ Step.Gives [rv40, cook, unnamed] d.streams := by
  have husual : ∀ s ∈ album, s.Usual := by decide +kernel
  obtain ⟨d, p, hd, hp, hduration, hpackets, hstreams, hcontent, hgives⟩ :=
    headers_read_back {} husual (by decide +kernel)
  exact ⟨d, p, hd, hp, hduration, hpackets, hstreams, hcontent, hgives fun _ => ⟨rfl, rfl⟩⟩

end RealMedia
