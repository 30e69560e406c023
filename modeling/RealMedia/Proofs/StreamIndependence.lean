import RealMedia.Proofs.DraftRun
import RealMedia.Proofs.TrackSetup

/-!
Streams do not influence each other: what comes out of one does not depend on how its packets lie
among those of the others, or on where the data is divided into sections.
-/

namespace RealMedia

open Container Container.Draft

variable {o : Options} {t u : Track} {h : PacketHeader} {b : Bytes} {ws : List Written} {id : Nat}
  {d e : Demultiplexer} {ts : List Track} {ss as bs : List Step}

namespace Ac3Framer

/-- What an AC3 framer makes of a chunk does not depend on its header. -/
theorem process_relabel (f : Ac3Framer) {k : StreamHeader} (strict : Bool) (c : Chunk)
    (hk : k.id = f.header.id) :
    packets ((f.relabel k strict).process c).2.1 = packets (f.process c).2.1 ∧
      leftBy ((f.relabel k strict).process c) =
        (leftBy (f.process c)).map (·.relabel k strict) := by
  obtain ⟨ps, hps, hfinds⟩ := f.process_finds c
  obtain ⟨qs, hqs, hother⟩ := (f.relabel k strict).process_finds c
  obtain ⟨rfl, hleft⟩ := finds_unique hother (finds_relabel hfinds)
  have hsame : (ps.map fun p => { p with stream := k.id }) = ps := by
    have hstream := stream_of_finds hfinds
    refine (List.map_congr_left (g := id) ?_).trans (List.map_id ps)
    intro p hp
    have : p.stream = k.id := (hstream p hp).trans hk.symm
    rw [← this]
    rfl
  rw [packets_of_calls hps, packets_of_calls hqs]
  exact ⟨hsame, hleft⟩

end Ac3Framer

/-- Tracks that make the same of their packets: they differ in the header of an AC3 stream, or are
lost. -/
inductive Alike : Track → Track → Prop
  | same (t : Track) : Alike t t
  | ac3 (f : Ac3Framer) {k : StreamHeader} {strict : Bool} (lost : Bool) (hk : k.id = f.header.id) :
    Alike ⟨.ac3 f, lost⟩ ⟨.ac3 (f.relabel k strict), lost⟩
  | lost {t u : Track} (ht : t.disabled = true) (hu : u.disabled = true) : Alike t u

theorem alike_take (ha : Alike t u) (o : Options) (h : PacketHeader) (b : Bytes) :
    Alike (t.take o h b).1 (u.take o h b).1 ∧
      packets (u.take o h b).2 = packets (t.take o h b).2 := by
  cases ha with
  | same => exact ⟨.same _, rfl⟩
  | lost ht hu =>
    rw [Track.take, if_pos ht, Track.take, if_pos hu]
    exact ⟨.lost ht hu, rfl⟩
  | @ac3 f k strict lost hk =>
    cases lost with
    | true => exact ⟨.ac3 f true hk, rfl⟩
    | false =>
      obtain ⟨hout, hleft⟩ := f.process_relabel strict { data := b, time := h.time } hk
      have hheader := f.header_process { data := b, time := h.time }
      simp only [Track.take, Track.push, Bool.false_eq_true, if_false]
      rcases hf : f.process { data := b, time := h.time } with ⟨g, out, fault⟩
      rcases hg : (f.relabel k strict).process { data := b, time := h.time } with ⟨g', out', fault'⟩
      rw [hf, hg] at hout hleft
      rw [hf] at hheader
      cases fault with
      | some e =>
        cases fault' with
        | some e' => exact ⟨.lost rfl rfl, hout⟩
        | none => cases hleft
      | none =>
        cases fault' with
        | some e' => cases hleft
        | none =>
          cases hleft
          exact ⟨.ac3 g false (hk.trans (congrArg _ hheader.symm)), hout⟩

theorem alike_close (ha : Alike t u) (o : Options) :
    (t.close o).1.disabled = (u.close o).1.disabled ∧
      packets (u.close o).2 = packets (t.close o).2 := by
  cases ha with
  | same => exact ⟨rfl, rfl⟩
  | lost ht hu =>
    rw [Track.close, if_pos ht, Track.close, if_pos hu]
    exact ⟨ht.trans hu.symm, rfl⟩
  | @ac3 f k strict lost hk =>
    cases lost with
    | true => exact ⟨rfl, rfl⟩
    | false =>
      refine ⟨rfl, ?_⟩
      simp only [Track.close, Track.drain, Bool.false_eq_true, if_false]
      rw [packets, packets, f.calls_flush, Ac3Framer.calls_flush]

theorem alike_takeAll (ha : Alike t u) (o : Options) (ws : List Written) :
    Alike (t.takeAll o ws).1 (u.takeAll o ws).1 ∧
      packets (u.takeAll o ws).2 = packets (t.takeAll o ws).2 := by
  induction ws generalizing t u with
  | nil => exact ⟨ha, rfl⟩
  | cons w ws ih =>
    obtain ⟨hnext, hout⟩ := alike_take ha o w.header w.payload
    obtain ⟨hlast, hrest⟩ := ih hnext
    refine ⟨hlast, ?_⟩
    simp only [Track.takeAll, packets_append, hout, hrest]

/-- Tracks that are alike play alike. -/
theorem alike_play (ha : Alike t u) (o : Options) (ws : List Written) :
    (t.play o ws).1.disabled = (u.play o ws).1.disabled ∧
      packets (u.play o ws).2 = packets (t.play o ws).2 := by
  obtain ⟨hnext, hout⟩ := alike_takeAll ha o ws
  obtain ⟨hlost, hlast⟩ := alike_close hnext o
  exact ⟨hlost, by simp only [Track.play, packets_append, hout, hlast]⟩

theorem alike_finalize (ha : Alike t u) : Alike t.finalize u.finalize := by
  cases ha with
  | same => exact .same _
  | ac3 f lost hk => exact .ac3 f lost hk
  | lost ht hu =>
    have hkeep : ∀ t : Track, t.finalize.disabled = t.disabled := by
      intro t
      rw [Track.finalize]
      split <;> rfl
    exact .lost ((hkeep t).trans ht) ((hkeep u).trans hu)

theorem alike_named (versions others : List (Nat × Nat)) (t : Track) :
    Alike (named versions t) (named others t) := by
  by_cases ht : t.isAc3 = false
  · rw [named_other versions ht, named_other others ht]
    exact .same t
  · rcases t with ⟨route, lost⟩
    cases route with
    | ac3 f =>
      obtain ⟨k, hk, hn⟩ := named_ac3 versions f lost
      obtain ⟨k', hk', hn'⟩ := named_ac3 others f lost
      rw [hn, hn']
      exact .ac3 (f.relabel k f.strict) lost (hk'.trans hk.symm)
    | video | aac | plain => exact absurd rfl ht

theorem distinct_tracksOf (o : Options) (ms : List Description) : Distinct (tracksOf o ms) := by
  have hall : ∀ ts, Distinct ts → Distinct (ms.foldl (addTrack o) ts) := by
    induction ms with
    | nil => exact fun ts hd => hd
    | cons m ms ih => exact fun ts hd => ih _ (distinct_addMedia hd _)
  exact hall [] List.nodup_nil

theorem find?_tracksAt (o : Options) (ms : List Description) (now : List Written) (id : Nat) :
    (tracksAt o ms now).find? (·.id = id) = ((tracksOf o ms).find? (·.id = id)).map fun t =>
      (named (seen (ac3Ids (tracksOf o ms)) now) t).finalize := by
  rw [tracksAt, find?_map_id id_finalize, nameVersions_eq, find?_map_id (id_named _),
    Option.map_map]
  rfl

/-- What a run makes of one stream is what its track makes of its own packets. -/
theorem run_stream {ms : List Description} {now later : List Written}
    (ho : OpenedAt o ms now later d) (id : Nat) :
    let track := ((tracksAt o ms now).find? (·.id = id)).map fun t =>
      t.play o (own id (now ++ later))
    d.run.final.track? id = track.map (·.1) ∧
      ofStream id d.run.out = track.toList.flatMap (packets ·.2) ∧
      d.run.final.isDisabled id = track.any (·.1.disabled) := by
  obtain ⟨-, htracks, hcalls⟩ := run_openedAt ho
  have hdist : Distinct (tracksAt o ms now) := by
    rw [tracksAt, distinct_map id_finalize, nameVersions_eq, distinct_map (id_named _)]
    exact distinct_tracksOf o ms
  obtain ⟨hfind, hout⟩ := playAll_view (o := o) hdist (now ++ later) id
  have hlast : Distinct d.run.final.tracks := by
    rw [htracks]
    exact distinct_playAll hdist _
  have hstream : ofStream id d.run.out =
      ofStream id (playAll o (tracksAt o ms now) (now ++ later)).2 := by
    rw [ofStream, ofStream, packets, packets, hcalls]
    rfl
  rw [← htracks] at hfind
  have hfind : d.run.final.track? id = _ := hfind
  rw [Demultiplexer.isDisabled_eq hlast, hfind, hstream, hout]
  cases (tracksAt o ms now).find? (·.id = id) <;> exact ⟨rfl, rfl, rfl⟩

/-- Reading a drafted file to its end shows of each stream what its track makes of its packets. -/
theorem run_opened (ho : Opened o ss d) :
    ∃ versions, (∃ m, d.run.reads = .ok m) ∧ ∀ id,
      let track := ((tracksOf o (described ss)).find? (·.id = id)).map fun t =>
        ((named versions t).finalize).play o (own id (kept ss))
      ofStream id d.run.out = track.toList.flatMap (packets ·.2) ∧
        d.run.final.isDisabled id = track.any (·.1.disabled) := by
  refine ⟨seen (ac3Ids (tracksOf o (described ss))) (sectionsOf ss).1, (run_openedAt ho).1, ?_⟩
  intro id
  obtain ⟨-, hout, hlost⟩ := run_stream ho id
  rw [find?_tracksAt, Option.map_map, flatten_sectionsOf] at hout hlost
  exact ⟨hout, hlost⟩

/-- Two drafts of the same streams, whose packets are the same in each stream, give files of which
every stream comes out the same. -/
theorem streams_independent (ha : Sound as) (hb : Sound bs) (hm : described as = described bs)
    (hp : ∀ id, own id (asked as) = own id (asked bs))
    (hd : (Demultiplexer.ofBytes o (file as)).1 = .ok d)
    (he : (Demultiplexer.ofBytes o (file bs)).1 = .ok e) :
    (∃ m, d.run.reads = .ok m) ∧ (∃ m, e.run.reads = .ok m) ∧
      ∀ id, ofStream id d.run.out = ofStream id e.run.out ∧
        d.run.final.isDisabled id = e.run.final.isDisabled id := by
  obtain ⟨d', hd', hopen⟩ := opens_file ha o
  obtain ⟨e', he', hopen'⟩ := opens_file hb o
  rw [hd] at hd'
  rw [he] at he'
  cases hd'
  cases he'
  obtain ⟨versions, hdone, hview⟩ := run_opened hopen
  obtain ⟨others, hdone', hview'⟩ := run_opened hopen'
  refine ⟨hdone, hdone', ?_⟩
  intro id
  have hkept : own id (kept as) = own id (kept bs) := by
    have := congrArg (List.filter fun w => w.payload.length ≤ PacketHeader.maxPayload) (hp id)
    rw [own, own, List.filter_filter, List.filter_filter] at this
    rw [own, own, kept, kept, List.filter_filter, List.filter_filter]
    simpa only [Bool.and_comm] using this
  obtain ⟨hout, hlost⟩ := hview id
  obtain ⟨hout', hlost'⟩ := hview' id
  rw [hout, hout', hlost, hlost', hm, hkept]
  cases (tracksOf o (described bs)).find? (·.id = id) with
  | none => exact ⟨rfl, rfl⟩
  | some t =>
    obtain ⟨hsame, hplay⟩ := alike_play (alike_finalize (alike_named others versions t)) o
      (own id (kept bs))
    exact ⟨by simpa using hplay, hsame.symm⟩

/-- An AC3 stream that holds no frame, and a stream of another codec, packet by packet. -/
def inTurn : List Step :=
  [.audio5 1 ⟨0x64, 0x6e, 0x65, 0x74⟩ 44100 2 [], .audio4 2 (ascii "cook") 8000 1 [],
    .packet 1 0 true [1, 2, 3, 4], .packet 2 0 true [5], .packet 1 10 false [0x0b],
    .packet 2 20 true [6]]

/-- The same streams, one behind the other in two sections. -/
def inBlocks : List Step :=
  [.audio5 1 ⟨0x64, 0x6e, 0x65, 0x74⟩ 44100 2 [], .object indexId [7],
    .audio4 2 (ascii "cook") 8000 1 [], .packet 2 0 true [5], .packet 2 20 true [6], .nextSection,
    .packet 1 0 true [1, 2, 3, 4], .packet 1 10 false [0x0b], .index]

theorem sound_inTurn : Sound inTurn := by
  refine ⟨?_, by decide⟩
  intro s hs
  simp only [inTurn, List.mem_cons, List.not_mem_nil, or_false] at hs
  rcases hs with rfl | rfl | rfl | rfl | rfl | rfl
  · rintro m ⟨⟩
    exact fits_description (by decide) (by decide)
  · rintro m ⟨⟩
    exact fits_description (by decide) (by decide)
  all_goals rintro m ⟨⟩

theorem sound_inBlocks : Sound inBlocks := by
  refine ⟨?_, by decide⟩
  intro s hs
  simp only [inBlocks, List.mem_cons, List.not_mem_nil, or_false] at hs
  rcases hs with rfl | rfl | rfl | rfl | rfl | rfl | rfl | rfl | rfl
  · rintro m ⟨⟩
    exact fits_description (by decide) (by decide)
  · exact ⟨by decide, by decide⟩
  · rintro m ⟨⟩
    exact fits_description (by decide) (by decide)
  all_goals rintro m ⟨⟩

theorem own_inTurn (id : Nat) : own id (asked inTurn) = own id (asked inBlocks) := by
  by_cases h₁ : 1 = id
  · subst h₁
    rfl
  by_cases h₂ : 2 = id
  · subst h₂
    rfl
  · have hnone : ∀ ws : List Written, (∀ w ∈ ws, w.stream.toNat = 1 ∨ w.stream.toNat = 2) →
        own id ws = [] := by
      intro ws hws
      refine List.filter_eq_nil_iff.2 ?_
      intro w hw
      rcases hws w hw with hs | hs <;> simpa [hs]
    rw [hnone _ (by decide), hnone _ (by decide)]

/-- The two files of the streams agree, with so small a window that the AC3 stream is lost. -/
theorem streams_independent_inTurn : ∃ d e,
    (Demultiplexer.ofBytes { resyncWindow := 2 } (file inTurn)).1 = .ok d ∧
    (Demultiplexer.ofBytes { resyncWindow := 2 } (file inBlocks)).1 = .ok e ∧
    Sound inTurn ∧ Sound inBlocks ∧ described inTurn = described inBlocks ∧
    (∀ id, own id (asked inTurn) = own id (asked inBlocks)) ∧
    (∃ m, d.run.reads = .ok m) ∧ (∃ m, e.run.reads = .ok m) ∧
      ∀ id, ofStream id d.run.out = ofStream id e.run.out ∧
        d.run.final.isDisabled id = e.run.final.isDisabled id := by
  obtain ⟨d, hd, -⟩ := opens_file sound_inTurn { resyncWindow := 2 }
  obtain ⟨e, he, -⟩ := opens_file sound_inBlocks { resyncWindow := 2 }
  exact ⟨d, e, hd, he, sound_inTurn, sound_inBlocks, rfl, own_inTurn,
    streams_independent sound_inTurn sound_inBlocks rfl own_inTurn hd he⟩

end RealMedia
