import RealMedia.Proofs.StreamIndependence

/-!
Audio that is not looked into comes out as it was written, each packet with the duration that the
next one tells.
-/

namespace RealMedia

open Container Container.Draft

variable {o : Options} {t : Track} {w v : Written} {ws pre : List Written} {id : Nat}
  {ss : List Step}

/-- Nanoseconds. -/
def Container.Written.time (w : Written) : Int := w.timestamp.toNat * 1000000

theorem Container.Written.time_nonneg (w : Written) : 0 ≤ w.time :=
  Int.mul_nonneg (Int.natCast_nonneg _) (by decide)

@[simp] theorem time_header (w : Written) : w.header.time = w.time := rfl

@[simp] theorem isKey_header (w : Written) : w.header.isKey = w.key := by
  cases hk : w.key <;> simp [PacketHeader.isKey, Written.header, hk]

/-- The packet that comes of a written one, by its place in the stream. It lasts until the next one;
the last one lasts as long as they do on the average. -/
def plainPacket (id : Nat) (ws : List Written) (i : Nat) (w : Written) : Packet where
  stream := id
  data := w.payload
  time := w.time
  duration := match ws[i + 1]? with
    | some next => next.time - w.time
    | none => (w.time - ((ws.head?).map (·.time)).getD w.time).tdiv ws.length
  backward := if w.key || i = 0 then noTime else ((ws[i - 1]?).map (·.time)).getD noTime
  forward := noTime

/-- The last of some packets, kept with the time of the one before it. -/
def heldOf (pre : List Written) (v : Written) : Held where
  data := v.payload
  time := v.time
  key := v.key
  previous := pre.getLast?.map (·.time)

/-- What is handed on for a packet that has been kept, once its duration is known. -/
theorem packet_heldOf {duration : Int}
    (hd : duration = (plainPacket id (pre ++ v :: ws) pre.length v).duration) (last : Option Int) :
    ((heldOf pre v).chunk duration).packet id last =
      plainPacket id (pre ++ v :: ws) pre.length v := by
  have hbackward : ((heldOf pre v).chunk duration).dependency.reference last =
      (plainPacket id (pre ++ v :: ws) pre.length v).backward := by
    rcases List.eq_nil_or_concat pre with rfl | ⟨us, u, rfl⟩ <;> cases hk : v.key <;>
      simp [heldOf, Held.chunk, Dependency.reference, plainPacket, hk]
  rw [Chunk.packet, hbackward, hd]
  rfl

theorem duration_next (id : Nat) (pre : List Written) (v w : Written) (ws : List Written) :
    (plainPacket id (pre ++ v :: w :: ws) pre.length v).duration = w.time - v.time := by
  simp [plainPacket]

theorem duration_last (id : Nat) (pre : List Written) (v : Written) :
    (plainPacket id (pre ++ [v]) pre.length v).duration =
      (v.time - (((pre ++ [v]).head?).map (·.time)).getD v.time).tdiv (pre.length + 1) := by
  simp [plainPacket]

namespace Track

/-- The track has taken these packets, and keeps the last of them. -/
def Holding (id : Nat) (pre : List Written) (v : Written) (t : Track) : Prop :=
  ∃ f : PlainFramer, f.header.id = id ∧
    t = ⟨.plain f (some (heldOf pre v)) (((pre ++ [v]).head?).map (·.time)) (pre.length + 1), false⟩

/-- A packet that is kept is handed on when the next one comes. -/
theorem take_holding (ht : t.Holding id pre v) (o : Options) (w : Written) (ws : List Written) :
    (t.take o w.header w.payload).1.Holding id (pre ++ [v]) w ∧
      packets (t.take o w.header w.payload).2 =
        [plainPacket id (pre ++ v :: w :: ws) pre.length v] := by
  obtain ⟨f, rfl, rfl⟩ := ht
  refine ⟨⟨{ f with previous := some v.time }, rfl, ?_⟩, ?_⟩
  · have hstart : ((pre ++ [v] ++ [w]).head?).map (·.time) =
        (((pre ++ [v]).head?).map (·.time)).or (some w.time) := by
      cases pre <;> rfl
    rw [hstart]
    simp [take, push, PlainFramer.process, heldOf, Held.chunk]
  · have hduration := duration_next f.header.id pre v w ws
    exact congrArg (fun p => [p]) (packet_heldOf hduration.symm f.previous)

/-- The last packet is handed on in the end. -/
theorem close_holding (ht : t.Holding id pre v) (o : Options) :
    packets (t.close o).2 = [plainPacket id (pre ++ [v]) pre.length v] := by
  obtain ⟨f, rfl, rfl⟩ := ht
  have hduration := duration_last f.header.id pre v
  have hcount : (pre.length + 1 : Int) = max ((pre.length + 1 : Nat) : Int) 1 := by omega
  rw [hcount] at hduration
  exact congrArg (fun p => [p]) (packet_heldOf hduration.symm f.previous)

theorem play_holding (ht : t.Holding id pre v) (o : Options) (ws : List Written) :
    packets (t.play o ws).2 =
      (v :: ws).mapIdx fun i w => plainPacket id (pre ++ v :: ws) (pre.length + i) w := by
  induction ws generalizing t pre v with
  | nil => simpa [play, takeAll] using close_holding ht o
  | cons w ws ih =>
    obtain ⟨hnext, hout⟩ := take_holding ht o w ws
    have hrest := ih hnext
    have hindex (i : Nat) : (pre ++ [v]).length + i = pre.length + (i + 1) := by
      rw [List.length_append, List.length_singleton]
      omega
    rw [packets_play_cons, hout, hrest]
    simp only [hindex, List.append_assoc, List.singleton_append, List.mapIdx_cons, Nat.add_zero]

/-- A track that has taken nothing yet. -/
def Fresh (t : Track) : Prop := ∃ f : PlainFramer, t = ⟨.plain f none none 0, false⟩

/-- Its first packet is held, and nothing is handed on. -/
theorem take_fresh (ht : t.Fresh) (o : Options) (w : Written) :
    (t.take o w.header w.payload).1.Holding t.id [] w ∧
      packets (t.take o w.header w.payload).2 = [] := by
  obtain ⟨f, rfl⟩ := ht
  exact ⟨⟨f, rfl, by simp [take, push, heldOf]⟩, rfl⟩

/-- All packets of a stream of plain audio are handed on, each in its place. -/
theorem play_fresh (ht : t.Fresh) (o : Options) (ws : List Written) :
    packets (t.play o ws).2 = ws.mapIdx (plainPacket t.id ws) := by
  cases ws with
  | nil =>
    obtain ⟨f, rfl⟩ := ht
    rfl
  | cons w ws =>
    obtain ⟨hfirst, hout⟩ := take_fresh ht o w
    have hplay := play_holding hfirst o ws
    simp only [List.length_nil, Nat.zero_add, List.nil_append] at hplay
    rw [packets_play_cons, hout, hplay, List.nil_append]

end Track

/-- A description of plain audio gives a fresh track. -/
theorem fresh_trackOf {m : MediaHeader} {f : PlainFramer} (ht : (trackOf o m).1 = some t)
    (hf : t.framer = .plain f) : t.Fresh := by
  cases setUp_trackOf ht with
  | plain a => exact ⟨_, rfl⟩
  | video | ac3 | aac => cases hf

theorem fresh_addTrack {ts : List Track} {m : Description} {f : PlainFramer}
    (hts : ∀ s ∈ ts, s.framer = .plain f → s.Fresh) :
    ∀ s ∈ addTrack o ts m, s.framer = .plain f → s.Fresh := by
  rw [addTrack_eq]
  split
  · exact hts
  · intro s hs hf
    rcases List.mem_append.1 hs with hs | hs
    · exact hts s hs hf
    · exact fresh_trackOf (Option.mem_toList.1 hs) hf

theorem fresh_tracksOf {ms : List Description} {f : PlainFramer} :
    ∀ s ∈ tracksOf o ms, s.framer = .plain f → s.Fresh :=
  List.foldlRecOn ms (addTrack o) (motive := fun ts => ∀ s ∈ ts, s.framer = .plain f → s.Fresh)
    (by simp) fun _ hts _ _ => fresh_addTrack hts

/-- An opened file has the tracks of its descriptions, but for the names of the AC3 versions. -/
theorem fresh_of_opened {d : Demultiplexer} {f : PlainFramer} (hd : Opened o ss d)
    (ht : t ∈ d.tracks) (hf : t.framer = .plain f) :
    t.Fresh ∧ t ∈ tracksOf o (described ss) := by
  rw [hd.tracks, nameVersions_eq] at ht
  obtain ⟨s, hs, rfl⟩ := List.mem_map.1 ht
  have hother : s.isAc3 = false := by
    rcases s with ⟨route, lost⟩
    cases route with
    | ac3 g =>
      obtain ⟨k, -, hk⟩ := named_ac3 _ g lost
      rw [hk] at hf
      cases hf
    | video | aac | plain => rfl
  rw [named_other _ hother] at hf ⊢
  exact ⟨fresh_tracksOf s hs hf, hs⟩

/-- The packets of plain audio survive being written to a file and read from it. -/
theorem plain_audio_survives (o : Options) (hl : ∀ s ∈ ss, s.Limited)
    (hsize : (file ss).length < 4294967296) :
    ∃ d, (Demultiplexer.ofBytes o (file ss)).1 = .ok d ∧ (∃ m, d.run.reads = .ok m) ∧
      ∀ t ∈ d.tracks, ∀ f, t.framer = .plain f →
        let ws := own t.id (kept ss)
        ofStream t.id d.run.out = ws.mapIdx (plainPacket t.id ws) := by
  obtain ⟨d, hd, hopen⟩ := opens_file (sound_of_length hl hsize) o
  obtain ⟨versions, hdone, hview⟩ := run_opened hopen
  refine ⟨d, hd, hdone, ?_⟩
  intro t ht f hf ws
  obtain ⟨hfresh, hmem⟩ := fresh_of_opened hopen ht hf
  have hfind := find?_of_mem (distinct_tracksOf o (described ss)) hmem
  have hsame : (named versions t).finalize = t := by
    obtain ⟨g, hg⟩ := hfresh
    rw [hg, named_other versions rfl]
    rfl
  obtain ⟨hout, -⟩ := hview t.id
  rw [hout, hfind]
  simpa [hsame] using Track.play_fresh hfresh o ws

/-- A stream of plain audio and one of AC3, over three sections of which one is empty. -/
def medley : List Step :=
  [.audio4 2 (ascii "cook") 8000 1 [], .audio5 1 ⟨0x64, 0x6e, 0x65, 0x74⟩ 44100 2 [],
    .packet 2 10 true [1, 2], .packet 1 10 true [0x0b], .packet 2 30 false [], .nextSection,
    .nextSection, .packet 2 26 false [3], .index]

/-- The last packet goes back in time, and lasts for a third of the 16 ms since the first. -/
theorem plain_audio_survives_medley :
    ∃ d, (Demultiplexer.ofBytes {} (file medley)).1 = .ok d ∧ (∃ m, d.run.reads = .ok m) ∧
      ofStream 2 d.run.out =
        [⟨2, [1, 2], 10000000, 20000000, -1, -1⟩, ⟨2, [], 30000000, -4000000, 10000000, -1⟩,
          ⟨2, [3], 26000000, 5333333, 30000000, -1⟩] := by
  have hlimits : ∀ s ∈ medley, s.Limited := by
    intro s hs
    simp only [medley, List.mem_cons, List.not_mem_nil, or_false] at hs
    rcases hs with rfl | rfl | rfl | rfl | rfl | rfl | rfl | rfl | rfl
    · rintro m ⟨⟩
      rw [length_encode]
      decide
    · rintro m ⟨⟩
      rw [length_encode]
      decide
    all_goals rintro m ⟨⟩
  obtain ⟨d, hd, hdone, hplain⟩ := plain_audio_survives {} hlimits (by decide +kernel)
  have htracks : ((Demultiplexer.ofBytes {} (file medley)).1.toOption.map fun d =>
      d.tracks.map fun t => (t.id, t.framer.formatName)) = some [(2, "RealAudio"), (1, "AC3")] := by
    decide +kernel
  rw [hd, Except.toOption, Option.map_some, Option.some.injEq] at htracks
  obtain ⟨t, ht, hnamed⟩ := List.mem_map.1 (htracks ▸ List.mem_cons_self)
  rw [Prod.mk.injEq] at hnamed
  refine ⟨d, hd, hdone, ?_⟩
  cases hf : t.framer with
  | plain f =>
    have hout := hplain t ht f hf
    rw [hnamed.1] at hout
    rw [hout]
    decide +kernel
  | video | ac3 | aac => simp [hf, Framer.formatName] at hnamed

end RealMedia
