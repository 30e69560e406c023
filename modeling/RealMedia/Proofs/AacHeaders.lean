import RealMedia.Proofs.CodecRecord
import RealMedia.Proofs.TrackInvariants

/-!
What the header of an AAC stream says once it is handed over: the parameters of its configuration,
and a record from which this is read back if it fits the fields of the record.
-/

namespace RealMedia

open Container Demultiplexer

variable {o : Options} {file : Bytes} {t : Track} {c : Aac.Config} {h : StreamHeader}
  {d : Demultiplexer}

theorem coherent_aacDefault (fourcc : String) (a : AudioType) : (aacDefault fourcc a).Coherent := by
  have hrate := a.sampleRate.toNat_lt
  refine ⟨?_, ?_, ?_⟩
  · simp only [aacDefault]
    split <;> simp_all
  · intro hs
    simp only [aacDefault] at hs ⊢
    rw [hs]
    rfl
  · simp only [aacDefault]
    omega

/-- A configuration that is found in extra data is read from a part of it. -/
theorem aacRecord?_eq_some {extra : Bytes} (hr : aacRecord? extra = some (some c)) :
    ∃ record, Aac.Config.parse? record = some c := by
  rw [aacRecord?.eq_def] at hr
  split at hr
  · dsimp only at hr
    split at hr
    · exact ⟨_, Option.some.inj hr⟩
    · cases hr
  · cases hr

theorem coherent_aacConfig (o : Options) (id : Nat) (fourcc : String) (a : AudioType) :
    (aacConfig o id fourcc a).Coherent := by
  have hfound : ((aacRecord? a.extra).join.getD (aacDefault fourcc a)).Coherent := by
    cases hr : (aacRecord? a.extra).join with
    | none => exact coherent_aacDefault fourcc a
    | some c =>
      obtain ⟨record, hrecord⟩ := aacRecord?_eq_some (Option.join_eq_some_iff.1 hr)
      exact Aac.Config.coherent_of_parse? hrecord
  rw [aacConfig]
  split
  · exact ⟨by simp, by simp, hfound.rate⟩
  · exact hfound

/-- The header tells the parameters of the configuration. -/
structure StreamHeader.Tells (h : StreamHeader) (c : Aac.Config) : Prop where
  codec : h.codecId = c.profile.codecId
  audio : ∃ a, h.params = .audio a ∧ a.sampleRate = c.sampleRate ∧ a.channels = c.channels ∧
    a.outputRate = if c.sbr then some c.outputRate else none

/-- An AAC stream has a configuration as it may be found, and a header that tells it. -/
def Track.Configured (t : Track) : Prop :=
  ∀ f, t.route = .aac f → f.config.Coherent ∧ f.header.Tells f.config

theorem configured_push (hc : t.Configured) (o : Options) (data : Bytes) (time : Int) (key : Bool) :
    (t.push o data time key).1.Configured := by
  rcases t with ⟨route, lost⟩
  cases route with
  | aac f =>
    rw [Track.push]
    dsimp only
    cases Aac.frames data with
    | error e => exact hc
    | ok frames =>
      obtain ⟨hheader, hconfig, -⟩ := deliverAac_keeps f time frames
      rintro _ ⟨⟩
      rw [hheader, hconfig]
      exact hc f rfl
  | video | ac3 | plain => rintro _ ⟨⟩

theorem configured_drain (hc : t.Configured) (o : Options) : (t.drain o).1.Configured := by
  rcases t with ⟨route, lost⟩
  cases route with
  | aac f => exact hc
  | video | ac3 => rintro _ ⟨⟩
  | plain f held start count => cases held <;> rintro _ ⟨⟩

theorem lasting_configured : Track.Lasting Track.Configured where
  take := by
    intro o t h b hc
    have hpush := configured_push hc o b h.time h.isKey
    rw [Track.take]
    split
    · exact hc
    · split <;> rename_i hr <;> rw [hr] at hpush <;> exact hpush
  close := by
    intro o t hc
    rw [Track.close]
    split
    · exact hc
    · exact configured_drain hc o
  finalize := by
    rintro ⟨route, lost⟩ hc
    cases route with
    | aac f =>
      rintro _ ⟨⟩
      obtain ⟨hcoherent, hcodec, haudio⟩ := hc f rfl
      exact ⟨hcoherent, hcodec, haudio⟩
    | video | ac3 | plain => rintro _ ⟨⟩

theorem configured_trackOf {m : MediaHeader} (ht : (trackOf o m).1 = some t) : t.Configured := by
  cases setUp_trackOf ht with
  | aac a =>
    rintro _ ⟨⟩
    exact ⟨coherent_aacConfig .., rfl, _, rfl, rfl, rfl, rfl⟩
  | video | ac3 | plain => rintro _ ⟨⟩

/-- The configuration of an AAC stream. -/
def Track.aacConfig? (t : Track) : Option Aac.Config :=
  match t.route with
  | .aac f => some f.config
  | _ => none

theorem aacConfig?_eq_some : t.aacConfig? = some c ↔ ∃ f, t.route = .aac f ∧ f.config = c := by
  rcases t with ⟨route, lost⟩
  cases route <;> simp [Track.aacConfig?]

theorem configured_ofBytes (ho : (ofBytes o file).1 = .ok d) :
    ∀ t ∈ d.tracks, t.Configured := by
  refine forall_tracks_ofBytes (fun m t ht => configured_trackOf ht) ?_ ho
  rintro f g lost - _ ⟨⟩

/-- Once the headers have been handed over, the sink holds a header of each AAC stream that tells its
configuration. The codec record in it says the same exactly if the channels and the output rate
fit their fields. -/
theorem aac_record_tells_config (ho : (ofBytes o file).1 = .ok d) (rs : List Request)
    (hh : ∃ hs, .headers hs ∈ calls (d.serve rs).2) :
    ∀ t ∈ (d.serve rs).1.tracks, ∀ c, t.aacConfig? = some c →
      t.header ∈ (Inbox.receiveAll {} (calls (d.serve rs).2)).headers ∧ t.header.Tells c ∧
        (Aac.Config.parse? t.header.codecPrivate = some c ↔
          c.channels < 16 ∧ c.outputRate < 16777216) := by
  intro t ht c hc
  obtain ⟨f, hroute, rfl⟩ := aacConfig?_eq_some.1 hc
  have hview := view_served ho rs hh
  have hconfigured := lasting_configured.serve (configured_ofBytes ho) rs t ht
  have hheader : t.header = f.header := by
    rw [Track.header, Track.framer, hroute]
    rfl
  obtain ⟨hcoherent, htells⟩ := hconfigured f hroute
  have hrecord : f.header.codecPrivate = f.config.bytes := (hview.ready t ht).2 f hroute
  refine ⟨hview.held.mem_iff.2 (List.mem_map_of_mem ht), hheader ▸ htells, ?_⟩
  rw [hheader, hrecord]
  exact Aac.Config.parse?_bytes_iff hcoherent

/-- A stream of AAC audio whose record tells a rate of 23 bits. -/
def highRate : List Draft.Step :=
  [.audio5 1 ⟨0x72, 0x61, 0x61, 0x63⟩ 44100 2 [0, 0, 0, 6, 0, 0x17, 0xc0, 0, 0, 0x10]]

theorem sound_highRate : Draft.Sound highRate := by
  refine ⟨?_, by decide⟩
  intro s hs
  rw [highRate, List.mem_singleton] at hs
  subst hs
  rintro m ⟨⟩
  exact Draft.fits_description (by decide) (by decide)

/-- The rate itself fits. -/
theorem aac_record_highRate : ∃ d, (ofBytes {} (Draft.file highRate)).1 = .ok d ∧
    (∃ hs, .headers hs ∈ calls (d.serve [.announce]).2) ∧
    ∃ t ∈ (d.serve [.announce]).1.tracks,
      t.header ∈ (Inbox.receiveAll {} (calls (d.serve [.announce]).2)).headers ∧
        t.header.Tells ⟨.lc, 8388608, 8388608, 2, false⟩ ∧
        Aac.Config.parse? t.header.codecPrivate = some ⟨.lc, 8388608, 8388608, 2, false⟩ := by
  obtain ⟨d, hd, -⟩ := opens_file sound_highRate {}
  have htracks : ((ofBytes {} (Draft.file highRate)).1.toOption.map fun d =>
      (d.serve [.announce]).1.tracks.map Track.aacConfig?) =
        some [some ⟨.lc, 8388608, 8388608, 2, false⟩] := by
    decide +kernel
  rw [hd, Except.toOption, Option.map_some, Option.some.injEq] at htracks
  obtain ⟨t, ht, hc⟩ := List.mem_map.1 (htracks ▸ List.mem_cons_self)
  have hheaders : ∃ hs, .headers hs ∈ calls (d.serve [.announce]).2 := ⟨_, List.mem_cons_self⟩
  obtain ⟨hheld, htells, hrecord⟩ := aac_record_tells_config hd [.announce] hheaders t ht _ hc
  exact ⟨d, hd, hheaders, t, ht, hheld, htells, hrecord.2 (by decide)⟩

/-- Where it is asked for band replication, the doubled rate does not fit, and the record tells none
of it. -/
theorem aac_record_overflows : ∃ d,
    (ofBytes { forcedSbr := [1] } (Draft.file highRate)).1 = .ok d ∧
    ∃ t ∈ (d.serve [.announce]).1.tracks, t.aacConfig? = some ⟨.sbr, 8388608, 16777216, 2, true⟩ ∧
      Aac.Config.parse? t.header.codecPrivate = some ⟨.sbr, 8388608, 0, 2, true⟩ := by
  obtain ⟨d, hd, -⟩ := opens_file sound_highRate { forcedSbr := [1] }
  have htracks : ((ofBytes { forcedSbr := [1] } (Draft.file highRate)).1.toOption.map fun d =>
      (d.serve [.announce]).1.tracks.map fun t =>
        (t.aacConfig?, Aac.Config.parse? t.header.codecPrivate)) =
          some [(some ⟨.sbr, 8388608, 16777216, 2, true⟩, some ⟨.sbr, 8388608, 0, 2, true⟩)] := by
    decide +kernel
  rw [hd, Except.toOption, Option.map_some, Option.some.injEq] at htracks
  obtain ⟨t, ht, hc⟩ := List.mem_map.1 (htracks ▸ List.mem_cons_self)
  rw [Prod.mk.injEq] at hc
  exact ⟨d, hd, t, ht, hc⟩

end RealMedia
