import RealMedia.Proofs.HeaderView

/-! What every step keeps of a single track is kept of all tracks by every run. -/

namespace RealMedia

variable {P : Track → Prop} {ts : List Track} {t : Track} {d e : Demultiplexer} {out : Outputs}

/-- Whatever happens to a track keeps the property. -/
structure Track.Lasting (P : Track → Prop) : Prop where
  take : ∀ o t h b, P t → P (t.take o h b).1
  close : ∀ o t, P t → P (t.close o).1
  finalize : ∀ t, P t → P t.finalize

namespace Track.Lasting

variable (hl : Lasting P)

include hl

theorem drainAll (o : Options) (hp : ∀ t ∈ ts, P t) : ∀ t ∈ (drainAll o ts).1, P t := by
  induction ts with
  | nil => simp [RealMedia.drainAll]
  | cons t ts ih =>
    rw [drainAll_cons]
    intro u hu
    rcases List.mem_cons.1 hu with rfl | hu
    · exact hl.close o t (hp t (by simp))
    · exact ih (fun s hs => hp s (by simp [hs])) u hu

open Demultiplexer

theorem announce (hp : ∀ t ∈ d.tracks, P t) : ∀ t ∈ d.announce.1.tracks, P t := by
  intro t ht
  obtain ⟨s, hs, rfl⟩ := List.mem_map.1 ht
  exact hl.finalize s (hp s hs)

theorem ensureAnnounced (hp : ∀ t ∈ d.tracks, P t) : ∀ t ∈ d.ensureAnnounced.1.tracks, P t := by
  rw [Demultiplexer.ensureAnnounced]
  split
  · exact hp
  · exact hl.announce hp

theorem finish (hp : ∀ t ∈ d.tracks, P t) : ∀ t ∈ d.finish.1.tracks, P t := by
  rw [Demultiplexer.finish]
  split
  · exact hp
  · exact hl.drainAll _ (hl.ensureAnnounced hp)

theorem route {h : Container.PacketHeader} (hp : ∀ t ∈ d.tracks, P t) (ht : d.taker? h = some t)
    (b : Bytes) : ∀ u ∈ (d.route t h b).1.tracks, P u := by
  obtain ⟨hstate, -, -⟩ := d.route_take (enabled_of_taker? ht).2 h b
  rw [hstate]
  intro u hu
  obtain ⟨s, hs, rfl⟩ := List.mem_map.1 hu
  split
  · exact hl.take _ _ _ _ (hp t (List.mem_of_find?_eq_some ht))
  · exact hp s hs

theorem reads {r : Outcome} (hr : Reads d r) (hp : ∀ t ∈ d.tracks, P t) :
    ∀ t ∈ r.1.tracks, P t := by
  cases hr with
  | short => exact hl.finish hp
  | step _ _ hr =>
    cases hr with
    | noObject => exact hp
    | noHeader => exact hp
    | next => exact hp
    | other => exact hl.finish hp
  | packet _ _ hr =>
    cases hr with
    | noHeader => exact hp
    | undersized => exact hl.finish hp
    | skipped => exact hp
    | truncated => exact hl.finish hp
    | @routed h s u n t b _ _ ht => exact hl.route (d := d.behindHeader u) hp ht b

theorem read (hp : ∀ t ∈ d.tracks, P t) : ∀ t ∈ d.read.1.tracks, P t := by
  rw [Demultiplexer.read]
  split
  · exact hp
  have hnext := hl.reads (reads_readNext d.ensureAnnounced.1) (hl.ensureAnnounced hp)
  dsimp only
  split
  · rename_i e out fault hr
    rw [hr] at hnext
    exact hl.finish hnext
  · rename_i e out x hx hr
    rw [hr] at hnext
    exact hnext

theorem answer (hp : ∀ t ∈ d.tracks, P t) (r : Request) : ∀ t ∈ (d.answer r).1.tracks, P t := by
  cases r with
  | announce => exact hl.announce hp
  | act a =>
    cases a with
    | read => exact hl.read hp
    | finish => exact hl.finish hp

theorem serve (hp : ∀ t ∈ d.tracks, P t) (rs : List Request) :
    ∀ t ∈ (d.serve rs).1.tracks, P t := by
  induction rs generalizing d with
  | nil => exact hp
  | cons r rs ih => exact ih (hl.answer hp r)

end Track.Lasting

end RealMedia
