import RealMedia.Proofs.DraftRun
import RealMedia.Proofs.PacketFront

/-!
Reading sees only what is left of a source. Files that are open at the same rest, wherever that
stands in each of them, are read with the same calls.
-/

namespace RealMedia

open Container

/-- From sources with the same rest the same is read, and the same is left. -/
theorem Source.read_rest {α : Type} {s t u : Source} {d : Decoder α} {a : Option α}
    (hs : s.rest = t.rest) (hr : s.read d = (a, u)) :
    ∃ v, t.read d = (a, v) ∧ u.rest = v.rest := by
  unfold read at hr ⊢
  rw [← hs]
  split at hr
  · cases hr
    exact ⟨_, rfl, congrArg (List.drop _) hs⟩
  · cases hr
    refine ⟨_, rfl, ?_⟩
    exact congrArg (List.drop _) hs

/-- Looking ahead sees only what is ahead. -/
theorem findVersions_rest {s t : Source} (hs : s.rest = t.rest) (left : Nat) (wanted : List Nat) :
    (findVersions left wanted s).1 = (findVersions left wanted t).1 := by
  obtain ⟨ps, hps⟩ := exists_inFront left s.rest
  rw [findVersions_inFront hps, findVersions_inFront (hs ▸ hps)]

theorem calls_reverse (out : Outputs) : calls out.reverse = (calls out).reverse :=
  List.filterMap_reverse

namespace Demultiplexer

variable {d e : Demultiplexer} {r q : Outcome} {out more : Outputs} {n : Nat}

/-- The same but for the part of the source that lies behind. -/
def SameAhead (d e : Demultiplexer) : Prop :=
  ∃ s : Source, d.source.rest = s.rest ∧ e = { d with source := s }

/-- Steps with the same calls and the same result, to states that are the same ahead. -/
structure SameStep (r q : Outcome) : Prop where
  ahead : SameAhead r.1 q.1
  calls : calls r.2.1 = calls q.2.1
  result : r.2.2 = q.2.2

theorem SameAhead.ensureAnnounced (h : SameAhead d e) :
    SameAhead d.ensureAnnounced.1 e.ensureAnnounced.1 ∧
      d.ensureAnnounced.2 = e.ensureAnnounced.2 := by
  obtain ⟨s, hs, rfl⟩ := h
  unfold Demultiplexer.ensureAnnounced
  dsimp only
  split <;> exact ⟨⟨s, hs, rfl⟩, rfl⟩

theorem SameAhead.finish (h : SameAhead d e) :
    SameAhead d.finish.1 e.finish.1 ∧ d.finish.2 = e.finish.2 := by
  have hannounced := h.ensureAnnounced
  obtain ⟨s, hs, rfl⟩ := h
  obtain ⟨⟨t, ht, he⟩, hout⟩ := hannounced
  unfold Demultiplexer.finish
  dsimp only
  rw [he, hout]
  split
  · exact ⟨⟨s, hs, rfl⟩, rfl⟩
  · exact ⟨⟨t, ht, rfl⟩, rfl⟩

theorem SameAhead.finishAfter (h : SameAhead d e)
    (hc : RealMedia.calls out = RealMedia.calls more) :
    SameStep (d.finishAfter out) (e.finishAfter more) where
  ahead := h.finish.1
  calls := by
    rw [Demultiplexer.finishAfter, Demultiplexer.finishAfter, calls_append, calls_append, hc,
      h.finish.2]
  result := rfl

theorem SameAhead.route (h : SameAhead d e) (t : Track) (x : PacketHeader) (b : Bytes) :
    SameStep (d.route t x b) (e.route t x b) := by
  obtain ⟨s, hs, rfl⟩ := h
  unfold Demultiplexer.route
  dsimp only
  split <;> exact ⟨⟨s, hs, rfl⟩, rfl, rfl⟩

theorem SameAhead.readSection (h : SameAhead d e) : SameStep d.readSection e.readSection := by
  obtain ⟨s, hs, rfl⟩ := h
  unfold Demultiplexer.readSection
  cases ho : d.source.read ObjectHeader.decoder with
  | mk found t =>
    obtain ⟨u, hu, hrest⟩ := Source.read_rest hs ho
    cases found with
    | none =>
      simp only [hu]
      exact ⟨⟨u, hrest, rfl⟩, rfl, rfl⟩
    | some x =>
      simp only [hu]
      split
      · cases hk : t.read DataHeader.decoder with
        | mk found t =>
          obtain ⟨v, hv, hrest⟩ := Source.read_rest hrest hk
          simp only [hv]
          cases found <;> exact ⟨⟨v, hrest, rfl⟩, rfl, rfl⟩
      · exact SameAhead.finishAfter ⟨u, hrest, rfl⟩ rfl

theorem SameAhead.readPacket (h : SameAhead d e) : SameStep d.readPacket e.readPacket := by
  obtain ⟨s, hs, rfl⟩ := h
  unfold Demultiplexer.readPacket
  cases ho : d.source.read PacketHeader.decoder with
  | mk found t =>
    obtain ⟨u, hu, hrest⟩ := Source.read_rest hs ho
    cases found with
    | none =>
      simp only [hu]
      exact ⟨⟨u, hrest, rfl⟩, rfl, rfl⟩
    | some x =>
      simp only [hu]
      split
      · exact SameAhead.finishAfter ⟨u, hrest, rfl⟩ rfl
      · rename_i n hn
        split
        · rw [x.skip_payload hn, x.skip_payload hn]
          exact ⟨⟨u.advance n, congrArg (List.drop n) hrest, rfl⟩, rfl, rfl⟩
        · cases hb : t.read (Decoder.take n) with
          | mk found t =>
            obtain ⟨v, hv, hrest⟩ := Source.read_rest hrest hb
            simp only [hv]
            cases found with
            | none => exact SameAhead.finishAfter ⟨v, hrest, rfl⟩ rfl
            | some b => exact SameAhead.route ⟨v, hrest, rfl⟩ ..

theorem SameAhead.readNext (h : SameAhead d e) : SameStep d.readNext e.readNext := by
  have hsection := h.readSection
  have hpacket := h.readPacket
  have hfinish : SameStep (d.finishAfter []) (e.finishAfter []) := h.finishAfter rfl
  obtain ⟨s, hs, rfl⟩ := h
  unfold Demultiplexer.readNext
  rw [← hs]
  split
  · exact hfinish
  · split
    · exact hsection
    · exact hpacket

theorem SameAhead.read (h : SameAhead d e) : SameStep d.read e.read := by
  have hdone : d.done = e.done := by
    obtain ⟨s, -, rfl⟩ := h
    rfl
  obtain ⟨hannounced, hfirst⟩ := h.ensureAnnounced
  have hnext := hannounced.readNext
  unfold Demultiplexer.read
  dsimp only
  rw [← hdone, hfirst]
  split
  · exact ⟨h, rfl, rfl⟩
  rcases hd : d.ensureAnnounced.1.readNext with ⟨f, out, result⟩
  rcases he : e.ensureAnnounced.1.readNext with ⟨g, more, other⟩
  rw [hd, he] at hnext
  obtain ⟨hahead, hcalls, rfl⟩ := hnext
  dsimp only at hahead hcalls
  have hboth := fun a : Outputs =>
    show RealMedia.calls (e.ensureAnnounced.2 ++ out ++ a) =
      RealMedia.calls (e.ensureAnnounced.2 ++ more ++ a) by
        rw [calls_append, calls_append, calls_append, calls_append, hcalls]
  cases result with
  | ok status =>
    refine ⟨hahead, ?_, rfl⟩
    simpa using hboth []
  | error fault =>
    cases fault with
    | io cause => exact hahead.finishAfter (hboth _)
    | _ =>
      refine ⟨hahead, ?_, rfl⟩
      simpa using hboth []

/-- Runs with the same calls and the same number of reads, to states that are the same ahead. -/
structure SameRun (r q : RunResult) : Prop where
  final : SameAhead r.final q.final
  calls : calls r.out = calls q.out
  reads : r.reads = q.reads

theorem SameAhead.runFrom (h : SameAhead d e) (n : Nat)
    (hc : RealMedia.calls out = RealMedia.calls more) :
    SameRun (d.runFrom n out) (e.runFrom n more) := by
  induction hlen : d.source.rest.length using Nat.strongRecOn generalizing d e n out more with
  | _ len ih =>
    subst hlen
    have hstep := h.read
    rw [runFrom_eq, runFrom_eq]
    rcases hd : d.read with ⟨f, a, result⟩
    rcases he : e.read with ⟨g, b, other⟩
    rw [hd, he] at hstep
    obtain ⟨hahead, hcalls, rfl⟩ := hstep
    dsimp only at hahead hcalls
    have hboth : RealMedia.calls (a.reverse ++ out) = RealMedia.calls (b.reverse ++ more) := by
      rw [calls_append, calls_append, calls_reverse, calls_reverse, hcalls, hc]
    have hlast : RealMedia.calls (a.reverse ++ out).reverse =
        RealMedia.calls (b.reverse ++ more).reverse := by
      rw [calls_reverse, calls_reverse, hboth]
    cases result with
    | error fault => exact ⟨hahead, hlast, rfl⟩
    | ok status =>
      cases status with
      | done => exact ⟨hahead, hlast, rfl⟩
      | moreData =>
        have hshort := length_read hd
        simp only [PacketHeader.size] at hshort
        exact ih _ (by omega) hahead (n + 1) hboth rfl

end Demultiplexer

end RealMedia
