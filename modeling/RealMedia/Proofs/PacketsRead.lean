import RealMedia.Proofs.HeaderView
import RealMedia.Proofs.PlainAudio

/-!
What the actions on an open file let out: the tracks are given the packets that have been read, and
are closed in the end.
-/

namespace RealMedia

open Container

variable {o : Options} {file : Bytes} {ts : List Track} {t : Track} {ws vs : List Written}
  {w : Written} {h : PacketHeader} {b : Bytes} {d e : Demultiplexer} {out : Outputs} {s u : Source}
  {n id : Nat}

/-- A packet that has been read, as a draft would be asked for it. -/
def Container.PacketHeader.written (h : PacketHeader) (payload : Bytes) : Written :=
  ⟨h.stream, h.timestamp, h.isKey, payload⟩

/-- A track makes the same of it. -/
theorem Track.take_written (o : Options) (t : Track) (h : PacketHeader) (b : Bytes) :
    t.take o (h.written b).header b = t.take o h b := by
  rw [take, take, isKey_header]
  rfl

theorem giveAll_append (o : Options) (ts : List Track) (ws vs : List Written) :
    giveAll o ts (ws ++ vs) =
      ((giveAll o (giveAll o ts ws).1 vs).1,
        (giveAll o ts ws).2 ++ (giveAll o (giveAll o ts ws).1 vs).2) := by
  induction ws generalizing ts with
  | nil => rfl
  | cons w ws ih => simp only [List.cons_append, giveAll, ih, List.append_assoc]

namespace Demultiplexer

/-- The packet that the next step of reading takes, if it is all there. -/
def next? (d : Demultiplexer) : Option Written :=
  if d.done || !atLeast PacketHeader.size d.source.rest || d.declared ≤ d.taken then none
  else
    match d.source.read PacketHeader.decoder with
    | (none, _) => none
    | (some h, s) => h.payload?.bind fun n => (s.read (Decoder.take n)).1.map h.written

/-- The packets that an action reads. -/
def hears (d : Demultiplexer) : Action → List Written
  | .read => d.next?.toList
  | .finish => []

/-- The packets that several actions read. -/
def heard (d : Demultiplexer) : List Action → List Written
  | [] => []
  | a :: as => d.hears a ++ (d.act a).1.heard as

theorem next?_ensureAnnounced (d : Demultiplexer) : d.ensureAnnounced.1.next? = d.next? := by
  rw [ensureAnnounced]
  split <;> rfl

theorem next?_of_done (hd : d.done = true) : d.next? = none := by
  simp [next?, hd]

theorem next?_of_short (hl : d.source.rest.length < PacketHeader.size) : d.next? = none := by
  simp [next?, hl]

theorem next?_of_end (hc : d.declared ≤ d.taken) : d.next? = none := by
  simp [next?, hc]

theorem next?_of_noHeader (hh : d.source.read PacketHeader.decoder = (none, s)) :
    d.next? = none := by
  simp [next?, hh]

theorem next?_of_header (hd : d.done = false) (hl : PacketHeader.size ≤ d.source.rest.length)
    (hc : d.taken < d.declared) (hh : d.source.read PacketHeader.decoder = (some h, s)) :
    d.next? = h.payload?.bind fun n => (s.read (Decoder.take n)).1.map h.written := by
  rw [next?, hh, if_neg]
  simp only [hd, Bool.false_or, Bool.or_eq_true, Bool.not_eq_true', atLeast_eq_false,
    decide_eq_true_eq]
  omega

/-- The headers have been handed over, and the tracks have been given these packets. -/
structure Playing (o : Options) (ts : List Track) (ws : List Written) (d : Demultiplexer)
    (out : Outputs) : Prop where
  options : d.options = o
  announced : d.announced = true
  unfinished : d.done = false
  tracks : d.tracks = (giveAll o ts ws).1
  packets : RealMedia.packets out = RealMedia.packets (giveAll o ts ws).2

/-- What has become of tracks and packets: nothing, what the tracks make of the packets, or all. -/
inductive Played (o : Options) (ts : List Track) (ws : List Written) (d : Demultiplexer)
    (out : Outputs) : Prop
  | before (ho : d.options = o) (ha : d.announced = false) (hd : d.done = false)
    (ht : d.tracks.map (·.finalize) = ts) (hw : ws = []) (hp : packets out = [])
  | during (hp : Playing o ts ws d out)
  | after (hd : d.done = true) (hp : packets out = packets (playAll o ts ws).2)

/-- Only the packets among the outputs count. -/
theorem Played.congr {more : Outputs} (hp : Played o ts ws d out)
    (hm : packets more = packets out) : Played o ts ws d more := by
  cases hp with
  | before ho ha hd ht hw hp => exact .before ho ha hd ht hw (hm.trans hp)
  | during hp =>
    exact .during ⟨hp.options, hp.announced, hp.unfinished, hp.tracks, hm.trans hp.packets⟩
  | after hd hp => exact .after hd (hm.trans hp)

theorem Played.ensureAnnounced (hp : Played o ts ws d out) (hd : d.done = false) :
    Playing o ts ws d.ensureAnnounced.1 (out ++ d.ensureAnnounced.2) := by
  rw [Demultiplexer.ensureAnnounced]
  cases hp with
  | before ho ha _ ht hw hp =>
    rw [if_neg (by simp [ha])]
    subst hw
    refine ⟨ho, rfl, hd, ht, ?_⟩
    rw [packets_append, hp]
    rfl
  | during hp =>
    rw [if_pos hp.announced, List.append_nil]
    exact hp
  | after he => rw [he] at hd; cases hd

theorem Played.finish (hp : Played o ts ws d out) :
    Played o ts ws d.finish.1 (out ++ d.finish.2) := by
  by_cases hd : d.done = true
  · rw [Demultiplexer.finish, if_pos hd, List.append_nil]
    exact hp
  · have hnow := hp.ensureAnnounced (by simpa using hd)
    rw [Demultiplexer.finish, if_neg hd]
    refine .after rfl ?_
    have hbefore := hnow.packets
    rw [packets_append] at hbefore
    simp only [packets_append, ← List.append_assoc, hbefore, playAll, hnow.options, hnow.tracks]

/-- A step that goes on with the same options and does not end the input. -/
structure GoesOn (d e : Demultiplexer) : Prop where
  options : e.options = d.options
  announced : e.announced = d.announced
  done : e.done = d.done

theorem Playing.quiet (hp : Playing o ts ws d out) {more : Outputs} (hg : d.GoesOn e)
    (ht : e.tracks = d.tracks) (hm : RealMedia.packets more = []) :
    Playing o ts ws e (out ++ more) where
  options := hg.options.trans hp.options
  announced := hg.announced.trans hp.announced
  unfinished := hg.done.trans hp.unfinished
  tracks := ht.trans hp.tracks
  packets := by
    rw [packets_append, hm, List.append_nil]
    exact hp.packets

theorem Playing.finishAfter (hp : Playing o ts ws d out) {more : Outputs} (hg : d.GoesOn e)
    (ht : e.tracks = d.tracks) (hm : RealMedia.packets more = []) :
    Played o ts ws (e.finishAfter more).1 (out ++ (e.finishAfter more).2.1) := by
  have hend := (Played.during (hp.quiet hg ht hm)).finish
  rw [List.append_assoc] at hend
  exact hend

/-- One more packet is given to the tracks. -/
theorem Playing.give (hp : Playing o ts ws d out) {more : Outputs} (hg : d.GoesOn e)
    (ht : e.tracks = (RealMedia.give o d.tracks w).1)
    (hm : RealMedia.packets more = RealMedia.packets (RealMedia.give o d.tracks w).2) :
    Playing o ts (ws ++ [w]) e (out ++ more) := by
  have hone : giveAll o ts (ws ++ [w]) =
      ((RealMedia.give o d.tracks w).1, (giveAll o ts ws).2 ++ (RealMedia.give o d.tracks w).2) := by
    rw [giveAll_append, ← hp.tracks]
    simp only [giveAll, List.append_nil]
  refine ⟨hg.options.trans hp.options, hg.announced.trans hp.announced,
    hg.done.trans hp.unfinished, ?_, ?_⟩
  · rw [hone, ht]
  · rw [hone, packets_append, packets_append, hp.packets, hm]

theorem give_written (d : Demultiplexer) (h : PacketHeader) (b : Bytes) :
    RealMedia.give d.options d.tracks (h.written b) = match d.taker? h with
      | none => (d.tracks, [])
      | some t => (d.tracks.map (updated (t.take d.options h b).1), (t.take d.options h b).2) := by
  simp only [give_taker, ← Track.take_written _ _ h b]
  rfl

/-- A packet that is read whole is given to the tracks, and nothing else is. -/
theorem Reads.played {r : Outcome} (hr : Reads d r) (hp : Playing o ts ws d out) :
    Played o ts (ws ++ d.next?.toList) r.1 (out ++ r.2.1) := by
  cases hr with
  | short hl =>
    rw [next?_of_short hl, Option.toList_none, List.append_nil]
    exact hp.finishAfter ⟨rfl, rfl, rfl⟩ rfl rfl
  | step _ hc hr =>
    rw [next?_of_end hc, Option.toList_none, List.append_nil]
    cases hr with
    | noObject => exact .during (hp.quiet ⟨rfl, rfl, rfl⟩ rfl rfl)
    | noHeader => exact .during (hp.quiet ⟨rfl, rfl, rfl⟩ rfl rfl)
    | next => exact .during (hp.quiet ⟨rfl, rfl, rfl⟩ rfl rfl)
    | other => exact hp.finishAfter ⟨rfl, rfl, rfl⟩ rfl rfl
  | packet hl hc hr =>
    have hnext {h : PacketHeader} {s : Source} :=
      @next?_of_header h d s hp.unfinished hl hc
    cases hr with
    | noHeader hh =>
      rw [next?_of_noHeader hh, Option.toList_none, List.append_nil]
      exact .during (hp.quiet ⟨rfl, rfl, rfl⟩ rfl rfl)
    | undersized hh hn =>
      rw [hnext hh, hn, Option.bind_none, Option.toList_none, List.append_nil]
      exact hp.finishAfter ⟨rfl, rfl, rfl⟩ rfl rfl
    | @skipped h s n hh hn ht =>
      rw [hnext hh, hn, Option.bind_some]
      cases (s.read (Decoder.take n)).1 with
      | none =>
        rw [Option.map_none, Option.toList_none, List.append_nil]
        exact .during (hp.quiet ⟨rfl, rfl, rfl⟩ rfl rfl)
      | some b =>
        have hnobody : RealMedia.give o d.tracks (h.written b) = (d.tracks, []) := by
          rw [← hp.options, give_written, ht]
        refine .during (hp.give ⟨rfl, rfl, rfl⟩ ?_ ?_)
        · rw [hnobody]
          rfl
        · rw [hnobody]
    | @truncated h s u n t hh hn ht hr =>
      rw [hnext hh, hn, Option.bind_some, hr, Option.map_none, Option.toList_none, List.append_nil]
      exact hp.finishAfter ⟨rfl, rfl, rfl⟩ rfl rfl
    | @routed h s u n t b hh hn ht hr =>
      rw [hnext hh, hn, Option.bind_some, hr, Option.map_some, Option.toList_some]
      have hen := (enabled_of_taker? ht).2
      obtain ⟨hstate, hcalls, -⟩ := (d.behindHeader u).route_take hen h b
      have hgive := give_written d h b
      rw [ht, hp.options] at hgive
      have hsame : (d.behindHeader u).options = o := hp.options
      rw [hsame] at hstate hcalls
      refine .during (hp.give ?_ ?_ ?_)
      · rw [hstate]
        exact ⟨rfl, rfl, rfl⟩
      · rw [hstate, hgive]
        rfl
      · rw [hgive, packets, hcalls, packets]

theorem Played.read (hp : Played o ts ws d out) :
    Played o ts (ws ++ d.next?.toList) d.read.1 (out ++ d.read.2.1) := by
  rw [Demultiplexer.read]
  by_cases hd : d.done = true
  · rw [if_pos hd, next?_of_done hd, Option.toList_none, List.append_nil, List.append_nil]
    exact hp
  rw [if_neg hd]
  have hnext := (reads_readNext d.ensureAnnounced.1).played
    (hp.ensureAnnounced (by simpa using hd))
  rw [next?_ensureAnnounced] at hnext
  dsimp only
  split
  · rename_i e more fault hr
    rw [hr] at hnext
    refine hnext.finish.congr ?_
    simp only [finishAfter, packets_append, List.append_assoc]
    rfl
  · rename_i e more x hx hr
    rw [hr, List.append_assoc] at hnext
    exact hnext

theorem Played.act (hp : Played o ts ws d out) (a : Action) :
    Played o ts (ws ++ d.hears a) (d.act a).1 (out ++ (d.act a).2.1) := by
  cases a with
  | read => exact hp.read
  | finish =>
    rw [hears, List.append_nil]
    exact hp.finish

theorem Played.perform (hp : Played o ts ws d out) (as : List Action) :
    Played o ts (ws ++ d.heard as) (d.perform as).1 (out ++ (d.perform as).2) := by
  induction as generalizing d ws out with
  | nil =>
    rw [heard, Demultiplexer.perform, List.append_nil, List.append_nil]
    exact hp
  | cons a as ih =>
    have hrest := ih (hp.act a)
    rw [List.append_assoc, List.append_assoc] at hrest
    exact hrest

/-- The packets of an open file are what its tracks make of the packets that have been read, closed
or not. -/
theorem packets_perform (ho : (ofBytes o file).1 = .ok d) (as : List Action) :
    packets (d.perform as).2 =
        packets (giveAll o (d.tracks.map (·.finalize)) (d.heard as)).2 ∨
      packets (d.perform as).2 =
        packets (playAll o (d.tracks.map (·.finalize)) (d.heard as)).2 := by
  have hstart : Played o (d.tracks.map (·.finalize)) [] d [] := by
    obtain ⟨-, f, t, xs, h, s, hs, -, -, -, rfl⟩ := ofBytes_eq_ok.1 ho
    exact .before rfl rfl rfl rfl rfl rfl
  have hend := hstart.perform as
  rw [List.nil_append, List.nil_append] at hend
  cases hend with
  | before _ _ _ _ hw hp =>
    rw [hw, hp]
    exact .inl rfl
  | during hp => exact .inl hp.packets
  | after _ hp => exact .inr hp

/-- On each stream these are the first packets that its track makes of its own packets. -/
theorem stream_perform (ho : (ofBytes o file).1 = .ok d) (as : List Action) (id : Nat) :
    ofStream id (d.perform as).2 <+: (d.tracks.find? (·.id = id)).toList.flatMap fun t =>
      packets (t.finalize.play o (own id (d.heard as))).2 := by
  have hdist : Distinct (d.tracks.map (·.finalize)) :=
    (distinct_map id_finalize).2 (tracks_opened ho).1
  have hfind := find?_map_id id_finalize d.tracks id
  rcases packets_perform ho as with hp | hp
  · have hview := (giveAll_view (o := o) hdist (d.heard as) id).2
    rw [ofStream, hp, ← ofStream, hview, hfind]
    cases d.tracks.find? (·.id = id) with
    | none => exact List.prefix_refl _
    | some t => simp [Track.play]
  · have hview := (playAll_view (o := o) hdist (d.heard as) id).2
    rw [ofStream, hp, ← ofStream, hview, hfind]
    cases d.tracks.find? (·.id = id) with
    | none => exact List.prefix_refl _
    | some t => simp

end Demultiplexer

end RealMedia
