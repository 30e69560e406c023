import RealMedia.Demux.Run
import RealMedia.Proofs.DraftOpening
import RealMedia.Proofs.PacketRouting

/-! Reading packets to where their bytes break off: each is given to its track, and all are closed. -/

namespace RealMedia

open Container Container.Draft

variable {o : Options} {w : Written} {ws now later : List Written} {ms : List Description}
  {ts : List Track} {d e f : Demultiplexer} {out before : Outputs} {id left k n : Nat} {b r : Bytes}
  {s : Source}

theorem playAll_cons (o : Options) (ts : List Track) (w : Written) (ws : List Written) :
    playAll o ts (w :: ws) = ((playAll o (give o ts w).1 ws).1,
      (give o ts w).2 ++ (playAll o (give o ts w).1 ws).2) := by
  simp only [playAll, giveAll, List.append_assoc]

namespace Demultiplexer

theorem give_taker (d : Demultiplexer) (w : Written) :
    give d.options d.tracks w = match d.taker? w.header with
      | none => (d.tracks, [])
      | some t => (d.tracks.map (updated (t.take d.options w.header w.payload).1),
          (t.take d.options w.header w.payload).2) := rfl

/-- A demultiplexer has become another by giving a packet to its tracks, behind which it stands. -/
structure Given (d : Demultiplexer) (w : Written) (r : Bytes) (e : Demultiplexer) (out : Outputs) :
    Prop where
  rest : e.source.rest = r
  pos : e.source.pos = d.source.pos + (writtenBytes w).length
  declared : e.declared = d.declared
  taken : e.taken = d.taken + 1
  options : e.options = d.options
  announced : e.announced = d.announced
  done : e.done = d.done
  tracks : e.tracks = (give d.options d.tracks w).1
  calls : calls out = RealMedia.calls (give d.options d.tracks w).2

/-- The next packet is read, and given to the track that takes it. -/
theorem readNext_packet (hw : w.payload.length ≤ PacketHeader.maxPayload)
    (hs : d.source.rest = writtenBytes w ++ r) (hc : d.taken < d.declared) :
    ∃ e out, d.readNext = (e, out, .ok .moreData) ∧ Given d w r e out := by
  have hlong : PacketHeader.size ≤ d.source.rest.length := by
    rw [hs, List.length_append, length_writtenBytes]
    omega
  rw [writtenBytes_eq, List.append_assoc] at hs
  obtain ⟨hread, hrest⟩ := read_header hs
  obtain ⟨htake, hbehind⟩ := read_payload hrest
  have hpos : ((d.source.advance PacketHeader.size).advance w.payload.length).pos =
      d.source.pos + (writtenBytes w).length := by
    rw [Source.advance_advance, ← length_writtenBytes]
    rfl
  rw [readNext, if_neg (by simpa using hlong), if_neg (by omega),
    readPacket_whole hread (Written.payload?_header hw) htake]
  have hgive := give_taker d w
  cases ht : d.taker? w.header with
  | none =>
    rw [ht] at hgive
    exact ⟨_, _, rfl, hbehind, hpos, rfl, rfl, rfl, rfl, rfl, by rw [hgive]; rfl, by rw [hgive]⟩
  | some t =>
    rw [ht] at hgive
    obtain ⟨hstate, hcalls, hmore⟩ :=
      (d.behindHeader ((d.source.advance PacketHeader.size).advance w.payload.length)).route_take
        (enabled_of_taker? ht).2 w.header w.payload
    refine ⟨_, _, Prod.ext hstate (Prod.ext rfl hmore), hbehind, hpos, rfl, rfl, rfl, rfl, rfl,
      ?_, ?_⟩
    · rw [hgive]
      rfl
    · rw [hgive]
      exact hcalls

/-- The next section is entered. -/
theorem readNext_section {h : ObjectHeader} {k : DataHeader} (hi : h.id = dataId)
    (hs : d.source.rest = h.bytes ++ (k.bytes ++ r)) (hc : d.declared ≤ d.taken) :
    ∃ s, s.rest = r ∧ s.pos = d.source.pos + sectionStart ∧ d.readNext =
      ({ d with source := s, declared := k.packets.toNat, taken := 0 },
        [.note (.nextSection k.packets.toNat)], .ok .moreData) := by
  have hlong : PacketHeader.size ≤ d.source.rest.length := by
    rw [hs, List.length_append, List.length_append, ObjectHeader.length_bytes,
      DataHeader.length_bytes, PacketHeader.size, ObjectHeader.length]
    omega
  have ho := ObjectHeader.read_iff.2 ⟨_, hs, rfl⟩
  have hrest := Source.rest_advance hs
  have hk := DataHeader.read_iff.2 ⟨_, hrest, rfl⟩
  rw [readNext, if_neg (by simpa using hlong), if_pos hc, readSection, ho]
  simp only [if_pos hi, hk]
  exact ⟨_, Source.rest_advance hrest, rfl, rfl⟩

theorem runFrom_eq (d : Demultiplexer) (n : Nat) (before : Outputs) :
    d.runFrom n before = match d.read with
      | (e, out, .ok .moreData) => e.runFrom (n + 1) (out.reverse ++ before)
      | (e, out, .ok .done) => ⟨e, (out.reverse ++ before).reverse, .ok n⟩
      | (e, out, .error fault) => ⟨e, (out.reverse ++ before).reverse, .error fault⟩ := by
  rw [runFrom]
  split <;> rename_i hr <;> rw [hr]

theorem read_announce (ha : d.announced = false) (hd : d.done = false) :
    d.read =
      (d.announce.1.read.1, d.announce.2 ++ d.announce.1.read.2.1, d.announce.1.read.2.2) := by
  have hnow : d.announce.1.announced = true := rfl
  rw [read, if_neg (by simp [hd]), ensureAnnounced, if_neg (by simp [ha]), read,
    if_neg (by simp [announce, hd]), ensureAnnounced, if_pos hnow]
  dsimp only
  rcases d.announce.1.readNext with ⟨e, out, x⟩
  cases x with
  | ok x => rfl
  | error fault =>
    cases fault with
    | io e => simp [finishAfter]
    | header | sync | outOfData => rfl

/-- Handing the headers over first changes nothing. -/
theorem runFrom_announce (ha : d.announced = false) (hd : d.done = false) (before : Outputs) :
    d.runFrom n before = d.announce.1.runFrom n (d.announce.2.reverse ++ before) := by
  rw [runFrom_eq, runFrom_eq d.announce.1, read_announce ha hd]
  rcases d.announce.1.read with ⟨e, out, x⟩
  cases x with
  | error fault => simp
  | ok x => cases x <;> simp

/-- Read on to the end, the demultiplexer comes to these tracks, and makes these calls. -/
def Runs (d : Demultiplexer) (ts : List Track) (cs : List SinkCall) : Prop :=
  ∀ n before, ∃ m f out, d.runFrom n before = ⟨f, before.reverse ++ out, .ok m⟩ ∧
    f.tracks = ts ∧ calls out = cs

section

variable (ha : d.announced = true) (hd : d.done = false)

include ha hd

theorem runs_more {cs : List SinkCall} (hr : d.readNext = (e, out, .ok .moreData))
    (he : Runs e ts cs) : Runs d ts (calls out ++ cs) := by
  intro n before
  obtain ⟨m, f, more, hrun, htracks, hcalls⟩ := he (n + 1) (out.reverse ++ before)
  refine ⟨m, f, out ++ more, ?_, htracks, by rw [calls_append, hcalls]⟩
  have hread : d.read = (e, out, .ok .moreData) := by
    rw [read, if_neg (by simp [hd]), ensureAnnounced, if_pos ha]
    simp only [hr, List.nil_append]
  rw [runFrom_eq, hread]
  simp only [hrun, List.reverse_append, List.reverse_reverse, List.append_assoc]

/-- A read that ends the input is the last. -/
theorem runs_finish (hb : calls before = [])
    (hr : d.read = ({ d with source := s, taken := k } : Demultiplexer).finishAfter before) :
    Runs d (playAll d.options d.tracks []).1 (calls (playAll d.options d.tracks []).2) := by
  intro n first
  rw [finishAfter, finish, if_neg (by simp [hd]), ensureAnnounced, if_pos ha] at hr
  rw [runFrom_eq, hr]
  refine ⟨n, { d with source := s, taken := k, done := true
                      tracks := (drainAll d.options d.tracks).1 },
    before ++ ((drainAll d.options d.tracks).2 ++ [.call .flush]), ?_, rfl, ?_⟩
  · simp
  · rw [calls_append, hb]
    rfl

theorem runs_finishAfter (hb : calls before = [])
    (hr : d.readNext = ({ d with source := s, taken := k } : Demultiplexer).finishAfter before) :
    Runs d (playAll d.options d.tracks []).1 (calls (playAll d.options d.tracks []).2) := by
  refine runs_finish ha hd hb (s := s) (k := k) ?_
  rw [read, if_neg (by simp [hd]), ensureAnnounced, if_pos ha]
  dsimp only
  rw [hr]
  rfl

/-- Running out of data is the end. -/
theorem runs_breakOff (hr : d.readNext = d.breakOff s) :
    Runs d (playAll d.options d.tracks []).1 (calls (playAll d.options d.tracks []).2) := by
  refine runs_finish ha hd (show calls [.note (.endOfData .unexpectedEof)] = [] from rfl) (s := s)
    (k := d.taken) ?_
  rw [read, if_neg (by simp [hd]), ensureAnnounced, if_pos ha]
  dsimp only
  rw [hr]
  rfl

theorem runs_short (hs : d.source.rest.length < PacketHeader.size) :
    Runs d (playAll d.options d.tracks []).1 (calls (playAll d.options d.tracks []).2) := by
  refine runs_finishAfter ha hd calls_nil (s := d.source) (k := d.taken) ?_
  rw [readNext, if_pos (by simpa using hs)]

end

/-- What stands in a source is read to the end: each track takes the packets of its stream that are
whole, and is closed. -/
theorem runs_remains (hr : Remains left b now later) (hs : d.source.rest = b)
    (hc : d.declared = d.taken + left) (ha : d.announced = true) (hd : d.done = false) :
    Runs d (playAll d.options d.tracks (now ++ later)).1
      (calls (playAll d.options d.tracks (now ++ later)).2) := by
  induction hr generalizing d with
  | @packet left r w now later hw hr ih =>
    obtain ⟨e, out, hnext, hg⟩ := readNext_packet hw hs (by omega)
    have hrest := ih hg.rest (by rw [hg.declared, hg.taken]; omega) (hg.announced.trans ha)
      (hg.done.trans hd)
    rw [hg.options, hg.tracks] at hrest
    rw [List.cons_append, playAll_cons, calls_append, ← hg.calls]
    exact runs_more ha hd hnext hrest
  | @next h k r now later hi hr ih =>
    obtain ⟨s, hrest, -, hnext⟩ := readNext_section hi hs (by omega)
    exact runs_more ha hd hnext
      (ih (d := { d with source := s, declared := k.packets.toNat, taken := 0 }) hrest
        (Nat.zero_add _).symm ha hd)
  | short hr =>
    subst hs
    exact runs_short ha hd hr
  | @other h r hi =>
    by_cases hshort : d.source.rest.length < PacketHeader.size
    · exact runs_short ha hd hshort
    · have ho := ObjectHeader.read_iff.2 ⟨_, hs, rfl⟩
      refine runs_finishAfter ha hd (show calls [.note (.endObject h.id)] = [] from rfl)
        (s := d.source.advance h.bytes.length) (k := d.taken) ?_
      rw [readNext, if_neg (by simpa using hshort), if_pos (by omega), readSection, ho]
      simp only [if_neg hi]
  | @uncounted h r hi hr =>
    by_cases hshort : d.source.rest.length < PacketHeader.size
    · exact runs_short ha hd hshort
    · have ho := ObjectHeader.read_iff.2 ⟨_, hs, rfl⟩
      have hk := Source.read_short DataHeader.consumes_decoder
        (by rw [Source.rest_advance hs]; exact hr)
      have hnext : d.readNext = d.breakOff ((d.source.advance h.bytes.length).advance
          (d.source.advance h.bytes.length).rest.length) := by
        rw [readNext, if_neg (by simpa using hshort), if_pos (by omega), readSection, ho]
        simp only [if_pos hi, hk]
        rfl
      exact runs_breakOff ha hd hnext
  | @torn left r w hw hr =>
    have hlong : PacketHeader.size ≤ d.source.rest.length := by
      rw [hs, List.length_append, PacketHeader.length_bytes]
      omega
    obtain ⟨hread, hrest⟩ := read_header hs
    have hnone := Source.read_short (Decoder.consumes_take (n := w.payload.length))
      (by rw [hrest]; exact hr)
    have hnext : d.readNext = d.readPacket := by
      rw [readNext, if_neg (by simpa using hlong), if_neg (by omega)]
    rw [readPacket_torn hread (Written.payload?_header hw) hnone] at hnext
    cases ht : d.taker? w.header with
    | none =>
      rw [ht] at hnext
      refine runs_more ha hd hnext (runs_short ha hd ?_)
      change ((d.source.advance PacketHeader.size).advance w.payload.length).rest.length < _
      rw [Source.length_rest_advance, hrest, PacketHeader.size]
      omega
    | some t =>
      rw [ht] at hnext
      exact runs_finishAfter ha hd rfl hnext

end Demultiplexer

/-- The tracks of the streams described, named after their packets and ready to be handed over. -/
def tracksAt (o : Options) (ms : List Description) (now : List Written) : List Track :=
  (nameVersions (seen (ac3Ids (tracksOf o ms)) now) (tracksOf o ms)).map (·.finalize)

/-- A run hands the headers over, gives the packets that are whole to the tracks, and closes. -/
theorem run_openedAt (ho : OpenedAt o ms now later d) :
    (∃ m, d.run.reads = .ok m) ∧
      d.run.final.tracks = (playAll o (tracksAt o ms now) (now ++ later)).1 ∧
      calls d.run.out = .headers (inOrder o.order ((tracksAt o ms now).map (·.header))) ::
        calls (playAll o (tracksAt o ms now) (now ++ later)).2 := by
  have hruns := Demultiplexer.runs_remains (d := d.announce.1) ho.remains rfl
    (by change d.declared = d.taken + d.declared; rw [ho.taken, Nat.zero_add]) rfl ho.done
  have htracks : d.announce.1.tracks = tracksAt o ms now := by
    change d.tracks.map (·.finalize) = _
    rw [ho.tracks]
    rfl
  have hoptions : d.announce.1.options = o := ho.options
  rw [htracks, hoptions] at hruns
  obtain ⟨m, f, out, hrun, hfinal, hcalls⟩ := hruns 0 (d.announce.2.reverse ++ [])
  rw [← Demultiplexer.runFrom_announce ho.announced ho.done, List.append_nil,
    List.reverse_reverse] at hrun
  have hfirst : calls d.announce.2 =
      [.headers (inOrder o.order ((tracksAt o ms now).map (·.header)))] := by
    rw [← htracks, ← hoptions]
    rfl
  rw [Demultiplexer.run, hrun]
  refine ⟨⟨m, rfl⟩, hfinal, ?_⟩
  rw [calls_append, hfirst, hcalls]
  rfl

end RealMedia
