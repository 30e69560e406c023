import RealMedia.Proofs.DraftOpening
import RealMedia.Proofs.StreamView

/-! What a sink sees of a file: the headers, then packets and changed headers, then one flush. -/

namespace RealMedia

/-- A call between the headers and the flush. -/
def SinkCall.IsUpdate : SinkCall → Prop
  | packet _ | changed _ => True
  | headers _ | flush => False

theorem isUpdate_of_concerns {id : Nat} {c : SinkCall} (hc : c.Concerns id) : c.IsUpdate := by
  cases c with
  | headers hs => exact hc.elim
  | flush => exact hc.elim
  | packet p => trivial
  | changed h => trivial

/-- Draining speaks for the tracks and leaves nothing on those that are not lost. -/
theorem drainAll_settled (o : Options) (ts : List Track) :
    (∀ t ∈ (drainAll o ts).1, t.disabled = false → t.Settled) ∧
      ∀ c ∈ calls (drainAll o ts).2, c.IsUpdate := by
  induction ts with
  | nil => simp [drainAll, calls]
  | cons t ts ih =>
    obtain ⟨hset, hup⟩ := ih
    rw [drainAll_cons]
    refine ⟨?_, ?_⟩
    · intro u hu hd
      rcases List.mem_cons.1 hu with rfl | hu
      · exact Track.settled_close hd
      · exact hset u hu hd
    · intro c hc
      rw [calls_append, List.mem_append] at hc
      rcases hc with hc | hc
      · exact isUpdate_of_concerns ((t.close_stream o).2 c hc)
      · exact hup c hc

namespace Demultiplexer

open Container

variable {d : Demultiplexer} {cs : List SinkCall} {out : Outputs} {r : Outcome} {s : Source}
  {o : Options} {file : Bytes}

/-- What a caller may ask of an open file. -/
inductive Action
  | read
  | finish

def act (d : Demultiplexer) : Action → Outcome
  | .read => d.read
  | .finish => d.finishAfter []

/-- The state after several actions, and everything they let out. -/
def perform (d : Demultiplexer) : List Action → Demultiplexer × Outputs
  | [] => (d, [])
  | a :: as =>
    let (e, out, _) := d.act a
    let (f, more) := e.perform as
    (f, out ++ more)

/-- What the sink has been told so far, and what that says about the state. -/
inductive Told (d : Demultiplexer) : List SinkCall → Prop
  | nothing (ha : d.announced = false) (hd : d.done = false) : Told d []
  | headers {hs : List StreamHeader} {mid : List SinkCall} (ha : d.announced = true)
    (hd : d.done = false) (hm : ∀ c ∈ mid, c.IsUpdate) : Told d (.headers hs :: mid)
  | all {hs : List StreamHeader} {mid : List SinkCall} (hd : d.done = true)
    (hm : ∀ c ∈ mid, c.IsUpdate) (ht : ∀ t ∈ d.tracks, t.disabled = false → t.Settled) :
    Told d (.headers hs :: mid ++ [.flush])

/-- The sink has had the headers, and is to have more. -/
structure Telling (d : Demultiplexer) (cs : List SinkCall) : Prop where
  announced : d.announced = true
  unfinished : d.done = false
  told : ∃ hs mid, cs = .headers hs :: mid ∧ ∀ c ∈ mid, c.IsUpdate

theorem Telling.told_headers (ht : Telling d cs) : Told d cs := by
  obtain ⟨hs, mid, rfl, hm⟩ := ht.told
  exact .headers ht.announced ht.unfinished hm

theorem Telling.of_flags {e : Demultiplexer} (ht : Telling d cs) (ha : e.announced = d.announced)
    (hd : e.done = d.done) : Telling e cs :=
  ⟨ha.trans ht.announced, hd.trans ht.unfinished, ht.told⟩

theorem Telling.more {ds : List SinkCall} (ht : Telling d cs) (hm : ∀ c ∈ ds, c.IsUpdate) :
    Telling d (cs ++ ds) := by
  obtain ⟨hs, mid, rfl, hmid⟩ := ht.told
  refine ⟨ht.announced, ht.unfinished, hs, mid ++ ds, rfl, ?_⟩
  intro c hc
  rcases List.mem_append.1 hc with hc | hc
  · exact hmid c hc
  · exact hm c hc

theorem telling_ensureAnnounced (ht : Told d cs) (hd : d.done = false) :
    Telling d.ensureAnnounced.1 (cs ++ calls d.ensureAnnounced.2) := by
  rw [ensureAnnounced]
  cases ht with
  | nothing ha _ =>
    rw [if_neg (by simp [ha])]
    exact ⟨rfl, hd, _, [], rfl, by simp⟩
  | @headers hs mid ha _ hm =>
    rw [if_pos ha]
    exact ⟨ha, hd, hs, mid, List.append_nil _, hm⟩
  | all he => rw [he] at hd; cases hd

theorem done_finish (d : Demultiplexer) : d.finish.1.done = true := by
  rw [finish]
  split
  · assumption
  · rfl

/-- However much the sink has been told, ending the input tells it the rest. -/
theorem told_finish (ht : Told d cs) : Told d.finish.1 (cs ++ calls d.finish.2) := by
  by_cases hd : d.done = true
  · rw [finish, if_pos hd]
    simpa [calls] using ht
  · have hopen : d.done = false := by simpa using hd
    obtain ⟨hs, mid, hcs, hm⟩ := (telling_ensureAnnounced ht hopen).told
    obtain ⟨hset, hup⟩ := drainAll_settled d.ensureAnnounced.1.options d.ensureAnnounced.1.tracks
    rw [finish, if_neg hd]
    have hcalls : cs ++ calls (d.ensureAnnounced.2 ++
        (drainAll d.ensureAnnounced.1.options d.ensureAnnounced.1.tracks).2 ++ [.call .flush]) =
          .headers hs :: (mid ++
            calls (drainAll d.ensureAnnounced.1.options d.ensureAnnounced.1.tracks).2) ++
              [.flush] := by
      rw [calls_append, calls_append, ← List.append_assoc, ← List.append_assoc, hcs]
      rfl
    refine hcalls ▸ .all rfl ?_ hset
    intro c hc
    rcases List.mem_append.1 hc with hc | hc
    · exact hm c hc
    · exact hup c hc

theorem told_finishAfter (ht : Told d cs) (hout : calls out = []) :
    Told (d.finishAfter out).1 (cs ++ calls (d.finishAfter out).2.1) := by
  have := told_finish ht
  rw [finishAfter, calls_append, hout]
  exact this

/-- How a step of reading leaves the sink: told everything if nothing is left to read. -/
structure Keeps (cs : List SinkCall) (r : Outcome) : Prop where
  told : Told r.1 (cs ++ calls r.2.1)
  done : r.2.2 = .ok .done → r.1.done = true

theorem keeps_finishAfter (ht : Telling d cs) (hout : calls out = []) :
    Keeps cs (d.finishAfter out) :=
  ⟨told_finishAfter ht.told_headers hout, fun _ => d.done_finish⟩

theorem Telling.keeps (ht : Telling d cs) (ha : r.1.announced = d.announced)
    (hd : r.1.done = d.done) (hup : ∀ c ∈ calls r.2.1, c.IsUpdate) (hx : r.2.2 ≠ .ok .done) :
    Keeps cs r :=
  ⟨((ht.of_flags ha hd).more hup).told_headers, fun h => absurd h hx⟩

theorem keeps_route {t : Track} (ht : Telling d cs) (hen : t.disabled = false) (h : PacketHeader)
    (b : Bytes) : Keeps cs (d.route t h b) := by
  obtain ⟨hstate, hcalls, hmore⟩ := d.route_take hen h b
  have hup : ∀ c ∈ calls (d.route t h b).2.1, c.IsUpdate := by
    intro c hc
    rw [hcalls] at hc
    exact isUpdate_of_concerns ((t.take_stream d.options h b).2 c hc)
  refine ht.keeps ?_ ?_ hup (by simp [hmore])
  · rw [hstate]
    rfl
  · rw [hstate]
    rfl

theorem keeps_breakOff (ht : Telling d cs) : Keeps cs (d.breakOff s) :=
  ht.keeps rfl rfl (by simp [breakOff]) (by simp [breakOff])

theorem Reads.keeps (hr : Reads d r) (ht : Telling d cs) : Keeps cs r := by
  cases hr with
  | short => exact keeps_finishAfter ht rfl
  | step _ _ hr =>
    cases hr with
    | noObject => exact keeps_breakOff ht
    | noHeader => exact keeps_breakOff ht
    | next => exact ht.keeps rfl rfl (by simp) (by simp)
    | other => exact keeps_finishAfter (ht.of_flags rfl rfl) rfl
  | packet _ _ hr =>
    cases hr with
    | noHeader => exact keeps_breakOff ht
    | undersized => exact keeps_finishAfter (ht.of_flags rfl rfl) rfl
    | skipped => exact ht.keeps rfl rfl (by simp) (by simp)
    | truncated => exact keeps_finishAfter (ht.of_flags rfl rfl) rfl
    | @routed h s u n t b _ _ htaker =>
      exact keeps_route (d := d.behindHeader u) (ht.of_flags rfl rfl) (enabled_of_taker? htaker).2 h b

theorem keeps_read (ht : Told d cs) : Keeps cs d.read := by
  rw [read]
  by_cases hd : d.done = true
  · rw [if_pos hd]
    exact ⟨by simpa using ht, fun _ => hd⟩
  rw [if_neg hd]
  have hk := (reads_readNext d.ensureAnnounced.1).keeps
    (telling_ensureAnnounced ht (by simpa using hd))
  dsimp only
  split
  · rename_i e out fault hn
    rw [hn] at hk
    refine ⟨?_, fun _ => done_finish _⟩
    have hfin := told_finish hk.told
    simp only [List.append_assoc] at hfin
    simpa [finishAfter] using hfin
  · rename_i e out x hn hr
    rw [hr] at hk
    exact ⟨by simpa using hk.told, hk.done⟩

theorem keeps_act (ht : Told d cs) (a : Action) : Keeps cs (d.act a) := by
  cases a with
  | read => exact keeps_read ht
  | finish => exact ⟨told_finishAfter ht rfl, fun _ => d.done_finish⟩

theorem told_perform (ht : Told d cs) (as : List Action) :
    Told (d.perform as).1 (cs ++ calls (d.perform as).2) := by
  induction as generalizing d cs with
  | nil => simpa [perform] using ht
  | cons a as ih =>
    have hrest := ih (keeps_act ht a).told
    rw [perform, calls_append, ← List.append_assoc]
    exact hrest

theorem perform_append (d : Demultiplexer) (as bs : List Action) :
    d.perform (as ++ bs) =
      (((d.perform as).1.perform bs).1, (d.perform as).2 ++ ((d.perform as).1.perform bs).2) := by
  induction as generalizing d with
  | nil => rfl
  | cons a as ih => simp only [List.cons_append, perform, ih, List.append_assoc]

theorem act_of_done (hd : d.done = true) (a : Action) : d.act a = (d, [], .ok .done) := by
  cases a with
  | read => rw [act, read, if_pos hd]
  | finish => rw [act, finishAfter, finish, if_pos hd]; rfl

theorem perform_of_done (hd : d.done = true) (as : List Action) : d.perform as = (d, []) := by
  induction as with
  | nil => rfl
  | cons a as ih => simp only [perform, act_of_done hd, ih, List.append_nil]

/-- A file that has just been opened has told the sink nothing. -/
theorem told_ofBytes (ho : (ofBytes o file).1 = .ok d) : Told d [] := by
  obtain ⟨-, f, t, xs, h, s, hs, -, -, -, rfl⟩ := ofBytes_eq_ok.1 ho
  exact .nothing rfl rfl

theorem Told.follows (ht : Told d cs) : ∃ hs mid, (∀ c ∈ mid, c.IsUpdate) ∧
    cs <+: .headers hs :: mid ++ [.flush] := by
  cases ht with
  | nothing => exact ⟨[], [], by simp, List.nil_prefix⟩
  | @headers hs mid _ _ hm => exact ⟨hs, mid, hm, List.prefix_append _ _⟩
  | @all hs mid _ hm => exact ⟨hs, mid, hm, List.prefix_refl _⟩

theorem Told.of_done (ht : Told d cs) (hd : d.done = true) :
    .flush ∈ cs ∧ ∀ t ∈ d.tracks, t.disabled = false → t.Settled := by
  cases ht with
  | nothing _ ho => rw [ho] at hd; cases hd
  | headers _ ho => rw [ho] at hd; cases hd
  | all _ _ hset => exact ⟨by simp, hset⟩

/-- The sink hears of the headers, then of packets and changed headers, then of the flush. From the
first action that says so on everything is done: no track that is not lost keeps anything, and no
action lets anything out. -/
theorem sink_protocol (ho : (ofBytes o file).1 = .ok d) (as : List Action) :
    (∃ hs mid, (∀ c ∈ mid, c.IsUpdate) ∧
      calls (d.perform as).2 <+: .headers hs :: mid ++ [.flush]) ∧
    ∀ a, ((d.perform as).1.act a).2.2 = .ok .done →
      .flush ∈ calls (d.perform (as ++ [a])).2 ∧
      ∀ bs, (∀ t ∈ (d.perform (as ++ a :: bs)).1.tracks, t.disabled = false → t.Settled) ∧
        ∀ b, let next := (d.perform (as ++ a :: bs)).1.act b
          calls next.2.1 = [] ∧ next.2.2 = .ok .done := by
  have htold : ∀ as, Told (d.perform as).1 (calls (d.perform as).2) :=
    told_perform (told_ofBytes ho)
  refine ⟨(htold as).follows, ?_⟩
  intro a ha
  have hstep : (d.perform (as ++ [a])).1 = ((d.perform as).1.act a).1 := by
    rw [perform_append]
    rfl
  have hdone : (d.perform (as ++ [a])).1.done = true := by
    rw [hstep]
    exact (keeps_act (htold as) a).done ha
  have hlater : ∀ bs, (d.perform (as ++ a :: bs)).1 = (d.perform (as ++ [a])).1 := by
    intro bs
    rw [List.append_cons as a bs, perform_append, perform_of_done hdone]
  refine ⟨((htold _).of_done hdone).1, ?_⟩
  intro bs
  rw [hlater bs]
  refine ⟨((htold _).of_done hdone).2, ?_⟩
  intro b
  rw [act_of_done hdone]
  exact ⟨rfl, rfl⟩

/-- A stream of one packet. -/
def jingle : List Draft.Step := [.audio4 2 (ascii "cook") 8000 1 [], .packet 2 0 true [5]]

theorem sound_jingle : Draft.Sound jingle := by
  refine ⟨?_, by decide⟩
  intro s hs
  simp only [jingle, List.mem_cons, List.not_mem_nil, or_false] at hs
  rcases hs with rfl | rfl
  · rintro m ⟨⟩
    exact Draft.fits_description (by decide) (by decide)
  · rintro m ⟨⟩

/-- The input may be ended while the packet is held. -/
theorem sink_protocol_jingle : ∃ d, (ofBytes {} (Draft.file jingle)).1 = .ok d ∧
    ((d.perform [.read]).1.act .finish).2.2 = .ok .done ∧
    (∃ hs mid, (∀ c ∈ mid, c.IsUpdate) ∧
      calls (d.perform [.read]).2 <+: .headers hs :: mid ++ [.flush]) ∧
    .flush ∈ calls (d.perform [.read, .finish]).2 ∧
      ∀ bs, (∀ t ∈ (d.perform (.read :: .finish :: bs)).1.tracks, t.disabled = false → t.Settled) ∧
        ∀ b, let next := (d.perform (.read :: .finish :: bs)).1.act b
          calls next.2.1 = [] ∧ next.2.2 = .ok .done := by
  obtain ⟨d, hd, -⟩ := opens_file sound_jingle {}
  obtain ⟨hfollows, hdone⟩ := sink_protocol hd [.read]
  exact ⟨d, hd, rfl, hfollows, hdone .finish rfl⟩

end Demultiplexer

end RealMedia
