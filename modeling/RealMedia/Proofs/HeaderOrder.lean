import RealMedia.Proofs.HeaderView
import RealMedia.Proofs.ReadProgress

/-!
The order in which the headers are handed over. It is the one asked for, and nothing else that is
read from a file depends on it.
-/

namespace RealMedia

open Container

variable {o : Options} {file : Bytes} {order : List Nat} {hs ks : List StreamHeader}
  {a b : Nat} {l : List Nat} {p : Nat → Bool}

/-! ## What is asked for -/

/-- Headers in an order asked for. All are there, each once: those that are named, by their first
mention, and then the others as they stood. -/
structure Ordered (order : List Nat) (ks hs : List StreamHeader) : Prop where
  perm : hs.Perm ks
  once : (hs.map (·.id)).Nodup
  named : ∃ first, hs = first ++ ks.filter (fun h => h.id ∉ order) ∧
    (∀ h ∈ first, h.id ∈ order) ∧
    first.Pairwise fun h k => order.idxOf h.id < order.idxOf k.id

theorem idxOf_lt_of_filter (hb : p b = true)
    (hlt : (l.filter p).idxOf a < (l.filter p).idxOf b) : l.idxOf a < l.idxOf b := by
  induction l with
  | nil => exact hlt
  | cons c l ih =>
    by_cases hc : p c = true
    · grind
    · grind

/-- Without its repetitions a list is in the order of first mentions. -/
theorem pairwise_eraseDups (l : List Nat) :
    l.eraseDups.Pairwise fun a b => l.idxOf a < l.idxOf b := by
  induction hlen : l.length using Nat.strongRecOn generalizing l with
  | _ n ih =>
    subst hlen
    cases l with
    | nil => exact .nil
    | cons a l =>
      rw [List.eraseDups_cons, List.pairwise_cons]
      have hshort : (l.filter fun b => !b == a).length < (a :: l).length :=
        Nat.lt_succ_of_le (List.length_filter_le _ _)
      have hne : ∀ b ∈ (l.filter fun b => !b == a).eraseDups, a ≠ b := by
        intro b hb
        rw [List.mem_eraseDups, List.mem_filter] at hb
        grind
      refine ⟨?_, (ih _ hshort _ rfl).imp_of_mem ?_⟩
      · intro b hb
        rw [List.idxOf_cons_self, List.idxOf_cons_ne _ (hne b hb)]
        omega
      · intro b c hb hc hlt
        rw [List.idxOf_cons_ne _ (hne b hb), List.idxOf_cons_ne _ (hne c hc)]
        have := idxOf_lt_of_filter (by grind) hlt
        omega

theorem ordered_inOrder (order : List Nat) (hn : (ks.map (·.id)).Nodup) :
    Ordered order ks (inOrder order ks) := by
  have hp := perm_inOrder order hn
  have hid : ∀ {i h}, ks.find? (·.id = i) = some h → h.id = i := by
    intro i h hf
    simpa using List.find?_some hf
  refine ⟨hp, (hp.map (·.id)).nodup_iff.2 hn,
    order.eraseDups.filterMap fun id => ks.find? (·.id = id), ?_, ?_, ?_⟩
  · rw [inOrder_eq order hn]
  · intro h hh
    obtain ⟨i, hi, hf⟩ := List.mem_filterMap.1 hh
    exact hid hf ▸ List.mem_eraseDups.1 hi
  · refine List.Pairwise.filterMap _ ?_ (pairwise_eraseDups order)
    intro i j hlt h hh k hk
    rwa [hid hh, hid hk]

/-- There is one order that is asked for. -/
theorem Ordered.unique {hs' : List StreamHeader} (hh : Ordered order ks hs)
    (hh' : Ordered order ks hs') : hs = hs' := by
  obtain ⟨first, rfl, -, hlt⟩ := hh.named
  obtain ⟨first', rfl, -, hlt'⟩ := hh'.named
  have hperm : first.Perm first' :=
    (List.perm_append_right_iff _).1 (hh.perm.trans hh'.perm.symm)
  rw [hperm.eq_of_pairwise ?_ hlt hlt']
  intro a b _ _ hab hba
  omega

/-- The streams that are named and there, and then those that are not named. -/
theorem Ordered.ids (hh : Ordered order ks hs) : hs.map (·.id) =
    order.eraseDups.filter (· ∈ ks.map (·.id)) ++ (ks.map (·.id)).filter (· ∉ order) := by
  have hn : (ks.map (·.id)).Nodup := (hh.perm.map _).nodup_iff.1 hh.once
  rw [hh.unique (ordered_inOrder order hn), inOrder_eq order hn, List.map_append]
  congr 1
  · induction order.eraseDups with
    | nil => rfl
    | cons i l ih =>
      rw [List.filterMap_cons]
      cases hf : ks.find? (·.id = i) with
      | none =>
        have hi : i ∉ ks.map (·.id) := by simpa using hf
        rw [List.filter_cons_of_neg (by simpa using hi), ← ih]
      | some h =>
        have hid : h.id = i := by simpa using List.find?_some hf
        have hi : i ∈ ks.map (·.id) := hid ▸ List.mem_map_of_mem (List.mem_of_find?_eq_some hf)
        rw [List.filter_cons_of_pos (by simpa using hi), ← ih, ← hid]
        rfl
  · simp [List.filter_map, Function.comp_def]

/-! ## What does not depend on it -/

theorem deliverFrames_order (watched : Bool) (f : VideoFramer) (last : Option (Nat × Nat))
    (frames : List RealVideo.Frame) :
    deliverFrames { o with order } watched f last frames =
      deliverFrames o watched f last frames := by
  induction frames generalizing f last with
  | nil => rfl
  | cons frame frames ih =>
    have hone : deliverFrame { o with order } watched f last frame =
        deliverFrame o watched f last frame := rfl
    simp only [deliverFrames, hone, ih]

theorem push_order (t : Track) (b : Bytes) (time : Int) (key : Bool) :
    t.push { o with order } b time key = t.push o b time key := by
  simp only [Track.push, deliverFrames_order]

theorem drainAll_order (ts : List Track) : drainAll { o with order } ts = drainAll o ts := by
  induction ts with
  | nil => rfl
  | cons t ts ih => simp only [drainAll, Track.drain, deliverFrames_order, ih]

theorem addAll_order (hs : Headers) (xs : List Object) :
    hs.addAll { o with order } xs = hs.addAll o xs := by
  induction xs generalizing hs with
  | nil => rfl
  | cons x xs ih =>
    have hone : hs.add { o with order } x = hs.add o x := rfl
    simp only [Headers.addAll, hone, ih]

namespace Demultiplexer

variable {d : Demultiplexer} {out : Outputs}

/-- The same file, opened with another order asked for. -/
def withOrder (d : Demultiplexer) (order : List Nat) : Demultiplexer :=
  { d with options := { d.options with order } }

theorem source_withOrder : (d.withOrder order).source = d.source := rfl

theorem tracks_withOrder : (d.withOrder order).tracks = d.tracks := rfl

/-- Files are opened alike. -/
theorem ofBytes_order (o : Options) (order : List Nat) (file : Bytes) :
    ofBytes { o with order } file =
      ((ofBytes o file).1.map (·.withOrder order), (ofBytes o file).2) := by
  unfold ofBytes
  split
  · rfl
  · split
    · rfl
    · simp only [addAll_order]
      split <;> rfl

/-- What the outcome is of a step with another order asked for. -/
def reordered (order : List Nat) (r : Outcome) : Outcome := (r.1.withOrder order, r.2)

section

variable (ha : d.announced = true)

include ha

theorem ensureAnnounced_of : d.ensureAnnounced = (d, []) := by
  rw [ensureAnnounced, if_pos ha]

theorem finish_order : (d.withOrder order).finish = (d.finish.1.withOrder order, d.finish.2) := by
  unfold finish
  rw [ensureAnnounced_of ha, ensureAnnounced_of (d := d.withOrder order) ha]
  by_cases hd : d.done = true
  · rw [if_pos hd, if_pos (show (d.withOrder order).done = true from hd)]
  · rw [if_neg hd, if_neg (show ¬(d.withOrder order).done = true from hd)]
    simp only [withOrder, drainAll_order]

theorem finishAfter_order :
    (d.withOrder order).finishAfter out = reordered order (d.finishAfter out) := by
  simp only [finishAfter, finish_order ha, reordered]

omit ha in
theorem route_order (t : Track) (h : PacketHeader) (b : Bytes) :
    (d.withOrder order).route t h b = reordered order (d.route t h b) := by
  unfold route
  simp only [withOrder, push_order]
  split <;> rfl

theorem readSection_order :
    (d.withOrder order).readSection = reordered order d.readSection := by
  unfold readSection
  rw [source_withOrder]
  cases d.source.read ObjectHeader.decoder with
  | mk found s =>
    cases found with
    | none => rfl
    | some h =>
      dsimp only
      split
      · cases s.read DataHeader.decoder with
        | mk found u => cases found <;> rfl
      · exact finishAfter_order (d := { d with source := s }) ha

theorem readPacket_order :
    (d.withOrder order).readPacket = reordered order d.readPacket := by
  unfold readPacket
  rw [source_withOrder]
  cases d.source.read PacketHeader.decoder with
  | mk found s =>
    cases found with
    | none => rfl
    | some h =>
      dsimp only
      split
      · exact finishAfter_order (d := { d with source := s }) ha
      · rename_i n hn
        rw [tracks_withOrder]
        cases d.tracks.find? fun t => t.id = h.stream.toNat && !t.disabled with
        | none => rfl
        | some t =>
          dsimp only
          cases s.read (Decoder.take n) with
          | mk found u =>
            cases found with
            | none => exact finishAfter_order (d := d.behindHeader u) ha
            | some b => exact route_order (d := d.behindHeader u) t h b

theorem readNext_order :
    (d.withOrder order).readNext = reordered order d.readNext := by
  unfold readNext
  rw [source_withOrder]
  split
  · exact finishAfter_order ha
  · by_cases hd : d.declared ≤ d.taken
    · have hend : (d.withOrder order).declared ≤ (d.withOrder order).taken := hd
      rw [if_pos hd, if_pos hend]
      exact readSection_order ha
    · have hmore : ¬(d.withOrder order).declared ≤ (d.withOrder order).taken := hd
      rw [if_neg hd, if_neg hmore]
      exact readPacket_order ha

theorem announced_finish : d.finish.1.announced = true := by
  rw [finish, ensureAnnounced_of ha]
  split <;> exact ha

/-- No step takes back that the headers have been handed over. -/
theorem Reads.announced {r : Outcome} (hr : Reads d r) : r.1.announced = true := by
  cases hr with
  | short => exact announced_finish ha
  | step _ _ hr =>
    cases hr with
    | noObject | noHeader | next => exact ha
    | @other h s => exact announced_finish (d := { d with source := s }) ha
  | packet _ _ hr =>
    cases hr with
    | noHeader | skipped => exact ha
    | @undersized h s => exact announced_finish (d := { d with source := s }) ha
    | @truncated h s u => exact announced_finish (d := d.behindHeader u) ha
    | routed =>
      rw [route]
      split <;> exact ha

theorem read_order : (d.withOrder order).read = reordered order d.read := by
  have hlater := (reads_readNext d).announced ha
  unfold read
  rw [ensureAnnounced_of ha, ensureAnnounced_of (d := d.withOrder order) ha]
  by_cases hd : d.done = true
  · rw [if_pos hd, if_pos (show (d.withOrder order).done = true from hd)]
    rfl
  · rw [if_neg hd, if_neg (show ¬(d.withOrder order).done = true from hd)]
    dsimp only
    rw [readNext_order ha]
    rcases hr : d.readNext with ⟨e, out, result⟩
    rw [hr] at hlater
    cases result with
    | ok status => rfl
    | error fault =>
      cases fault with
      | io cause => exact finishAfter_order hlater
      | header | sync | outOfData => rfl

theorem announced_read : d.read.1.announced = true := by
  have hlater := (reads_readNext d).announced ha
  rw [read, ensureAnnounced_of ha]
  split
  · exact ha
  · dsimp only
    split
    · rename_i e out fault hr
      rw [hr] at hlater
      exact announced_finish hlater
    · rename_i e out result _ hr
      rw [hr] at hlater
      exact hlater

theorem act_order (a : Action) : (d.withOrder order).act a = reordered order (d.act a) := by
  cases a with
  | read => exact read_order ha
  | finish => exact finishAfter_order ha

theorem later_act (a : Action) (hs : List StreamHeader) :
    .headers hs ∉ calls (d.act a).2.1 := by
  by_cases hd : d.done = true
  · rw [act_of_done hd]
    simp
  · -- To a sink that has been handed headers no other ones are handed.
    have htold : Told d [.headers []] := .headers ha (by simpa using hd) (by simp)
    have hkeeps := (keeps_act htold a).told
    intro hmem
    generalize calls (d.act a).2.1 = cs at hkeeps hmem
    generalize hall : [.headers []] ++ cs = all at hkeeps
    cases hkeeps with
    | nothing => cases hall
    | headers _ _ hm =>
      cases hall
      exact hm _ hmem
    | @all _ mid _ hm =>
      obtain ⟨-, rfl⟩ := List.cons.inj hall
      rcases List.mem_append.1 hmem with hmem | hmem
      · exact hm _ hmem
      · simp at hmem

end

/-- The headers are handed over before anything is done. -/
theorem act_announce (ha : d.announced = false) (hd : d.done = false) (a : Action) :
    d.act a = ((d.announce.1.act a).1, d.announce.2 ++ (d.announce.1.act a).2.1,
      (d.announce.1.act a).2.2) := by
  cases a with
  | read => exact read_announce ha hd
  | finish =>
    have hnow : d.announce.1.announced = true := rfl
    simp only [act, finishAfter, List.nil_append]
    rw [finish, if_neg (by simp [hd]), ensureAnnounced, if_neg (by simp [ha]), finish,
      if_neg (by simp [announce, hd]), ensureAnnounced_of hnow]
    simp

/-- Calls that are the same but for the order of the headers, which come first if they are handed
over at all. -/
inductive Reordered (l m : List Nat) (ks : List StreamHeader) :
    List SinkCall → List SinkCall → Prop
  | same {cs : List SinkCall} (hc : ∀ hs, .headers hs ∉ cs) : Reordered l m ks cs cs
  | headers {hs hs' : List StreamHeader} {cs : List SinkCall} (hl : Ordered l ks hs)
    (hm : Ordered m ks hs') (hc : ∀ hs, .headers hs ∉ cs) :
    Reordered l m ks (.headers hs :: cs) (.headers hs' :: cs)

theorem nodup_announce (hd : Distinct d.tracks) : (d.announce.1.streams.map (·.id)).Nodup := by
  have hn := (distinct_map id_finalize).2 hd
  rw [streams, List.map_map]
  exact hn

/-- A request is answered alike, whatever order is asked for. -/
theorem answer_order (d : Demultiplexer) (order : List Nat) (r : Request) :
    ((d.withOrder order).answer r).1 = (d.answer r).1.withOrder order ∧
      (Distinct d.tracks → Reordered d.options.order order d.announce.1.streams
        (calls (d.answer r).2) (calls ((d.withOrder order).answer r).2)) := by
  have hfirst : (d.withOrder order).announce = (d.announce.1.withOrder order,
      [.call (.headers (inOrder order d.announce.1.streams))]) := rfl
  cases r with
  | announce =>
    refine ⟨rfl, ?_⟩
    intro hd
    have hn := nodup_announce hd
    exact .headers (ordered_inOrder _ hn) (ordered_inOrder _ hn) (by simp)
  | act a =>
    by_cases ha : d.announced = true
    · rw [answer, answer, act_order ha]
      exact ⟨rfl, fun _ => .same (later_act ha a)⟩
    · by_cases hdone : d.done = true
      · rw [answer, answer, act_of_done hdone, act_of_done (d := d.withOrder order) hdone]
        exact ⟨rfl, fun _ => .same (by simp)⟩
      · have ha' : d.announced = false := by simpa using ha
        have hd' : d.done = false := by simpa using hdone
        have hnow : d.announce.1.announced = true := rfl
        rw [answer, answer, act_announce ha' hd', act_announce (d := d.withOrder order) ha' hd',
          hfirst, act_order hnow]
        refine ⟨rfl, ?_⟩
        intro hd
        have hn := nodup_announce hd
        rw [calls_append, calls_append]
        exact .headers (ordered_inOrder _ hn) (ordered_inOrder _ hn) (later_act hnow a)

theorem serve_order (d : Demultiplexer) (order : List Nat) (rs : List Request) :
    ((d.withOrder order).serve rs).1 = (d.serve rs).1.withOrder order := by
  induction rs generalizing d with
  | nil => rfl
  | cons r rs ih =>
    simp only [serve, (d.answer_order order r).1, ih]

/-- No request changes the order asked for. -/
theorem order_serve (d : Demultiplexer) (rs : List Request) :
    (d.serve rs).1.options.order = d.options.order := by
  have hsame : (d.serve rs).1 = (d.serve rs).1.withOrder d.options.order :=
    d.serve_order d.options.order rs
  rw [hsame]
  rfl

/-- Files whose headers have been handed over are read to the end with the same outputs. -/
theorem runFrom_order (ha : d.announced = true) (order : List Nat) (n : Nat)
    (before before' : Outputs) : ∃ last more reads,
    d.runFrom n before = ⟨last, before.reverse ++ more, reads⟩ ∧
      (d.withOrder order).runFrom n before' =
        ⟨last.withOrder order, before'.reverse ++ more, reads⟩ ∧
      ∀ hs, .headers hs ∉ calls more := by
  induction hlen : d.source.rest.length using Nat.strongRecOn generalizing d n before before' with
  | _ len ih =>
    subst hlen
    have hlater := announced_read ha
    have hquiet := later_act ha .read
    rw [runFrom_eq, runFrom_eq, read_order ha]
    rw [act] at hquiet
    rcases hr : d.read with ⟨e, out, result⟩
    rw [hr] at hlater hquiet
    cases result with
    | error fault => exact ⟨e, out, .error fault, by simp, by simp [reordered], hquiet⟩
    | ok status =>
      cases status with
      | done => exact ⟨e, out, .ok n, by simp, by simp [reordered], hquiet⟩
      | moreData =>
        have hshort := length_read hr
        simp only [PacketHeader.size] at hshort
        obtain ⟨last, more, reads, hd, he, hmore⟩ := ih e.source.rest.length (by omega) hlater
          (n + 1) (out.reverse ++ before) (out.reverse ++ before') rfl
        refine ⟨last, out ++ more, reads, ?_, ?_, ?_⟩
        · simpa using hd
        · simpa [reordered] using he
        · intro hs hmem
          rw [calls_append, List.mem_append] at hmem
          exact hmem.elim (hquiet hs) (hmore hs)

theorem distinct_serve (ho : (ofBytes o file).1 = .ok d) (rs : List Request) :
    Distinct (d.serve rs).1.tracks := by
  have hlast := agrees_serve ho rs
  generalize calls (d.serve rs).2 = cs at hlast
  cases hlast with
  | before _ ht => exact ht ▸ (tracks_opened ho).1
  | after hs => exact hs.view.distinct

/-- The headers are handed over in the order asked for, none is left out and none is there twice.
Files that are opened with options that differ in nothing but the order are read to the end with the
same calls behind the headers, and in all their states requests are answered with the same calls but
for the order of the headers. -/
theorem headers_ordered (ho : (ofBytes o file).1 = .ok d) (order : List Nat) :
    ∃ e, (ofBytes { o with order } file).1 = .ok e ∧
      (∃ hs ks cs, calls d.run.out = .headers hs :: cs ∧ calls e.run.out = .headers ks :: cs ∧
        Ordered o.order d.announce.1.streams hs ∧ Ordered order d.announce.1.streams ks ∧
        (∀ hs, .headers hs ∉ cs) ∧ d.run.reads = e.run.reads) ∧
      ∀ rs r, Reordered o.order order (d.serve rs).1.announce.1.streams
        (calls ((d.serve rs).1.answer r).2) (calls ((e.serve rs).1.answer r).2) := by
  have hopens : (ofBytes { o with order } file).1 = .ok (d.withOrder order) := by
    rw [ofBytes_order, ho]
    rfl
  have hoptions : d.options = o ∧ d.announced = false ∧ d.done = false := by
    obtain ⟨-, f, t, xs, h, s, hs, -, -, -, rfl⟩ := ofBytes_eq_ok.1 ho
    exact ⟨rfl, rfl, rfl⟩
  obtain ⟨ho', ha, hdone⟩ := hoptions
  refine ⟨_, hopens, ?_, ?_⟩
  · have hn := nodup_announce (tracks_opened ho).1
    have hnow : d.announce.1.announced = true := rfl
    obtain ⟨last, more, reads, hd, he, hquiet⟩ :=
      runFrom_order hnow order 0 d.announce.2.reverse (d.withOrder order).announce.2.reverse
    have hfirst : (d.withOrder order).announce.1 = d.announce.1.withOrder order := rfl
    rw [run, runFrom_announce ha hdone, List.append_nil, hd, run,
      runFrom_announce (d := d.withOrder order) ha hdone, List.append_nil, hfirst, he]
    refine ⟨_, _, calls more, ?_, ?_, ordered_inOrder _ hn, ordered_inOrder _ hn, hquiet, rfl⟩
    · rw [List.reverse_reverse, calls_append, ← ho']
      rfl
    · rw [List.reverse_reverse, calls_append]
      rfl
  · intro rs r
    have horder : (d.serve rs).1.options.order = o.order := by rw [order_serve, ho']
    rw [serve_order, ← horder]
    exact ((d.serve rs).1.answer_order order r).2 (distinct_serve ho rs)

/-- Three streams of audio, of which the second has a packet. -/
def trio : List Draft.Step :=
  [.audio4 0 (ascii "cook") 8000 1 [], .audio4 1 (ascii "cook") 8000 1 [],
    .audio4 2 (ascii "cook") 8000 1 [], .packet 1 0 true [5]]

theorem sound_trio : Draft.Sound trio := by
  refine ⟨?_, by decide⟩
  intro s hs
  simp only [trio, List.mem_cons, List.not_mem_nil, or_false] at hs
  rcases hs with rfl | rfl | rfl | rfl
  all_goals rintro m ⟨⟩
  all_goals exact Draft.fits_description (by decide) (by decide)

/-- Stream 9 is not there, and stream 2 is named twice. -/
theorem headers_ordered_trio : ∃ d e,
    (ofBytes { order := [2, 9, 2, 0] } (Draft.file trio)).1 = .ok d ∧
      (ofBytes {} (Draft.file trio)).1 = .ok e ∧
      (∃ hs ks cs, calls d.run.out = .headers hs :: cs ∧ calls e.run.out = .headers ks :: cs ∧
        hs.map (·.id) = [2, 0, 1] ∧ ks.map (·.id) = [0, 1, 2] ∧
        (∀ hs, .headers hs ∉ cs) ∧ d.run.reads = e.run.reads) ∧
      ∀ rs r, Reordered [2, 9, 2, 0] [] (d.serve rs).1.announce.1.streams
        (calls ((d.serve rs).1.answer r).2) (calls ((e.serve rs).1.answer r).2) := by
  obtain ⟨d, hd, -⟩ := opens_file sound_trio { order := [2, 9, 2, 0] }
  obtain ⟨e, he, ⟨hs, ks, cs, hdc, hec, hhs, hks, hlater⟩, hserve⟩ := headers_ordered hd []
  have hids : (ofBytes { order := [2, 9, 2, 0] } (Draft.file trio)).1.toOption.map
      (·.announce.1.streams.map (·.id)) = some [0, 1, 2] := by decide +kernel
  rw [hd] at hids
  have hall : d.announce.1.streams.map (·.id) = [0, 1, 2] := Option.some.inj hids
  refine ⟨d, e, hd, he, ⟨hs, ks, cs, hdc, hec, ?_, ?_, hlater⟩, hserve⟩
  · rw [hhs.ids, hall]
    decide
  · rw [hks.ids, hall]
    decide

end Demultiplexer

end RealMedia
