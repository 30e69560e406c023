import RealMedia.Proofs.FrameTimes
import RealMedia.Proofs.PacketsRead

/-!
What packets refer back to: nothing, where they can be decoded alone, and else the packet before them
in their stream.
-/

namespace RealMedia

open Container RealVideo

/-- A piece of a stream, which may be decodable alone. -/
structure Sample where
  data : Bytes
  time : Int
  key : Bool

variable {o : Options} {file : Bytes} {t : Track} {ws : List Written} {previous : Option Int}
  {s : Sample} {ss : List Sample} {p : Packet} {ps qs : List Packet} {d : Demultiplexer}

/-- A packet hands a sample on that comes behind one of another time. -/
structure Sample.Gives (s : Sample) (previous : Option Int) (p : Packet) : Prop where
  data : p.data = s.data
  time : p.time = s.time
  backward : p.backward = if s.key then noTime else previous.getD noTime
  forward : p.forward = noTime

/-- Packets hand on the first of some samples. -/
inductive Linked : Option Int → List Sample → List Packet → Prop
  | stop (previous : Option Int) (ss : List Sample) : Linked previous ss []
  | next {previous : Option Int} {s : Sample} {ss : List Sample} {p : Packet} {ps : List Packet}
    (hp : s.Gives previous p) (hl : Linked (some s.time) ss ps) : Linked previous (s :: ss) (p :: ps)

theorem Linked.shorten (hl : Linked previous ss ps) (hq : qs <+: ps) : Linked previous ss qs := by
  induction hl generalizing qs with
  | stop =>
    rw [List.prefix_nil.1 hq]
    exact .stop _ _
  | next hp _ ih =>
    cases qs with
    | nil => exact .stop _ _
    | cons q qs =>
      obtain ⟨rfl, hrest⟩ := List.cons_prefix_cons.1 hq
      exact .next hp (ih hrest)

theorem Linked.carried (hl : Linked previous ss ps) :
    ps.map (fun p => (p.data, p.time)) <+: ss.map fun s => (s.data, s.time) := by
  induction hl with
  | stop => exact List.nil_prefix
  | next hp _ ih =>
    rw [List.map_cons, List.map_cons, hp.data, hp.time]
    exact List.cons_prefix_cons.2 ⟨rfl, ih⟩

theorem Linked.forward (hl : Linked previous ss ps) : ∀ p ∈ ps, p.forward = noTime := by
  induction hl with
  | stop => simp
  | next hp _ ih => exact List.forall_mem_cons.2 ⟨hp.forward, ih⟩

theorem Linked.isChain (hl : Linked previous ss ps) :
    ps.IsChain fun p q => q.backward = noTime ∨ q.backward = p.time := by
  induction hl with
  | stop => exact .nil
  | @next previous s ss p ps hp hl ih =>
    cases hl with
    | stop => exact .singleton _
    | next hq hl =>
      refine .cons_cons ?_ ih
      rw [hq.backward, hp.time]
      split
      · exact .inl rfl
      · exact .inr rfl

/-- Only a key sample and one that comes behind none are without reference. -/
theorem Linked.marks (hl : Linked previous ss ps) (hp : previous ≠ some noTime)
    (hs : ∀ s ∈ ss, s.time ≠ noTime) {i : Nat} (hi : ps[i]? = some p) (hj : ss[i]? = some s) :
    p.backward = noTime ↔ s.key = true ∨ i = 0 ∧ previous = none := by
  induction hl generalizing i with
  | stop => cases hi
  | @next previous s₀ ss p₀ ps hgives hl ih =>
    cases i with
    | zero =>
      cases hi
      cases hj
      rw [hgives.backward]
      cases s.key <;> cases previous with
      | none => simp
      | some time => simp_all
    | succ i =>
      have hfirst : some s₀.time ≠ some noTime := by
        simpa using hs s₀ (by simp)
      have hrest := ih hfirst (fun s h => hs s (by simp [h])) hi hj
      simpa using hrest

/-! ## Plain audio -/

def Container.Written.sample (w : Written) : Sample := ⟨w.payload, w.time, w.key⟩

theorem gives_plainPacket (id : Nat) (pre : List Written) (v : Written) (ws : List Written) :
    v.sample.Gives (pre.getLast?.map (·.time)) (plainPacket id (pre ++ v :: ws) pre.length v) := by
  refine ⟨rfl, rfl, ?_, rfl⟩
  rcases List.eq_nil_or_concat pre with rfl | ⟨us, u, rfl⟩ <;> cases hk : v.key <;>
    simp [plainPacket, Written.sample, hk]

namespace Track

/-- A packet that is held refers back to the one before it. -/
theorem linked_holding {id : Nat} {pre : List Written} {v : Written} (ht : t.Holding id pre v)
    (o : Options) (ws : List Written) :
    Linked (pre.getLast?.map (·.time)) ((v :: ws).map (·.sample)) (packets (t.play o ws).2) := by
  induction ws generalizing t pre v with
  | nil =>
    rw [packets_play_nil, close_holding ht o]
    exact .next (gives_plainPacket id pre v []) (.stop _ _)
  | cons w ws ih =>
    obtain ⟨hnext, hout⟩ := take_holding ht o w ws
    have hrest := ih hnext
    rw [List.getLast?_concat, Option.map_some] at hrest
    rw [packets_play_cons, hout]
    exact .next (gives_plainPacket id pre v (w :: ws)) hrest

theorem linked_fresh (ht : t.Fresh) (o : Options) (ws : List Written) :
    Linked none (ws.map (·.sample)) (packets (t.play o ws).2) := by
  cases ws with
  | nil =>
    obtain ⟨f, rfl⟩ := ht
    exact .stop _ _
  | cons w ws =>
    obtain ⟨hfirst, hout⟩ := take_fresh ht o w
    rw [packets_play_cons, hout, List.nil_append]
    exact linked_holding hfirst o ws

end Track

/-! ## Video -/

def RealVideo.Frame.sample (x : Frame) : Sample := ⟨x.payload, x.time, x.key⟩

theorem packets_deliverFrame (o : Options) (watched : Bool) (f : VideoFramer)
    (last : Option (Nat × Nat)) (x : Frame) :
    ∃ p, packets (deliverFrame o watched f last x).2.2 = [p] ∧ x.sample.Gives f.previous p ∧
      (deliverFrame o watched f last x).1.previous = some x.time := by
  have hbackward : (if x.key then Dependency.key else .predicted).reference f.previous =
      if x.key then noTime else f.previous.getD noTime := by
    split <;> rfl
  rw [deliverFrame]
  generalize (if watched then newSize? last x else none) = size
  cases size.bind (resize? o f.header) with
  | none => exact ⟨_, rfl, ⟨rfl, rfl, hbackward, rfl⟩, rfl⟩
  | some r => exact ⟨_, rfl, ⟨rfl, rfl, hbackward, rfl⟩, rfl⟩

theorem linked_deliverFrames (o : Options) (watched : Bool) (f : VideoFramer)
    (last : Option (Nat × Nat)) (xs : List Frame) :
    Linked f.previous (xs.map (·.sample)) (packets (deliverFrames o watched f last xs).2.2) := by
  induction xs generalizing f last with
  | nil => exact .stop _ _
  | cons x xs ih =>
    obtain ⟨p, hout, hp, hprevious⟩ := packets_deliverFrame o watched f last x
    have hrest := ih (deliverFrame o watched f last x).1 (deliverFrame o watched f last x).2.1
    rw [hprevious] at hrest
    simp only [deliverFrames, packets_append, hout]
    exact .next hp hrest

theorem deliverFrames_append (o : Options) (watched : Bool) (f : VideoFramer)
    (last : Option (Nat × Nat)) (xs ys : List Frame) :
    deliverFrames o watched f last (xs ++ ys) =
      let r := deliverFrames o watched f last xs
      let q := deliverFrames o watched r.1 r.2.1 ys
      (q.1, q.2.1, r.2.2 ++ q.2.2) := by
  induction xs generalizing f last with
  | nil => rfl
  | cons x xs ih => simp only [List.cons_append, deliverFrames, ih, List.append_assoc]

theorem packets_notes (notes : List Note) (out : Outputs) :
    packets (notes.map .note ++ out) = packets out := by
  rw [packets_append, packets, calls_map_note]
  rfl

/-- What the packets of a stream ask of its assembly, and its end. -/
def requests (ws : List Written) : List Assembly.Request :=
  ws.map (fun w => .chunk w.payload w.time w.key) ++ [.flush]

/-- The frames of the replies. -/
def framesOf (a : Assembly) (qs : List Assembly.Request) : List Frame :=
  (a.answerAll qs).2.flatMap (·.frames)

namespace Track

/-- The packets of video are those of the frames that its assembly hands out. -/
theorem play_video (o : Options) (f : VideoFramer) (a : Assembly) (watched : Bool)
    (size : Option (Nat × Nat)) (ws : List Written) :
    packets (play o ⟨.video f a watched size, false⟩ ws).2 =
      packets (deliverFrames o watched f size (framesOf a (requests ws))).2.2 := by
  induction ws generalizing f a size with
  | nil =>
    have hlast : framesOf a (requests []) = a.flush.2.1.toList := List.append_nil _
    rw [packets_play_nil, hlast]
    exact packets_notes _ _
  | cons w ws ih =>
    have hfirst : framesOf a (requests (w :: ws)) =
        (a.pushChunk w.payload w.time w.key).2.frames ++
          framesOf (a.pushChunk w.payload w.time w.key).1 (requests ws) := rfl
    rw [hfirst, deliverFrames_append, packets_play_cons, packets_append, take, isKey_header]
    exact congrArg₂ _ (packets_notes _ _) (ih _ _ _)

end Track

theorem time_framesOf {a : Assembly} (ha : a.pending = none) :
    ∀ x ∈ framesOf a (requests ws), 0 ≤ x.time := by
  have hrequests : ∀ q ∈ requests ws, q.Timed := by
    intro q hq
    rcases List.mem_append.1 hq with hq | hq
    · obtain ⟨w, -, rfl⟩ := List.mem_map.1 hq
      exact w.time_nonneg
    · rw [List.mem_singleton.1 hq]
      trivial
  have htimed : a.Timed := by
    intro p hp
    rw [ha] at hp
    cases hp
  intro x hx
  obtain ⟨r, hr, hx⟩ := List.mem_flatMap.1 hx
  exact Assembly.timed_answerAll htimed hrequests r hr x hx

/-! ## AC3 and AAC -/

/-- The packet says nothing of other packets. -/
def Packet.Alone (p : Packet) : Prop := p.backward = noTime ∧ p.forward = noTime

def Route.Alone : Route → Prop
  | .ac3 _ | .aac _ => True
  | .video .. | .plain .. => False

theorem alone_of_finds {f : Ac3Framer} {r : Option Ac3Framer} (hf : Ac3Framer.Finds f ps r) :
    ∀ p ∈ ps, p.Alone := by
  induction hf with
  | lost => simp
  | wait => simp
  | frame _ _ _ ih => exact List.forall_mem_cons.2 ⟨⟨rfl, rfl⟩, ih⟩

theorem alone_deliverAac (f : AacFramer) (time : Int) (frames : List Bytes) :
    ∀ p ∈ packets (deliverAac f time frames).2, p.Alone := by
  induction frames generalizing f time with
  | nil => simp [deliverAac, packets]
  | cons data frames ih =>
    have hrest := ih (f.process { data, time }).1 noTime
    simp only [deliverAac, packets_append]
    exact List.forall_mem_cons.2 ⟨⟨rfl, rfl⟩, hrest⟩

namespace Track

theorem alone_push (ht : t.route.Alone) (o : Options) (data : Bytes) (time : Int) (key : Bool) :
    (t.push o data time key).1.route.Alone ∧
      ∀ p ∈ packets (t.push o data time key).2.1, p.Alone := by
  rcases t with ⟨route, lost⟩
  cases route with
  | ac3 f =>
    obtain ⟨ps, hps, hfinds⟩ := f.process_finds { data, time }
    refine ⟨trivial, ?_⟩
    simp only [push, packets_of_calls hps]
    exact alone_of_finds hfinds
  | aac f =>
    simp only [push]
    cases Aac.frames data with
    | error e => exact ⟨trivial, by simp [packets]⟩
    | ok frames => exact ⟨trivial, alone_deliverAac f time frames⟩
  | video | plain => exact ht.elim

theorem alone_take (ht : t.route.Alone) (o : Options) (h : PacketHeader) (b : Bytes) :
    (t.take o h b).1.route.Alone ∧ ∀ p ∈ packets (t.take o h b).2, p.Alone := by
  have hpush := alone_push ht o b h.time h.isKey
  rw [take]
  split
  · exact ⟨ht, by simp [packets]⟩
  · split <;> rename_i hr <;> rw [hr] at hpush <;> exact hpush

theorem alone_close (ht : t.route.Alone) (o : Options) : packets (t.close o).2 = [] := by
  rcases t with ⟨route, lost⟩
  rw [close]
  split
  · rfl
  cases route with
  | ac3 f =>
    simp only [drain]
    rw [packets, f.calls_flush]
    rfl
  | aac f => rfl
  | video | plain => exact ht.elim

theorem alone_play (ht : t.route.Alone) (o : Options) (ws : List Written) :
    ∀ p ∈ packets (t.play o ws).2, p.Alone := by
  induction ws generalizing t with
  | nil =>
    rw [packets_play_nil, alone_close ht o]
    simp
  | cons w ws ih =>
    obtain ⟨hnext, hout⟩ := alone_take ht o w.header w.payload
    rw [packets_play_cons]
    intro p hp
    rcases List.mem_append.1 hp with hp | hp
    · exact hout p hp
    · exact ih hnext p hp

end Track

/-! ## All streams -/

/-- A track as it is set up: nothing is lost, and nothing has been taken. -/
structure Track.New (t : Track) : Prop where
  enabled : t.disabled = false
  plain : ∀ f, t.framer = .plain f → t.Fresh
  video : ∀ f a watched size, t.route = .video f a watched size →
    f.previous = none ∧ a.pending = none

theorem new_trackOf {m : MediaHeader} (ht : (trackOf o m).1 = some t) : t.New := by
  have hplain : ∀ f, t.framer = .plain f → t.Fresh := fun f hf => fresh_trackOf ht hf
  cases setUp_trackOf ht with
  | video v =>
    refine ⟨rfl, hplain, ?_⟩
    rintro f a watched size ⟨⟩
    exact ⟨rfl, rfl⟩
  | ac3 | aac | plain => exact ⟨rfl, hplain, by rintro _ _ _ _ ⟨⟩⟩

theorem new_ofBytes (ho : (Demultiplexer.ofBytes o file).1 = .ok d) : ∀ t ∈ d.tracks, t.New := by
  refine forall_tracks_ofBytes (fun m t ht => new_trackOf ht) ?_ ho
  rintro f g lost ⟨henabled, -, -⟩
  exact ⟨henabled, by rintro _ ⟨⟩, by rintro _ _ _ _ ⟨⟩⟩

/-- Packets carry samples in order, and just those of key samples and the first one are without
backward reference. -/
structure Marked (ss : List Sample) (ps : List Packet) : Prop where
  carried : ps.map (fun p => (p.data, p.time)) <+: ss.map fun s => (s.data, s.time)
  marks : ∀ i p s, ps[i]? = some p → ss[i]? = some s →
    (p.backward = noTime ↔ s.key = true ∨ i = 0)

/-- Packets refer back to the one before them in their stream, and to nothing else. -/
structure ReferBack (ps : List Packet) : Prop where
  forward : ∀ p ∈ ps, p.forward = noTime
  first : ∀ p ∈ ps.head?, p.backward = noTime
  chain : ps.IsChain fun p q => q.backward = noTime ∨ q.backward = p.time

theorem Linked.referBack (hl : Linked none ss ps) : ReferBack ps := by
  refine ⟨hl.forward, ?_, hl.isChain⟩
  cases hl with
  | stop => simp
  | next hp _ =>
    rintro _ ⟨⟩
    rw [hp.backward]
    split <;> rfl

theorem Linked.marked (hl : Linked none ss ps) (hs : ∀ s ∈ ss, 0 ≤ s.time) : Marked ss ps := by
  refine ⟨hl.carried, ?_⟩
  intro i p s hi hj
  have htimes : ∀ s ∈ ss, s.time ≠ noTime := by
    intro s h
    have := hs s h
    simp only [noTime]
    omega
  simpa using hl.marks (by simp) htimes hi hj

theorem referBack_of_alone (hp : ∀ p ∈ ps, p.Alone) : ReferBack ps := by
  refine ⟨fun p h => (hp p h).2, fun p h => (hp p (List.mem_of_mem_head? h)).1, ?_⟩
  refine (List.pairwise_iff_forall_sublist.2 ?_).isChain
  intro p q hsub
  exact .inl (hp q (hsub.subset (by simp))).1

/-- What the packets of a stream refer to, by the family of its codec. -/
def Track.Refers (t : Track) (ws : List Written) (ps : List Packet) : Prop :=
  match t.route with
  | .video _ a _ _ => Marked ((framesOf a (requests ws)).map (·.sample)) ps
  | .plain .. => Marked (ws.map (·.sample)) ps
  | .ac3 _ | .aac _ => ∀ p ∈ ps, p.backward = noTime

theorem Track.refers_play (ht : t.New) (o : Options) (ws : List Written)
    (hp : ps <+: packets (t.finalize.play o ws).2) : ReferBack ps ∧ t.Refers ws ps := by
  have halone (hr : t.finalize.route.Alone) : ∀ p ∈ ps, p.Alone :=
    fun p h => alone_play hr o ws p (hp.subset h)
  rcases t with ⟨route, lost⟩
  cases route with
  | video f a watched size =>
    obtain ⟨hprevious, hpending⟩ := ht.video f a watched size rfl
    have henabled : lost = false := ht.enabled
    subst henabled
    have hl : Linked none ((framesOf a (requests ws)).map (·.sample)) ps := by
      refine Linked.shorten ?_ hp
      rw [← hprevious]
      exact play_video o f a watched size ws ▸ linked_deliverFrames o watched f size _
    refine ⟨hl.referBack, hl.marked ?_⟩
    intro s hs
    obtain ⟨x, hx, rfl⟩ := List.mem_map.1 hs
    exact time_framesOf hpending x hx
  | plain f held start count =>
    have hl := (linked_fresh (ht.plain f rfl) o ws).shorten hp
    refine ⟨hl.referBack, hl.marked ?_⟩
    intro s hs
    obtain ⟨w, -, rfl⟩ := List.mem_map.1 hs
    exact w.time_nonneg
  | ac3 f =>
    have hall := halone trivial
    exact ⟨referBack_of_alone hall, fun p h => (hall p h).1⟩
  | aac f =>
    have hall := halone trivial
    exact ⟨referBack_of_alone hall, fun p h => (hall p h).1⟩

namespace Demultiplexer

/-- Whatever is read of a file and wherever its input is ended, packets come on described streams
alone and refer back to the packet before them. -/
theorem references_name_previous (ho : (ofBytes o file).1 = .ok d) (as : List Action) :
    (∀ p ∈ packets (d.perform as).2, ∃ t ∈ d.tracks, t.id = p.stream) ∧
      ∀ t ∈ d.tracks, ReferBack (ofStream t.id (d.perform as).2) ∧
        t.Refers (own t.id (d.heard as)) (ofStream t.id (d.perform as).2) := by
  refine ⟨?_, ?_⟩
  · intro p hp
    have hmem : p ∈ ofStream p.stream (d.perform as).2 := List.mem_filter.2 ⟨hp, by simp⟩
    have hfound := (stream_perform ho as p.stream).subset hmem
    obtain ⟨t, ht, -⟩ := List.mem_flatMap.1 hfound
    rw [Option.mem_toList] at ht
    exact ⟨t, List.mem_of_find?_eq_some ht, by simpa using List.find?_some ht⟩
  · intro t ht
    refine Track.refers_play (new_ofBytes ho t ht) o _ ?_
    have hstream := stream_perform ho as t.id
    rw [find?_of_mem (tracks_opened ho).1 ht] at hstream
    simpa using hstream

/-- Video and audio of which only the first packets can be decoded alone, and AC3 that holds no
frame. -/
def scene : List Draft.Step :=
  [.video 1 ⟨0x52, 0x56, 0x34, 0x30⟩ 320 240 25, .audio4 2 (ascii "cook") 8000 1 [],
    .audio5 3 ⟨0x64, 0x6e, 0x65, 0x74⟩ 44100 2 [], .packet 1 40 true [0x40, 0, 1],
    .packet 2 50 true [5], .packet 3 50 true [1, 2], .packet 1 80 false [0x40, 1, 2],
    .packet 2 70 false [6], .packet 1 120 false [0x40, 2, 3]]

theorem sound_scene : Draft.Sound scene := by
  refine ⟨?_, by decide⟩
  intro s hs
  simp only [scene, List.mem_cons, List.not_mem_nil, or_false] at hs
  rcases hs with rfl | rfl | rfl | rfl | rfl | rfl | rfl | rfl | rfl
  · rintro m ⟨⟩
    exact Draft.fits_description (by decide) (by decide)
  · rintro m ⟨⟩
    exact Draft.fits_description (by decide) (by decide)
  · rintro m ⟨⟩
    exact Draft.fits_description (by decide) (by decide)
  all_goals rintro m ⟨⟩

/-- Read to the end, the packets behind the first of video and of audio name the one before them. -/
theorem references_scene : ∃ d, (ofBytes {} (Draft.file scene)).1 = .ok d ∧
    let as := List.replicate 6 Action.read ++ [.finish]
    ((ofStream 1 (d.perform as).2).map (·.backward) = [noTime, 40000000, 80000000] ∧
      (ofStream 2 (d.perform as).2).map (·.backward) = [noTime, 50000000]) ∧
    (∀ p ∈ packets (d.perform as).2, ∃ t ∈ d.tracks, t.id = p.stream) ∧
      ∀ t ∈ d.tracks, ReferBack (ofStream t.id (d.perform as).2) ∧
        t.Refers (own t.id (d.heard as)) (ofStream t.id (d.perform as).2) := by
  obtain ⟨d, hd, -⟩ := opens_file sound_scene {}
  have hbackward : ((ofBytes {} (Draft.file scene)).1.toOption.map fun d =>
      let out := (d.perform (List.replicate 6 .read ++ [.finish])).2
      ((ofStream 1 out).map (·.backward), (ofStream 2 out).map (·.backward))) =
        some ([noTime, 40000000, 80000000], [noTime, 50000000]) := by
    decide +kernel
  rw [hd, Except.toOption, Option.map_some, Option.some.injEq, Prod.mk.injEq] at hbackward
  exact ⟨d, hd, hbackward, references_name_previous hd (List.replicate 6 .read ++ [.finish])⟩

end Demultiplexer

end RealMedia
