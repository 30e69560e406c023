import RealMedia.Proofs.Ac3Frames
import RealMedia.Proofs.TrackOutputs

/-!
The times of AC3 frames: each is counted from the last timed chunk that starts no later than the
frame, wherever the frames lie in the chunks and however late they are found.
-/

namespace RealMedia

namespace Ac3

variable {s : Bytes} {tags : List (Nat × Int)} {before : List Nat} {place n : Nat} {t : Nat × Int}

/-- A frame of a stream: where it starts, and its header. -/
structure Find where
  place : Nat
  header : FrameHeader

/-- The bytes of the frame. -/
def Find.data (s : Bytes) (x : Find) : Bytes := (s.drop x.place).take x.header.bytes

/-- These are frames of `s` at or behind `pos`, in order and apart from each other, and between them
no frame starts. -/
inductive FoundAt (s : Bytes) : Nat → List Find → Prop
  | none {pos : Nat} : FoundAt s pos []
  | frame {pos : Nat} {x : Find} {more : List Find} (hle : pos ≤ x.place)
    (hstop : x.place + x.header.bytes ≤ s.length)
    (hframe : IsFrame (x.data s)) (hheader : FrameHeader.parse? (x.data s) = some x.header)
    (hgap : ∀ q, pos ≤ q → q < x.place → NoFrameStart (s.drop q))
    (rest : FoundAt s (x.place + x.header.bytes) more) : FoundAt s pos (x :: more)

/-- The last of some tags that stands at or before a place. -/
def lastTag (tags : List (Nat × Int)) (place : Nat) : Option (Nat × Int) :=
  (tags.filter (·.1 ≤ place)).getLast?

/-- The time of a frame with others before it: frames are counted from the last tag, or all of them
where there is none. -/
def timeAt (tags : List (Nat × Int)) (before : List Nat) (x : Find) : Int :=
  match lastTag tags x.place with
  | some (start, time) => time + before.countP (start ≤ ·) * x.header.duration
  | none => before.length * x.header.duration

def Find.packet (id : Nat) (s : Bytes) (tags : List (Nat × Int)) (before : List Find) (x : Find) :
    Packet where
  stream := id
  data := x.data s
  time := signed64 (timeAt tags (before.map (·.place)) x)
  duration := x.header.duration
  backward := noTime
  forward := noTime

/-- Tags that stand in order fall into those up to a place and those behind it. -/
theorem lt_of_mem_dropWhile (hl : tags.Pairwise (·.1 ≤ ·.1))
    (ht : t ∈ tags.dropWhile (·.1 ≤ n)) : n < t.1 := by
  induction tags with
  | nil => cases ht
  | cons a tags ih =>
    obtain ⟨ha, hl⟩ := List.pairwise_cons.1 hl
    by_cases hn : a.1 ≤ n
    · exact ih hl (by simpa [List.dropWhile_cons, hn] using ht)
    · simp only [List.dropWhile_cons, decide_eq_true_eq, if_neg hn, List.mem_cons] at ht
      rcases ht with rfl | ht
      · omega
      · have := ha t ht
        omega

theorem lastTag_append {reached later : List (Nat × Int)} (hr : ∀ t ∈ reached, t.1 ≤ place)
    (hl : ∀ t ∈ later, place < t.1) : lastTag (reached ++ later) place = reached.getLast? := by
  have hreached : reached.filter (·.1 ≤ place) = reached :=
    List.filter_eq_self.2 fun t ht => by simpa using hr t ht
  have hlater : later.filter (·.1 ≤ place) = [] :=
    List.filter_eq_nil_iff.2 fun t ht => by simpa using hl t ht
  simp only [lastTag, List.filter_append, hreached, hlater, List.append_nil]

end Ac3

namespace Ac3Framer

open Ac3

variable {f g : Ac3Framer} {h : StreamHeader} {x : FrameHeader} {o : Options} {ps : List Packet}
  {s : Bytes} {tags reached : List (Nat × Int)} {before : List Nat} {swapped : Bool}
  {cs : List Chunk} {n : Nat}

theorem pairwise_tagsOf (received : Nat) (cs : List Chunk) :
    (tagsOf received cs).Pairwise (·.1 ≤ ·.1) := by
  induction cs generalizing received with
  | nil => exact .nil
  | cons c cs ih =>
    rw [tagsOf, List.pairwise_append]
    refine ⟨by split <;> simp, ih _, ?_⟩
    intro t ht u hu
    have hfrom := le_of_mem_tagsOf hu
    split at ht
    · cases List.mem_singleton.1 ht
      exact Nat.le_trans (Nat.le_add_right _ _) hfrom
    · cases ht

/-- A framer that has found frames at some places: which tags it has reached, and what it counts
from the last of them. -/
structure Counted (tags reached : List (Nat × Int)) (before : List Nat) (f : Ac3Framer) :
    Prop where
  split : tags = reached ++ f.tags
  behind : ∀ t ∈ reached, t.1 ≤ f.start
  ahead : ∀ t ∈ f.tags, ∀ q ∈ before, q < t.1
  emitted : f.emitted = before.length
  reference : f.reference = reached.getLast?.map (·.2)
  since : ∀ t ∈ reached.getLast?, f.sinceReference = before.countP (t.1 ≤ ·)

theorem Counted.discard (hc : Counted tags reached before f) (n : Nat) :
    Counted tags reached before (f.discard n) where
  split := hc.split
  behind := fun t ht => Nat.le_trans (hc.behind t ht) (Nat.le_add_right _ _)
  ahead := hc.ahead
  emitted := hc.emitted
  reference := hc.reference
  since := hc.since

theorem start_reach : f.reach.start = f.start := by
  unfold reach
  split <;> rfl

theorem emitted_reach : f.reach.emitted = f.emitted := by
  unfold reach
  split <;> rfl

/-- The tags up to the start of the buffer are reached together, and the last of them counts. -/
theorem Counted.reach (hc : Counted tags reached before f) (hs : tags.Pairwise (·.1 ≤ ·.1)) :
    ∃ upTo, Counted tags upTo before f.reach ∧ ∀ t ∈ f.reach.tags, f.start < t.1 := by
  have hsorted : f.tags.Pairwise (·.1 ≤ ·.1) := by
    rw [hc.split] at hs
    exact (List.pairwise_append.1 hs).2.1
  cases hl : (f.tags.takeWhile (·.1 ≤ f.start)).getLast? with
  | none =>
    rw [reach_of_none hl]
    refine ⟨reached, hc, fun t ht => lt_of_mem_dropWhile hsorted ?_⟩
    have hnone : f.tags.takeWhile (·.1 ≤ f.start) = [] := List.getLast?_eq_none_iff.1 hl
    have hall := List.takeWhile_append_dropWhile (p := (·.1 ≤ f.start)) (l := f.tags)
    rw [hnone, List.nil_append] at hall
    rwa [hall]
  | some u =>
    rw [reach_of_some hl]
    have hu : u ∈ f.tags.takeWhile (·.1 ≤ f.start) := List.mem_of_getLast? hl
    have hlast : (reached ++ f.tags.takeWhile (·.1 ≤ f.start)).getLast? = some u := by
      simp [List.getLast?_append, hl]
    refine ⟨reached ++ f.tags.takeWhile (·.1 ≤ f.start), ?_, fun t ht =>
      lt_of_mem_dropWhile hsorted ht⟩
    constructor
    · simp only [List.append_assoc, List.takeWhile_append_dropWhile]
      exact hc.split
    · intro t ht
      rcases List.mem_append.1 ht with ht | ht
      · exact hc.behind t ht
      · simpa using List.all_eq_true.1 List.all_takeWhile t ht
    · intro t ht
      exact hc.ahead t (List.dropWhile_subset _ ht)
    · exact hc.emitted
    · simp [hlast]
    · intro t ht
      -- The tag was still ahead of all frames before, so none of them counts.
      rw [hlast, Option.mem_some_iff] at ht
      subst ht
      refine (List.countP_eq_zero.2 ?_).symm
      intro q hq
      have := hc.ahead u (List.takeWhile_subset _ hu) q hq
      simp
      omega

theorem Counted.frameTime (hc : Counted tags reached before f)
    (ha : ∀ t ∈ f.tags, f.start < t.1) (x : FrameHeader) :
    f.frameTime x.duration = signed64 (timeAt tags before ⟨f.start, x⟩) := by
  have hlast : lastTag tags f.start = reached.getLast? := by
    rw [hc.split]
    exact lastTag_append hc.behind ha
  rw [Ac3Framer.frameTime, timeAt, hlast, hc.reference]
  cases hl : reached.getLast? with
  | none => simp [hc.emitted]
  | some t => simp [hc.since t hl]

/-- One more frame counts from every tag that has been reached. -/
theorem Counted.emit (hc : Counted tags reached before f.reach)
    (ha : ∀ t ∈ f.reach.tags, f.start < t.1) :
    Counted tags reached (before ++ [f.start]) (f.emit x).1 where
  split := hc.split
  behind := fun t ht => by
    rw [start_emit]
    have := hc.behind t ht
    rw [start_reach] at this
    omega
  ahead := by
    intro t ht q hq
    rw [List.mem_append, List.mem_singleton] at hq
    rcases hq with hq | rfl
    · exact hc.ahead t ht q hq
    · exact ha t ht
  emitted := by
    change f.emitted + 1 = _
    rw [← emitted_reach, hc.emitted, List.length_append, List.length_singleton]
  reference := hc.reference
  since := by
    intro t ht
    have hstart := hc.behind t (List.mem_of_getLast? ht)
    rw [start_reach] at hstart
    change f.reach.sinceReference + 1 = _
    rw [hc.since t ht, List.countP_append]
    simp [hstart]

/-- A search through the rest of a stream finds the frames of the stream, with their times. -/
theorem foundAt_of_finds (hs : f.buffer = s.drop f.start) (ht : tags.Pairwise (·.1 ≤ ·.1))
    (earlier : List Find) (hc : Counted tags reached (earlier.map (·.place)) f)
    (hf : Finds f ps (some g)) :
    ∃ xs, FoundAt s f.start xs ∧
      ps = xs.mapIdx fun i x => x.packet f.header.id s tags (earlier ++ xs.take i) := by
  generalize hr : some g = r at hf
  induction hf generalizing reached earlier with
  | lost => cases hr
  | wait => exact ⟨[], .none, rfl⟩
  | @frame f n x ps r hn hj next ih =>
    obtain ⟨hstop, hjudge, hgap, hnext⟩ := frame_of_scan hs hn
    obtain ⟨upTo, hreach, hahead⟩ := (hc.discard n).reach ht
    have hdata : (⟨f.start + n, x⟩ : Find).data s = (f.discard n).buffer.take x.bytes := by
      simp only [Find.data, buffer_discard, hs, List.drop_drop]
    have hpacket : (f.discard n).packetOf x =
        Find.packet f.header.id s tags earlier ⟨f.start + n, x⟩ := by
      have htime := hreach.frameTime (by rwa [start_reach]) x
      rw [start_reach, start_discard] at htime
      rw [packetOf, Find.packet, hdata, htime]
      rfl
    have hemit : Counted tags upTo ((earlier ++ [(⟨f.start + n, x⟩ : Find)]).map (·.place))
        ((f.discard n).emit x).1 := by
      simpa using hreach.emit hahead
    obtain ⟨xs, hxs, hps⟩ := ih hnext (earlier ++ [⟨f.start + n, x⟩]) hemit hr
    rw [start_emit, start_discard] at hxs
    refine ⟨⟨f.start + n, x⟩ :: xs, .frame (Nat.le_add_right _ _) hstop
      (isFrame_of_judge hjudge) (parse?_take_of_judge hjudge) hgap hxs, ?_⟩
    simp only [List.mapIdx_cons, hpacket, List.take_zero, List.append_nil, hps, header_emit,
      header_discard, List.take_succ_cons, List.append_assoc, List.singleton_append]

theorem counted_takeAll (h : StreamHeader) (swapped : Bool) (o : Options) (cs : List Chunk) :
    Counted (tagsOf 0 cs) [] [] ((ofOptions h swapped o).takeAll cs) where
  split := rfl
  behind := by simp
  ahead := by simp
  emitted := rfl
  reference := rfl
  since := by simp

theorem nonneg_of_mem_tagsOf {received : Nat} {t : Nat × Int} (ht : t ∈ tagsOf received cs) :
    0 ≤ t.2 := by
  induction cs generalizing received with
  | nil => cases ht
  | cons c cs ih =>
    rw [tagsOf, List.mem_append] at ht
    rcases ht with ht | ht
    · split at ht
      · rename_i htimed
        cases List.mem_singleton.1 ht
        exact htimed
      · cases ht
    · exact ih ht

theorem timeAt_nonneg (ht : ∀ t ∈ tags, 0 ≤ t.2) (before : List Nat) (x : Find) :
    0 ≤ timeAt tags before x := by
  rw [timeAt]
  split
  · rename_i start time hlast
    have htime : 0 ≤ time := ht _ (List.mem_of_mem_filter (List.mem_of_getLast? hlast))
    have hcounted : 0 ≤ ((before.countP (start ≤ ·) : Nat) : Int) * x.header.duration :=
      Int.mul_nonneg (Int.natCast_nonneg _) (Int.natCast_nonneg _)
    omega
  · exact Int.mul_nonneg (Int.natCast_nonneg _) (Int.natCast_nonneg _)

/-- A stream that is not lost gives the frames that start where nothing before them does, and the
time of each is counted from the last timed chunk that starts at or before it: in its own durations,
one for every frame found since there. It is kept in 64 bits with a sign, and so it is the number
that is counted wherever they hold that. -/
theorem frames_timed (hn : ((ofOptions h swapped o).processAll cs).2.2 = none) :
    let s := streamOf swapped (cs.flatMap (·.data))
    let tags := tagsOf 0 cs
    ∃ xs, FoundAt s 0 xs ∧
      packets ((ofOptions h swapped o).processAll cs).2.1 =
        xs.mapIdx (fun i x => x.packet h.id s tags (xs.take i)) ∧
      ∀ i x, xs[i]? = some x → StandsFor (x.packet h.id s tags (xs.take i)).time
        (timeAt tags ((xs.take i).map (·.place)) x) := by
  intro s tags
  obtain ⟨ps, hps, hall⟩ := processAll_finds (aligned_ofOptions h swapped o)
    (finds_of_empty rfl rfl) cs
  simp only [leftBy, hn] at hall
  have hbuffer : ((ofOptions h swapped o).takeAll cs).buffer =
      s.drop ((ofOptions h swapped o).takeAll cs).start :=
    unswapped_none swapped _
  obtain ⟨xs, hxs, hmap⟩ := foundAt_of_finds hbuffer (pairwise_tagsOf 0 cs) []
    (counted_takeAll h swapped o cs) hall
  refine ⟨xs, hxs, (packets_of_calls hps).trans hmap, ?_⟩
  intro i x _
  have hcounted : 0 ≤ timeAt tags ((xs.take i).map (·.place)) x :=
    timeAt_nonneg (fun t ht => nonneg_of_mem_tagsOf ht) ..
  exact standsFor_signed64 (by omega)

/-- Three frames, cut inside a word of the first. A chunk without bytes lies between the parts, and
the times of the chunks agree with none of the frames before. -/
def relay : List Chunk :=
  let b := swapPairs (joined [silence, silence, silence])
  [{ data := b.take 33, time := 1000 }, { data := [], time := 7000 },
    { data := b.drop 33, time := 500000000 }]

theorem frames_timed_relay :
    let s := streamOf true (relay.flatMap (·.data))
    let tags := tagsOf 0 relay
    let r := (ofOptions (bareHeader 1) true {}).processAll relay
    r.2.2 = none ∧ (packets r.2.1).length = 3 ∧
      ∃ xs, FoundAt s 0 xs ∧
        packets r.2.1 = xs.mapIdx (fun i x => x.packet 1 s tags (xs.take i)) ∧
        ∀ i x, xs[i]? = some x → StandsFor (x.packet 1 s tags (xs.take i)).time
          (timeAt tags ((xs.take i).map (·.place)) x) := by
  intro s tags r
  have hdata : relay.flatMap (·.data) = swapPairs (joined [silence, silence, silence]) := by
    simp only [relay, List.flatMap_cons, List.flatMap_nil, List.nil_append, List.append_nil,
      List.take_append_drop]
  obtain ⟨g, out, hrun, hout, -⟩ := processAll_swapped (bareHeader 1) {} hdata
  have hr : r = (g, out, none) := hrun
  have hn : r.2.2 = none := by rw [hr]
  refine ⟨hn, ?_, frames_timed hn⟩
  rw [hr]
  exact hout.length_eq

end Ac3Framer

end RealMedia
