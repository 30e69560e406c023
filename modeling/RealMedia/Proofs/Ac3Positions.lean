import Mathlib.Data.List.TakeWhile
import RealMedia.Proofs.Ac3Frames
import RealMedia.Proofs.TrackOutputs

/-!
Where an AC3 framer stands in its input: the start of its buffer and what it holds back come to the
bytes received, as long as no flush drops an odd byte. From then on the framer stands behind its
input, and a frame no longer reaches the time that it comes with.
-/

namespace RealMedia.Ac3Framer

open Ac3

variable {f g : Ac3Framer} {h : StreamHeader} {o : Options} {ps : List Packet} {c : Chunk}
  {total lost since : Nat} {swapped : Bool}

/-- A call of a framer. -/
inductive Request
  | process (c : Chunk)
  | flush

def Request.data : Request → Bytes
  | process c => c.data
  | flush => []

/-- The framer after a call, unless the stream is lost. -/
def answer? (f : Ac3Framer) : Request → Option Ac3Framer
  | .process c => leftBy (f.process c)
  | .flush => some f.flush.1

/-- The framer after calls in turn, unless the stream is lost at one of them. -/
def answerAll? (f : Ac3Framer) (qs : List Request) : Option Ac3Framer := qs.foldlM answer? f

theorem answerAll?_cons (f : Ac3Framer) (q : Request) (qs : List Request) :
    f.answerAll? (q :: qs) = (f.answer? q).bind (·.answerAll? qs) := rfl

theorem answer?_of_process {out : Outputs} (hp : f.process c = (g, out, none)) :
    f.answer? (.process c) = some g := by
  rw [answer?, hp, leftBy]

/-- How many bytes wait for a partner when `n` have come. -/
def unpaired (swapped : Bool) (n : Nat) : Nat := if swapped then n % 2 else 0

/-- The bytes without a partner that flushes drop, when `since` bytes have come since the last. -/
def unpairedAtFlush (swapped : Bool) (since : Nat) : List Request → Nat
  | [] => 0
  | .process c :: qs => unpairedAtFlush swapped (since + c.data.length) qs
  | .flush :: qs => unpaired swapped since + unpairedAtFlush swapped 0 qs

theorem length_oddAfter {odd : Option UInt8} (ho : swapped = false → odd = none) (data : Bytes) :
    (oddAfter swapped odd data).toList.length =
      unpaired swapped (odd.toList.length + data.length) := by
  cases swapped with
  | false => simp [oddAfter, unpaired, ho]
  | true =>
    simp only [oddAfter, unpaired, if_true]
    clear ho
    induction data generalizing odd with
    | nil => cases odd <;> simp
    | cons x data ih =>
      rw [List.foldl_cons, foldl_push, ih, List.length_cons]
      cases odd with
      | none => simp [Unswapped.push, Nat.add_comm]
      | some a => simp [Unswapped.push]; omega

/-- A framer that has received so many bytes, `since` of them since the last flush, and lost track
of so many. -/
structure Stands (f : Ac3Framer) (total lost since : Nat) : Prop where
  position : f.start + f.buffer.length + f.odd.toList.length + lost = total
  count : f.received = total
  odd : f.odd.toList.length = unpaired f.swapped since
  tags : ∀ t ∈ f.tags, t.1 ≤ total
  junk : f.junk ≤ f.window

theorem stands_ofOptions (h : StreamHeader) (swapped : Bool) (o : Options) :
    Stands (ofOptions h swapped o) 0 0 0 where
  position := rfl
  count := rfl
  odd := by cases swapped <;> rfl
  tags := by rintro t ⟨⟩
  junk := Nat.zero_le _

theorem Stands.odd_none (hs : Stands f total lost since) (hu : f.swapped = false) :
    f.odd = none := by
  have hodd := hs.odd
  simp only [hu, unpaired, Bool.false_eq_true, if_false] at hodd
  cases ho : f.odd <;> simp_all

/-- Chunks are taken in at the end. -/
theorem Stands.takeAll (hs : Stands f total lost since) (c : Chunk) :
    Stands (f.takeAll [c]) (total + c.data.length) lost (since + c.data.length) := by
  have hlength := length_unswapped f.swapped f.odd c.data
  have hodd := length_oddAfter hs.odd_none c.data
  have hposition := hs.position
  have hwaits : (oddAfter f.swapped f.odd c.data).toList.length =
      unpaired f.swapped (since + c.data.length) := by
    rw [hodd, hs.odd]
    cases f.swapped <;> simp [unpaired]
  rw [takeAll_singleton]
  constructor
  · simp only [extend, List.length_append]
    omega
  · exact congrArg (· + c.data.length) hs.count
  · exact hwaits
  · intro t ht
    simp only [extend, tagsOf, List.append_nil, List.mem_append] at ht
    rcases ht with ht | ht
    · exact Nat.le_trans (hs.tags t ht) (Nat.le_add_right _ _)
    · split at ht
      · cases List.mem_singleton.1 ht
        simp only [hs.count]
        omega
      · cases ht
  · exact hs.junk

theorem tags_reach {t : Nat × Int} (ht : t ∈ f.reach.tags) : t ∈ f.tags := by
  unfold reach at ht
  split at ht
  · exact ht
  · exact List.dropWhile_subset _ ht

theorem tags_finds {t : Nat × Int} (hf : Finds f ps (some g)) (ht : t ∈ g.tags) : t ∈ f.tags := by
  generalize hr : some g = r at hf
  induction hf with
  | lost => cases hr
  | wait =>
    cases hr
    exact ht
  | frame _ _ _ ih => exact tags_reach (f := discard _ _) (ih hr)

/-- A search moves bytes off the front, and forgets none of them. -/
theorem Stands.finds (hs : Stands f total lost since) (hf : Finds f ps (some g)) :
    Stands g total lost since := by
  have hk := kept_finds hf
  refine ⟨?_, hk.received.trans hs.count, ?_, fun t ht => hs.tags t (tags_finds hf ht),
    (settled_of_finds hf).2⟩
  · have hposition := hs.position
    rw [← hk.stop, ← hk.odd] at hposition
    exact hposition
  · rw [hk.odd, hk.swapped]
    exact hs.odd

/-- A flush moves past the buffer, but not past a byte that waits for its partner. -/
theorem Stands.flush (hs : Stands f total lost since) :
    Stands f.flush.1 total (lost + unpaired f.swapped since) 0 := by
  have hposition := hs.position
  have hodd := hs.odd
  have hzero : unpaired f.swapped 0 = 0 := by cases f.swapped <;> rfl
  rw [Ac3Framer.flush]
  split
  · rename_i hl
    have hnone : f.odd.toList.length = 0 := (Nat.add_eq_zero_iff.1 hl).2
    exact ⟨show f.start + f.buffer.length + f.odd.toList.length + _ = total by omega, hs.count,
      hnone.trans hzero.symm, hs.tags, hs.junk⟩
  · refine ⟨?_, hs.count, hzero.symm, by rintro t ⟨⟩, hs.junk⟩
    simp only [List.length_nil, Option.toList_none]
    omega

theorem swapped_flush (f : Ac3Framer) : f.flush.1.swapped = f.swapped := by
  rw [Ac3Framer.flush]
  split <;> rfl

/-- What calls in turn keep up. -/
theorem Stands.answerAll (hs : Stands f total lost since) {qs : List Request}
    (hq : f.answerAll? qs = some g) :
    g.header = f.header ∧ g.swapped = f.swapped ∧ ∃ now,
      Stands g (total + (qs.flatMap (·.data)).length)
        (lost + unpairedAtFlush f.swapped since qs) now := by
  induction qs generalizing f total lost since with
  | nil =>
    cases hq
    exact ⟨rfl, rfl, since, hs⟩
  | cons q qs ih =>
    rw [answerAll?_cons] at hq
    obtain ⟨e, he, hrest⟩ := Option.bind_eq_some_iff.1 hq
    cases q with
    | process c =>
      obtain ⟨ps, -, hfinds⟩ := f.process_finds c
      have hleft : leftBy (f.process c) = some e := he
      rw [hleft] at hfinds
      obtain ⟨hheader, hswapped, now, hstands⟩ := ih ((hs.takeAll c).finds hfinds) hrest
      have hf : e.header = f.header := by
        rw [← (leftBy_eq_some.1 hleft).1, header_process]
      have hf' : e.swapped = f.swapped := (kept_finds hfinds).swapped
      refine ⟨hheader.trans hf, hswapped.trans hf', now, ?_⟩
      rw [hf'] at hstands
      simpa only [List.flatMap_cons, List.length_append, Request.data, unpairedAtFlush,
        Nat.add_assoc] using hstands
    | flush =>
      cases he
      obtain ⟨hheader, hswapped, now, hstands⟩ := ih hs.flush hrest
      refine ⟨hheader.trans f.header_flush, hswapped.trans f.swapped_flush, now, ?_⟩
      rw [swapped_flush] at hstands
      simpa only [List.flatMap_cons, Request.data, List.nil_append, unpairedAtFlush,
        Nat.add_assoc] using hstands

/-- A search that comes to an end tells what a chunk gives. -/
theorem process_of_finds (hf : Finds (f.takeAll [c]) ps (some g)) :
    ∃ out, f.process c = (g, out, none) ∧ packets out = ps := by
  obtain ⟨qs, hqs, hrun⟩ := f.process_finds c
  obtain ⟨rfl, hg⟩ := finds_unique hf hrun
  obtain ⟨hleft, hnone⟩ := leftBy_eq_some.1 hg.symm
  exact ⟨_, Prod.ext hleft (Prod.ext rfl hnone), packets_of_calls hqs⟩

theorem streamOf_streamOf (swapped : Bool) {b : Bytes} (hb : b.length % 2 = 0) :
    streamOf swapped (streamOf swapped b) = b := by
  cases swapped with
  | false => rfl
  | true => exact swapPairs_swapPairs hb

/-- The time of a chunk is that of a frame at its start, if the framer stands there. If it stands
behind, the frame goes by what has been reached before. -/
theorem Stands.time_frame (hs : Stands f total lost since) (hb : f.buffer = []) (ho : f.odd = none)
    {time : Int} (ht : 0 ≤ time) (data : Bytes) (duration : Nat) :
    (f.takeAll [{ data, time }]).reach.frameTime duration =
      if lost = 0 then signed64 time else f.reach.frameTime duration := by
  have hposition := hs.position
  simp only [hb, ho, List.length_nil, Option.toList_none, Nat.add_zero] at hposition
  have htags : tagsOf f.received [{ data, time }] = [(f.received, time)] := by
    simp only [tagsOf, if_pos ht, List.append_nil]
  rw [takeAll_singleton, htags]
  split
  · have hall : (f.tags ++ [(f.received, time)]).takeWhile (·.1 ≤ f.start) =
        f.tags ++ [(f.received, time)] := by
      refine List.takeWhile_eq_self_iff.2 ?_
      intro t ht
      rcases List.mem_append.1 ht with ht | ht
      · have := hs.tags t ht
        exact decide_eq_true (by omega)
      · cases List.mem_singleton.1 ht
        exact decide_eq_true (by rw [hs.count]; omega)
    have hlast : ((f.tags ++ [(f.received, time)]).takeWhile (·.1 ≤ f.start)).getLast? =
        some (f.received, time) := by
      rw [hall, List.getLast?_concat]
    rw [reach_of_some (f := f.extend _ _ _ _) hlast]
    simp [frameTime]
  · have hbehind : ∀ t ∈ [(f.received, time)], f.start < t.1 := by
      intro t ht
      cases List.mem_singleton.1 ht
      rw [hs.count]
      omega
    rw [reach_extend hbehind]
    rfl

/-- A framer that holds nothing back gives a frame that comes in one chunk. -/
theorem Stands.process_frame (hs : Stands f total lost since) (hb : f.buffer = [])
    (ho : f.odd = none) (x : Frame) {time : Int} (ht : 0 ≤ time) :
    ∃ k out, f.process { data := streamOf f.swapped x.data, time } = (k, out, none) ∧
      packets out =
        [{ stream := f.header.id, data := x.data
           time := if lost = 0 then signed64 time else f.reach.frameTime x.header.duration
           duration := x.header.duration, backward := noTime, forward := noTime }] := by
  have heven : x.data.length % 2 = 0 := by
    rw [x.whole]
    exact even_of_parse? x.parsed
  have htime := hs.time_frame hb ho ht (streamOf f.swapped x.data) x.header.duration
  generalize hall : f.takeAll [{ data := streamOf f.swapped x.data, time }] = e at htime
  have hbuffer : e.buffer = x.data := by
    subst hall
    simp only [takeAll_singleton, buffer_extend, hb, ho, List.nil_append, unswapped_none,
      streamOf_streamOf _ heven]
  have hpacket : e.packetOf x.header =
      { stream := f.header.id, data := x.data
        time := if lost = 0 then signed64 time else f.reach.frameTime x.header.duration
        duration := x.header.duration, backward := noTime, forward := noTime } := by
    rw [packetOf, hbuffer, htime, ← x.whole, List.take_length, ← hall]
    rfl
  have hscan : scan e.buffer = (0, some x.header) := by
    rw [hbuffer]
    exact scan_of_frame x.judge_data
  have hdone : (e.emit x.header).1.buffer = [] := by
    rw [buffer_emit, hbuffer, ← x.whole, List.drop_length]
  have hjunk : e.junk + 0 ≤ e.window := by
    subst hall
    exact hs.junk
  have hfinds : Finds e _ _ :=
    .frame hscan hjunk (by rw [discard_zero]; exact finds_of_empty hdone rfl)
  rw [discard_zero, hpacket, ← hall] at hfinds
  obtain ⟨out, hprocess, hout⟩ := process_of_finds hfinds
  exact ⟨_, out, hprocess, hout⟩

/-- The start of the buffer, what is held back and the bytes without a partner that flushes have
dropped come to all bytes received. A frame that comes alone in a chunk, with nothing held back,
has the time of the chunk as long as no such byte has been dropped. -/
theorem position_of_input {qs : List Request}
    (hq : (ofOptions h swapped o).answerAll? qs = some g) :
    let lost := unpairedAtFlush swapped 0 qs
    g.start + g.buffer.length + g.odd.toList.length + lost = (qs.flatMap (·.data)).length ∧
      (g.buffer = [] → g.odd = none → ∀ (x : Frame) (time : Int), 0 ≤ time →
        ∃ k out now, g.process { data := streamOf swapped x.data, time } = (k, out, none) ∧
          packets out =
            [{ stream := h.id, data := x.data, time := now, duration := x.header.duration
               backward := noTime, forward := noTime }] ∧
          (lost = 0 → StandsFor now time) ∧
          (lost ≠ 0 → now = g.reach.frameTime x.header.duration)) := by
  intro lost
  obtain ⟨hheader, hswapped, now, hstands⟩ := (stands_ofOptions h swapped o).answerAll hq
  rw [Nat.zero_add, Nat.zero_add] at hstands
  have hid : h.id = g.header.id := by rw [hheader]; rfl
  have hswap : swapped = g.swapped := hswapped.symm
  refine ⟨hstands.position, fun hb ho x time ht => ?_⟩
  rw [hid, hswap]
  obtain ⟨k, out, hprocess, hout⟩ := hstands.process_frame hb ho x ht
  refine ⟨k, out, _, hprocess, hout, fun hlost => ?_, fun hlost => if_neg hlost⟩
  change StandsFor (if lost = 0 then signed64 time else _) time
  rw [if_pos hlost]
  exact standsFor_signed64 (by omega)

/-- The two bytes of a word come one by one, and the flush drops one of them that may be half of a
sync word. -/
def wordInTwo : List Request :=
  [.process { data := [0x0b], time := 40 }, .process { data := [0x00] }, .flush]

theorem position_of_input_wordInTwo :
    ∃ g, (ofOptions (bareHeader 1) true {}).answerAll? wordInTwo = some g ∧
      g.start = 2 ∧ g.buffer = [] ∧ g.odd = none ∧
      ∃ k out, g.process { data := swapPairs silence.data, time := 1000 } = (k, out, none) ∧
        packets out = [⟨1, silence.data, 1000, 32000000, -1, -1⟩] := by
  let f := ofOptions (bareHeader 1) true {}
  let waiting := f.takeAll [{ data := [0x0b], time := 40 }]
  let ready := waiting.takeAll [{ data := [0x00] }]
  have hscan : scan ready.buffer = (1, none) := by decide
  obtain ⟨out, hfirst, -⟩ := process_of_finds (f := f) (g := waiting) (finds_of_empty rfl rfl)
  obtain ⟨more, hsecond, -⟩ := process_of_finds (f := waiting) (.wait hscan (by decide))
  have hq : f.answerAll? wordInTwo = some (ready.discard 1).flush.1 := by
    rw [wordInTwo, answerAll?_cons, answer?_of_process hfirst, Option.bind_some, answerAll?_cons,
      answer?_of_process hsecond]
    rfl
  obtain ⟨-, hframe⟩ := position_of_input hq
  obtain ⟨k, last, now, hprocess, hpackets, htime, -⟩ := hframe rfl rfl silence 1000 (by decide)
  have hnow : now = 1000 := (htime rfl).held (by decide)
  subst hnow
  exact ⟨_, hq, rfl, rfl, rfl, k, last, hprocess, hpackets⟩

/-- A byte without a partner that a flush drops is forgotten: the framer stands at the start of its
input, and the frame that comes next is counted from there in spite of its time. -/
theorem odd_byte_forgotten :
    ∃ g, (ofOptions (bareHeader 1) true {}).answerAll?
        [.process { data := [0x00], time := 0 }, .flush] = some g ∧
      g.start + g.buffer.length + g.odd.toList.length ≠ 1 ∧ g.buffer = [] ∧ g.odd = none ∧
      ∃ k out, g.process { data := swapPairs silence.data, time := 1000 } = (k, out, none) ∧
        (packets out).map (·.time) = [0] := by
  let f := ofOptions (bareHeader 1) true {}
  let waiting := f.takeAll [{ data := [0x00], time := 0 }]
  obtain ⟨out, hfirst, -⟩ := process_of_finds (f := f) (g := waiting) (finds_of_empty rfl rfl)
  have hq : f.answerAll? [.process { data := [0x00], time := 0 }, .flush] =
      some waiting.flush.1 := by
    rw [answerAll?_cons, answer?_of_process hfirst]
    rfl
  obtain ⟨-, -, now, hstands⟩ := (stands_ofOptions (bareHeader 1) true {}).answerAll hq
  have htime : (0 : Int) ≤ 1000 := by decide
  obtain ⟨k, more, hprocess, hout⟩ := hstands.process_frame rfl rfl silence htime
  refine ⟨_, hq, by decide, rfl, rfl, k, more, hprocess, ?_⟩
  have hcounted : waiting.flush.1.reach.frameTime silence.header.duration = 0 :=
    congrArg signed64 (Int.zero_mul _)
  rw [hout, List.map_singleton, if_neg (by decide), hcounted]

end RealMedia.Ac3Framer
