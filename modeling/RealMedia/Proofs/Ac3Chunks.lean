import RealMedia.Proofs.Ac3Search

/-! AC3 streams that arrive in chunks: the search over all chunks at once. -/

namespace RealMedia.Ac3Framer

open Ac3

variable {f g : Ac3Framer} {h : FrameHeader} {k : StreamHeader} {ps qs : List Packet}
  {r : Option Ac3Framer} {b data : Bytes} {tags : List (Nat × Int)} {odd : Option UInt8}
  {received n : Nat} {swapped strict : Bool} {cs : List Chunk}

/-- The bytes that a framer with a waiting odd byte gets ready from new ones. -/
def unswapped (swapped : Bool) (odd : Option UInt8) (data : Bytes) : Bytes :=
  if swapped then (data.foldl Unswapped.push ⟨odd, []⟩).words.reverse else data

/-- The byte that waits for its partner after new ones. -/
def oddAfter (swapped : Bool) (odd : Option UInt8) (data : Bytes) : Option UInt8 :=
  if swapped then (data.foldl Unswapped.push ⟨odd, []⟩).odd else odd

/-- The tags of chunks that arrive after `received` bytes. -/
def tagsOf (received : Nat) : List Chunk → List (Nat × Int)
  | [] => []
  | c :: cs =>
    (if 0 ≤ c.time then [(received, c.time)] else []) ++ tagsOf (received + c.data.length) cs

/-- A framer with more bytes and tags. -/
def extend (f : Ac3Framer) (b : Bytes) (tags : List (Nat × Int)) (odd : Option UInt8)
    (received : Nat) : Ac3Framer :=
  { f with buffer := f.buffer ++ b, tags := f.tags ++ tags, odd, received }

/-- A framer that has received chunks and not looked at them yet. -/
def takeAll (f : Ac3Framer) (cs : List Chunk) : Ac3Framer :=
  let data := cs.flatMap (·.data)
  f.extend (unswapped f.swapped f.odd data) (tagsOf f.received cs)
    (oddAfter f.swapped f.odd data) (f.received + data.length)

/-- Take chunks in turn, up to the first at which the stream is lost. -/
def processAll (f : Ac3Framer) : List Chunk → Ac3Framer × Outputs × Option SyncFault
  | [] => (f, [], none)
  | c :: cs =>
    match f.process c with
    | (g, out, none) =>
      let r := g.processAll cs
      (r.1, out ++ r.2.1, r.2.2)
    | lost => lost

/-- Every byte received has been taken off the front, is buffered or waits for its partner. -/
def Aligned (f : Ac3Framer) : Prop :=
  f.start + f.buffer.length + f.odd.toList.length = f.received

@[simp] theorem unswapped_nil : unswapped swapped odd [] = [] := by
  cases swapped <;> rfl

@[simp] theorem oddAfter_nil : oddAfter swapped odd [] = odd := by
  cases swapped <;> rfl

theorem foldl_push (u : Unswapped) (data : Bytes) :
    data.foldl Unswapped.push u =
      ⟨(data.foldl Unswapped.push ⟨u.odd, []⟩).odd,
        (data.foldl Unswapped.push ⟨u.odd, []⟩).words ++ u.words⟩ := by
  induction data generalizing u with
  | nil => rfl
  | cons x data ih =>
    rw [List.foldl_cons, ih, List.foldl_cons, ih (Unswapped.push ⟨u.odd, []⟩ x)]
    cases ho : u.odd with
    | none => simp [Unswapped.push, ho]
    | some a => simp [Unswapped.push, ho]

theorem unswapped_append (swapped : Bool) (odd : Option UInt8) (a b : Bytes) :
    unswapped swapped odd (a ++ b) =
      unswapped swapped odd a ++ unswapped swapped (oddAfter swapped odd a) b := by
  cases swapped with
  | false => rfl
  | true =>
    simp only [unswapped, oddAfter, if_true, List.foldl_append]
    rw [foldl_push (a.foldl _ _) b, List.reverse_append]

theorem oddAfter_append (swapped : Bool) (odd : Option UInt8) (a b : Bytes) :
    oddAfter swapped odd (a ++ b) = oddAfter swapped (oddAfter swapped odd a) b := by
  cases swapped with
  | false => rfl
  | true =>
    simp only [oddAfter, if_true, List.foldl_append]
    rw [foldl_push (a.foldl _ _) b]

theorem length_unswapped (swapped : Bool) (odd : Option UInt8) (data : Bytes) :
    (unswapped swapped odd data).length + (oddAfter swapped odd data).toList.length =
      data.length + odd.toList.length := by
  cases swapped with
  | false => rfl
  | true =>
    simp only [unswapped, oddAfter, if_true, List.length_reverse]
    induction data generalizing odd with
    | nil => simp
    | cons x data ih =>
      rw [List.foldl_cons, foldl_push]
      have := ih (Unswapped.push ⟨odd, []⟩ x).odd
      cases odd <;> simp [Unswapped.push] at this ⊢ <;> omega

theorem le_of_mem_tagsOf {t : Nat × Int} (ht : t ∈ tagsOf received cs) : received ≤ t.1 := by
  induction cs generalizing received with
  | nil => cases ht
  | cons c cs ih =>
    rw [tagsOf, List.mem_append] at ht
    rcases ht with ht | ht
    · split at ht
      · rw [List.mem_singleton] at ht
        exact Nat.le_of_eq (by rw [ht])
      · cases ht
    · have := ih ht
      omega

theorem process_eq (f : Ac3Framer) (c : Chunk) : f.process c = (f.takeAll [c]).search [] := by
  simp only [process, takeAll, extend, feed, unswapped, oddAfter]
  by_cases hs : f.swapped <;> by_cases ht : 0 ≤ c.time <;> simp [hs, ht, tagsOf]

theorem process_finds (f : Ac3Framer) (c : Chunk) :
    ∃ ps, calls (f.process c).2.1 = ps.map .packet ∧
      Finds (f.takeAll [c]) ps (leftBy (f.process c)) := by
  rw [process_eq]
  exact search_finds _

theorem takeAll_nil (f : Ac3Framer) : f.takeAll [] = f := by
  simp [takeAll, extend, tagsOf]

theorem takeAll_singleton (f : Ac3Framer) (c : Chunk) :
    f.takeAll [c] = f.extend (unswapped f.swapped f.odd c.data) (tagsOf f.received [c])
      (oddAfter f.swapped f.odd c.data) (f.received + c.data.length) := by
  simp [takeAll]

/-- Chunks may be taken in one by one. -/
theorem takeAll_cons (f : Ac3Framer) (c : Chunk) (cs : List Chunk) :
    f.takeAll (c :: cs) = (f.takeAll [c]).takeAll cs := by
  simp [takeAll, extend, tagsOf, unswapped_append, oddAfter_append, Nat.add_assoc]

@[simp] theorem buffer_extend :
    (f.extend b tags odd received).buffer = f.buffer ++ b := rfl

@[simp] theorem junk_extend : (f.extend b tags odd received).junk = f.junk := rfl

@[simp] theorem window_extend : (f.extend b tags odd received).window = f.window := rfl

theorem discard_extend (hn : n ≤ f.buffer.length) :
    (f.extend b tags odd received).discard n = (f.discard n).extend b tags odd received := by
  simp [extend, discard, advance, List.drop_append_of_le_length hn]

@[simp] theorem buffer_reach : f.reach.buffer = f.buffer := by
  unfold reach
  split <;> rfl

theorem reach_of_none (hl : (f.tags.takeWhile (·.1 ≤ f.start)).getLast? = none) :
    f.reach = f := by
  simp only [reach, hl]

theorem reach_of_some {t : Nat × Int}
    (hl : (f.tags.takeWhile (·.1 ≤ f.start)).getLast? = some t) :
    f.reach = { f with
      tags := f.tags.dropWhile (·.1 ≤ f.start), reference := some t.2, sinceReference := 0 } := by
  simp only [reach, hl]

/-- Tags behind the start of the buffer do not take effect yet. -/
theorem reach_extend (ht : ∀ t ∈ tags, f.start < t.1) :
    (f.extend b tags odd received).reach = f.reach.extend b tags odd received := by
  have htake : tags.takeWhile (·.1 ≤ f.start) = [] := by
    cases tags with
    | nil => rfl
    | cons t tags => simp [ht t (by simp)]
  have hdrop : tags.dropWhile (·.1 ≤ f.start) = tags := by
    cases tags with
    | nil => rfl
    | cons t tags => simp [ht t (by simp)]
  have htakes : (f.extend b tags odd received).tags.takeWhile
      (·.1 ≤ (f.extend b tags odd received).start) = f.tags.takeWhile (·.1 ≤ f.start) := by
    change (f.tags ++ tags).takeWhile (·.1 ≤ f.start) = _
    rw [List.takeWhile_append, htake, List.append_nil]
    split
    · rename_i hlen
      exact (List.takeWhile_prefix _).eq_of_length hlen |>.symm
    · rfl
  have hdrops : (f.extend b tags odd received).tags.dropWhile
      (·.1 ≤ (f.extend b tags odd received).start) =
        f.tags.dropWhile (·.1 ≤ f.start) ++ tags := by
    change (f.tags ++ tags).dropWhile (·.1 ≤ f.start) = _
    rw [List.dropWhile_append, hdrop]
    split
    · rename_i hnil
      rw [List.isEmpty_iff.1 hnil, List.nil_append]
    · rfl
  cases hl : (f.tags.takeWhile (·.1 ≤ f.start)).getLast? with
  | none => rw [reach_of_none hl, reach_of_none ((congrArg List.getLast? htakes).trans hl)]
  | some t =>
    rw [reach_of_some hl, reach_of_some ((congrArg List.getLast? htakes).trans hl), hdrops]
    rfl

theorem packetOf_extend (ht : ∀ t ∈ tags, f.start < t.1) (hh : h.bytes ≤ f.buffer.length) :
    (f.extend b tags odd received).packetOf h = f.packetOf h := by
  simp only [packetOf, reach_extend ht, buffer_extend, List.take_append_of_le_length hh]
  rfl

theorem emit_extend (ht : ∀ t ∈ tags, f.start < t.1) (hh : h.bytes ≤ f.buffer.length) :
    ((f.extend b tags odd received).emit h).1 =
      (f.emit h).1.extend b tags odd received := by
  simp only [emit, reach_extend ht]
  simp [extend, advance, List.drop_append_of_le_length hh]

/-- What a search leaves untouched. -/
structure Kept (f g : Ac3Framer) : Prop where
  swapped : g.swapped = f.swapped
  odd : g.odd = f.odd
  received : g.received = f.received
  dropped : g.dropped = f.dropped
  /-- Bytes leave the buffer only at its front. -/
  stop : g.start + g.buffer.length = f.start + f.buffer.length

theorem Kept.trans {e : Ac3Framer} (hf : Kept f g) (hg : Kept g e) : Kept f e where
  swapped := hg.swapped.trans hf.swapped
  odd := hg.odd.trans hf.odd
  received := hg.received.trans hf.received
  dropped := hg.dropped.trans hf.dropped
  stop := hg.stop.trans hf.stop

theorem kept_discard (hn : n ≤ f.buffer.length) : Kept f (f.discard n) where
  swapped := rfl
  odd := rfl
  received := rfl
  dropped := rfl
  stop := by
    simp only [start_discard, buffer_discard, List.length_drop]
    omega

theorem kept_reach (f : Ac3Framer) : Kept f f.reach := by
  rw [reach]
  split <;> exact ⟨rfl, rfl, rfl, rfl, rfl⟩

theorem kept_emit (hh : h.bytes ≤ f.buffer.length) : Kept f (f.emit h).1 := by
  have hk := kept_reach f
  refine hk.trans ⟨rfl, rfl, rfl, rfl, ?_⟩
  simp only [emit, advance, List.length_drop, buffer_reach]
  omega

theorem bytes_le_of_scan (hs : scan f.buffer = (n, some h)) :
    h.bytes ≤ (f.discard n).buffer.length :=
  (judge_eq_frame (judge_at_scan hs)).2.2

theorem le_length_of_scan {o : Option FrameHeader} (hs : scan b = (n, o)) : n ≤ b.length := by
  have := scan_le_length b
  rwa [hs] at this

theorem kept_finds (hf : Finds f ps (some g)) : Kept f g := by
  generalize hr : some g = o at hf
  induction hf with
  | lost => cases hr
  | wait hs =>
    cases hr
    exact kept_discard (le_length_of_scan hs)
  | frame hs _ _ ih =>
    exact (kept_discard (le_length_of_scan hs)).trans
      ((kept_emit (bytes_le_of_scan hs)).trans (ih hr))

/-- A search that comes to an end leaves bytes that cannot be told yet, and not too much junk. -/
theorem settled_of_finds (hf : Finds f ps (some g)) :
    scan g.buffer = (0, none) ∧ g.junk ≤ g.window := by
  generalize hr : some g = o at hf
  induction hf with
  | lost => cases hr
  | @wait f n hs hj =>
    cases hr
    have ht := scan_append_none (c := []) hs
    simp only [List.append_nil, hs, Prod.mk.injEq] at ht
    have hz : (scan (f.buffer.drop n)).1 = 0 := by omega
    exact ⟨Prod.ext hz ht.2.symm, hj⟩
  | frame _ _ _ ih => exact ih hr

/-- Where nothing can be told and there is not too much junk, there is nothing to find. -/
theorem finds_of_settled (hs : scan f.buffer = (0, none)) (hj : f.junk ≤ f.window) :
    Finds f [] (some f) := by
  have hw : Finds f [] (some (f.discard 0)) := .wait hs hj
  rwa [discard_zero] at hw

/-- The framer that a search leaves has nothing more to find. -/
theorem finds_again (hf : Finds f ps (some g)) : Finds g [] (some g) := by
  obtain ⟨hs, hj⟩ := settled_of_finds hf
  exact finds_of_settled hs hj

theorem finds_of_empty (hb : f.buffer = []) (hj : f.junk = 0) : Finds f [] (some f) :=
  finds_of_settled (by rw [hb]; rfl) (by omega)

/-- Bytes that arrive later may as well be there from the start, as long as their tags lie behind
the bytes that are there. -/
theorem finds_extend {s : Option Ac3Framer}
    (ht : ∀ t ∈ tags, f.start + f.buffer.length ≤ t.1) (hf : Finds f ps r)
    (hg : r.elim (qs = [] ∧ s = none) fun g => Finds (g.extend b tags odd received) qs s) :
    Finds (f.extend b tags odd received) (ps ++ qs) s := by
  induction hf with
  | @lost f hj =>
    obtain ⟨rfl, rfl⟩ := hg
    refine .lost ?_
    rw [junk_extend, window_extend, buffer_extend]
    cases hs : scan f.buffer with
    | mk n o =>
      rw [hs] at hj
      cases o with
      | none => rw [scan_append_none hs]; simp only at hj ⊢; omega
      | some h => rwa [scan_append_some hs]
  | @wait f n hs hj =>
    have hn := le_length_of_scan hs
    refine finds_of_discard (m := n) ?_ ?_
    · rw [buffer_extend, scan_append_none hs, List.drop_append_of_le_length hn]
    · rw [discard_extend hn]
      exact hg
  | @frame f n h ps r hs hj next ih =>
    have hn := le_length_of_scan hs
    have hh := bytes_le_of_scan hs
    have hpos := headerSize_lt_of_crcMatches (judge_eq_frame (judge_at_scan hs)).2.1
    have hk := (kept_discard hn).trans (kept_emit hh)
    have hlt : ∀ t ∈ tags, (f.discard n).start < t.1 := by
      intro t hm
      have := ht t hm
      simp only [buffer_discard, List.length_drop, start_discard] at hh ⊢
      omega
    have hrest := ih (fun t hm => by rw [hk.stop]; exact ht t hm) hg
    have hpacket : ((f.extend b tags odd received).discard n).packetOf h =
        (f.discard n).packetOf h := by
      rw [discard_extend hn, packetOf_extend hlt hh]
    rw [List.cons_append, ← hpacket]
    refine .frame (scan_append_some hs) hj ?_
    rwa [discard_extend hn, emit_extend hlt hh]

theorem takeAll_congr (hs : g.swapped = f.swapped) (ho : g.odd = f.odd)
    (hr : g.received = f.received) (cs : List Chunk) :
    g.takeAll cs =
      g.extend (unswapped f.swapped f.odd (cs.flatMap (·.data))) (tagsOf f.received cs)
        (oddAfter f.swapped f.odd (cs.flatMap (·.data)))
        (f.received + (cs.flatMap (·.data)).length) := by
  rw [takeAll, hs, ho, hr]

theorem aligned_takeAll (ha : Aligned f) (cs : List Chunk) : Aligned (f.takeAll cs) := by
  have := length_unswapped f.swapped f.odd (cs.flatMap (·.data))
  simp only [Aligned, takeAll, extend, List.length_append] at ha ⊢
  omega

theorem Kept.aligned (hk : Kept f g) (ha : Aligned f) : Aligned g := by
  rw [Aligned] at *
  rw [hk.stop, hk.odd, hk.received]
  exact ha

theorem aligned_ofOptions (k : StreamHeader) (swapped : Bool) (o : Options) :
    Aligned (ofOptions k swapped o) := rfl

/-- Chunks taken one by one give what a search over all of them at once gives. -/
theorem processAll_finds (ha : Aligned f) (hf : Finds f [] (some f)) (cs : List Chunk) :
    ∃ ps, calls (f.processAll cs).2.1 = ps.map .packet ∧
      Finds (f.takeAll cs) ps (leftBy (f.processAll cs)) := by
  induction cs generalizing f with
  | nil =>
    rw [takeAll_nil]
    exact ⟨[], rfl, hf⟩
  | cons c cs ih =>
    obtain ⟨ps, hps, hfinds⟩ := f.process_finds c
    have ha' := aligned_takeAll ha [c]
    have htags : ∀ t ∈ tagsOf (f.takeAll [c]).received cs,
        (f.takeAll [c]).start + (f.takeAll [c]).buffer.length ≤ t.1 := by
      intro t ht
      have := le_of_mem_tagsOf ht
      rw [Aligned] at ha'
      omega
    rw [takeAll_cons, takeAll]
    cases hp : f.process c with
    | mk g rest =>
      obtain ⟨out, fault⟩ := rest
      rw [hp] at hps hfinds
      cases fault with
      | some e =>
        simp only [processAll, hp]
        refine ⟨ps, hps, ?_⟩
        rw [← List.append_nil ps]
        exact finds_extend htags hfinds ⟨rfl, rfl⟩
      | none =>
        have hk := kept_finds hfinds
        obtain ⟨qs, hqs, hrest⟩ := ih (hk.aligned ha') (finds_again hfinds)
        rw [takeAll_congr hk.swapped hk.odd hk.received] at hrest
        simp only [processAll, hp]
        refine ⟨ps ++ qs, ?_, finds_extend htags hfinds hrest⟩
        rw [calls_append, List.map_append, hqs]
        exact congrArg (· ++ _) hps

theorem leftBy_eq_some {result : Ac3Framer × Outputs × Option SyncFault} :
    leftBy result = some g ↔ result.1 = g ∧ result.2.2 = none := by
  rw [leftBy]
  cases result.2.2 <;> simp

/-- A search over all chunks that comes to an end tells what they give one by one. -/
theorem processAll_of_finds (ha : Aligned f) (hf : Finds f [] (some f))
    (hall : Finds (f.takeAll cs) ps (some g)) :
    (f.processAll cs).1 = g ∧ packets (f.processAll cs).2.1 = ps ∧
      (f.processAll cs).2.2 = none := by
  obtain ⟨qs, hqs, hrun⟩ := processAll_finds ha hf cs
  obtain ⟨rfl, hg⟩ := finds_unique hall hrun
  obtain ⟨hleft, hnone⟩ := leftBy_eq_some.1 hg.symm
  exact ⟨hleft, packets_of_calls hqs, hnone⟩

/-- The header of an AC3 stream of which nothing but its id is known. -/
def bareHeader (id : Nat) : StreamHeader :=
  { id, kind := .audio, fourcc := "dnet", codecId := "A_AC3", family := .ac3
    params := .audio
      { sampleRate := 0, outputRate := none, channels := 0, bitsPerSample := 0, extraData := [] }
    codecPrivate := [], startTime := 0, preroll := 0, duplicateData := false
    defaultDuration := none }

/-- A sync word that belongs to no frame, and then a frame cut in two. -/
def stumble : List Chunk :=
  [{ data := [0x00, 0x0b, 0x77] ++ silentFrame.take 50, time := 0 },
    { data := silentFrame.drop 50 }]

theorem stumble_kept (h : StreamHeader) :
    ((ofOptions h false {}).processAll stumble).2.2 = none := by
  have hscan : scan ((ofOptions h false {}).takeAll stumble).buffer = (3, some silentHeader) := by
    change scan (0x00 :: 0x0b :: 0x77 :: silentFrame) = _
    rw [scan_cons_reject (by decide), scan_cons_reject (by decide +kernel),
      scan_cons_reject (by decide), scan_of_frame judge_silentFrame]
  refine (processAll_of_finds (aligned_ofOptions h false {}) (finds_of_empty rfl rfl)
    (.frame hscan ?_ (finds_of_empty ?_ rfl))).2.2
  · change 0 + 3 ≤ 65536
    omega
  · rw [buffer_emit]
    rfl

end RealMedia.Ac3Framer
