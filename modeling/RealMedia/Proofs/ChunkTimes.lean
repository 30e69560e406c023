import RealMedia.Proofs.FragmentOrigins
import RealMedia.Proofs.FragmentReading

/-!
The times of the frames that come in chunks. All fragments of a frame come from chunks of one time,
and this is the time of the frame unless the header of its last fragment gives another one.
-/

namespace RealMedia.RealVideo.Assembly

variable {made : List Batch} {o : Option Batch} {b : Batch} {q : Request} {qs : List Request}
  {x y : Landing} {xs : List Landing}

/-- Fragments come in chunks only. -/
def Request.Chunked : Request → Prop
  | .fragment .. => False
  | _ => True

instance : (q : Request) → Decidable q.Chunked
  | .chunk .. => isTrue trivial
  | .fragment .. => isFalse id
  | .flush => isTrue trivial

/-- The fragment has been read from a chunk. -/
structure Landing.Streamed (x : Landing) : Prop where
  chunk : ∃ data time key, x.request = .chunk data time key
  closing : x.fragment.header.Closing

theorem streamed_of_mem (hqs : ∀ q ∈ qs, q.Chunked) (hx : x ∈ landings 0 qs) : x.Streamed := by
  obtain ⟨-, hrequest, hfragment⟩ := of_mem_landings hx
  have hchunked := hqs _ (List.mem_of_getElem? hrequest)
  cases hq : x.request with
  | chunk data time key =>
    rw [hq] at hfragment
    have hclosing := Fragment.forall_ofChunk (fun _ _ _ => FragmentHeader.closing_of_read) data
    exact ⟨⟨data, time, key, hq⟩, hclosing _ hfragment⟩
  | fragment =>
    rw [hq] at hchunked
    exact hchunked.elim
  | flush =>
    rw [hq] at hfragment
    cases hfragment

/-- A fragment that others follow has the time of its chunk. -/
theorem Landing.Streamed.time_eq (hx : x.Streamed) (hopen : x.fragment.header.isLast = false) :
    x.fragment.header.time = none := by
  by_contra h
  have := hx.closing.last (Option.isSome_iff_ne_none.2 h)
  rw [hopen] at this
  cases this

/-- The next fragment of a frame comes from a chunk of the same time. -/
theorem Landing.Precedes.time_eq (h : x.Precedes y) (hx : x.Streamed) (hy : y.Streamed) :
    x.time = x.request.time ∧ y.request.time = x.request.time := by
  have hown : x.time = x.request.time := by
    rw [Landing.time, hx.time_eq h.goesOn, Option.getD_none]
  refine ⟨hown, ?_⟩
  rcases h.time with hsame | htime
  · rw [hsame]
  · obtain ⟨data, time, key, hq⟩ := hy.chunk
    rw [hq, ← hown, ← htime data time key hq]
    rfl

/-- Along a frame the chunks have one time, and only the last header may change that of it. -/
theorem times_of_chain (hlinked : (x :: xs).IsChain Landing.Precedes)
    (hall : ∀ y ∈ x :: xs, y.Streamed) :
    (∀ y ∈ xs, y.request.time = x.request.time) ∧
      xs.foldl (fun t y => y.fragment.header.time.getD t) x.time =
        (xs.getLast?.getD x).fragment.header.time.getD x.request.time := by
  induction xs generalizing x with
  | nil => exact ⟨by simp, rfl⟩
  | cons y ys ih =>
    obtain ⟨hxy, hrest⟩ := List.isChain_cons_cons.1 hlinked
    obtain ⟨hown, hnext⟩ := hxy.time_eq (hall x (by simp)) (hall y (by simp))
    obtain ⟨hsame, hfold⟩ := ih hrest fun z hz => hall z (List.mem_cons_of_mem x hz)
    refine ⟨?_, ?_⟩
    · intro z hz
      rcases List.mem_cons.1 hz with rfl | hz
      · exact hnext
      · exact (hsame z hz).trans hnext
    · have htime : y.fragment.header.time.getD x.time = y.time := by
        rw [hown, ← hnext]
        rfl
      rw [List.foldl_cons, htime, hfold, hnext, List.getLast?_cons, Option.getD_some]

/-- The fragments of a batch come from chunks of one time. -/
theorem Batch.Fair.times (hb : b.Fair) (hall : ∀ x ∈ b.pieces, x.Streamed) :
    (∀ x ∈ b.pieces, x.request.time = b.first.request.time) ∧
      b.set.time = b.last.fragment.header.time.getD b.first.request.time := by
  obtain ⟨hsame, hfold⟩ := times_of_chain hb.linked hall
  refine ⟨?_, hb.time.trans hfold⟩
  intro x hx
  rcases List.mem_cons.1 hx with rfl | hx
  · rfl
  · exact hsame x hx

theorem Batch.last_mem (b : Batch) : b.last ∈ b.pieces :=
  List.mem_of_getLast? b.getLast?_pieces

/-- The fragments of a frame come from chunks of one time. The frame has this time, or the one that
the header of its last fragment gives. The unfinished frame has the time of the chunk that has
brought its last fragment. -/
theorem one_time_for_frame (stream : Nat) (qs : List Request) (hqs : ∀ q ∈ qs, q.Chunked) :
    let r := ({ stream } : Assembly).answerAll qs
    ∃ (made : List Batch) (o : Option Batch),
      r.2.flatMap (·.frames) = made.map (·.set.frame) ∧ r.1.pending = o.map (·.set) ∧
      landings 0 qs = (made ++ o.toList).flatMap Batch.pieces ∧
      (∀ b ∈ made, ∃ t, (∀ x ∈ b.pieces, ∃ data key, x.request = .chunk data t key) ∧
        b.set.frame.time = b.last.fragment.header.time.getD t ∧
        (b.last.fragment.header.time.isSome ↔
          FragmentKind.ofDescriptor b.last.fragment.header.descriptor = .timed)) ∧
      ∀ b ∈ o, ∃ data key, b.last.request = .chunk data b.set.time key := by
  intro r
  obtain ⟨made, o, hframes, hfair, hholds, hpieces⟩ := gathered stream qs
  have hall : ∀ b ∈ made ++ o.toList, ∀ x ∈ b.pieces, x.Streamed := by
    intro b hb x hx
    refine streamed_of_mem hqs ?_
    rw [hpieces]
    exact List.mem_flatMap.2 ⟨b, hb, hx⟩
  have hchunk : ∀ x : Landing, x.Streamed →
      ∃ data key, x.request = .chunk data x.request.time key := by
    intro x hx
    obtain ⟨data, time, key, hq⟩ := hx.chunk
    exact ⟨data, key, by rw [hq]; rfl⟩
  refine ⟨made, o, hframes, hholds.pending, hpieces, ?_, ?_⟩
  · intro b hb
    have hstreamed := hall b (List.mem_append_left _ hb)
    obtain ⟨hsame, htime⟩ := (hfair b hb).times hstreamed
    refine ⟨b.first.request.time, ?_, htime, (hstreamed _ b.last_mem).closing.timed⟩
    intro x hx
    rw [← hsame x hx]
    exact hchunk x (hstreamed x hx)
  · intro b hb
    have hstreamed := hall b (List.mem_append_right _ (Option.mem_toList.2 hb))
    obtain ⟨hsame, htime⟩ := (hholds.fair b hb).times hstreamed
    have hlast := hstreamed _ b.last_mem
    have hown : b.set.time = b.last.request.time := by
      rw [htime, hlast.time_eq (hholds.goesOn b hb), Option.getD_none, hsame _ b.last_mem]
    rw [hown]
    exact hchunk _ hlast

/-- Half of a frame, the other half with a time of seven milliseconds, and half of another frame. -/
def timedChunks : List Request :=
  [.chunk [0x00, 0x00, 0x40, 0x04, 0x40, 0x00, 0x00, 0x41, 0x42] 40 true,
    .chunk [0xc0, 0x40, 0x04, 0x40, 0x07, 0x00, 0x43, 0x44] 40 false,
    .chunk [0x00, 0x00, 0x40, 0x04, 0x40, 0x00, 0x00, 0x45, 0x46] 70 false]

def timedRun : Assembly × List Reply := ({ stream := 0 } : Assembly).answerAll timedChunks

theorem one_time_for_timed :
    (∀ q ∈ timedChunks, q.Chunked) ∧ (timedRun.2.flatMap (·.frames)).map (·.time) = [7000000] ∧
    timedRun.1.pending.map (·.time) = some 70 ∧
    ∃ (made : List Batch) (o : Option Batch),
      timedRun.2.flatMap (·.frames) = made.map (·.set.frame) ∧
      timedRun.1.pending = o.map (·.set) ∧
      landings 0 timedChunks = (made ++ o.toList).flatMap Batch.pieces ∧
      (∀ b ∈ made, ∃ t, (∀ x ∈ b.pieces, ∃ data key, x.request = .chunk data t key) ∧
        b.set.frame.time = b.last.fragment.header.time.getD t ∧
        (b.last.fragment.header.time.isSome ↔
          FragmentKind.ofDescriptor b.last.fragment.header.descriptor = .timed)) ∧
      ∀ b ∈ o, ∃ data key, b.last.request = .chunk data b.set.time key := by
  refine ⟨by decide, by decide +kernel, by decide +kernel, ?_⟩
  exact one_time_for_frame 0 timedChunks (by decide)

end RealMedia.RealVideo.Assembly
