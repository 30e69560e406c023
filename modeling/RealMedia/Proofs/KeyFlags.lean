import RealMedia.Proofs.FragmentOrigins

/-!
Which frames are key frames. Of the frames that start in a chunk only the first one can be, and it
is one exactly if the chunk is marked and its first fragment starts the frame: behind a frame from
before that the chunk goes on with, the mark is lost.
-/

namespace RealMedia.RealVideo.Assembly

variable {made : List Batch} {o : Option Batch} {b : Batch} {q : Request} {qs : List Request}

/-- Of two batches the first one begins before the other. -/
theorem firsts_ordered (h : landings 0 qs = (made ++ o.toList).flatMap Batch.pieces) :
    made.Pairwise fun b c => b.first.Before c.first := by
  have hall : ((made ++ o.toList).flatMap Batch.pieces).Pairwise Landing.Before :=
    h ▸ landings_ordered
  have hbatches := (List.pairwise_flatMap.1 hall).2.sublist (List.sublist_append_left made _)
  refine hbatches.imp ?_
  intro b c hbc
  exact hbc b.first List.mem_cons_self c.first List.mem_cons_self

/-- A batch begins with a fragment of the request that its number tells. -/
theorem request_first (h : landings 0 qs = (made ++ o.toList).flatMap Batch.pieces)
    (hb : b ∈ made) : qs[b.first.turn]? = some b.first.request := by
  have hmem : b.first ∈ landings 0 qs := by
    rw [h]
    exact List.mem_flatMap.2 ⟨b, List.mem_append_left _ hb, List.mem_cons_self⟩
  exact (of_mem_landings hmem).2.1

/-- Of the frames that start with fragments of one request, whenever they are handed out, the first
one has the key flag of the request, unless the flag is set and another fragment of the request
comes before the frame. All others have none. -/
theorem key_flags_of_started (stream : Nat) (qs : List Request) :
    let r := ({ stream } : Assembly).answerAll qs
    ∃ (made : List Batch) (o : Option Batch),
      r.2.flatMap (·.frames) = made.map (·.set.frame) ∧ r.1.pending = o.map (·.set) ∧
      landings 0 qs = (made ++ o.toList).flatMap Batch.pieces ∧
      ∀ i q, qs[i]? = some q →
        let started := made.filter (·.first.turn = i)
        (∀ b ∈ started.head?,
          b.set.frame.key = q.key ↔ (q.key = true → b.first.place = 0)) ∧
        ∀ b ∈ started.tail, b.set.frame.key = false := by
  intro r
  obtain ⟨made, o, hframes, hfair, hholds, hpieces⟩ := gathered stream qs
  refine ⟨made, o, hframes, hholds.pending, hpieces, ?_⟩
  intro i q hq started
  have hkey : ∀ b ∈ started, b.set.frame.key = (q.key && b.first.place == 0) := by
    intro b hb
    obtain ⟨hmade, hturn⟩ := List.mem_filter.1 hb
    have hrequest := request_first hpieces hmade
    rw [of_decide_eq_true hturn, hq, Option.some.injEq] at hrequest
    rw [hrequest]
    exact (hfair b hmade).key
  refine ⟨?_, ?_⟩
  · intro b hb
    rw [hkey b (List.mem_of_mem_head? hb)]
    cases q.key <;> simp
  · intro b hb
    have hordered : started.Pairwise fun b c => b.first.Before c.first :=
      (firsts_ordered hpieces).filter _
    cases hs : started with
    | nil => simp [hs] at hb
    | cons c rest =>
      rw [hs, List.tail_cons] at hb
      rw [hs] at hordered
      have hb' : b ∈ started := hs ▸ List.mem_cons_of_mem c hb
      have hturnb : b.first.turn = i := by simpa using (List.mem_filter.1 hb').2
      have hc : c ∈ started := hs ▸ List.mem_cons_self
      have hturnc : c.first.turn = i := by simpa using (List.mem_filter.1 hc).2
      have hplace : b.first.place ≠ 0 := by
        rcases List.rel_of_pairwise_cons hordered hb with hlt | ⟨-, hlt⟩ <;> omega
      rw [hkey b hb', beq_eq_false_iff_ne.2 hplace, Bool.and_false]

/-- The start of a frame of five bytes. -/
def halfChunk : Bytes := [0x00, 0x00, 0x40, 0x05, 0x40, 0x00, 0x00, 0x41, 0x42]

/-- The end of that frame and then a whole frame of two bytes. -/
def restChunk : Bytes :=
  [0x00, 0x00, 0x40, 0x05, 0x40, 0x02, 0x00, 0x43, 0x44, 0x45,
    0x00, 0x00, 0x40, 0x02, 0x40, 0x00, 0x00, 0x46, 0x47]

/-- The second chunk is marked, its second fragment is a frame, and this is no key frame. -/
theorem key_flag_lost :
    (Fragment.ofChunk restChunk).1.map (·.data) = [[0x43, 0x44, 0x45], [0x46, 0x47]] ∧
    (({ stream := 0 } : Assembly).answerAll
        [.chunk halfChunk 0 false, .chunk restChunk 0 true]).2.map
      (fun r => r.frames.map fun x => (x.data, x.key)) =
    [[], [([0x41, 0x42, 0x43, 0x44, 0x45], false), ([0x46, 0x47], false)]] := by
  refine ⟨by decide +kernel, ?_⟩
  let older : Pending :=
    { fragments := (Fragment.ofChunk halfChunk).1 ++ (Fragment.ofChunk restChunk).1.take 1
      total := 5, merged := false, key := false, time := 0 }
  let newer : Pending :=
    { fragments := (Fragment.ofChunk restChunk).1.drop 1
      total := 2, merged := false, key := false, time := 0 }
  -- Sorting does not compute, so the frames are named here and laid out below.
  have hout : (({ stream := 0 } : Assembly).answerAll
      [.chunk halfChunk 0 false, .chunk restChunk 0 true]).2.map
        (fun r => r.frames.map fun x => (x.data, x.key)) =
      [[], [(older.frame.data, older.frame.key), (newer.frame.data, newer.frame.key)]] := by
    with_unfolding_all rfl
  have holder : older.frame = older.whole [[0x41, 0x42], [0x43, 0x44, 0x45]] :=
    Pending.frame_of_perm (by decide) (.of_eq (by decide +kernel)) rfl
  have hnewer : newer.frame = newer.whole [[0x46, 0x47]] :=
    Pending.frame_of_perm (by decide) (.of_eq (by decide +kernel)) rfl
  rw [hout, holder, hnewer]
  rfl

end RealMedia.RealVideo.Assembly
