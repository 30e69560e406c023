import RealMedia.Proofs.Ac3Chunks

/-!
AC3 streams do not depend on where they are cut: two ways of cutting the same bytes give the same
packets, and lose the stream or leave the same bytes over.
-/

namespace RealMedia.Ac3Framer

open Ac3

variable {f : Ac3Framer} {h k : StreamHeader} {o q : Options} {ps : List Packet}
  {r : Option Ac3Framer} {data : Bytes} {time : Int} {swapped strict : Bool}
  {as bs cs : List Chunk}

/-- Chunks that make up a byte string, of which only the first may have a time. -/
structure IsCut (cs : List Chunk) (data : Bytes) (time : Int) : Prop where
  data : cs.flatMap (·.data) = data
  first : ∀ c ∈ cs.head?, c.time = time
  others : ∀ c ∈ cs.tail, c.time = noTime

/-- A framer under another stream header. -/
def relabel (f : Ac3Framer) (k : StreamHeader) (strict : Bool) : Ac3Framer :=
  { f with header := k, strict }

theorem reach_relabel : (f.relabel k strict).reach = f.reach.relabel k strict := by
  cases hl : (f.tags.takeWhile (·.1 ≤ f.start)).getLast? with
  | none => rw [reach_of_none hl, reach_of_none (f := f.relabel k strict) hl]
  | some t =>
    rw [reach_of_some hl, reach_of_some (f := f.relabel k strict) hl]
    rfl

theorem packetOf_relabel (x : FrameHeader) :
    (f.relabel k strict).packetOf x = { f.packetOf x with stream := k.id } := by
  simp only [packetOf, reach_relabel]
  rfl

theorem emit_relabel (x : FrameHeader) :
    ((f.relabel k strict).emit x).1 = (f.emit x).1.relabel k strict := by
  simp only [emit, reach_relabel]
  rfl

/-- The search does not look at the stream header; it only names the stream in each packet. -/
theorem finds_relabel (hf : Finds f ps r) :
    Finds (f.relabel k strict) (ps.map fun p => { p with stream := k.id })
      (r.map (·.relabel k strict)) := by
  induction hf with
  | lost hj => exact .lost hj
  | wait hs hj => exact .wait hs hj
  | @frame f n x ps r hs hj next ih =>
    rw [List.map_cons, ← packetOf_relabel (f := f.discard n)]
    refine .frame (f := f.relabel k strict) hs hj ?_
    rw [← emit_relabel] at ih
    exact ih

theorem tagsOf_untimed (hu : ∀ c ∈ cs, c.time = noTime) (received : Nat) :
    tagsOf received cs = [] := by
  induction cs generalizing received with
  | nil => rfl
  | cons c cs ih =>
    rw [tagsOf, hu c (by simp), ih fun d hd => hu d (by simp [hd])]
    rfl

/-- Taking in all chunks of a cut is taking in the byte string in one chunk. -/
theorem takeAll_cut (hc : IsCut cs data time) (hne : cs ≠ []) (f : Ac3Framer) :
    f.takeAll cs = f.takeAll [{ data, time }] := by
  cases cs with
  | nil => exact absurd rfl hne
  | cons c cs =>
    have ht : tagsOf f.received (c :: cs) = tagsOf f.received [{ data, time }] := by
      have hu := tagsOf_untimed hc.others (f.received + c.data.length)
      rw [List.tail_cons] at hu
      rw [tagsOf, hu, hc.first c rfl]
      rfl
    simp only [takeAll, hc.data, ht, List.flatMap_cons, List.flatMap_nil, List.append_nil]

theorem dropped_flush (f : Ac3Framer) : f.flush.1.dropped = f.dropped + f.left := by
  rw [flush]
  split
  · rename_i hl
    rw [hl]
    rfl
  · rfl

/-- A cut stream gives what the search over the whole byte string gives. -/
theorem processAll_cut (h : StreamHeader) (swapped : Bool) (o : Options)
    (hc : IsCut cs data time) :
    let run := (ofOptions h swapped o).processAll cs
    ∃ r, Finds ((ofOptions h swapped o).takeAll [{ data, time }]) (packets run.2.1) r ∧
      run.2.2.isSome = r.isNone ∧ ∀ g ∈ r, run.1.flush.1.dropped = g.flush.1.dropped := by
  intro run
  have hfinds : Finds (ofOptions h swapped o) [] (some (ofOptions h swapped o)) :=
    finds_of_empty rfl rfl
  by_cases hne : cs = []
  · have hd : data = [] := by rw [← hc.data, hne]; rfl
    have hrun : run = (ofOptions h swapped o, [], none) := by simp only [run, hne]; rfl
    subst hd
    refine ⟨some ((ofOptions h swapped o).takeAll [{ data := [], time }]), ?_, ?_, ?_⟩
    · rw [hrun]
      exact finds_of_empty (by simp [takeAll, extend, ofOptions]) rfl
    · rw [hrun]
      rfl
    · intro g hg
      cases hg
      rw [hrun, dropped_flush, dropped_flush]
      simp [takeAll, extend, ofOptions, left]
  · obtain ⟨ps, hps, hall⟩ := processAll_finds (aligned_ofOptions h swapped o) hfinds cs
    rw [takeAll_cut hc hne] at hall
    refine ⟨leftBy run, by rwa [packets_of_calls hps], ?_, ?_⟩
    · rw [leftBy]
      cases run.2.2 <;> rfl
    · intro g hg
      rw [leftBy] at hg
      split at hg <;> cases hg
      rfl

/-- Neither the cut nor the name of the stream changes what is found in it. -/
theorem cuts_agree (ha : IsCut as data time) (hb : IsCut bs data time)
    (hw : o.resyncWindow = q.resyncWindow) :
    let run := (ofOptions h swapped o).processAll as
    let other := (ofOptions k swapped q).processAll bs
    packets other.2.1 = (packets run.2.1).map (fun p => { p with stream := k.id }) ∧
      other.2.2.isSome = run.2.2.isSome ∧
      (run.2.2 = none → other.1.flush.1.dropped = run.1.flush.1.dropped) := by
  intro run other
  obtain ⟨r, hr, hlost, hleft⟩ := processAll_cut h swapped o ha
  obtain ⟨s, hs, hlost', hleft'⟩ := processAll_cut k swapped q hb
  have hstart : (ofOptions k swapped q).takeAll [{ data, time }] =
      ((ofOptions h swapped o).takeAll [{ data, time }]).relabel k q.strictTail := by
    simp only [takeAll, extend, ofOptions, relabel, hw]
  rw [hstart] at hs
  obtain ⟨hp, rfl⟩ := finds_unique hs (finds_relabel hr)
  refine ⟨hp, ?_, ?_⟩
  · rw [hlost, hlost', Option.isNone_map]
  · intro hn
    rw [hn] at hlost
    cases r with
    | none => cases hlost
    | some g =>
      rw [hleft g rfl, hleft' _ rfl, dropped_flush, dropped_flush]
      rfl

/-- The bytes of `stumble`, cut inside the sync word and behind nothing. -/
def stumbleCut : List Chunk :=
  [{ data := [], time := 0 }, { data := [0x00, 0x0b] }, { data := 0x77 :: silentFrame }]

theorem isCut_stumble : IsCut stumble ([0x00, 0x0b, 0x77] ++ silentFrame) 0 where
  data := rfl
  first := by simp [stumble]
  others := by simp [stumble]

theorem isCut_stumbleCut : IsCut stumbleCut ([0x00, 0x0b, 0x77] ++ silentFrame) 0 where
  data := rfl
  first := by simp [stumbleCut]
  others := by simp [stumbleCut]

theorem cuts_agree_stumble :
    IsCut stumble ([0x00, 0x0b, 0x77] ++ silentFrame) 0 ∧
      IsCut stumbleCut ([0x00, 0x0b, 0x77] ++ silentFrame) 0 ∧
      let run := (ofOptions (bareHeader 1) true {}).processAll stumble
      let other := (ofOptions (bareHeader 2) true { strictTail := true }).processAll stumbleCut
      packets other.2.1 = (packets run.2.1).map (fun p => { p with stream := 2 }) ∧
        other.2.2.isSome = run.2.2.isSome ∧
        (run.2.2 = none → other.1.flush.1.dropped = run.1.flush.1.dropped) :=
  ⟨isCut_stumble, isCut_stumbleCut, cuts_agree isCut_stumble isCut_stumbleCut rfl⟩

end RealMedia.Ac3Framer
