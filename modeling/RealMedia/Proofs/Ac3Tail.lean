import RealMedia.Proofs.Ac3Cuts
import RealMedia.Proofs.Ac3Frames
import RealMedia.Proofs.TrackOutputs

/-!
What an AC3 framer drops at the end of its stream: bytes that may still become a frame. A complete
frame is among them only if the header at their front announces one that would hold it.
-/

namespace RealMedia

namespace Ac3

variable {b : Bytes} {h x y : FrameHeader} {q : Nat}

/-- A complete frame starts here. -/
structure Complete (b : Bytes) (h : FrameHeader) : Prop where
  parsed : FrameHeader.parse? b = some h
  intact : crcMatches b h.bytes = true
  whole : h.bytes ≤ b.length

/-- A header stands here whose frame has not come to its end, and nothing speaks against it. -/
structure Unfinished (b : Bytes) (h : FrameHeader) : Prop where
  parsed : FrameHeader.parse? b = some h
  short : b.length < h.bytes
  intact : crcSpan h.bytes ≤ b.length → crcMatches b h.bytes = true

theorem Complete.judge (hc : Complete b h) : judge b = .frame h := by
  obtain ⟨r, rfl⟩ := sync_of_parse? hc.parsed
  exact judge_of_intact hc.parsed hc.intact hc.whole

theorem judge_of_scan (hs : scan b = (0, none)) : judge b = .undecided := by
  cases hj : judge b with
  | undecided => rfl
  | reject =>
    rw [scan_of_reject hj] at hs
    cases hs
  | frame h =>
    rw [scan_of_frame hj] at hs
    cases hs

/-- Where nothing can be told yet, a header announces a frame that is still to come to its end. -/
theorem unfinished_of_undecided (hj : judge b = .undecided) (hp : FrameHeader.parse? b = some h) :
    Unfinished b h := by
  obtain ⟨r, rfl⟩ := sync_of_parse? hp
  obtain ⟨hlong, -⟩ := decoder_of_parse? hp
  have hspan := crcSpan_le h.bytes
  simp only [judge, and_self, if_true, judgeSynced, if_neg (Nat.not_lt.2 hlong), hp] at hj
  refine ⟨hp, ?_, ?_⟩
  · split at hj
    · omega
    split at hj
    · cases hj
    split at hj
    · assumption
    · cases hj
  · intro hcovered
    rw [if_neg (Nat.not_lt.2 hcovered)] at hj
    split at hj
    · cases hj
    · rename_i hcrc
      simpa using hcrc

/-- Bytes of which nothing can be told are few, or begin with a header. -/
theorem parsed_of_undecided (hj : judge b = .undecided) (hb : headerSize ≤ b.length) :
    ∃ h, FrameHeader.parse? b = some h := by
  match b with
  | [] => cases hb
  | [a] => cases Nat.le_of_succ_le_succ hb
  | a :: x :: r =>
    by_cases hs : a = 0x0b ∧ x = 0x77
    · simp only [judge, if_pos hs, judgeSynced, if_neg (Nat.not_lt.2 hb)] at hj
      cases hp : FrameHeader.parse? (a :: x :: r) with
      | none => simp [hp] at hj
      | some h => exact ⟨h, rfl⟩
    · simp only [judge, if_neg hs] at hj
      cases hj

/-- A complete frame stands behind the start of such bytes, in the room of the frame that is
announced there. -/
theorem hidden_of_undecided (hj : judge b = .undecided) (hc : Complete (b.drop q) x) :
    0 < q ∧ ∃ y, FrameHeader.parse? b = some y ∧ q + x.bytes < y.bytes := by
  have hroom := hc.whole
  have hlong := headerSize_lt_of_crcMatches hc.intact
  rw [List.length_drop] at hroom
  have hq : q ≠ 0 := by
    rintro rfl
    rw [List.drop_zero] at hc
    rw [hc.judge] at hj
    cases hj
  obtain ⟨y, hy⟩ := parsed_of_undecided hj (by omega)
  have hshort := (unfinished_of_undecided hj hy).short
  exact ⟨Nat.pos_of_ne_zero hq, y, hy, by omega⟩

/-- A header that announces a frame of 2560 bytes, and belongs to none. -/
def decoy : Bytes := [0x0b, 0x77, 0x00, 0x00, 0x25, 0x40, 0xe1]

def decoyHeader : FrameHeader :=
  { sampleRate := 48000, bitRate := 640, bytes := 2560, bsid := 8, bsmod := 0, acmod := 7,
    lfe := true, channels := 6 }

theorem parse?_decoy : FrameHeader.parse? (decoy ++ silentFrame) = some decoyHeader := by
  decide +kernel

theorem complete_silentFrame : Complete silentFrame silentHeader := by
  obtain ⟨hp, hc, hl⟩ := judge_eq_frame judge_silentFrame
  exact ⟨hp, hc, hl⟩

theorem length_decoy : (decoy ++ silentFrame).length = 135 := by simp [decoy, silentFrame, zeros]

theorem scan_decoy : scan (decoy ++ silentFrame) = (0, none) := by
  refine scan_of_undecided ?_
  have hshort : (decoy ++ silentFrame).length < crcSpan decoyHeader.bytes := by
    rw [length_decoy]
    decide
  have hsynced : judge (decoy ++ silentFrame) = judgeSynced (decoy ++ silentFrame) := by
    simp only [decoy, List.cons_append, judge, and_self, if_true]
  rw [hsynced, judgeSynced, parse?_decoy]
  simp only [if_pos hshort, ite_self]

end Ac3

namespace Ac3Framer

open Ac3

variable {h : StreamHeader} {o : Options} {swapped : Bool} {cs : List Chunk}

/-- A flush drops the buffer and a byte that waits for its partner. If a header stands at the front
of the buffer, its frame is unfinished; and a complete frame in the buffer stands behind that
header, in the room that it announces. -/
theorem dropped_frames_hidden (hn : ((ofOptions h swapped o).processAll cs).2.2 = none) :
    let g := ((ofOptions h swapped o).processAll cs).1
    g.flush.1.dropped = g.buffer.length + g.odd.toList.length ∧
      (∀ y, FrameHeader.parse? g.buffer = some y → Unfinished g.buffer y) ∧
      ∀ q x, Complete (g.buffer.drop q) x →
        0 < q ∧ ∃ y, FrameHeader.parse? g.buffer = some y ∧ q + x.bytes < y.bytes := by
  intro g
  obtain ⟨ps, -, hall⟩ := processAll_finds (aligned_ofOptions h swapped o)
    (finds_of_empty rfl rfl) cs
  rw [leftBy_eq_some.2 ⟨rfl, hn⟩] at hall
  have hjudge := judge_of_scan (settled_of_finds hall).1
  refine ⟨?_, fun y hy => unfinished_of_undecided hjudge hy,
    fun q x hx => hidden_of_undecided hjudge hx⟩
  have hdropped : g.dropped = 0 := (kept_finds hall).dropped
  rw [dropped_flush, hdropped, Nat.zero_add, left]

/-- Behind a decoy a whole frame waits until the end. -/
theorem processAll_decoy (k : StreamHeader) :
    ∃ out, (ofOptions k false {}).processAll [{ data := decoy ++ silentFrame, time := 0 }] =
        ((ofOptions k false {}).takeAll [{ data := decoy ++ silentFrame, time := 0 }], out, none) ∧
      packets out = [] := by
  have hwait : Finds ((ofOptions k false {}).takeAll [{ data := decoy ++ silentFrame, time := 0 }])
      [] _ := finds_of_settled scan_decoy (Nat.zero_le _)
  obtain ⟨hleft, hout, hnone⟩ := processAll_of_finds (aligned_ofOptions k false {})
    (finds_of_empty rfl rfl) hwait
  exact ⟨_, Prod.ext hleft (Prod.ext rfl hnone), hout⟩

theorem dropped_frames_hidden_decoy :
    let run := (ofOptions (bareHeader 1) false {}).processAll
      [{ data := decoy ++ silentFrame, time := 0 }]
    run.2.2 = none ∧ Complete (run.1.buffer.drop 7) silentHeader ∧
      ∃ y, FrameHeader.parse? run.1.buffer = some y ∧ 7 + 128 < y.bytes := by
  intro run
  obtain ⟨out, hrun, -⟩ := processAll_decoy (bareHeader 1)
  have hnone : run.2.2 = none := congrArg (·.2.2) hrun
  have hcomplete : Complete (run.1.buffer.drop 7) silentHeader := by
    rw [show run.1 = _ from congrArg (·.1) hrun]
    exact complete_silentFrame
  obtain ⟨-, -, hhidden⟩ := dropped_frames_hidden hnone
  exact ⟨hnone, hcomplete, (hhidden 7 silentHeader hcomplete).2⟩

/-- A flush drops a complete frame that has not been given out. -/
theorem complete_frame_dropped :
    let run := (ofOptions (bareHeader 1) false {}).processAll
      [{ data := decoy ++ silentFrame, time := 0 }]
    run.2.2 = none ∧ packets run.2.1 = [] ∧ Complete (run.1.buffer.drop 7) silentHeader ∧
      run.1.flush.1.dropped = 135 ∧ calls run.1.flush.2 = [] := by
  obtain ⟨out, hrun, hout⟩ := processAll_decoy (bareHeader 1)
  intro run
  rw [show run = _ from hrun]
  refine ⟨rfl, hout, complete_silentFrame, ?_, calls_flush _⟩
  simp [dropped_flush, left, takeAll, extend, ofOptions, unswapped, oddAfter, decoy, silentFrame,
    zeros]

end Ac3Framer

end RealMedia
