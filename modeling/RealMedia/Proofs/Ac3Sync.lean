import RealMedia.Proofs.Ac3Chunks

/-!
The frames found in an AC3 stream: each is an intact frame of the stream, and no place that has been
passed over starts one.
-/

namespace RealMedia.Ac3

variable {b : Bytes} {h : FrameHeader}

/-- The bytes are a whole frame: a sync word, a header that tells their number, and a check word
that matches. -/
def IsFrame (b : Bytes) : Prop :=
  [0x0b, 0x77] <+: b ∧
    ∃ h, FrameHeader.parse? b = some h ∧ h.bytes = b.length ∧ crcMatches b b.length = true

/-- No frame starts here: there is no sync word, the header is invalid, or the check word of the
frame that the header announces does not match. -/
def NoFrameStart (b : Bytes) : Prop :=
  ¬ [0x0b, 0x77] <+: b ∨
    (headerSize ≤ b.length ∧ FrameHeader.parse? b = none) ∨
    ∃ h, FrameHeader.parse? b = some h ∧ crcSpan h.bytes ≤ b.length ∧
      crcMatches b h.bytes = false

/-- The byte strings are frames of `s` at or behind `pos`, in order and apart from each other, and
between them no frame starts. -/
inductive FoundIn (s : Bytes) : Nat → List Bytes → Prop
  | none {pos : Nat} : FoundIn s pos []
  | frame {pos start n : Nat} {more : List Bytes} (hle : pos ≤ start) (hstop : start + n ≤ s.length)
    (hframe : IsFrame ((s.drop start).take n))
    (hgap : ∀ q, pos ≤ q → q < start → NoFrameStart (s.drop q))
    (rest : FoundIn s (start + n) more) : FoundIn s pos ((s.drop start).take n :: more)

/-- 16-bit words with their bytes exchanged, without an odd last byte. -/
def swapPairs : Bytes → Bytes
  | a :: b :: rest => b :: a :: swapPairs rest
  | _ => []

/-- The stream that the bytes of all chunks carry. -/
def streamOf (swapped : Bool) (data : Bytes) : Bytes := if swapped then swapPairs data else data

theorem noFrameStart_of_judgeSynced (hj : judgeSynced b = .reject) : NoFrameStart b := by
  right
  rw [judgeSynced] at hj
  split at hj
  · cases hj
  rename_i hlen
  cases hp : FrameHeader.parse? b with
  | none => exact .inl ⟨by omega, rfl⟩
  | some h =>
    simp only [hp] at hj
    split at hj
    · cases hj
    rename_i hspan
    split at hj
    · rename_i hcrc
      exact .inr ⟨h, rfl, by omega, by simpa using hcrc⟩
    · split at hj <;> cases hj

theorem noFrameStart_of_judge (hj : judge b = .reject) : NoFrameStart b := by
  match b with
  | [] => cases hj
  | [a] => exact .inl (by simp)
  | a :: x :: r =>
    by_cases hs : a = 0x0b ∧ x = 0x77
    · simp only [judge, if_pos hs] at hj
      exact noFrameStart_of_judgeSynced hj
    · refine .inl fun hp => hs ?_
      simp only [List.cons_prefix_cons, List.nil_prefix, and_true] at hp
      exact ⟨hp.1.symm, hp.2.symm⟩

theorem parse?_take_of_judge (hj : judge b = .frame h) :
    FrameHeader.parse? (b.take h.bytes) = some h := by
  obtain ⟨hp, hcrc, hlen⟩ := judge_eq_frame hj
  have hlong := headerSize_lt_of_crcMatches hcrc
  have hb : headerSize ≤ (b.take h.bytes).length := by
    rw [List.length_take]
    omega
  rw [← parse?_append (c := b.drop h.bytes) hb, List.take_append_drop, hp]

theorem isFrame_of_judge (hj : judge b = .frame h) : IsFrame (b.take h.bytes) := by
  obtain ⟨-, hcrc, hlen⟩ := judge_eq_frame hj
  have hlong := headerSize_lt_of_crcMatches hcrc
  have hspan := crcSpan_le h.bytes
  have hb : (b.take h.bytes).length = h.bytes := List.length_take_of_le hlen
  refine ⟨?_, h, parse?_take_of_judge hj, hb.symm, ?_⟩
  · obtain ⟨r, rfl⟩ := judge_frame_synced hj
    refine List.prefix_take_iff.2 ⟨⟨r, rfl⟩, ?_⟩
    simp only [headerSize] at hlong
    simp only [List.length_cons, List.length_nil]
    omega
  · rw [hb, ← crcMatches_append (c := b.drop h.bytes) (by omega), List.take_append_drop, hcrc]

end Ac3

namespace Ac3Framer

open Ac3

variable {f g : Ac3Framer} {h : StreamHeader} {o : Options} {ps : List Packet} {s : Bytes}
  {swapped : Bool} {cs : List Chunk}

theorem unswapped_none (swapped : Bool) (data : Bytes) :
    unswapped swapped none data = streamOf swapped data := by
  cases swapped with
  | false => rfl
  | true =>
    simp only [unswapped, streamOf, if_true]
    fun_induction swapPairs data with
    | case1 a b rest ih =>
      rw [List.foldl_cons, List.foldl_cons, foldl_push, List.reverse_append]
      exact congrArg ([b, a] ++ ·) ih
    | case2 data hd =>
      cases data with
      | nil => rfl
      | cons a rest =>
        cases rest with
        | nil => rfl
        | cons b rest => exact (hd a b rest rfl).elim

theorem start_emit {x : FrameHeader} : (f.emit x).1.start = f.start + x.bytes := by
  have : f.reach.start = f.start := by rw [reach]; split <;> rfl
  simp only [emit, advance, this]

/-- A frame that is found in the rest of a stream is one of the stream, and no place that has been
passed over starts one. -/
theorem frame_of_scan {n : Nat} {x : FrameHeader} (hs : f.buffer = s.drop f.start)
    (hn : scan f.buffer = (n, some x)) :
    f.start + n + x.bytes ≤ s.length ∧
      judge (s.drop (f.start + n)) = .frame x ∧
      (∀ q, f.start ≤ q → q < f.start + n → NoFrameStart (s.drop q)) ∧
      ((f.discard n).emit x).1.buffer = s.drop ((f.discard n).emit x).1.start := by
  have hjudge := judge_at_scan hn
  have hx := bytes_le_of_scan hn
  have hbuf : (f.discard n).buffer = s.drop (f.start + n) := by
    rw [buffer_discard, hs, List.drop_drop]
  have hpos : 0 < x.bytes :=
    Nat.zero_lt_of_lt (headerSize_lt_of_crcMatches (judge_eq_frame hjudge).2.1)
  refine ⟨?_, ?_, ?_, ?_⟩
  · rw [hbuf, List.length_drop] at hx
    omega
  · rwa [← hbuf]
  · intro q hq hlt
    have hrej : judge (f.buffer.drop (q - f.start)) = .reject :=
      judge_before_scan (by rw [hn]; omega)
    rw [hs, List.drop_drop, Nat.add_sub_of_le hq] at hrej
    exact noFrameStart_of_judge hrej
  · rw [buffer_emit, start_emit, hbuf, List.drop_drop, start_discard]

/-- A search through the rest of a stream finds the frames of the stream. -/
theorem foundIn_of_finds (hs : f.buffer = s.drop f.start) (hf : Finds f ps (some g)) :
    FoundIn s f.start (ps.map (·.data)) := by
  generalize hr : some g = o at hf
  induction hf with
  | lost => cases hr
  | wait => exact .none
  | @frame f n x ps r hn hj next ih =>
    obtain ⟨hstop, hjudge, hgap, hnext⟩ := frame_of_scan hs hn
    have hdata : ((f.discard n).packetOf x).data = (s.drop (f.start + n)).take x.bytes := by
      rw [← List.drop_drop, ← hs]
      rfl
    rw [List.map_cons, hdata]
    refine .frame (Nat.le_add_right _ _) hstop (isFrame_of_judge hjudge) hgap ?_
    have := ih hnext hr
    rwa [start_emit, start_discard] at this

/-- A stream that is not lost gives exactly the frames that start where nothing before them does. -/
theorem foundIn_stream
    (hn : ((ofOptions h swapped o).processAll cs).2.2 = none) :
    FoundIn (streamOf swapped (cs.flatMap (·.data))) 0
      ((packets ((ofOptions h swapped o).processAll cs).2.1).map (·.data)) := by
  obtain ⟨ps, hps, hall⟩ := processAll_finds (aligned_ofOptions h swapped o)
    (finds_of_empty rfl rfl) cs
  rw [packets_of_calls hps]
  simp only [leftBy, hn] at hall
  refine foundIn_of_finds (f := (ofOptions h swapped o).takeAll cs) ?_ hall
  exact unswapped_none swapped (cs.flatMap (·.data))

theorem foundIn_stumble :
    ((ofOptions (bareHeader 1) false {}).processAll stumble).2.2 = none ∧
      FoundIn (streamOf false (stumble.flatMap (·.data))) 0
        ((packets ((ofOptions (bareHeader 1) false {}).processAll stumble).2.1).map (·.data)) :=
  ⟨stumble_kept _, foundIn_stream (stumble_kept _)⟩

end Ac3Framer

end RealMedia
