import Mathlib.Data.List.Forall2
import RealMedia.Proofs.Ac3Codes
import RealMedia.Proofs.Ac3Sync

/-!
AC3 frames one behind the other: the search finds each of them and throws nothing away, also where
their bytes arrive swapped and cut into chunks at any place.
-/

namespace RealMedia

namespace Ac3

open BitDecoder

variable {b : Bytes} {h : FrameHeader}

theorem decoder_of_parse? (hp : FrameHeader.parse? b = some h) :
    headerSize ≤ b.length ∧
      ∃ e, FrameHeader.decoder ⟨0, Bits.ofBytes (b.take headerSize)⟩ = .ok (some h) e := by
  rw [FrameHeader.parse?] at hp
  split at hp
  · rename_i hlen
    rw [Option.join_eq_some_iff, decode?] at hp
    split at hp
    · rename_i r e hd
      cases hp
      exact ⟨by simpa using hlen, e, hd⟩
    · cases hp
  · cases hp

/-- A whole frame whose check word matches, and its header. -/
structure Frame where
  data : Bytes
  header : FrameHeader
  parsed : FrameHeader.parse? data = some header
  whole : data.length = header.bytes
  intact : crcMatches data header.bytes = true

def silence : Frame where
  data := silentFrame
  header := silentHeader
  parsed := (judge_eq_frame judge_silentFrame).1
  whole := rfl
  intact := (judge_eq_frame judge_silentFrame).2.1

/-- The bytes of frames one behind the other. -/
def joined (xs : List Frame) : Bytes := xs.flatMap (·.data)

theorem joined_cons (x : Frame) (xs : List Frame) : joined (x :: xs) = x.data ++ joined xs := rfl

theorem Frame.judge_data (x : Frame) : judge x.data = .frame x.header := by
  obtain ⟨r, hr⟩ := sync_of_parse? x.parsed
  have hp := x.parsed
  have hc := x.intact
  have hlen := x.whole
  rw [hr] at hp hc hlen ⊢
  exact judge_of_intact hp hc (Nat.le_of_eq hlen.symm)

theorem Frame.scan_append (x : Frame) (b : Bytes) : scan (x.data ++ b) = (0, some x.header) :=
  scan_append_some (scan_of_frame x.judge_data)

theorem even_joined (xs : List Frame) : (joined xs).length % 2 = 0 := by
  induction xs with
  | nil => rfl
  | cons x xs ih =>
    have hx := even_of_parse? x.parsed
    rw [joined_cons, List.length_append, x.whole]
    omega

theorem length_swapPairs (b : Bytes) : (swapPairs b).length = b.length - b.length % 2 := by
  fun_induction swapPairs b with
  | case1 a x rest ih =>
    simp only [List.length_cons, ih]
    omega
  | case2 b hb =>
    rcases b with _ | ⟨a, _ | ⟨x, rest⟩⟩
    · rfl
    · rfl
    · exact (hb a x rest rfl).elim

/-- Swapping twice changes nothing if no byte is left over. -/
theorem swapPairs_swapPairs (hb : b.length % 2 = 0) : swapPairs (swapPairs b) = b := by
  fun_induction swapPairs b with
  | case1 a x rest ih =>
    rw [swapPairs, ih]
    simp only [List.length_cons] at hb
    omega
  | case2 b hn =>
    rcases b with _ | ⟨a, _ | ⟨x, rest⟩⟩
    · rfl
    · cases hb
    · exact (hn a x rest rfl).elim

end Ac3

/-- A packet carries a frame, which needs no other one. -/
structure Carries (p : Packet) (x : Ac3.Frame) : Prop where
  data : p.data = x.data
  duration : p.duration = x.header.duration
  backward : p.backward = noTime

namespace Ac3Framer

open Ac3

variable {f : Ac3Framer} {b : Bytes} {xs : List Frame} {cs : List Chunk}

theorem packetOf_frame (x : Frame) (hb : f.buffer = x.data ++ b) :
    Carries (f.packetOf x.header) x := by
  refine ⟨?_, rfl, rfl⟩
  change f.buffer.take x.header.bytes = x.data
  rw [hb, ← x.whole, List.take_left]

/-- A search through frames one behind the other finds each of them, and throws nothing away. -/
theorem finds_frames (hb : f.buffer = joined xs) (hj : f.junk = 0) :
    ∃ ps g, Finds f ps (some g) ∧ List.Forall₂ Carries ps xs ∧ g.buffer = [] ∧
      g.first = f.first.or (xs.head?.map (·.header)) := by
  -- Behind each frame the framer is again without junk, so the window does not matter.
  induction xs generalizing f with
  | nil => exact ⟨[], f, finds_of_empty hb hj, .nil, hb, by simp⟩
  | cons x xs ih =>
    have hs : scan f.buffer = (0, some x.header) := by rw [hb, joined_cons, x.scan_append]
    have hbehind : (f.emit x.header).1.buffer = joined xs := by
      rw [buffer_emit, hb, joined_cons, ← x.whole, List.drop_left]
    obtain ⟨ps, g, hfinds, hps, hempty, hfirst⟩ := ih hbehind rfl
    have hnext : Finds f _ (some g) := .frame hs (by omega) (by rwa [discard_zero])
    rw [discard_zero] at hnext
    refine ⟨_, g, hnext, .cons (packetOf_frame x hb) hps, hempty, ?_⟩
    rw [hfirst]
    change (some (f.first.getD x.header)).or _ = _
    cases f.first <;> rfl

/-- What a framer makes of swapped frames, wherever they are cut. -/
theorem processAll_swapped (k : StreamHeader) (o : Options)
    (hc : cs.flatMap (·.data) = swapPairs (joined xs)) :
    ∃ g out, (ofOptions k true o).processAll cs = (g, out, none) ∧
      List.Forall₂ Carries (packets out) xs ∧ g.left = 0 ∧ g.dropped = 0 ∧
      g.first = xs.head?.map (·.header) := by
  have heven := even_joined xs
  have hbuffer : ((ofOptions k true o).takeAll cs).buffer = joined xs := by
    change unswapped true none (cs.flatMap (·.data)) = _
    rw [hc, unswapped_none, streamOf, if_pos rfl, swapPairs_swapPairs heven]
  obtain ⟨ps, g, hfinds, hps, hempty, hfirst⟩ := finds_frames hbuffer rfl
  obtain ⟨hg, hout, hnone⟩ := processAll_of_finds (aligned_ofOptions k true o)
    (finds_of_empty rfl rfl) hfinds
  have hkept := kept_finds hfinds
  -- Frames have whole words, so no byte is left without a partner.
  have hodd : g.odd.toList.length = 0 := by
    have hlen := length_unswapped true none (cs.flatMap (·.data))
    have hready : (unswapped true none (cs.flatMap (·.data))).length = (joined xs).length :=
      congrArg List.length hbuffer
    rw [hready, hc, length_swapPairs] at hlen
    rw [hkept.odd]
    change (oddAfter true none (cs.flatMap (·.data))).toList.length = 0
    rw [hc]
    simp only [Option.toList_none, List.length_nil] at hlen
    omega
  refine ⟨g, _, Prod.ext hg (Prod.ext rfl hnone), by rwa [hout], ?_, hkept.dropped, hfirst⟩
  rw [left, hempty, hodd]
  rfl

end Ac3Framer

end RealMedia
