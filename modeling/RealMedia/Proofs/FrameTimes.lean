import RealMedia.Proofs.AssemblySteps
import RealMedia.Proofs.FragmentReading

/-! No frame has a time below zero if the chunks have none. -/

namespace RealMedia.RealVideo

variable {p : Pending} {f : Fragment} {fs : List Fragment} {xs ys : List Frame} {time : Int}
  {key : Bool}

/-- The time that a header may give counts from zero. -/
def FragmentHeader.Timed (h : FragmentHeader) : Prop := ∀ t ∈ h.time, 0 ≤ t

theorem FragmentHeader.timed_decoder {c e : Cursor} {h : FragmentHeader}
    (hr : decoder c = .ok h e) : h.Timed := by
  rcases decoder_eq_ok hr with ⟨d, s, -, -, rfl⟩ | ⟨x, -, -, rfl⟩
  · rintro t ⟨⟩
  · intro t ht
    simp only [LongHeader.header] at ht
    split at ht
    · cases ht
      omega
    · cases ht

namespace Assembly

variable {a b c : Assembly}

/-- The unfinished frame has a time not below zero. -/
def Timed (a : Assembly) : Prop := ∀ p ∈ a.pending, 0 ≤ p.time

theorem timed_flush (ha : a.Timed) : a.flush.1.Timed ∧ ∀ x ∈ a.flush.2.1, 0 ≤ x.time := by
  rw [flush]
  cases hp : a.pending with
  | none => simp [Timed, hp]
  | some p =>
    refine ⟨by simp [Timed], ?_⟩
    rintro x ⟨⟩
    exact ha p hp

theorem timed_opened (ha : a.Timed) (hf : f.header.Timed) (ht : 0 ≤ time) (key : Bool) :
    0 ≤ (a.opened f time key).time := by
  rw [opened, Pending.add]
  dsimp only
  cases hh : f.header.time with
  | some t => exact hf t hh
  | none =>
    cases hp : a.pending with
    | none => exact ht
    | some p => exact ha p hp

theorem timed_push (ha : a.Timed) (hf : f.header.Timed) (ht : 0 ≤ time) (key : Bool) :
    (a.push f time key).1.Timed ∧ ∀ x ∈ (a.push f time key).2.1, 0 ≤ x.time := by
  have hopen := timed_opened ha hf ht key
  rcases a.push_cases f time key with ⟨-, notes, hpush⟩ | ⟨notes, hpush⟩
  · rw [hpush]
    refine ⟨?_, by rintro x ⟨⟩⟩
    rintro p ⟨⟩
    exact hopen
  · rw [hpush]
    refine ⟨by rintro p ⟨⟩, ?_⟩
    rintro x ⟨⟩
    exact hopen

theorem timed_pushAll (ha : a.Timed) (hf : ∀ f ∈ fs, f.header.Timed) (ht : 0 ≤ time) (key : Bool) :
    (a.pushAll time key fs).1.Timed ∧ ∀ x ∈ (a.pushAll time key fs).2.1, 0 ≤ x.time := by
  induction fs generalizing a key with
  | nil => exact ⟨ha, by simp [pushAll]⟩
  | cons f fs ih =>
    obtain ⟨hone, hframe⟩ := timed_push ha (hf f (by simp)) ht key
    obtain ⟨hrest, hframes⟩ :=
      ih hone (fun g hg => hf g (by simp [hg])) (key && (a.push f time key).2.1.isNone)
    refine ⟨hrest, ?_⟩
    intro x hx
    rcases List.mem_append.1 hx with hx | hx
    · exact hframe x (Option.mem_toList.1 hx)
    · exact hframes x hx

theorem timed_pushChunk (ha : a.Timed) (chunk : Bytes) (ht : 0 ≤ time) (key : Bool) :
    (a.pushChunk chunk time key).1.Timed ∧
      ∀ x ∈ (a.pushChunk chunk time key).2.frames, 0 ≤ x.time := by
  have hcut := Fragment.forall_ofChunk (fun _ _ _ => FragmentHeader.timed_decoder) chunk
  rw [pushChunk]
  by_cases hleft : (a.pending.isSome && time ≠ a.lastTime) = true
  · obtain ⟨hflush, hframe⟩ := timed_flush ha
    obtain ⟨hrest, hframes⟩ := timed_pushAll hflush hcut ht key
    rw [if_pos hleft]
    refine ⟨hrest, ?_⟩
    intro x hx
    rcases List.mem_append.1 hx with hx | hx
    · exact hframe x (Option.mem_toList.1 hx)
    · exact hframes x hx
  · obtain ⟨hrest, hframes⟩ := timed_pushAll ha hcut ht key
    rw [if_neg hleft]
    exact ⟨hrest, hframes⟩

/-- Neither the time of a chunk nor that in the header of a fragment is below zero. -/
def Request.Timed : Request → Prop
  | .chunk _ time _ => 0 ≤ time
  | .fragment f time _ => f.header.Timed ∧ 0 ≤ time
  | .flush => True

theorem timed_answer (ha : a.Timed) {q : Request} (hq : q.Timed) :
    (a.answer q).1.Timed ∧ ∀ x ∈ (a.answer q).2.frames, 0 ≤ x.time := by
  cases q with
  | chunk data time key => exact timed_pushChunk ha data hq key
  | fragment f time key =>
    obtain ⟨hstate, hframe⟩ := timed_push ha hq.1 hq.2 key
    exact ⟨hstate, fun x hx => hframe x (Option.mem_toList.1 hx)⟩
  | flush =>
    obtain ⟨hstate, hframe⟩ := timed_flush ha
    exact ⟨hstate, fun x hx => hframe x (Option.mem_toList.1 hx)⟩

theorem timed_answerAll (ha : a.Timed) {qs : List Request} (hq : ∀ q ∈ qs, q.Timed) :
    ∀ r ∈ (a.answerAll qs).2, ∀ x ∈ r.frames, 0 ≤ x.time := by
  induction qs generalizing a with
  | nil => simp [answerAll]
  | cons q qs ih =>
    obtain ⟨hone, hframes⟩ := timed_answer ha (hq q (by simp))
    intro r hr
    rcases List.mem_cons.1 hr with rfl | hr
    · exact hframes
    · exact ih hone (fun q h => hq q (by simp [h])) r hr

end Assembly

end RealMedia.RealVideo
