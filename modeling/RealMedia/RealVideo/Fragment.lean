import RealMedia.RealVideo.FragmentHeader

/-! The fragments that a chunk of a RealVideo stream carries, one behind the other. -/

namespace RealMedia.RealVideo

structure Fragment where
  header : FragmentHeader
  data : Bytes

namespace Fragment

/-- What belongs to a fragment of the bytes behind its header, and what follows: all of them if the
offset lies behind the end of the frame. -/
def dataOf (h : FragmentHeader) (rest : Bytes) : Bytes × Bytes :=
  if h.offset ≤ h.total then rest.splitAt (h.total - h.offset) else (rest, [])

theorem length_dataOf_snd (h : FragmentHeader) (rest : Bytes) :
    (dataOf h rest).2.length ≤ rest.length := by
  unfold dataOf
  split <;> simp

/-- The fragments of a chunk, and the error of the first header that does not fit. A header is
looked for as long as more than two bytes are left. -/
def ofChunk (chunk : Bytes) : List Fragment × Option OutOfData :=
  if atLeast 3 chunk then
    match _h : FragmentHeader.decoder ⟨0, chunk⟩ with
    | .error e _ => ([], some e)
    | .ok header c =>
      let parts := dataOf header c.rest
      let more := ofChunk parts.2
      (⟨header, parts.1⟩ :: more.1, more.2)
  else ([], none)
termination_by chunk.length
decreasing_by
  obtain ⟨r, hr, -, hn⟩ := FragmentHeader.consumes_decoder _ _ _ _h
  have := congrArg List.length hr
  have := length_dataOf_snd header c.rest
  simp only [List.length_append] at *
  omega

variable {chunk : Bytes} {header : FragmentHeader} {c : Cursor} {e : OutOfData}

theorem ofChunk_short (h : chunk.length ≤ 2) : ofChunk chunk = ([], none) := by
  have hshort : atLeast 3 chunk = false := atLeast_eq_false.2 (Nat.lt_succ_of_le h)
  rw [ofChunk, if_neg (by simp [hshort])]

theorem ofChunk_error (h : 3 ≤ chunk.length)
    (hd : FragmentHeader.decoder ⟨0, chunk⟩ = .error e c) : ofChunk chunk = ([], some e) := by
  rw [ofChunk, if_pos (atLeast_iff.2 h)]
  split
  · rename_i h
    rw [hd] at h
    cases h
    rfl
  · rename_i h
    rw [hd] at h
    cases h

theorem ofChunk_ok (h : 3 ≤ chunk.length)
    (hd : FragmentHeader.decoder ⟨0, chunk⟩ = .ok header c) :
    ofChunk chunk = (⟨header, (dataOf header c.rest).1⟩ :: (ofChunk (dataOf header c.rest).2).1,
      (ofChunk (dataOf header c.rest).2).2) := by
  rw [ofChunk, if_pos (atLeast_iff.2 h)]
  split
  · rename_i h
    rw [hd] at h
    cases h
  · rename_i h
    rw [hd] at h
    cases h
    rfl

end Fragment

end RealMedia.RealVideo
