import RealMedia.Ac3.FrameHeader

/-! What the bytes seen so far tell about a frame, and the first place that they do not rule out. -/

namespace RealMedia.Ac3

variable {b c r : Bytes} {h : FrameHeader} {i m n : Nat} {o : Option FrameHeader}

inductive Verdict
  /-- No frame starts here, whatever follows. -/
  | reject
  /-- More bytes are needed to tell. -/
  | undecided
  /-- A whole intact frame starts here. -/
  | frame (h : FrameHeader)
deriving DecidableEq

/-- The verdict on a byte string that starts with a sync word. -/
def judgeSynced (b : Bytes) : Verdict :=
  if b.length < headerSize then .undecided
  else match FrameHeader.parse? b with
    | none => .reject
    | some h =>
      if b.length < crcSpan h.bytes then .undecided
      else if !crcMatches b h.bytes then .reject
      else if b.length < h.bytes then .undecided
      else .frame h

/-- The verdict on the start of a byte string. A lone last byte may be half of a sync word. -/
def judge : Bytes → Verdict
  | [] => .undecided
  | [a] => if a = 0x0b then .undecided else .reject
  | a :: x :: r => if a = 0x0b ∧ x = 0x77 then judgeSynced (a :: x :: r) else .reject

/-- The first place that is not rejected, with the frame if one starts there. -/
def scan : Bytes → Nat × Option FrameHeader
  | [] => (0, none)
  | a :: r =>
    match judge (a :: r) with
    | .reject => ((scan r).1 + 1, (scan r).2)
    | .undecided => (0, none)
    | .frame h => (0, some h)

theorem parse?_append (hb : headerSize ≤ b.length) :
    FrameHeader.parse? (b ++ c) = FrameHeader.parse? b := by
  have hbc : headerSize ≤ (b ++ c).length := by
    simp only [List.length_append]
    omega
  simp only [FrameHeader.parse?, atLeast_iff.2 hb, atLeast_iff.2 hbc,
    List.take_append_of_le_length hb]

theorem crcMatches_iff : crcMatches b n = true ↔
    4 < crcSpan n ∧ crcSpan n ≤ b.length ∧ crc ((b.take (crcSpan n)).drop 2) = 0 := by
  rw [crcMatches, Bool.and_eq_true, Bool.and_eq_true, decide_eq_true_iff, decide_eq_true_iff,
    atLeast_iff, and_assoc]

theorem crcMatches_append (hb : crcSpan n ≤ b.length) :
    crcMatches (b ++ c) n = crcMatches b n := by
  have hbc : crcSpan n ≤ (b ++ c).length := by
    simp only [List.length_append]
    omega
  simp only [crcMatches, atLeast_iff.2 hb, atLeast_iff.2 hbc, List.take_append_of_le_length hb]

theorem crcSpan_le (n : Nat) : crcSpan n ≤ n := by
  rw [crcSpan]
  omega

/-- A frame whose check word matches is longer than its header. -/
theorem headerSize_lt_of_crcMatches (hc : crcMatches b n = true) : headerSize < n := by
  obtain ⟨hspan, -⟩ := crcMatches_iff.1 hc
  simp only [crcSpan] at hspan
  simp only [headerSize]
  omega

theorem judgeSynced_append (hj : judgeSynced b ≠ .undecided) :
    judgeSynced (b ++ c) = judgeSynced b := by
  rw [judgeSynced] at hj
  rw [judgeSynced, judgeSynced]
  simp only [List.length_append]
  split at hj
  · exact absurd rfl hj
  rename_i hlen
  rw [if_neg (by omega), parse?_append (by omega), if_neg hlen]
  cases hp : FrameHeader.parse? b with
  | none => rfl
  | some h =>
    simp only [hp] at hj ⊢
    split at hj
    · exact absurd rfl hj
    rename_i hspan
    rw [if_neg (by omega), crcMatches_append (by omega), if_neg hspan]
    split at hj
    · rename_i hcrc
      rw [if_pos hcrc, if_pos hcrc]
    rename_i hcrc
    split at hj
    · exact absurd rfl hj
    rename_i hwhole
    rw [if_neg hcrc, if_neg (by omega), if_neg hcrc, if_neg hwhole]

/-- What has been decided stands, whatever bytes follow. -/
theorem judge_append (hj : judge b ≠ .undecided) : judge (b ++ c) = judge b := by
  match b with
  | [] => exact absurd rfl hj
  | [a] =>
    by_cases ha : a = 0x0b
    · exact absurd (by simp [judge, ha]) hj
    · cases c <;> simp [judge, ha]
  | a :: x :: r =>
    by_cases hs : a = 0x0b ∧ x = 0x77
    · simp only [judge, hs, and_self, if_true] at hj
      simp only [List.cons_append, judge, hs, and_self, if_true]
      exact judgeSynced_append hj
    · simp only [List.cons_append, judge, hs, if_false]

theorem judge_append_reject (hj : judge b = .reject) : judge (b ++ c) = .reject := by
  rw [judge_append (by simp [hj]), hj]

theorem judge_append_frame (hj : judge b = .frame h) : judge (b ++ c) = .frame h := by
  rw [judge_append (by simp [hj]), hj]

theorem judge_frame_synced (hj : judge b = .frame h) : ∃ r, b = 0x0b :: 0x77 :: r := by
  match b with
  | [] => cases hj
  | [a] =>
    simp only [judge] at hj
    split at hj <;> cases hj
  | a :: x :: r =>
    simp only [judge] at hj
    split at hj
    · rename_i hs
      exact ⟨r, by rw [hs.1, hs.2]⟩
    · cases hj

theorem judgeSynced_eq_frame (hj : judgeSynced b = .frame h) :
    FrameHeader.parse? b = some h ∧ crcMatches b h.bytes = true ∧ h.bytes ≤ b.length := by
  rw [judgeSynced] at hj
  split at hj
  · cases hj
  split at hj
  · cases hj
  rename_i g hp
  split at hj
  · cases hj
  split at hj
  · cases hj
  rename_i hcrc
  split at hj
  · cases hj
  rename_i hlen
  cases hj
  exact ⟨hp, by simpa using hcrc, by omega⟩

theorem judge_eq_frame (hj : judge b = .frame h) :
    FrameHeader.parse? b = some h ∧ crcMatches b h.bytes = true ∧ h.bytes ≤ b.length := by
  obtain ⟨r, rfl⟩ := judge_frame_synced hj
  exact judgeSynced_eq_frame (by simpa [judge] using hj)

theorem judge_of_intact (hp : FrameHeader.parse? (0x0b :: 0x77 :: r) = some h)
    (hc : crcMatches (0x0b :: 0x77 :: r) h.bytes = true)
    (hlen : h.bytes ≤ (0x0b :: 0x77 :: r).length) : judge (0x0b :: 0x77 :: r) = .frame h := by
  have hlong := headerSize_lt_of_crcMatches hc
  have hspan := crcSpan_le h.bytes
  simp only [judge, and_self, if_true, judgeSynced, hp, hc]
  rw [if_neg (by omega), if_neg (by omega), if_neg (by simp), if_neg (by omega)]

/-- A remainder of zero stays zero as long as zeros follow. -/
theorem crc_append_zeros (hc : crc b = 0) (n : Nat) : crc (b ++ zeros n) = 0 := by
  unfold crc zeros at *
  rw [List.foldl_append, hc]
  induction n with
  | zero => rfl
  | succ n ih =>
    rw [List.replicate_succ, List.foldl_cons]
    exact ih

@[simp] theorem scan_nil : scan [] = (0, none) := rfl

theorem scan_cons (a : UInt8) (r : Bytes) : scan (a :: r) = match judge (a :: r) with
    | .reject => ((scan r).1 + 1, (scan r).2)
    | .undecided => (0, none)
    | .frame h => (0, some h) := rfl

theorem scan_cons_reject {a : UInt8} (hj : judge (a :: r) = .reject) :
    scan (a :: r) = ((scan r).1 + 1, (scan r).2) := by
  rw [scan_cons, hj]

theorem scan_of_reject (hj : judge b = .reject) :
    scan b = ((scan (b.drop 1)).1 + 1, (scan (b.drop 1)).2) := by
  cases b with
  | nil => cases hj
  | cons a r => exact scan_cons_reject hj

theorem scan_of_undecided (hj : judge b = .undecided) : scan b = (0, none) := by
  cases b with
  | nil => rfl
  | cons a r => rw [scan_cons, hj]

theorem scan_of_frame (hj : judge b = .frame h) : scan b = (0, some h) := by
  cases b with
  | nil => cases hj
  | cons a r => rw [scan_cons, hj]

theorem scan_le_length (b : Bytes) : (scan b).1 ≤ b.length := by
  induction b with
  | nil => exact Nat.le_refl _
  | cons a r ih =>
    rw [scan_cons, List.length_cons]
    split
    · exact Nat.succ_le_succ ih
    · exact Nat.zero_le _
    · exact Nat.zero_le _

/-- Every place before the one found is rejected. -/
theorem judge_before_scan (hi : i < (scan b).1) : judge (b.drop i) = .reject := by
  induction b generalizing i with
  | nil => exact absurd hi (Nat.not_lt_zero i)
  | cons a r ih =>
    cases hj : judge (a :: r) with
    | reject =>
      rw [scan_cons_reject hj] at hi
      cases i with
      | zero => exact hj
      | succ i => exact ih (Nat.lt_of_succ_lt_succ hi)
    | undecided => simp [scan_of_undecided hj] at hi
    | frame h => simp [scan_of_frame hj] at hi

theorem judge_at_scan (hs : scan b = (n, some h)) : judge (b.drop n) = .frame h := by
  induction b generalizing n with
  | nil => simp at hs
  | cons a r ih =>
    cases hj : judge (a :: r) with
    | reject =>
      rw [scan_cons_reject hj, Prod.mk.injEq] at hs
      obtain ⟨rfl, ho⟩ := hs
      exact ih (Prod.ext rfl ho)
    | undecided => simp [scan_of_undecided hj] at hs
    | frame g =>
      rw [scan_of_frame hj] at hs
      cases hs
      exact hj

/-- A frame that has been found stays the first one, whatever bytes follow. -/
theorem scan_append_some (hs : scan b = (n, some h)) : scan (b ++ c) = (n, some h) := by
  induction b generalizing n with
  | nil => simp at hs
  | cons a r ih =>
    cases hj : judge (a :: r) with
    | reject =>
      rw [scan_cons_reject hj, Prod.mk.injEq] at hs
      obtain ⟨rfl, ho⟩ := hs
      have hj' : judge (a :: (r ++ c)) = .reject := judge_append_reject hj
      rw [List.cons_append, scan_cons_reject hj', ih (Prod.ext rfl ho)]
    | undecided => simp [scan_of_undecided hj] at hs
    | frame g =>
      rw [scan_of_frame hj] at hs
      rw [scan_of_frame (judge_append_frame hj), hs]

/-- Without a frame the search can go on from the place it has reached. -/
theorem scan_append_none (hs : scan b = (n, none)) :
    scan (b ++ c) = ((scan (b.drop n ++ c)).1 + n, (scan (b.drop n ++ c)).2) := by
  induction b generalizing n with
  | nil =>
    simp only [scan_nil, Prod.mk.injEq, and_true] at hs
    simp [← hs]
  | cons a r ih =>
    cases hj : judge (a :: r) with
    | reject =>
      rw [scan_cons_reject hj, Prod.mk.injEq] at hs
      obtain ⟨rfl, ho⟩ := hs
      have hj' : judge (a :: (r ++ c)) = .reject := judge_append_reject hj
      rw [List.cons_append, scan_cons_reject hj', ih (Prod.ext rfl ho)]
      rfl
    | undecided =>
      rw [scan_of_undecided hj] at hs
      cases hs
      rfl
    | frame g => simp [scan_of_frame hj] at hs

/-- A frame of 128 bytes with nothing but zeros behind its header. -/
def silentFrame : Bytes := [0x0b, 0x77, 0x72, 0xa1, 0x00, 0x40, 0xe1] ++ zeros 121

def silentHeader : FrameHeader :=
  { sampleRate := 48000, bitRate := 32, bytes := 128, bsid := 8, bsmod := 0, acmod := 7,
    lfe := true, channels := 6 }

theorem judge_silentFrame : judge silentFrame = .frame silentHeader := by
  refine judge_of_intact (by decide +kernel) ?_ (by simp [silentHeader, zeros])
  have hcrc : crc ([0x72, 0xa1, 0x00, 0x40, 0xe1] ++ zeros 73) = 0 :=
    crc_append_zeros (by decide +kernel) 73
  simpa [crcMatches, crcSpan, silentHeader, zeros] using hcrc

end RealMedia.Ac3
