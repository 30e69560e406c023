import RealMedia.Proofs.ChunkFrames
import RealMedia.Proofs.DecoderForms
import RealMedia.Proofs.FragmentAccounts

/-!
The table of segments in front of a frame, read back as it is laid out. The byte in front of it
tells the segments of a frame that has no more than 256 of them.
-/

namespace RealMedia.RealVideo

open Decoder

namespace Frame

variable {f : Frame} {c e : Cursor} {n : Nat} {t : List (UInt32 × UInt32)}

/-- As many pairs of words as are asked for. -/
def table : Nat → Decoder (List (UInt32 × UInt32))
  | 0 => return []
  | n + 1 => do
    let one ← u32 .little
    let start ← u32 .little
    return (one, start) :: (← table n)

/-- A table behind the number of its pairs less one, and the data. -/
def parts : Decoder (List (UInt32 × UInt32) × Bytes) := do
  let last ← u8
  let t ← table (last.toNat + 1)
  return (t, ← rest)

/-- What the table of a frame tells. -/
def entries (f : Frame) : List (UInt32 × UInt32) := f.segments.map fun s => (1, .ofNat s)

theorem yields_littleWord (w : Nat) : Yields (u32 .little) (littleWord w) (.ofNat w) := by
  intro pos r
  change EStateM.Result.ok _ _ = _
  simp only [word32_bytes32]
  rfl

/-- A table of the right length is read back, whatever follows it. -/
theorem yields_table (starts : List Nat) :
    Yields (table starts.length) (starts.flatMap fun s => littleWord 1 ++ littleWord s)
      (starts.map fun s => (1, .ofNat s)) := by
  induction starts with
  | nil => exact yields_pure _
  | cons s ss ih =>
    rw [List.flatMap_cons, List.append_assoc]
    exact (yields_littleWord 1).bind ((yields_littleWord s).bind (ih.return _))

theorem length_of_table (h : table n c = .ok t e) : t.length = n := by
  induction n generalizing c t e with
  | zero =>
    cases h
    rfl
  | succ n ih =>
    obtain ⟨one, c₁, -, h⟩ := bind_eq_ok.1 h
    obtain ⟨start, c₂, -, h⟩ := bind_eq_ok.1 h
    obtain ⟨t, c₃, ht, h⟩ := bind_eq_ok.1 h
    cases h
    rw [List.length_cons, ih ht]

theorem parts_payload (hlow : f.segments ≠ []) (hhigh : f.segments.length ≤ 256) :
    parts.decode f.payload = .ok (f.entries, f.data) := by
  have hpos := List.length_pos_iff.2 hlow
  have hcount : (UInt8.ofNat (f.segments.length - 1)).toNat + 1 = f.segments.length := by
    rw [UInt8.toNat_ofNat']
    omega
  have htable := yields_table f.segments 1 f.data
  rw [← hcount] at htable
  have hparts : parts ⟨0, f.payload⟩ = .ok (f.entries, f.data) ⟨_, f.data⟩ :=
    bind_eq_ok.2 ⟨_, _, rfl, bind_eq_ok.2 ⟨_, _, htable, rfl⟩⟩
  rw [decode, hparts]

/-- The table that is read has no more pairs than one byte can tell. -/
theorem length_of_parts {b d : Bytes} (h : parts.decode b = .ok (t, d)) : t.length ≤ 256 := by
  rw [decode] at h
  split at h
  · rename_i hparts
    cases h
    obtain ⟨last, c₁, -, hparts⟩ := bind_eq_ok.1 hparts
    obtain ⟨t, c₂, ht, hparts⟩ := bind_eq_ok.1 hparts
    cases hparts
    have := last.toNat_lt
    rw [length_of_table ht]
    omega
  · cases h

/-- A frame with segments is read back exactly if they are no more than 256. -/
theorem parts_payload_iff (hlow : f.segments ≠ []) :
    parts.decode f.payload = .ok (f.entries, f.data) ↔ f.segments.length ≤ 256 := by
  refine ⟨?_, parts_payload hlow⟩
  intro h
  have hlength := length_of_parts h
  rwa [entries, List.length_map] at hlength

/-- The words of a table tell the segments of a frame that is not too long for them. -/
theorem starts_of_entries (hs : ∀ s ∈ f.segments, s < 4294967296) :
    f.entries.map (·.2.toNat) = f.segments := by
  have hword : ∀ s ∈ f.segments, (UInt32.ofNat s).toNat = s := fun s h =>
    UInt32.toNat_ofNat_of_lt' (hs s h)
  rw [entries, List.map_map]
  exact (List.map_congr_left hword).trans (List.map_id' _)

end Frame

namespace Pending

variable {p : Pending} {start s : Nat} {fs : List Fragment}

theorem length_starts (start : Nat) (fs : List Fragment) :
    (starts start fs).length = fs.length := by
  induction fs generalizing start with
  | nil => rfl
  | cons f fs ih => rw [starts, List.length_cons, List.length_cons, ih]

theorem le_of_mem_starts (hs : s ∈ starts start fs) :
    s ≤ start + (fs.flatMap (·.data)).length := by
  induction fs generalizing start with
  | nil => cases hs
  | cons f fs ih =>
    rw [List.flatMap_cons, List.length_append]
    rcases List.mem_cons.1 hs with rfl | hs
    · omega
    · have := ih hs
      omega

/-- A frame has a place for each of its fragments. -/
theorem length_offsets (p : Pending) : p.frame.offsets.length = p.fragments.length := by
  obtain ⟨fs, hperm, -, hoffsets⟩ := p.frame_laid
  rw [hoffsets, length_starts, hperm.length_eq]

theorem length_segments (hp : p.merged = false) :
    p.frame.segments.length = p.fragments.length := by
  have hframe : p.frame.merged = false := hp
  rw [Frame.segments, hframe]
  exact p.length_offsets

theorem segments_ne_nil (hp : p.Begun) : p.frame.segments ≠ [] := by
  cases hm : p.merged with
  | false =>
    rw [← List.length_pos_iff, length_segments hm, List.length_pos_iff]
    exact hp.ne_nil
  | true => simp [Frame.segments, frame, hm]

theorem le_of_mem_segments (hs : s ∈ p.frame.segments) : s ≤ p.frame.data.length := by
  rw [Frame.segments] at hs
  split at hs
  · rw [List.mem_singleton.1 hs]
    exact Nat.zero_le _
  · obtain ⟨fs, -, hdata, hoffsets⟩ := p.frame_laid
    rw [hoffsets] at hs
    rw [hdata]
    simpa using le_of_mem_starts hs

end Pending

namespace Assembly

variable {a : Assembly} {f g : Fragment} {fs : List Fragment} {time : Int} {key : Bool}

/-- The segments and the data of a frame that comes out are read back exactly if there are no more
than 256 segments. As long as the data is shorter than 4 GiB, the words of the table are the places
where the segments start. -/
theorem segments_read_back (stream : Nat) (qs : List Request) :
    let r := ({ stream } : Assembly).answerAll qs
    ∀ x ∈ r.2.flatMap (·.frames),
      (Frame.parts.decode x.payload = .ok (x.entries, x.data) ↔ x.segments.length ≤ 256) ∧
      (x.data.length < 4294967296 → x.entries.map (·.2.toNat) = x.segments) := by
  intro r x hx
  obtain ⟨sets, hframes, hacc⟩ := accounts_answerAll stream qs
  rw [hframes] at hx
  obtain ⟨p, hp, rfl⟩ := List.mem_map.1 hx
  refine ⟨Frame.parts_payload_iff (Pending.segments_ne_nil (hacc.begun p hp)), ?_⟩
  intro hlength
  exact Frame.starts_of_entries fun s hs =>
    Nat.lt_of_le_of_lt (Pending.le_of_mem_segments hs) hlength

/-- Two fragments of a frame, in a chunk each. -/
def pairChunks : List Request :=
  [.chunk [0x00, 0x00, 0x40, 0x02, 0x40, 0x00, 0x00, 0x46] 0 true,
    .chunk [0x00, 0x00, 0x40, 0x02, 0x40, 0x01, 0x00, 0x47] 0 false]

theorem segments_read_back_pair :
    ∃ x ∈ (({ stream := 0 } : Assembly).answerAll pairChunks).2.flatMap (·.frames),
      Frame.parts.decode x.payload = .ok ([(1, 0), (1, 1)], [0x46, 0x47]) := by
  have hframes : (({ stream := 0 } : Assembly).answerAll pairChunks).2.flatMap (·.frames) =
      [⟨[0x46, 0x47], [0, 1], false, true, 0, false⟩] := by
    let pair : Pending :=
      { fragments := pairChunks.flatMap (·.fragments)
        total := 2, merged := false, key := true, time := 0 }
    -- Sorting does not compute, so the frame is named here and laid out below.
    have hout : (({ stream := 0 } : Assembly).answerAll pairChunks).2.flatMap (·.frames) =
        [pair.frame] := by
      with_unfolding_all rfl
    have hpair : pair.frame = pair.whole [[0x46], [0x47]] :=
      Pending.frame_of_perm (by decide) (.of_eq (by decide +kernel)) rfl
    rw [hout, hpair]
    rfl
  have hmem := List.mem_singleton_self (⟨[0x46, 0x47], [0, 1], false, true, 0, false⟩ : Frame)
  rw [← hframes] at hmem
  exact ⟨_, hmem, (segments_read_back 0 pairChunks _ hmem).1.2 (by decide)⟩

/-- While bytes are missing the fragments of a chunk are kept, and the one that brings the last of
them hands the frame out. -/
theorem pushAll_fills (hlast : ∀ h ∈ f :: fs, h.header.isLast = false)
    (hmissing : (a.opened f time key).received + (fs.map (·.data)).flatten.length <
      (a.opened f time key).total)
    (hfull : (a.opened f time key).total ≤ (a.opened f time key).received +
      (fs.map (·.data)).flatten.length + g.data.length) :
    (a.pushAll time key (f :: fs ++ [g])).2.1 =
      [((fs ++ [g]).foldl Pending.add (a.opened f time key)).frame] := by
  induction fs generalizing a f with
  | nil =>
    obtain ⟨notes, hpush⟩ := push_keeps time key (hlast f (by simp)) (by simpa using hmissing)
    obtain ⟨more, hhands⟩ := push_hands (a := { a with
      pending := some (a.opened f time key), lastTime := f.header.time.getD time }) (f := g)
      time key (.inr (by simpa using hfull))
    simp [pushAll, hpush, hhands]
  | cons h fs ih =>
    rw [List.map_cons, List.flatten_cons, List.length_append] at hmissing hfull
    obtain ⟨notes, hpush⟩ := push_keeps (a := a) time key (hlast f (by simp)) (by omega)
    have hrest := ih (a := { a with
      pending := some (a.opened f time key), lastTime := f.header.time.getD time }) (f := h)
      (fun x hx => hlast x (List.mem_cons_of_mem f hx))
      (by rw [opened_some, Pending.received_add, Pending.total_add]; omega)
      (by rw [opened_some, Pending.received_add, Pending.total_add]; omega)
    rw [opened_some] at hrest
    rw [List.cons_append, pushAll, hpush]
    simpa using hrest

/-- A fragment of a frame of one byte. -/
def partOfOne (offset : Nat) (data : Bytes) : SentPart where
  header :=
    { kind := .middle, low := ⟨0, by decide⟩, subSequence := 0, sequence := 0
      total := ⟨1, false, false⟩, second := ⟨offset, false, false⟩ }
  data := data

/-- Empty fragments at the end of the frame, and then the byte. -/
def crowd (n : Nat) : List SentPart := List.replicate n (partOfOne 1 []) ++ [partOfOne 0 [0x41]]

def crowdedChunk (n : Nat) : Bytes :=
  (List.replicate n [0x00, 0x00, 0x40, 0x01, 0x40, 0x01, 0x00]).flatten ++
    [0x00, 0x00, 0x40, 0x01, 0x40, 0x00, 0x00, 0x41]

theorem of_mem_crowd {x : SentPart} {n : Nat} (hx : x ∈ crowd n) : x.Inside ∧
    x.fragment.header.time = none ∧ x.fragment.header.merged = false ∧
    x.fragment.header.isLast = false := by
  rcases List.mem_append.1 hx with hx | hx
  · rw [List.eq_of_mem_replicate hx]
    exact ⟨⟨by decide, by decide⟩, rfl, rfl, rfl⟩
  · rw [List.mem_singleton.1 hx]
    exact ⟨⟨by decide, by decide⟩, rfl, rfl, rfl⟩

theorem ofChunk_crowdedChunk (n : Nat) :
    Fragment.ofChunk (crowdedChunk n) = ((crowd n).map SentPart.fragment, none) := by
  have hempty : (partOfOne 1 []).bytes = [0x00, 0x00, 0x40, 0x01, 0x40, 0x01, 0x00] := by decide
  have hbyte : (partOfOne 0 [0x41]).bytes = [0x00, 0x00, 0x40, 0x01, 0x40, 0x00, 0x00, 0x41] := by
    decide
  have hchunk : crowdedChunk n = (crowd n).flatMap SentPart.bytes := by
    rw [crowd, List.flatMap_append, List.flatMap_replicate, hempty, List.flatMap_singleton, hbyte]
    rfl
  have hends : ∀ y ∈ List.replicate n (partOfOne 1 []), y.Ends := by
    intro y hy
    rw [List.eq_of_mem_replicate hy]
    decide
  rw [hchunk]
  exact SentPart.ofChunk_parts (fun y hy => (of_mem_crowd hy).1) hends

/-- Behind any number of empty fragments the byte hands out a frame with a segment for each. -/
theorem crowded_frame (n : Nat) : ∃ x,
    (({ stream := 0 } : Assembly).answerAll [.chunk (crowdedChunk (n + 1)) 0 true]).2.flatMap
      (·.frames) = [x] ∧
    x.segments.length = n + 2 := by
  -- the unfinished frame with the first of the empty fragments
  let p : Pending := ⟨[(partOfOne 1 []).fragment], 1, false, true, 0⟩
  have hplain : ∀ f ∈ (crowd n).map SentPart.fragment,
      f.header.time = none ∧ f.header.merged = false ∧ f.header.isLast = false := by
    intro f hf
    obtain ⟨x, hx, rfl⟩ := List.mem_map.1 hf
    exact (of_mem_crowd hx).2
  have hmerged : ((crowd n).map SentPart.fragment).any (·.header.merged) = false :=
    List.any_eq_false.2 fun f hf => by simp [(hplain f hf).2.1]
  have hframe : (({ stream := 0 } : Assembly).pushAll 0 true
      ((crowd (n + 1)).map SentPart.fragment)).2.1 =
      [(((crowd n).map SentPart.fragment).foldl Pending.add p).frame] := by
    rw [crowd, crowd, List.map_append, List.map_append, List.replicate_succ]
    refine pushAll_fills ?_ ?_ ?_
    · intro f hf
      rw [← List.map_cons, ← List.replicate_succ] at hf
      obtain ⟨x, hx, rfl⟩ := List.mem_map.1 hf
      exact (of_mem_crowd (List.mem_append_left _ hx)).2.2.2
    · change 0 + (List.flatten _).length < 1
      simp [partOfOne, SentPart.fragment]
    · exact Nat.le_add_left 1 _
  have hfragments : (Fragment.ofChunk (crowdedChunk (n + 1))).1 =
      (crowd (n + 1)).map SentPart.fragment := by rw [ofChunk_crowdedChunk]
  rw [← hfragments] at hframe
  refine ⟨_, (List.append_nil _).trans hframe, ?_⟩
  rw [Pending.foldl_add fun h hh => (hplain h hh).1, hmerged, Pending.length_segments rfl]
  simp [p, crowd]

/-- A frame in 257 fragments comes out, and what is read back from it is something else. -/
theorem crowded_misread :
    ∃ x ∈ (({ stream := 0 } : Assembly).answerAll [.chunk (crowdedChunk 256) 0 true]).2.flatMap
        (·.frames),
      x.segments.length = 257 ∧ Frame.parts.decode x.payload ≠ .ok (x.entries, x.data) := by
  obtain ⟨x, hframes, hlength⟩ := crowded_frame 255
  refine ⟨x, ?_, hlength, ?_⟩
  · rw [hframes]
    exact List.mem_singleton_self x
  · intro h
    have := (Frame.parts_payload_iff (List.ne_nil_of_length_pos (by omega))).1 h
    omega

end Assembly

end RealMedia.RealVideo
