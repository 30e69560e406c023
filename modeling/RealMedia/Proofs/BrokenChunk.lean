import RealMedia.Proofs.ChunkFrames
import RealMedia.Proofs.FragmentReading

/-!
What a chunk is cut into, up to a header that runs past its end. Without the bytes from that header
on the chunk gives the same frames, and of a chunk without such a header at most two bytes are left.
-/

namespace RealMedia.RealVideo

/-- A fragment and the bytes of its header. -/
structure SubPacket where
  head : Bytes
  fragment : Fragment

namespace SubPacket

variable {x : SubPacket} {xs : List SubPacket} {after chunk rest : Bytes}

def bytes (x : SubPacket) : Bytes := x.head ++ x.fragment.data

/-- In front of these bytes the header is read from its own bytes, and the data belongs to it. -/
structure Leads (x : SubPacket) (after : Bytes) : Prop where
  long : 3 ≤ (x.bytes ++ after).length
  header : FragmentHeader.decoder ⟨0, x.bytes ++ after⟩ =
    .ok x.fragment.header ⟨x.head.length, x.fragment.data ++ after⟩
  data : Fragment.dataOf x.fragment.header (x.fragment.data ++ after) = (x.fragment.data, after)

/-- A chunk starts with sub-packets that are read in front of what really follows them. -/
inductive Parsed : Bytes → List SubPacket → Bytes → Prop
  | done (rest : Bytes) : Parsed rest [] rest
  | more {x : SubPacket} {xs : List SubPacket} {after rest : Bytes} (hx : x.Leads after)
    (hxs : Parsed after xs rest) : Parsed (x.bytes ++ after) (x :: xs) rest

theorem Parsed.split (h : Parsed chunk xs rest) : chunk = xs.flatMap bytes ++ rest := by
  induction h with
  | done => rfl
  | more _ _ ih => rw [List.flatMap_cons, List.append_assoc, ← ih]

/-- The fragments of a chunk are those of its sub-packets and then those of the rest. -/
theorem Parsed.ofChunk (h : Parsed chunk xs rest) : Fragment.ofChunk chunk =
    (xs.map (·.fragment) ++ (Fragment.ofChunk rest).1, (Fragment.ofChunk rest).2) := by
  induction h with
  | done => rfl
  | @more x xs after rest hx _ ih =>
    rw [Fragment.ofChunk_ok hx.long hx.header]
    dsimp only
    rw [hx.data, ih]
    rfl

/-- What is left of a chunk: not enough for a header, or a header that runs past the end. -/
def Stops (rest : Bytes) : Option OutOfData → Prop
  | none => rest.length ≤ 2
  | some e => 3 ≤ rest.length ∧ FragmentHeader.decoder.decode rest = .error e

theorem Stops.ofChunk {o : Option OutOfData} (h : Stops rest o) :
    Fragment.ofChunk rest = ([], o) := by
  cases o with
  | none => exact Fragment.ofChunk_short h
  | some e =>
    obtain ⟨hlong, he⟩ := h
    cases hd : FragmentHeader.decoder ⟨0, rest⟩ with
    | ok header c =>
      rw [Decoder.decode, hd] at he
      cases he
    | error e c =>
      rw [Decoder.decode, hd] at he
      cases he
      exact Fragment.ofChunk_error hlong hd

theorem dataOf_pieces (h : FragmentHeader) (rest : Bytes) :
    (Fragment.dataOf h rest).1 ++ (Fragment.dataOf h rest).2 = rest := by
  unfold Fragment.dataOf
  split <;> simp

theorem exists_parsed (chunk : Bytes) : ∃ xs rest,
    Parsed chunk xs rest ∧ Stops rest (Fragment.ofChunk chunk).2 := by
  fun_induction Fragment.ofChunk chunk with
  | case1 chunk hlong e c hd =>
    refine ⟨[], chunk, .done chunk, atLeast_iff.1 hlong, ?_⟩
    rw [Decoder.decode, hd]
  | case2 chunk hlong header c hd parts more ih =>
    obtain ⟨xs, rest, hxs, hstops⟩ := ih
    obtain ⟨head, hchunk, hpos, -⟩ := FragmentHeader.consumes_decoder _ _ _ hd
    have hrest : parts.1 ++ parts.2 = c.rest := dataOf_pieces header c.rest
    let x : SubPacket := ⟨head, header, parts.1⟩
    have hwhole : chunk = x.bytes ++ parts.2 := by
      rw [bytes, List.append_assoc, hrest]
      exact hchunk
    have hcursor : c = ⟨head.length, parts.1 ++ parts.2⟩ := by
      rw [hrest, ← Nat.zero_add head.length, ← hpos]
    have hx : x.Leads parts.2 := by
      refine ⟨?_, ?_, ?_⟩
      · rw [← hwhole]
        exact atLeast_iff.1 hlong
      · rw [← hwhole, hd, hcursor]
      · exact congrArg _ hrest
    refine ⟨x :: xs, rest, ?_, hstops⟩
    rw [hwhole]
    exact .more hx hxs
  | case3 chunk hshort =>
    refine ⟨[], chunk, .done chunk, ?_⟩
    rw [atLeast_iff] at hshort
    exact Nat.le_of_lt_succ (Nat.lt_of_not_le hshort)

/-- Data that does not take all that is left ends with its frame. -/
theorem ends_of_dataOf {h : FragmentHeader} {d r : Bytes} (hr : r ≠ [])
    (hsplit : Fragment.dataOf h (d ++ r) = (d, r)) : h.offset + d.length = h.total := by
  have hpos := List.length_pos_iff.2 hr
  rw [Fragment.dataOf] at hsplit
  split at hsplit
  · have htaken := congrArg (·.1.length) hsplit
    simp only [List.splitAt_eq, List.length_take, List.length_append] at htaken
    omega
  · exact absurd (congrArg Prod.snd hsplit).symm hr

/-- A sub-packet that others follow has a long header, and may be followed by anything else: a short
header takes all that is left, as far as the number of these bytes fits a word. -/
theorem Leads.swap (h : x.Leads after) (hafter : after ≠ [])
    (hlength : x.fragment.header.isShort = true → (x.bytes ++ after).length < 4294967296)
    (other : Bytes) : x.Leads other := by
  have hpos := List.length_pos_iff.2 hafter
  have hends := ends_of_dataOf hafter h.data
  have hread := h.header
  rcases FragmentHeader.decoder_eq_ok hread with ⟨d, s, hkind, -, hheader⟩ | ⟨y, hy, hrest, hheader⟩
  · -- a short header: its length is that of all that is left
    have hlength := hlength (by rw [hheader]; exact decide_eq_true hkind)
    rw [hheader] at hends
    simp only [FragmentHeader.shortHeader, bytes, List.length_append] at hends hlength
    omega
  · have hhead : x.head = y.bytes := by
      dsimp only at hrest
      rw [bytes, List.append_assoc] at hrest
      exact List.append_cancel_right hrest
    have hdata := SentPart.dataOf_append (r := other) (Nat.le_of_eq hends) (.inr hends)
    refine ⟨?_, ?_, hdata⟩
    · have := SentPart.three_le_length_bytes ⟨y, x.fragment.data⟩
      rw [SentPart.bytes, ← hhead] at this
      rw [List.length_append]
      exact Nat.le_trans this (Nat.le_add_right _ _)
    · have := LongHeader.yields_header hy 0 (x.fragment.data ++ other)
      rwa [← hheader, ← hhead, ← List.append_assoc, Nat.zero_add] at this

/-- What has been parsed in front of more bytes is parsed alone. -/
theorem Parsed.alone (h : Parsed chunk xs rest) (hrest : rest ≠ [])
    (hlength : ∀ x ∈ xs, x.fragment.header.isShort = true → chunk.length < 4294967296) :
    Parsed (xs.flatMap bytes) xs [] := by
  induction h with
  | done => exact .done []
  | @more x xs after rest hx hxs ih =>
    have hafter : after ≠ [] := by
      rw [hxs.split]
      simp [hrest]
    have hshorter : ∀ y ∈ xs, y.fragment.header.isShort = true → after.length < 4294967296 := by
      intro y hy hshort
      have := hlength y (List.mem_cons_of_mem x hy) hshort
      rw [List.length_append] at this
      omega
    rw [List.flatMap_cons]
    exact .more (hx.swap hafter (hlength x List.mem_cons_self) _) (ih hrest hshorter)

end SubPacket

namespace Assembly

open SubPacket

variable {a : Assembly} {c d : Bytes} {time : Int} {key : Bool}

/-- What a chunk does hangs on its fragments alone. -/
theorem pushChunk_congr (h : (Fragment.ofChunk c).1 = (Fragment.ofChunk d).1) :
    a.pushChunk c time key = ((a.pushChunk d time key).1,
      { (a.pushChunk d time key).2 with error := (Fragment.ofChunk c).2 }) := by
  simp only [pushChunk, h]

/-- A chunk is cut into sub-packets, each with a fragment, and a rest. If there is an error, the
rest begins with the header that fails, and the chunk without it does the same and has no error. (A
short header tells the number of bytes that are left only if it fits a word.) If there is no error,
at most two bytes are left. -/
theorem broken_header_discards_rest (a : Assembly) (chunk : Bytes) (time : Int) (key : Bool) :
    let r := a.pushChunk chunk time key
    ∃ xs rest, chunk = xs.flatMap bytes ++ rest ∧ Parsed chunk xs rest ∧
      (Fragment.ofChunk chunk).1 = xs.map (·.fragment) ∧
      (∀ e, r.2.error = some e →
        3 ≤ rest.length ∧ FragmentHeader.decoder.decode rest = .error e ∧
        ((∀ x ∈ xs, x.fragment.header.isShort = true → chunk.length < 4294967296) →
          a.pushChunk (xs.flatMap bytes) time key = (r.1, { r.2 with error := none }))) ∧
      (r.2.error = none → rest.length ≤ 2) := by
  intro r
  obtain ⟨xs, rest, hxs, hstops⟩ := exists_parsed chunk
  have hwhole : (Fragment.ofChunk chunk).1 = xs.map (·.fragment) := by
    rw [hxs.ofChunk, hstops.ofChunk, List.append_nil]
  have herror : r.2.error = (Fragment.ofChunk chunk).2 := rfl
  refine ⟨xs, rest, hxs.split, hxs, hwhole, ?_, ?_⟩
  · intro e he
    rw [← herror, he] at hstops
    refine ⟨hstops.1, hstops.2, ?_⟩
    intro hlength
    have hrest : rest ≠ [] := List.ne_nil_of_length_pos (by have := hstops.1; omega)
    have hcut := (hxs.alone hrest hlength).ofChunk
    have hnothing : Stops [] none := Nat.zero_le 2
    rw [hnothing.ofChunk, List.append_nil] at hcut
    rw [pushChunk_congr ((congrArg Prod.fst hcut).trans hwhole.symm), hcut]
  · intro hnone
    rw [← herror, hnone] at hstops
    exact hstops

/-- A frame of one byte, and three bytes of the header of another one. -/
def brokenOff : Bytes :=
  [0x00, 0x00, 0x40, 0x01, 0x40, 0x00, 0x00, 0x41, 0x00, 0x00, 0x40]

/-- The frame is handed out, with or without the bytes of the broken header. -/
theorem broken_header_discards_rest_brokenOff :
    let a : Assembly := { stream := 0 }
    let r := a.pushChunk brokenOff 0 true
    r.2.error = some ⟨2, 1⟩ ∧ r.2.frames.map (·.payload) = [[0, 1, 0, 0, 0, 0, 0, 0, 0, 0x41]] ∧
      ∃ xs rest, brokenOff = xs.flatMap bytes ++ rest ∧ Parsed brokenOff xs rest ∧
        (Fragment.ofChunk brokenOff).1 = xs.map (·.fragment) ∧ 3 ≤ rest.length ∧
        FragmentHeader.decoder.decode rest = .error ⟨2, 1⟩ ∧
        a.pushChunk (xs.flatMap bytes) 0 true = (r.1, { r.2 with error := none }) := by
  intro a r
  have herror : (({ stream := 0 } : Assembly).pushChunk brokenOff 0 true).2.error =
      some ⟨2, 1⟩ := by decide +kernel
  let single : Pending :=
    { fragments := (Fragment.ofChunk brokenOff).1
      total := 1, merged := false, key := true, time := 0 }
  -- Sorting does not compute, so the frame is named here and laid out below.
  have hout : (({ stream := 0 } : Assembly).pushChunk brokenOff 0 true).2.frames =
      [single.frame] := by
    with_unfolding_all rfl
  have hsingle : single.frame = single.whole [[0x41]] :=
    Pending.frame_of_perm (by decide) (.of_eq (by decide +kernel)) rfl
  have hframes : (({ stream := 0 } : Assembly).pushChunk brokenOff 0 true).2.frames.map
      (·.payload) = [[0, 1, 0, 0, 0, 0, 0, 0, 0, 0x41]] := by
    rw [hout, hsingle]
    decide +kernel
  obtain ⟨xs, rest, hchunk, hparsed, hfragments, hbroken, -⟩ :=
    broken_header_discards_rest { stream := 0 } brokenOff 0 true
  obtain ⟨hlong, hheader, hcut⟩ := hbroken _ herror
  exact ⟨herror, hframes, xs, rest, hchunk, hparsed, hfragments, hlong, hheader,
    hcut fun _ _ _ => by decide⟩

end Assembly

end RealMedia.RealVideo
