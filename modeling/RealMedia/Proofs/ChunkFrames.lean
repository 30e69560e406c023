import Mathlib.Data.List.Forall2
import RealMedia.Proofs.AssemblySteps
import RealMedia.Proofs.FragmentCoding

/-!
Frames that are cut into parts and sent in chunks. An assembly that takes the chunks in order hands
the frames out as they were.
-/

namespace RealMedia.RealVideo

/-- A piece of a frame and the header in front of it. -/
structure SentPart where
  header : LongHeader
  data : Bytes

namespace SentPart

variable {x : SentPart} {xs ys : List SentPart} {total offset : Nat} {r : Bytes}

def bytes (x : SentPart) : Bytes := x.header.bytes ++ x.data

def fragment (x : SentPart) : Fragment := ⟨x.header.header, x.data⟩

/-- The part at an offset of a frame. The last part may tell how far it is from the end instead. -/
structure Stands (total offset : Nat) (x : SentPart) : Prop where
  nonempty : x.data ≠ []
  fits : x.header.Fits
  length : x.header.total.value = total
  place : x.header.kind = .middle ∧ x.header.second.value = offset ∨
    x.header.kind = .tail ∧ offset + x.data.length = total ∧ x.header.second.value = total - offset

instance (total offset : Nat) (x : SentPart) : Decidable (x.Stands total offset) :=
  decidable_of_iff (x.data ≠ [] ∧ x.header.Fits ∧ x.header.total.value = total ∧
      (x.header.kind = .middle ∧ x.header.second.value = offset ∨ x.header.kind = .tail ∧
        offset + x.data.length = total ∧ x.header.second.value = total - offset))
    ⟨fun h => ⟨h.1, h.2.1, h.2.2.1, h.2.2.2⟩, fun h => ⟨h.nonempty, h.fits, h.length, h.place⟩⟩

/-- The parts lie one behind the other from an offset on. -/
def Tiled (total offset : Nat) : List SentPart → Prop
  | [] => True
  | x :: xs => x.Stands total offset ∧ Tiled total (offset + x.data.length) xs

instance decidableTiled (total offset : Nat) :
    (xs : List SentPart) → Decidable (Tiled total offset xs)
  | [] => isTrue trivial
  | x :: xs =>
    have := decidableTiled total (offset + x.data.length) xs
    inferInstanceAs (Decidable (_ ∧ _))

/-- The part reaches the end of its frame. -/
def Ends (x : SentPart) : Prop := x.header.header.offset + x.data.length = x.header.header.total

instance (x : SentPart) : Decidable x.Ends := inferInstanceAs (Decidable (_ = _))

theorem Stands.offset_eq (h : x.Stands total offset) : x.header.header.offset = offset := by
  have hlength := h.length
  have hfits := PackedField.lt_of_fits h.fits.total
  rcases h.place with ⟨hkind, hsecond⟩ | ⟨hkind, hend, hsecond⟩
  · simp only [LongHeader.header, hkind, hsecond]
  · simp only [LongHeader.header, hkind, hsecond, hlength]
    omega

theorem Stands.time_eq (h : x.Stands total offset) : x.header.header.time = none := by
  rcases h.place with ⟨hkind, -⟩ | ⟨hkind, -⟩ <;> simp [LongHeader.header, hkind]

/-- Only the part at the end of a frame is marked as the last one. -/
theorem Stands.last (h : x.Stands total offset) (hlast : x.header.header.isLast = true) :
    offset + x.data.length = total := by
  rw [LongHeader.isLast_header] at hlast
  rcases h.place with ⟨hkind, -⟩ | ⟨-, hend, -⟩
  · simp [hkind] at hlast
  · exact hend

theorem Tiled.stands (h : Tiled total offset (xs ++ x :: ys)) :
    x.Stands total (offset + (xs.map (·.data)).flatten.length) := by
  induction xs generalizing offset with
  | nil => exact h.1
  | cons y xs ih =>
    have hx := ih h.2
    rwa [List.map_cons, List.flatten_cons, List.length_append, ← Nat.add_assoc]

theorem Tiled.places (h : Tiled total offset xs) :
    xs.map (·.fragment.place) = placed offset (xs.map (·.data)) := by
  induction xs generalizing offset with
  | nil => rfl
  | cons x xs ih =>
    rw [List.map_cons, List.map_cons, placed, ih h.2, Fragment.place, fragment, h.1.offset_eq]

theorem Tiled.nonempty (h : Tiled total offset xs) : ∀ b ∈ xs.map (·.data), b ≠ [] := by
  induction xs generalizing offset with
  | nil => simp
  | cons x xs ih => simpa using ⟨h.1.nonempty, by simpa using ih h.2⟩

/-- The header fits its form, and the part does not reach behind the end of the frame. -/
structure Inside (x : SentPart) : Prop where
  fits : x.header.Fits
  le : x.header.header.offset + x.data.length ≤ x.header.header.total

/-- The data behind a header ends with the frame or with the chunk. -/
theorem dataOf_append {h : FragmentHeader} {d : Bytes} (hle : h.offset + d.length ≤ h.total)
    (hr : r = [] ∨ h.offset + d.length = h.total) : Fragment.dataOf h (d ++ r) = (d, r) := by
  rw [Fragment.dataOf, if_pos (by omega), List.splitAt_eq]
  rcases hr with rfl | hend
  · rw [List.append_nil, List.take_of_length_le (by omega), List.drop_of_length_le (by omega)]
  · have hwanted : h.total - h.offset = d.length := by omega
    rw [hwanted, List.take_left, List.drop_left]

theorem three_le_length_bytes (x : SentPart) : 3 ≤ x.bytes.length := by
  have hsecond : 2 ≤ x.header.second.bytes.length := by
    rw [PackedField.bytes]
    split <;> simp
  simp only [bytes, LongHeader.bytes, List.length_append, List.length_singleton]
  omega

/-- A part is found at the start of a chunk if the rest of it is told from the data. -/
theorem ofChunk_append (hx : x.header.Fits)
    (hsplit : Fragment.dataOf x.header.header (x.data ++ r) = (x.data, r)) :
    Fragment.ofChunk (x.bytes ++ r) =
      (x.fragment :: (Fragment.ofChunk r).1, (Fragment.ofChunk r).2) := by
  have hread := LongHeader.yields_header hx 0 (x.data ++ r)
  rw [← List.append_assoc, ← bytes] at hread
  have hlong : 3 ≤ (x.bytes ++ r).length := by
    have := x.three_le_length_bytes
    rw [List.length_append]
    omega
  rw [Fragment.ofChunk_ok hlong hread]
  dsimp only
  rw [hsplit, fragment]

/-- In a chunk the end of a frame is found from its length, and the rest of a chunk belongs to its
last part. -/
theorem ofChunk_parts (hin : ∀ y ∈ xs ++ [x], y.Inside) (hends : ∀ y ∈ xs, y.Ends) :
    Fragment.ofChunk ((xs ++ [x]).flatMap bytes) = ((xs ++ [x]).map fragment, none) := by
  induction xs with
  | nil =>
    have hx := hin x (by simp)
    have hnone : Fragment.ofChunk [] = ([], none) := Fragment.ofChunk_short (Nat.zero_le 2)
    simpa [hnone] using ofChunk_append hx.fits (dataOf_append hx.le (.inl rfl))
  | cons y xs ih =>
    have hy := hin y (by simp)
    rw [List.cons_append, List.flatMap_cons,
      ofChunk_append hy.fits (dataOf_append hy.le (.inr (hends y (by simp)))),
      ih (fun z hz => hin z (by simp [hz])) (fun z hz => hends z (by simp [hz]))]
    rfl

end SentPart

/-- A frame that is sent in parts. -/
structure SentFrame where
  time : Int
  parts : List SentPart

namespace SentFrame

def pieces (f : SentFrame) : List Bytes := f.parts.map (·.data)

def data (f : SentFrame) : Bytes := f.pieces.flatten

/-- Where the parts start in the frame. -/
def cuts (f : SentFrame) : List Nat := (placed 0 f.pieces).map (·.1)

/-- The parts make up the frame, and their headers say so. -/
structure WellCut (f : SentFrame) : Prop where
  parts : f.parts ≠ []
  tiled : SentPart.Tiled f.data.length 0 f.parts

instance (f : SentFrame) : Decidable f.WellCut :=
  decidable_of_iff (f.parts ≠ [] ∧ SentPart.Tiled f.data.length 0 f.parts)
    ⟨fun h => ⟨h.1, h.2⟩, fun h => ⟨h.parts, h.tiled⟩⟩

/-- The parts with the time of the frame. -/
def sent (f : SentFrame) : List (Int × SentPart) := f.parts.map (f.time, ·)

/-- The frame as an assembly hands it out. -/
structure Delivered (f : SentFrame) (g : Frame) : Prop where
  data : g.data = f.data
  offsets : g.offsets = f.cuts
  time : g.time = f.time
  relaid : g.relaid = false

variable {f : SentFrame} {fs : List SentFrame} {seen rest : List SentPart} {x : SentPart} {t : Int}

/-- A part inside its frame: where it starts, and how much of the frame follows it. -/
theorem WellCut.stands (hf : f.WellCut) (hparts : f.parts = seen ++ x :: rest) :
    x.Stands f.data.length (seen.map (·.data)).flatten.length ∧
      (seen.map (·.data)).flatten.length + x.data.length + (rest.map (·.data)).flatten.length =
        f.data.length := by
  have htiled := hf.tiled
  rw [hparts] at htiled
  refine ⟨by simpa using htiled.stands, ?_⟩
  simp only [data, pieces, hparts, List.map_append, List.map_cons, List.flatten_append,
    List.flatten_cons, List.length_append]
  omega

/-- Parts that follow are not empty. -/
theorem WellCut.rest_pos (hf : f.WellCut) (hparts : f.parts = seen ++ rest) (hrest : rest ≠ []) :
    0 < (rest.map (·.data)).flatten.length := by
  cases rest with
  | nil => exact absurd rfl hrest
  | cons x rest =>
    have := List.length_pos_iff.2 (hf.stands hparts).1.nonempty
    rw [List.map_cons, List.flatten_cons, List.length_append]
    omega

theorem WellCut.inside (hf : f.WellCut) (hx : x ∈ f.parts) : x.Inside := by
  obtain ⟨seen, rest, hparts⟩ := List.append_of_mem hx
  obtain ⟨hstands, hlength⟩ := hf.stands hparts
  have htotal : x.header.header.total = f.data.length := hstands.length
  exact ⟨hstands.fits, by rw [hstands.offset_eq, htotal]; omega⟩

/-- All parts together give the frame. -/
theorem WellCut.delivered {p : Pending} (hf : f.WellCut)
    (hfragments : p.fragments = f.parts.map SentPart.fragment) (htotal : p.total = f.data.length)
    (htime : p.time = f.time) : f.Delivered p.frame := by
  have hplaces : p.fragments.map Fragment.place = placed 0 f.pieces := by
    rw [hfragments, List.map_map]
    exact hf.tiled.places
  rw [Pending.frame_of_perm hf.tiled.nonempty (.of_eq hplaces) htotal]
  exact ⟨rfl, rfl, htime, rfl⟩

end SentFrame

namespace Assembly

open SentFrame

variable {a : Assembly} {f : SentFrame} {fs : List SentFrame} {seen rest : List SentPart}
  {x : SentPart} {t : Int} {todo : List (Int × SentPart)}

/-- These parts of a frame are all that the assembly keeps. -/
def Keeps (a : Assembly) (f : SentFrame) (seen : List SentPart) : Prop :=
  match a.pending with
  | none => seen = []
  | some p => p.fragments = seen.map SentPart.fragment ∧ p.total = f.data.length ∧
      p.time = f.time ∧ a.lastTime = f.time

theorem Keeps.opened (ha : a.Keeps f seen) {offset : Nat} (hx : x.Stands f.data.length offset)
    (key : Bool) :
    let p := a.opened x.fragment f.time key
    p.fragments = (seen ++ [x]).map SentPart.fragment ∧ p.total = f.data.length ∧
      p.time = f.time := by
  have htime : x.fragment.header.time = none := hx.time_eq
  rw [Keeps] at ha
  cases hp : a.pending with
  | none =>
    simp only [hp] at ha
    subst ha
    have hlength : x.fragment.header.total = f.data.length := hx.length
    simp [Assembly.opened, hp, Pending.add, htime, hlength]
  | some p =>
    simp only [hp] at ha
    obtain ⟨hfragments, htotal, hptime, -⟩ := ha
    simp [Assembly.opened, hp, Pending.add, htime, hfragments, htotal, hptime]

theorem received_sent {p : Pending} (hp : p.fragments = seen.map SentPart.fragment) :
    p.received = (seen.map (·.data)).flatten.length := by
  rw [Pending.received_eq, hp, List.map_map]
  rfl

/-- A part that others follow is kept. -/
theorem push_within (hf : f.WellCut) (hparts : f.parts = seen ++ x :: rest) (hrest : rest ≠ [])
    (ha : a.Keeps f seen) (key : Bool) :
    ∃ b notes, a.push x.fragment f.time key = (b, none, notes) ∧ b.Keeps f (seen ++ [x]) := by
  obtain ⟨hx, hlength⟩ := hf.stands hparts
  have hpos := hf.rest_pos (show f.parts = (seen ++ [x]) ++ rest by simpa using hparts) hrest
  obtain ⟨hfragments, htotal, htime⟩ := ha.opened hx key
  have hlast : x.fragment.header.isLast = false := by
    by_contra h
    have := hx.last (eq_true_of_ne_false h)
    omega
  have hmissing : (a.opened x.fragment f.time key).received <
      (a.opened x.fragment f.time key).total := by
    rw [received_sent hfragments, htotal]
    simp only [List.map_append, List.map_singleton, List.flatten_append, List.flatten_singleton,
      List.length_append]
    omega
  obtain ⟨notes, hpush⟩ := push_keeps (a := a) f.time key hlast hmissing
  have hown : x.fragment.header.time = none := hx.time_eq
  exact ⟨_, notes, hpush, hfragments, htotal, htime, by rw [hown, Option.getD_none]⟩

/-- With its last part a frame is handed out. -/
theorem push_end (hf : f.WellCut) (hparts : f.parts = seen ++ [x]) (ha : a.Keeps f seen)
    (key : Bool) :
    ∃ b g notes, a.push x.fragment f.time key = (b, some g, notes) ∧ b.pending = none ∧
      f.Delivered g := by
  obtain ⟨hx, -⟩ := hf.stands hparts
  obtain ⟨hfragments, htotal, htime⟩ := ha.opened hx key
  rw [← hparts] at hfragments
  have hall : (a.opened x.fragment f.time key).received = f.data.length :=
    received_sent hfragments
  obtain ⟨notes, hpush⟩ :=
    push_hands (a := a) f.time key (.inr (Nat.le_of_eq (htotal.trans hall.symm)))
  exact ⟨_, _, notes, hpush, rfl, hf.delivered hfragments htotal htime⟩

/-- These parts are what is missing of these frames: the first of them has been begun or not. -/
inductive Awaits (a : Assembly) (todo : List (Int × SentPart)) : List SentFrame → Prop
  | nothing (hidle : a.pending = none) (htodo : todo = []) : Awaits a todo []
  | rest {f : SentFrame} {fs : List SentFrame} {seen rest : List SentPart} {x : SentPart}
      (hparts : f.parts = seen ++ x :: rest) (hkeeps : a.Keeps f seen)
      (htodo : todo = (x :: rest).map (f.time, ·) ++ fs.flatMap sent) : Awaits a todo (f :: fs)

theorem Awaits.of_idle (hcut : ∀ f ∈ fs, f.WellCut) (hidle : a.pending = none) :
    a.Awaits (fs.flatMap sent) fs := by
  cases fs with
  | nil => exact .nothing hidle rfl
  | cons f fs =>
    obtain ⟨x, rest, hparts⟩ := List.exists_cons_of_ne_nil (hcut f (by simp)).parts
    have hkeeps : a.Keeps f [] := by simp [Keeps, hidle]
    refine .rest hparts hkeeps ?_
    rw [List.flatMap_cons, sent, hparts]

/-- Frames came out that are the first of these, and the assembly waits for the others. -/
def Brings (a : Assembly) (todo : List (Int × SentPart)) (fs : List SentFrame) (out : List Frame) :
    Prop :=
  ∃ done left, fs = done ++ left ∧ List.Forall₂ Delivered done out ∧ a.Awaits todo left

theorem Brings.append {b : Assembly} {after : List (Int × SentPart)} {out more : List Frame}
    (ha : a.Brings todo fs out)
    (hb : ∀ left, (∀ f ∈ left, f ∈ fs) → a.Awaits todo left → b.Brings after left more) :
    b.Brings after fs (out ++ more) := by
  obtain ⟨done, left, rfl, hdone, hawaits⟩ := ha
  obtain ⟨next, last, rfl, hnext, hlast⟩ := hb left (by simp +contextual) hawaits
  exact ⟨done ++ next, last, by simp, List.rel_append hdone hnext, hlast⟩

/-- The next part is kept, or it is the last one of its frame. -/
theorem push_awaits (hcut : ∀ f ∈ fs, f.WellCut) (ha : a.Awaits ((t, x) :: todo) fs) (key : Bool) :
    let r := a.push x.fragment t key
    r.1.Brings todo fs r.2.1.toList := by
  cases ha with
  | nothing hidle htodo => cases htodo
  | @rest f fs seen rest y hparts hkeeps htodo =>
    rw [List.map_cons, List.cons_append, List.cons.injEq, Prod.mk.injEq] at htodo
    obtain ⟨⟨rfl, rfl⟩, rfl⟩ := htodo
    have hf := hcut f (by simp)
    cases rest with
    | nil =>
      obtain ⟨b, g, notes, hpush, hidle, hg⟩ := push_end hf hparts hkeeps key
      rw [hpush]
      exact ⟨[f], fs, rfl, .cons hg .nil, .of_idle (fun f hf => hcut f (by simp [hf])) hidle⟩
    | cons z rest =>
      obtain ⟨b, notes, hpush, hb⟩ := push_within hf hparts (by simp) hkeeps key
      rw [hpush]
      exact ⟨[], f :: fs, rfl, .nil, .rest (by simpa using hparts) hb rfl⟩

theorem pushAll_awaits (hcut : ∀ f ∈ fs, f.WellCut) {xs : List SentPart}
    (ha : a.Awaits (xs.map (t, ·) ++ todo) fs) (key : Bool) :
    let r := a.pushAll t key (xs.map SentPart.fragment)
    r.1.Brings todo fs r.2.1 := by
  induction xs generalizing a fs key with
  | nil => exact ⟨[], fs, rfl, .nil, ha⟩
  | cons x xs ih =>
    exact (push_awaits hcut ha key).append fun left hsub hleft =>
      ih (fun f hf => hcut f (hsub f hf)) hleft _

/-- An unfinished frame has the time of the part that comes next. -/
theorem Awaits.lastTime (ha : a.Awaits ((t, x) :: todo) fs) (hbusy : a.pending.isSome) :
    t = a.lastTime := by
  cases ha with
  | nothing hidle htodo => cases htodo
  | @rest f fs seen rest y hparts hkeeps htodo =>
    rw [List.map_cons, List.cons_append, List.cons.injEq, Prod.mk.injEq] at htodo
    obtain ⟨p, hp⟩ := Option.isSome_iff_exists.1 hbusy
    simp only [Keeps, hp] at hkeeps
    exact htodo.1.1.trans hkeeps.2.2.2.symm

end Assembly

/-- Parts that are sent together. The last one stands apart as it need not end its frame. -/
structure SentChunk where
  time : Int
  key : Bool
  before : List SentPart
  last : SentPart

namespace SentChunk

def parts (c : SentChunk) : List SentPart := c.before ++ [c.last]

def request (c : SentChunk) : Assembly.Request :=
  .chunk (c.parts.flatMap SentPart.bytes) c.time c.key

/-- The parts with the time of the chunk. -/
def sent (c : SentChunk) : List (Int × SentPart) := c.parts.map (c.time, ·)

/-- The parts can be told from one another. -/
structure Splits (c : SentChunk) : Prop where
  inside : ∀ x ∈ c.parts, x.Inside
  ends : ∀ x ∈ c.before, x.Ends

theorem Splits.ofChunk {c : SentChunk} (hc : c.Splits) :
    Fragment.ofChunk (c.parts.flatMap SentPart.bytes) = (c.parts.map SentPart.fragment, none) :=
  SentPart.ofChunk_parts hc.inside hc.ends

end SentChunk

namespace Assembly

variable {a : Assembly} {frames : List SentFrame} {c : SentChunk} {chunks : List SentChunk}
  {todo : List (Int × SentPart)}

theorem error_of_splits (hc : c.Splits) : (a.answer c.request).2.error = none := by
  simp only [SentChunk.request, answer, pushChunk, hc.ofChunk]

theorem errors_of_splits (hall : ∀ c ∈ chunks, c.Splits) :
    ∀ q ∈ (a.answerAll (chunks.map SentChunk.request)).2, q.error = none := by
  induction chunks generalizing a with
  | nil => simp [answerAll]
  | cons c chunks ih =>
    obtain ⟨hc, hrest⟩ := List.forall_mem_cons.1 hall
    exact List.forall_mem_cons.2 ⟨error_of_splits hc, ih hrest⟩

/-- The unfinished frame is not given up for a chunk that carries more of it. -/
theorem pushChunk_awaits (hcut : ∀ f ∈ frames, f.WellCut) (hc : c.Splits)
    (ha : a.Awaits (c.sent ++ todo) frames) :
    let r := a.answer c.request
    r.1.Brings todo frames r.2.frames := by
  have htime : (a.pending.isSome && decide (c.time ≠ a.lastTime)) = false := by
    cases hbusy : a.pending.isSome with
    | false => rfl
    | true =>
      have hne : c.parts ≠ [] := by simp [SentChunk.parts]
      obtain ⟨x, xs, hparts⟩ := List.exists_cons_of_ne_nil hne
      rw [SentChunk.sent, hparts] at ha
      simp [ha.lastTime hbusy]
  simp only [SentChunk.request, answer, pushChunk, htime, hc.ofChunk]
  exact pushAll_awaits hcut ha c.key

theorem answerAll_awaits (hcut : ∀ f ∈ frames, f.WellCut) (hall : ∀ c ∈ chunks, c.Splits)
    (ha : a.Awaits (chunks.flatMap SentChunk.sent) frames) :
    let r := a.answerAll (chunks.map SentChunk.request)
    r.1.Brings [] frames (r.2.flatMap (·.frames)) := by
  induction chunks generalizing a frames with
  | nil => exact ⟨[], frames, rfl, .nil, ha⟩
  | cons c chunks ih =>
    obtain ⟨hc, hrest⟩ := List.forall_mem_cons.1 hall
    exact (pushChunk_awaits hcut hc ha).append fun left hsub hleft =>
      ih (fun f hf => hcut f (hsub f hf)) hrest hleft

theorem Awaits.done (ha : a.Awaits [] frames) : frames = [] ∧ a.pending = none := by
  cases ha with
  | nothing hidle htodo => exact ⟨rfl, hidle⟩
  | rest hparts hkeeps htodo => cases htodo

/-- Frames that are sent in chunks come out as they were cut. -/
theorem frames_of_chunks (hidle : a.pending = none) (hcut : ∀ f ∈ frames, f.WellCut)
    (hpacked : chunks.flatMap SentChunk.sent = frames.flatMap SentFrame.sent)
    (hends : ∀ c ∈ chunks, ∀ x ∈ c.before, x.Ends) :
    let r := a.answerAll (chunks.map SentChunk.request)
    List.Forall₂ SentFrame.Delivered frames (r.2.flatMap (·.frames)) ∧
      (∀ q ∈ r.2, q.error = none) ∧ r.1.pending = none := by
  intro r
  have hall : ∀ c ∈ chunks, c.Splits := by
    intro c hc
    refine ⟨?_, hends c hc⟩
    intro x hx
    have hmem : (c.time, x) ∈ frames.flatMap SentFrame.sent := by
      rw [← hpacked]
      exact List.mem_flatMap.2 ⟨c, hc, List.mem_map_of_mem hx⟩
    obtain ⟨f, hf, hsent⟩ := List.mem_flatMap.1 hmem
    obtain ⟨y, hy, heq⟩ := List.mem_map.1 hsent
    rw [Prod.mk.injEq] at heq
    exact (hcut f hf).inside (heq.2 ▸ hy)
  have hawaits : a.Awaits (chunks.flatMap SentChunk.sent) frames := by
    rw [hpacked]
    exact .of_idle hcut hidle
  obtain ⟨done, left, rfl, hdone, hend⟩ := answerAll_awaits hcut hall hawaits
  obtain ⟨rfl, hpending⟩ := hend.done
  rw [List.append_nil]
  exact ⟨hdone, errors_of_splits hall, hpending⟩

/-- A part of a frame, with the narrow form for its length and the wide one for the other number. -/
def reelPart (kind : FragmentKind) (total second : Nat) (data : Bytes) : SentPart where
  header :=
    { kind, low := 5, subSequence := 0x81, sequence := 9
      total := ⟨total, false, false⟩, second := ⟨second, true, true⟩ }
  data := data

/-- Three frames, two of them in two parts. -/
def reel : List SentFrame :=
  [⟨40, [reelPart .middle 5 0 [1, 2], reelPart .tail 5 3 [3, 4, 5]]⟩,
    ⟨40, [reelPart .middle 1 0 [6]]⟩,
    ⟨70, [reelPart .middle 4 0 [7, 8, 9], reelPart .middle 4 3 [10]]⟩]

/-- The end of the first frame shares a chunk with the second one. -/
def reelChunks : List SentChunk :=
  [⟨40, true, [], reelPart .middle 5 0 [1, 2]⟩,
    ⟨40, false, [reelPart .tail 5 3 [3, 4, 5]], reelPart .middle 1 0 [6]⟩,
    ⟨70, false, [], reelPart .middle 4 0 [7, 8, 9]⟩, ⟨70, false, [], reelPart .middle 4 3 [10]⟩]

theorem frames_of_reel :
    let r := ({ stream := 2 } : Assembly).answerAll (reelChunks.map SentChunk.request)
    List.Forall₂ SentFrame.Delivered reel (r.2.flatMap (·.frames)) ∧
      (∀ q ∈ r.2, q.error = none) ∧ r.1.pending = none :=
  frames_of_chunks rfl (by decide) rfl (by decide)

end Assembly

end RealMedia.RealVideo
