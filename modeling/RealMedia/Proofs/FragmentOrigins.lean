import Mathlib.Data.List.Chain
import RealMedia.Proofs.FragmentAccounts

/-!
Which request has brought each fragment of a frame. The frames that are handed out and the
unfinished one are groups of neighbours among the fragments that come in.
-/

namespace RealMedia.RealVideo.Assembly

/-- The key flag that comes with the fragments of a request. -/
def Request.key : Request → Bool
  | .chunk _ _ key => key
  | .fragment _ _ key => key
  | .flush => false

/-- The time that comes with the fragments of a request. -/
def Request.time : Request → Int
  | .chunk _ time _ => time
  | .fragment _ time _ => time
  | .flush => 0

/-- A fragment with the request that has brought it: the number of the request among all of them,
and the place of the fragment in it. -/
structure Landing where
  turn : Nat
  place : Nat
  request : Request
  fragment : Fragment

/-- Neighbours among the fragments of a request, from a place on. -/
def Request.land (q : Request) (turn place : Nat) (fs : List Fragment) : List Landing :=
  (fs.zipIdx place).map fun x => ⟨turn, x.2, q, x.1⟩

/-- The fragments that requests bring, the first of the requests with a number. -/
def landings (turn : Nat) : List Request → List Landing
  | [] => []
  | q :: qs => q.land turn 0 q.fragments ++ landings (turn + 1) qs

namespace Landing

/-- The time in the header, or else the one that comes with the request. -/
def time (x : Landing) : Int := x.fragment.header.time.getD x.request.time

/-- The order in which fragments come in. -/
def Before (x y : Landing) : Prop := x.turn < y.turn ∨ x.turn = y.turn ∧ x.place < y.place

/-- What holds of neighbours in a frame: the first of them is not marked as the last fragment, and
the chunk that brings the second one has the time of the first. -/
structure Precedes (x y : Landing) : Prop where
  goesOn : x.fragment.header.isLast = false
  time : y.request = x.request ∨ ∀ data time key, y.request = .chunk data time key → time = x.time

end Landing

/-- Fragments that have been put together, and where they have come from. -/
structure Batch where
  first : Landing
  later : List Landing
  set : Pending
  fragments_eq : set.fragments = (first :: later).map (·.fragment)

namespace Batch

def pieces (b : Batch) : List Landing := b.first :: b.later

def last (b : Batch) : Landing := b.later.getLast?.getD b.first

/-- The key flag is that of the request if its fragments start with the first one of the batch. A
time in a header counts from there on. -/
structure Fair (b : Batch) : Prop where
  key : b.set.key = (b.first.request.key && b.first.place == 0)
  time : b.set.time = b.later.foldl (fun t x => x.fragment.header.time.getD t) b.first.time
  linked : b.pieces.IsChain Landing.Precedes

def start (x : Landing) : Batch where
  first := x
  later := []
  set := Pending.add ⟨[], x.fragment.header.total, false, x.request.key && x.place == 0, x.time⟩
    x.fragment
  fragments_eq := rfl

def add (b : Batch) (x : Landing) : Batch where
  first := b.first
  later := b.later ++ [x]
  set := b.set.add x.fragment
  fragments_eq := by simp [Pending.add, b.fragments_eq]

/-- The batch with one more fragment, or a new one. -/
def join (o : Option Batch) (x : Landing) : Batch :=
  match o with
  | none => start x
  | some b => b.add x

end Batch

variable {a b c : Assembly} {o o' o'' : Option Batch} {x y : Landing} {xs ys : List Landing}
  {out more : List Frame} {q : Request} {qs : List Request} {turn place : Nat}
  {fs : List Fragment} {f : Fragment} {key : Bool}

/-! ## The order of the fragments -/

theorem land_cons : q.land turn place (f :: fs) =
    ⟨turn, place, q, f⟩ :: q.land turn (place + 1) fs := rfl

theorem of_mem_land (hx : x ∈ q.land turn place fs) :
    x.turn = turn ∧ place ≤ x.place ∧ x.request = q ∧ x.fragment ∈ fs := by
  induction fs generalizing place with
  | nil => cases hx
  | cons f fs ih =>
    rw [land_cons] at hx
    rcases List.mem_cons.1 hx with rfl | hx
    · exact ⟨rfl, Nat.le_refl _, rfl, List.mem_cons_self⟩
    · obtain ⟨hturn, hplace, hrequest, hfragment⟩ := ih hx
      exact ⟨hturn, by omega, hrequest, List.mem_cons_of_mem _ hfragment⟩

theorem of_mem_landings (hx : x ∈ landings turn qs) :
    turn ≤ x.turn ∧ qs[x.turn - turn]? = some x.request ∧ x.fragment ∈ x.request.fragments := by
  induction qs generalizing turn with
  | nil => cases hx
  | cons q qs ih =>
    rcases List.mem_append.1 hx with hx | hx
    · obtain ⟨hturn, -, rfl, hfragment⟩ := of_mem_land hx
      exact ⟨Nat.le_of_eq hturn.symm, by simp [hturn], hfragment⟩
    · obtain ⟨hturn, hrequest, hfragment⟩ := ih hx
      have hnext : x.turn - turn = x.turn - (turn + 1) + 1 := by omega
      exact ⟨by omega, by rw [hnext, List.getElem?_cons_succ, hrequest], hfragment⟩

theorem land_ordered : (q.land turn place fs).Pairwise Landing.Before := by
  induction fs generalizing place with
  | nil => exact .nil
  | cons f fs ih =>
    refine .cons ?_ ih
    intro y hy
    obtain ⟨hturn, hplace, -⟩ := of_mem_land hy
    exact .inr ⟨hturn.symm, hplace⟩

theorem landings_ordered : (landings turn qs).Pairwise Landing.Before := by
  induction qs generalizing turn with
  | nil => exact .nil
  | cons q qs ih =>
    refine List.pairwise_append.2 ⟨land_ordered, ih, ?_⟩
    intro x hx y hy
    have hxt := (of_mem_land hx).1
    have hyt := (of_mem_landings hy).1
    exact .inl (by omega)

/-! ## One more fragment -/

namespace Batch

theorem pieces_join (o : Option Batch) (x : Landing) :
    (join o x).pieces = o.toList.flatMap pieces ++ [x] := by
  cases o with
  | none => rfl
  | some b => simp [join, add, pieces]

theorem last_join (o : Option Batch) (x : Landing) : (join o x).last = x := by
  cases o with
  | none => rfl
  | some b => simp [join, add, last]

theorem getLast?_pieces (b : Batch) : b.pieces.getLast? = some b.last := by
  rw [pieces, List.getLast?_cons, last]

theorem fair_start (x : Landing) : (start x).Fair := by
  refine ⟨rfl, ?_, .singleton x⟩
  simp only [start, Pending.add, Landing.time, List.foldl_nil]
  cases x.fragment.header.time <;> rfl

theorem Fair.add {b : Batch} (hb : b.Fair) (hx : b.last.Precedes x) : (b.add x).Fair := by
  refine ⟨hb.key, ?_, ?_⟩
  · simp only [Batch.add, Pending.add, List.foldl_append, ← hb.time, List.foldl_cons,
      List.foldl_nil]
  · have hlinked : (b.pieces ++ [x]).IsChain Landing.Precedes := by
      refine List.isChain_append.2 ⟨hb.linked, .singleton x, ?_⟩
      rw [getLast?_pieces]
      rintro y ⟨⟩ z ⟨⟩
      exact hx
    exact hlinked

theorem fair_join (ho : ∀ b ∈ o, b.Fair ∧ b.last.Precedes x) : (join o x).Fair := by
  cases o with
  | none => exact fair_start x
  | some b => exact (ho b rfl).1.add (ho b rfl).2

end Batch

/-! ## What an assembly does with the fragments that come in -/

/-- The unfinished frame is a batch that more fragments may join. -/
structure Holds (a : Assembly) (o : Option Batch) : Prop where
  pending : a.pending = o.map (·.set)
  fair : ∀ b ∈ o, b.Fair
  goesOn : ∀ b ∈ o, b.last.fragment.header.isLast = false
  time : ∀ b ∈ o, a.lastTime = b.last.time

/-- These fragments come in behind those of the first batch, and these frames go out. What is not in
the frames is in the second batch. -/
structure Gathers (o : Option Batch) (xs : List Landing) (out : List Frame) (b : Assembly)
    (o' : Option Batch) : Prop where
  holds : b.Holds o'
  made : ∃ made : List Batch, out = made.map (·.set.frame) ∧ (∀ m ∈ made, m.Fair) ∧
    o.toList.flatMap Batch.pieces ++ xs = (made ++ o'.toList).flatMap Batch.pieces

theorem Holds.none (ha : a.pending = none) : a.Holds none :=
  ⟨ha, by simp, by simp, by simp⟩

theorem Gathers.refl (ha : a.Holds o) : Gathers o [] [] a o :=
  ⟨ha, [], rfl, by simp, by simp⟩

theorem Gathers.trans (hb : Gathers o xs out b o') (hc : Gathers o' ys more c o'') :
    Gathers o (xs ++ ys) (out ++ more) c o'' := by
  obtain ⟨made, hout, hfair, hpieces⟩ := hb.made
  obtain ⟨next, hmore, hnext, hrest⟩ := hc.made
  refine ⟨hc.holds, made ++ next, ?_, ?_, ?_⟩
  · rw [hout, hmore, List.map_append]
  · intro m hm
    rcases List.mem_append.1 hm with hm | hm
    · exact hfair m hm
    · exact hnext m hm
  · rw [← List.append_assoc, hpieces, List.flatMap_append, List.append_assoc, hrest,
      ← List.flatMap_append, List.append_assoc]

theorem gathers_flush (ha : a.Holds o) :
    Gathers o [] a.flush.2.1.toList a.flush.1 none := by
  have hpending := ha.pending
  cases o with
  | none =>
    rw [flush_idle hpending]
    exact .refl ha
  | some b =>
    obtain ⟨notes, hflush⟩ := flush_busy hpending
    rw [hflush]
    exact ⟨.none rfl, [b], rfl, by simpa using ha.fair, by simp⟩

theorem opened_join (ha : a.Holds o) (hkey : o = none → key = (x.request.key && x.place == 0)) :
    a.opened x.fragment x.request.time key = (Batch.join o x).set := by
  rw [opened, ha.pending]
  cases o with
  | none =>
    rw [hkey rfl]
    rfl
  | some b => rfl

/-- A fragment joins the unfinished frame and is kept, or it goes out with it. -/
theorem gathers_push (x : Landing) (key : Bool) (ha : a.Holds o)
    (hjoin : ∀ b ∈ o, b.last.Precedes x)
    (hkey : o = none → key = (x.request.key && x.place == 0)) :
    let r := a.push x.fragment x.request.time key
    ∃ o', Gathers o [x] r.2.1.toList r.1 o' ∧ (∀ b ∈ o', b = Batch.join o x) ∧
      (o' = none → r.2.1.isSome) := by
  intro r
  have hopen := opened_join ha hkey
  have hfair : (Batch.join o x).Fair :=
    Batch.fair_join fun b hb => ⟨ha.fair b hb, hjoin b hb⟩
  have hpieces := Batch.pieces_join o x
  by_cases hkept : x.fragment.header.isLast = false ∧
      (Batch.join o x).set.received < (Batch.join o x).set.total
  · obtain ⟨hlast, hmissing⟩ := hkept
    rw [← hopen] at hmissing
    obtain ⟨notes, hpush⟩ := push_keeps x.request.time key hlast hmissing
    refine ⟨some (Batch.join o x), ⟨?_, [], ?_⟩, by simp, by simp⟩
    · simp only [r, hpush, hopen]
      refine ⟨rfl, by simpa using hfair, ?_, ?_⟩
      · simpa [Batch.last_join] using hlast
      · simp [Batch.last_join, Landing.time]
    · simp [r, hpush, hpieces]
  · rw [← hopen] at hkept
    obtain ⟨notes, hpush⟩ := push_hands_of_not x.request.time key hkept
    simp only [r, hpush, hopen]
    exact ⟨none, ⟨.none rfl, [Batch.join o x], rfl, by simpa using hfair, by simp [hpieces]⟩,
      by simp, by simp⟩

/-- In a chunk a frame starts with the first fragment or behind a frame that has been handed out, so
that the flag is the one that comes with the request or is off. -/
theorem gathers_pushAll (q : Request) (turn place : Nat) (key : Bool) (fs : List Fragment)
    (ha : a.Holds o)
    (hjoin : ∀ b ∈ o, ∀ f, b.last.Precedes ⟨turn, place, q, f⟩)
    (hkey : o = none → key = (q.key && place == 0)) :
    let r := a.pushAll q.time key fs
    ∃ o', Gathers o (q.land turn place fs) r.2.1 r.1 o' := by
  induction fs generalizing a o key place with
  | nil => exact ⟨o, .refl ha⟩
  | cons f fs ih =>
    obtain ⟨o', hone, hjoined, hout⟩ :=
      gathers_push ⟨turn, place, q, f⟩ key ha (fun b hb => hjoin b hb f) hkey
    have hnext : ∀ b ∈ o', ∀ g, b.last.Precedes ⟨turn, place + 1, q, g⟩ := by
      intro b hb g
      refine ⟨hone.holds.goesOn b hb, .inl ?_⟩
      rw [hjoined b hb, Batch.last_join]
    have hoff : o' = none →
        (key && (a.push f q.time key).2.1.isNone) = (q.key && place + 1 == 0) := by
      intro hnone
      simp [Option.isNone_eq_false_iff.2 (hout hnone)]
    obtain ⟨o'', hrest⟩ := ih (place + 1) _ hone.holds hnext hoff
    exact ⟨o'', hone.trans hrest⟩

theorem gathers_answer (ha : a.Holds o) (turn : Nat) (q : Request) :
    ∃ o', Gathers o (q.land turn 0 q.fragments) (a.answer q).2.frames (a.answer q).1 o' := by
  cases q with
  | chunk data time key =>
    by_cases hleft : (a.pending.isSome && decide (time ≠ a.lastTime)) = true
    · have hflush := gathers_flush ha
      obtain ⟨o', hrest⟩ := gathers_pushAll (.chunk data time key) turn 0 key
        (Fragment.ofChunk data).1 hflush.holds (by simp) (by simp [Request.key])
      refine ⟨o', ?_⟩
      simp only [answer, pushChunk, hleft, if_true]
      exact hflush.trans hrest
    · have hjoin : ∀ b ∈ o, ∀ f,
          b.last.Precedes ⟨turn, 0, .chunk data time key, f⟩ := by
        intro b hb f
        refine ⟨ha.goesOn b hb, .inr ?_⟩
        rintro _ _ _ ⟨⟩
        rw [← ha.time b hb]
        have hbusy : a.pending.isSome = true := by rw [ha.pending, hb]; rfl
        simpa [hbusy] using hleft
      obtain ⟨o', hrest⟩ := gathers_pushAll (.chunk data time key) turn 0 key
        (Fragment.ofChunk data).1 ha hjoin (by simp [Request.key])
      refine ⟨o', ?_⟩
      simp only [answer, pushChunk, hleft]
      exact hrest
  | fragment f time key =>
    have hjoin : ∀ b ∈ o, b.last.Precedes ⟨turn, 0, .fragment f time key, f⟩ :=
      fun b hb => ⟨ha.goesOn b hb, .inr fun _ _ _ h => by cases h⟩
    obtain ⟨o', hone, -⟩ := gathers_push _ key ha hjoin (by simp [Request.key])
    exact ⟨o', hone⟩
  | flush => exact ⟨none, gathers_flush ha⟩

theorem gathers_answerAll (ha : a.Holds o) (turn : Nat) (qs : List Request) :
    let r := a.answerAll qs
    ∃ o', Gathers o (landings turn qs) (r.2.flatMap (·.frames)) r.1 o' := by
  induction qs generalizing a o turn with
  | nil => exact ⟨o, .refl ha⟩
  | cons q qs ih =>
    obtain ⟨o', hone⟩ := gathers_answer ha turn q
    obtain ⟨o'', hrest⟩ := ih hone.holds (turn + 1)
    exact ⟨o'', hone.trans hrest⟩

/-- All that comes in is in the frames, one behind the other, and then in the unfinished one. -/
theorem gathered (stream : Nat) (qs : List Request) :
    let r := ({ stream } : Assembly).answerAll qs
    ∃ (made : List Batch) (o : Option Batch),
      r.2.flatMap (·.frames) = made.map (·.set.frame) ∧ (∀ b ∈ made, b.Fair) ∧ r.1.Holds o ∧
      landings 0 qs = (made ++ o.toList).flatMap Batch.pieces := by
  intro r
  obtain ⟨o, h⟩ := gathers_answerAll (a := { stream }) (o := none) (.none rfl) 0 qs
  obtain ⟨made, hout, hfair, hpieces⟩ := h.made
  exact ⟨made, o, hout, hfair, h.holds, hpieces⟩

end RealMedia.RealVideo.Assembly
