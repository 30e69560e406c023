import RealMedia.Proofs.AssemblySteps

/-!
The order in which the fragments of a frame arrive does not matter: the frame comes out with the
last of them, whole and in order.
-/

namespace RealMedia.RealVideo

/-- A fragment with what its chunk says about it. -/
structure Arrival where
  fragment : Fragment
  time : Int
  key : Bool

def Arrival.request (x : Arrival) : Assembly.Request := .fragment x.fragment x.time x.key

namespace Assembly

variable {a : Assembly} {x : Arrival} {xs : List Arrival} {pieces : List Bytes} {p : Pending}

theorem opened_idle (hidle : a.pending = none) (ht : x.fragment.header.time = none) :
    a.opened x.fragment x.time x.key =
      { fragments := [x.fragment], total := x.fragment.header.total
        merged := x.fragment.header.merged, key := x.key, time := x.time } := by
  simp [opened, hidle, Pending.add, ht]

/-- While bytes are missing every fragment is kept, and the one that brings the last of them hands
the frame out. -/
theorem answerAll_arrivals
    (hlast : ∀ y ∈ (x :: xs).dropLast, y.fragment.header.isLast = false)
    (hne : ∀ y ∈ xs, y.fragment.data ≠ [])
    (hcount : (a.opened x.fragment x.time x.key).received +
      (xs.map (·.fragment.data)).flatten.length = (a.opened x.fragment x.time x.key).total) :
    let r := a.answerAll ((x :: xs).map Arrival.request)
    r.2 = List.replicate xs.length ⟨[], none⟩ ++
        [⟨[((xs.map (·.fragment)).foldl Pending.add
          (a.opened x.fragment x.time x.key)).frame], none⟩] ∧
      r.1.pending = none ∧ r.1.delivered = a.delivered + 1 := by
  induction xs generalizing a x with
  | nil =>
    obtain ⟨notes, hpush⟩ := push_hands x.time x.key (.inr (Nat.le_of_eq hcount.symm))
    simp [answerAll, answer, Arrival.request, hpush]
  | cons y ys ih =>
    rw [List.dropLast_cons_of_ne_nil (by simp)] at hlast
    rw [List.map_cons, List.flatten_cons, List.length_append] at hcount
    have hy : 0 < y.fragment.data.length := List.length_pos_iff.2 (hne y (by simp))
    obtain ⟨notes, hpush⟩ := push_keeps (a := a) x.time x.key (hlast x (by simp)) (by omega)
    have hrest := ih (a := { a with
      pending := some (a.opened x.fragment x.time x.key)
      lastTime := x.fragment.header.time.getD x.time }) (x := y)
      (fun z hz => hlast z (by simp [hz])) (fun z hz => hne z (by simp [hz]))
      (by rw [opened_some, Pending.received_add, Pending.total_add]; omega)
    rw [opened_some] at hrest
    rw [List.map_cons, answerAll, Arrival.request, answer, hpush]
    obtain ⟨hreplies, hpending, hdelivered⟩ := hrest
    exact ⟨congrArg _ hreplies, hpending, hdelivered⟩

/-- The fragments of a frame give it back in whatever order they arrive: with the last of them, and
as it was cut. -/
theorem assembled_in_any_order (first : Arrival) (later : List Arrival) (hidle : a.pending = none)
    (hpieces : ∀ b ∈ pieces, b ≠ [])
    (hplaces : ((first :: later).map (·.fragment.place)).Perm (placed 0 pieces))
    (htotal : ∀ x ∈ first :: later, x.fragment.header.total = pieces.flatten.length)
    (htime : ∀ x ∈ first :: later, x.fragment.header.time = none)
    (hlast : ∀ x ∈ (first :: later).dropLast, x.fragment.header.isLast = false) :
    let r := a.answerAll ((first :: later).map Arrival.request)
    let frame : Frame :=
      { data := pieces.flatten, offsets := (placed 0 pieces).map (·.1)
        merged := (first :: later).any (·.fragment.header.merged)
        key := first.key, time := first.time, relaid := false }
    r.2 = List.replicate later.length ⟨[], none⟩ ++ [⟨[frame], none⟩] ∧
      frame.offsets.Pairwise (· < ·) ∧ r.1.pending = none ∧ r.1.delivered = a.delivered + 1 := by
  intro r frame
  -- the unfinished frame as it stands when the last fragment has joined it
  let full : Pending :=
    { fragments := (first :: later).map (·.fragment), total := first.fragment.header.total
      merged := (first :: later).any (·.fragment.header.merged)
      key := first.key, time := first.time }
  have hopen := opened_idle hidle (htime first (by simp))
  have hfold : (later.map (·.fragment)).foldl Pending.add
      (a.opened first.fragment first.time first.key) = full := by
    rw [Pending.foldl_add (by simpa using fun y hy => htime y (by simp [hy])), hopen]
    simp [full, List.any_map, Function.comp_def]
  have hperm : (full.fragments.map Fragment.place).Perm (placed 0 pieces) := by
    rwa [List.map_map]
  have hall : full.total = pieces.flatten.length := htotal first (by simp)
  have hframe : full.frame = frame := Pending.frame_of_perm hpieces hperm hall
  have hdata : ∀ x ∈ first :: later, x.fragment.data ≠ [] := by
    intro x hx
    have hmem := hplaces.subset (List.mem_map_of_mem hx)
    have := List.mem_map_of_mem (f := (·.2)) hmem
    rw [map_snd_placed] at this
    exact hpieces _ this
  have hcount := Pending.received_of_perm hperm
  rw [← hall, Pending.received_eq] at hcount
  obtain ⟨hreplies, hpending, hdelivered⟩ := answerAll_arrivals (a := a) hlast
    (fun x hx => hdata x (by simp [hx]))
    (by simpa [hopen, Pending.received_eq, full, Function.comp_def] using hcount)
  rw [hfold, hframe] at hreplies
  exact ⟨hreplies, List.pairwise_map.2 (placed_increasing 0 hpieces), hpending, hdelivered⟩

/-- A part of a frame of six bytes. -/
def partOfSix (descriptor : UInt8) (offset : Nat) (merged : Bool) (data : Bytes) : Fragment where
  header :=
    { descriptor, subSequence := 0x80, sequence := 7, total := 6, offset, merged, time := none }
  data := data

/-- The end of the frame comes first and its middle last. -/
theorem assembled_end_first :
    let r := ({ stream := 3, lastTime := 20, delivered := 4 } : Assembly).answerAll
      [.fragment (partOfSix 0x00 3 false [4, 5, 6]) 40 true,
        .fragment (partOfSix 0x00 0 true [1, 2]) 60 false,
        .fragment (partOfSix 0x80 2 false [3]) 60 false]
    r.2 = [⟨[], none⟩, ⟨[], none⟩,
        ⟨[⟨[1, 2, 3, 4, 5, 6], [0, 2, 3], true, true, 40, false⟩], none⟩] ∧
      r.1.pending = none ∧ r.1.delivered = 5 := by
  have hpieces : ∀ b ∈ ([[1, 2], [3], [4, 5, 6]] : List Bytes), b ≠ [] := by decide
  have h := assembled_in_any_order (a := { stream := 3, lastTime := 20, delivered := 4 })
    ⟨partOfSix 0x00 3 false [4, 5, 6], 40, true⟩
    [⟨partOfSix 0x00 0 true [1, 2], 60, false⟩, ⟨partOfSix 0x80 2 false [3], 60, false⟩]
    rfl hpieces (by decide) (by decide) (by decide) (by decide)
  exact ⟨h.1, h.2.2⟩

end Assembly

end RealMedia.RealVideo
