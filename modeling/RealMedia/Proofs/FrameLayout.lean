import RealMedia.RealVideo.Assembly

/-! The pieces of a frame and their places in it, found again whatever order they come in. -/

namespace RealMedia.RealVideo

variable {start : Nat} {pieces : List Bytes} {fs : List Fragment} {p : Pending}

/-- Pieces laid one behind the other, each with the place where it starts. -/
def placed (start : Nat) : List Bytes → List (Nat × Bytes)
  | [] => []
  | b :: bs => (start, b) :: placed (start + b.length) bs

def Fragment.place (f : Fragment) : Nat × Bytes := (f.header.offset, f.data)

@[simp] theorem map_snd_placed (start : Nat) (pieces : List Bytes) :
    (placed start pieces).map (·.2) = pieces := by
  induction pieces generalizing start with
  | nil => rfl
  | cons b bs ih => rw [placed, List.map_cons, ih]

theorem le_of_mem_placed {x : Nat × Bytes} (hx : x ∈ placed start pieces) : start ≤ x.1 := by
  induction pieces generalizing start with
  | nil => cases hx
  | cons b bs ih =>
    rcases List.mem_cons.1 hx with rfl | hx
    · exact Nat.le_refl _
    · exact Nat.le_trans (Nat.le_add_right _ _) (ih hx)

/-- Pieces that are not empty start behind one another. -/
theorem placed_increasing (start : Nat) (hne : ∀ b ∈ pieces, b ≠ []) :
    (placed start pieces).Pairwise (·.1 < ·.1) := by
  induction pieces generalizing start with
  | nil => exact .nil
  | cons b bs ih =>
    have hb : 0 < b.length := List.length_pos_iff.2 (hne b (by simp))
    refine .cons ?_ (ih _ fun c hc => hne c (by simp [hc]))
    intro x hx
    have := le_of_mem_placed hx
    dsimp only
    omega

/-- Pieces that are not empty are told apart by their places. -/
theorem eq_of_mem_placed {x y : Nat × Bytes} (hne : ∀ b ∈ pieces, b ≠ [])
    (hx : x ∈ placed start pieces) (hy : y ∈ placed start pieces) (h : x.1 = y.1) : x = y := by
  have hinc := placed_increasing start hne
  have hlater : (placed start pieces).Pairwise fun x y => x.1 = y.1 → x = y :=
    hinc.imp fun hlt heq => absurd heq (Nat.ne_of_lt hlt)
  have hbefore : (placed start pieces).Pairwise fun x y => y.1 = x.1 → y = x :=
    hinc.imp fun hlt heq => absurd heq (Nat.ne_of_gt hlt)
  exact List.Pairwise.forall_of_forall_of_flip (R := fun x y => x.1 = y.1 → x = y)
    (fun _ _ _ => rfl) hlater hbefore hx hy h

theorem data_of_places (h : fs.map Fragment.place = placed start pieces) :
    fs.map (·.data) = pieces := by
  have := congrArg (List.map (·.2)) h
  rwa [List.map_map, map_snd_placed] at this

namespace Pending

theorem tiles_of_places (h : fs.map Fragment.place = placed start pieces) :
    tiles start fs = true := by
  induction fs generalizing start pieces with
  | nil => rfl
  | cons f fs ih =>
    cases pieces with
    | nil => cases h
    | cons b bs =>
      simp only [List.map_cons, placed, List.cons.injEq, Fragment.place, Prod.mk.injEq] at h
      obtain ⟨⟨ho, hb⟩, hrest⟩ := h
      rw [tiles, hb, ih hrest]
      simpa using ho

theorem starts_eq (start : Nat) (fs : List Fragment) :
    starts start fs = (placed start (fs.map (·.data))).map (·.1) := by
  induction fs generalizing start with
  | nil => rfl
  | cons f fs ih => rw [starts, ih, List.map_cons, placed, List.map_cons]

theorem received_eq (p : Pending) : p.received = (p.fragments.map (·.data)).flatten.length := by
  rw [received]
  induction p.fragments with
  | nil => rfl
  | cons f fs ih =>
    rw [List.foldr_cons, ih, List.map_cons, List.flatten_cons, List.length_append]

theorem received_of_perm (hp : (p.fragments.map Fragment.place).Perm (placed start pieces)) :
    p.received = pieces.flatten.length := by
  have hdata := hp.map (·.2)
  rw [map_snd_placed, List.map_map] at hdata
  rw [received_eq, ← hdata.flatten.length_eq]
  rfl

/-- The fragments by their offsets; those with the same one stay in order of arrival. -/
def sorted (p : Pending) : List Fragment :=
  p.fragments.mergeSort fun f g => f.header.offset ≤ g.header.offset

theorem layout?_eq (p : Pending) :
    p.layout? = if p.received = p.total ∧ tiles 0 p.sorted then some p.sorted else none := rfl

theorem perm_sorted (p : Pending) : p.sorted.Perm p.fragments := List.mergeSort_perm ..

theorem pairwise_sorted (p : Pending) :
    p.sorted.Pairwise fun f g => f.header.offset ≤ g.header.offset := by
  refine (List.pairwise_mergeSort ?_ ?_ _).imp fun h => of_decide_eq_true h
  · intro f g h
    simp only [decide_eq_true_eq]
    omega
  · intro f g
    simp only [Bool.or_eq_true, decide_eq_true_eq]
    omega

/-- The pieces of a frame are laid out as they were cut, whatever order they came in. -/
theorem layout?_of_perm (hne : ∀ b ∈ pieces, b ≠ [])
    (hp : (p.fragments.map Fragment.place).Perm (placed 0 pieces))
    (ht : p.total = pieces.flatten.length) :
    ∃ fs, p.layout? = some fs ∧ fs.map Fragment.place = placed 0 pieces := by
  have hall := (p.perm_sorted.map Fragment.place).trans hp
  have hplaces : p.sorted.map Fragment.place = placed 0 pieces := by
    refine List.Perm.eq_of_pairwise ?_ ?_ ((placed_increasing 0 hne).imp Nat.le_of_lt) hall
    · intro x y hx hy hxy hyx
      exact eq_of_mem_placed hne (hall.subset hx) hy (Nat.le_antisymm hxy hyx)
    · rw [List.pairwise_map]
      exact p.pairwise_sorted
  refine ⟨p.sorted, ?_, hplaces⟩
  rw [layout?_eq]
  simp only [tiles_of_places hplaces, received_of_perm hp, ht, and_self, if_true]

/-- The frame that is cut into these pieces. -/
def whole (p : Pending) (pieces : List Bytes) : Frame where
  data := pieces.flatten
  offsets := (placed 0 pieces).map (·.1)
  merged := p.merged
  key := p.key
  time := p.time
  relaid := false

theorem frame_of_perm (hne : ∀ b ∈ pieces, b ≠ [])
    (hp : (p.fragments.map Fragment.place).Perm (placed 0 pieces))
    (ht : p.total = pieces.flatten.length) : p.frame = p.whole pieces := by
  obtain ⟨fs, hlayout, hplaces⟩ := layout?_of_perm hne hp ht
  have hdata := data_of_places hplaces
  rw [frame, hlayout, whole]
  simp only [Option.getD_some, Option.isNone_some, starts_eq, hdata, List.flatMap_def]

end Pending

end RealMedia.RealVideo
