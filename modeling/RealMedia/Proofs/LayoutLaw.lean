import RealMedia.Proofs.FragmentAccounts

/-!
When the fragments of a frame are laid out by their offsets: they must cover the frame without gap or
overlap, and no empty one may stand in the way of the others.
-/

namespace RealMedia.RealVideo

/-- The position of the frame is among those that the fragment says it fills. -/
def Fragment.Covers (f : Fragment) (pos : Nat) : Prop :=
  f.header.offset ≤ pos ∧ pos < f.header.offset + f.data.length

instance (f : Fragment) (pos : Nat) : Decidable (f.Covers pos) :=
  inferInstanceAs (Decidable (_ ∧ _))

namespace Pending

variable {p : Pending} {f g : Fragment} {fs : List Fragment} {start stop pos : Nat}

/-- Every position of the frame is covered once, and none behind its end. -/
def Covered (p : Pending) : Prop :=
  ∀ pos, (p.fragments.countP fun f => f.Covers pos) = if pos < p.total then 1 else 0

/-- Each empty fragment stands at the end of the frame or of a range, or at the start of ranges whose
fragments have come after it. -/
structure EmptyFit (p : Pending) : Prop where
  inside : ∀ e ∈ p.fragments, e.data = [] → e.header.offset ≤ p.total
  apart : ∀ e ∈ p.fragments, e.data = [] → ∀ f ∈ p.fragments, f.header.offset < e.header.offset →
    f.header.offset + f.data.length ≤ e.header.offset
  first : p.fragments.Pairwise fun f e =>
    e.data = [] → f.data ≠ [] → f.header.offset ≠ e.header.offset

/-! ## The order of the offsets -/

theorem offset_trans (f g h : Fragment) :
    decide (f.header.offset ≤ g.header.offset) = true →
      decide (g.header.offset ≤ h.header.offset) = true →
      decide (f.header.offset ≤ h.header.offset) = true := by
  simp only [decide_eq_true_eq]
  omega

theorem offset_total (f g : Fragment) :
    (decide (f.header.offset ≤ g.header.offset) || decide (g.header.offset ≤ f.header.offset)) =
      true := by
  simp only [Bool.or_eq_true, decide_eq_true_eq]
  omega

/-- Fragments with the same offset are still in order of arrival when they are sorted. -/
theorem filter_sorted (p : Pending) (n : Nat) :
    p.sorted.filter (·.header.offset = n) = p.fragments.filter (·.header.offset = n) := by
  have hsame : (p.fragments.filter (·.header.offset = n)).Pairwise fun f g =>
      decide (f.header.offset ≤ g.header.offset) = true := by
    refine List.pairwise_of_forall_mem_list ?_
    intro f hf g hg
    simp only [List.mem_filter, decide_eq_true_eq] at hf hg ⊢
    omega
  have hsub : (p.fragments.filter (·.header.offset = n)).Sublist p.sorted :=
    List.sublist_mergeSort offset_trans offset_total hsame List.filter_sublist
  have hfilter := hsub.filter (·.header.offset = n)
  simp only [List.filter_filter, Bool.and_self] at hfilter
  exact (hfilter.eq_of_length (p.perm_sorted.filter _).length_eq.symm).symm

/-- An empty fragment that has come behind another one of its offset stays behind it. -/
theorem sublist_sorted (hf : [f, g].Sublist p.fragments) (ho : f.header.offset = g.header.offset) :
    [f, g].Sublist p.sorted :=
  List.pair_sublist_mergeSort offset_trans offset_total (by simp [ho]) hf

theorem sublist_of_sorted (hf : [f, g].Sublist p.sorted) (ho : f.header.offset = g.header.offset) :
    [f, g].Sublist p.fragments := by
  have hfilter := hf.filter (·.header.offset = g.header.offset)
  rw [filter_sorted] at hfilter
  simp only [ho, decide_true, List.filter_cons_of_pos, List.filter_nil] at hfilter
  exact hfilter.trans List.filter_sublist

/-! ## Fragments one behind the other -/

theorem tiles_cons :
    tiles start (f :: fs) = true ↔
      f.header.offset = start ∧ tiles (start + f.data.length) fs = true := by
  rw [tiles, Bool.and_eq_true, decide_eq_true_eq]

/-- Fragments that lie one behind the other lie between their start and their end. -/
theorem bounds_of_tiles (ht : tiles start fs = true) (hf : f ∈ fs) :
    start ≤ f.header.offset ∧
      f.header.offset + f.data.length ≤ start + (fs.flatMap (·.data)).length := by
  induction fs generalizing start with
  | nil => cases hf
  | cons g gs ih =>
    obtain ⟨ho, ht⟩ := tiles_cons.1 ht
    rw [List.flatMap_cons, List.length_append]
    rcases List.mem_cons.1 hf with rfl | hf
    · omega
    · have := ih ht hf
      omega

theorem pairwise_of_tiles (ht : tiles start fs = true) :
    fs.Pairwise fun f g => f.header.offset + f.data.length ≤ g.header.offset := by
  induction fs generalizing start with
  | nil => exact .nil
  | cons f fs ih =>
    obtain ⟨ho, ht⟩ := tiles_cons.1 ht
    refine .cons ?_ (ih ht)
    intro g hg
    have := (bounds_of_tiles ht hg).1
    omega

theorem end_le_of_tiles (ht : tiles start fs = true) (hf : f ∈ fs) (hg : g ∈ fs)
    (hlt : f.header.offset < g.header.offset) :
    f.header.offset + f.data.length ≤ g.header.offset := by
  induction fs generalizing start with
  | nil => cases hf
  | cons x xs ih =>
    obtain ⟨ho, ht⟩ := tiles_cons.1 ht
    rcases List.mem_cons.1 hf with rfl | hfx
    · rcases List.mem_cons.1 hg with rfl | hgx
      · omega
      · have := (bounds_of_tiles ht hgx).1
        omega
    · rcases List.mem_cons.1 hg with rfl | hgx
      · have := (bounds_of_tiles ht hfx).1
        omega
      · exact ih ht hfx hgx

theorem countP_cons_covers (f : Fragment) (fs : List Fragment) (pos : Nat) :
    ((f :: fs).countP fun g => g.Covers pos) =
      (fs.countP fun g => g.Covers pos) +
        if f.header.offset ≤ pos ∧ pos < f.header.offset + f.data.length then 1 else 0 := by
  simp only [List.countP_cons, decide_eq_true_eq]
  rfl

theorem countP_of_tiles (ht : tiles start fs = true) (pos : Nat) :
    (fs.countP fun f => f.Covers pos) =
      if start ≤ pos ∧ pos < start + (fs.flatMap (·.data)).length then 1 else 0 := by
  induction fs generalizing start with
  | nil => simp
  | cons f fs ih =>
    obtain ⟨ho, ht⟩ := tiles_cons.1 ht
    rw [countP_cons_covers, ih ht, List.flatMap_cons, List.length_append, ho]
    split <;> split <;> split <;> omega

/-- Each fragment finds its data at its offset. -/
theorem data_of_tiles (ht : tiles start fs = true) (hf : f ∈ fs) :
    ((fs.flatMap (·.data)).drop (f.header.offset - start)).take f.data.length = f.data := by
  induction fs generalizing start with
  | nil => cases hf
  | cons g gs ih =>
    obtain ⟨ho, ht⟩ := tiles_cons.1 ht
    rw [List.flatMap_cons]
    rcases List.mem_cons.1 hf with rfl | hf
    · simp [ho]
    · have hle := (bounds_of_tiles ht hf).1
      have hsub : f.header.offset - start =
          g.data.length + (f.header.offset - (start + g.data.length)) := by omega
      rw [hsub, List.drop_length_add_append]
      exact ih ht hf

/-- Sorted fragments lie one behind the other if they cover a range once, and the empty ones stand
in it behind all that are sorted before them. -/
theorem tiles_of_covers (hs : fs.Pairwise fun f g => f.header.offset ≤ g.header.offset)
    (hc : ∀ pos, (fs.countP fun f => f.Covers pos) = if start ≤ pos ∧ pos < stop then 1 else 0)
    (hi : ∀ e ∈ fs, e.data = [] → start ≤ e.header.offset ∧ e.header.offset ≤ stop)
    (ha : fs.Pairwise fun f e => e.data = [] → f.header.offset + f.data.length ≤ e.header.offset) :
    tiles start fs = true := by
  induction fs generalizing start with
  | nil => rfl
  | cons f fs ih =>
    obtain ⟨hfirst, hs⟩ := List.pairwise_cons.1 hs
    obtain ⟨hbehind, ha⟩ := List.pairwise_cons.1 ha
    have hbounds : start ≤ f.header.offset ∧ f.header.offset ≤ stop := by
      by_cases hf : f.data = []
      · exact hi f (by simp) hf
      · have hlen : 0 < f.data.length := List.length_pos_iff.2 hf
        have hpos := hc f.header.offset
        rw [countP_cons_covers, if_pos (by omega)] at hpos
        split at hpos <;> omega
    have ho : f.header.offset = start := by
      by_contra hne
      have hcovered := hc start
      rw [if_pos (by omega)] at hcovered
      obtain ⟨g, hg, hgc⟩ := List.countP_pos_iff.1 (by omega :
        0 < (f :: fs).countP fun g => g.Covers start)
      have hgs : g.header.offset ≤ start := (of_decide_eq_true hgc).1
      rcases List.mem_cons.1 hg with rfl | hg
      · omega
      · have := hfirst g hg
        omega
    refine tiles_cons.2 ⟨ho, ih hs ?_ ?_ ha⟩
    · intro pos
      have hpos := hc pos
      rw [countP_cons_covers, ho] at hpos
      split at hpos <;> split at hpos <;> split <;> omega
    · intro e he hempty
      have := hbehind e he hempty
      have := (hi e (by simp [he]) hempty).2
      omega

/-! ## The layout of a set -/

theorem received_flatMap (p : Pending) : p.received = (p.fragments.flatMap (·.data)).length := by
  rw [received_eq, List.flatMap_def]

theorem length_sorted (p : Pending) : (p.sorted.flatMap (·.data)).length = p.received := by
  rw [received_flatMap]
  exact (p.perm_sorted.flatMap_right _).length_eq

theorem emptyFit_of_tiles (hr : p.received = p.total) (ht : tiles 0 p.sorted = true) :
    p.EmptyFit := by
  refine ⟨?_, ?_, ?_⟩
  · intro e he _
    have := (bounds_of_tiles ht (p.perm_sorted.mem_iff.2 he)).2
    rw [length_sorted] at this
    omega
  · intro e he _ f hf hlt
    exact end_le_of_tiles ht (p.perm_sorted.mem_iff.2 hf) (p.perm_sorted.mem_iff.2 he) hlt
  · refine List.pairwise_iff_forall_sublist.2 ?_
    intro f e hsub _ hne ho
    have hle := List.pairwise_iff_forall_sublist.1 (pairwise_of_tiles ht) (sublist_sorted hsub ho)
    have : 0 < f.data.length := List.length_pos_iff.2 hne
    omega

theorem tiles_of_fit (hc : p.Covered) (he : p.EmptyFit) : tiles 0 p.sorted = true := by
  have hcovers : ∀ pos, (p.sorted.countP fun f => f.Covers pos) =
      if 0 ≤ pos ∧ pos < p.total then 1 else 0 := by
    intro pos
    rw [p.perm_sorted.countP_eq, hc pos]
    simp
  refine tiles_of_covers p.pairwise_sorted hcovers ?_ ?_
  · intro e hmem hempty
    exact ⟨Nat.zero_le _, he.inside e (p.perm_sorted.mem_iff.1 hmem) hempty⟩
  · refine List.pairwise_iff_forall_sublist.2 ?_
    intro f e hsub hempty
    have hle := List.pairwise_iff_forall_sublist.1 p.pairwise_sorted hsub
    have hf : f ∈ p.fragments := p.perm_sorted.mem_iff.1 (hsub.subset (by simp))
    have hmem : e ∈ p.fragments := p.perm_sorted.mem_iff.1 (hsub.subset (by simp))
    rcases Nat.lt_or_eq_of_le hle with hlt | heq
    · exact he.apart e hmem hempty f hf hlt
    · -- of two fragments with one offset the empty one has come first, or both are empty
      have hdata : f.data = [] := by
        by_contra hne
        exact List.pairwise_iff_forall_sublist.1 he.first (sublist_of_sorted hsub heq) hempty hne
          heq
      simp [hdata, heq]

theorem relaid_frame (p : Pending) : p.frame.relaid = p.layout?.isNone := rfl

theorem layout?_of_not_relaid (h : p.frame.relaid = false) :
    p.layout? = some p.sorted ∧ p.received = p.total ∧ tiles 0 p.sorted = true := by
  rw [relaid_frame, layout?_eq] at h
  rw [layout?_eq]
  split at h
  · rename_i hfit
    exact ⟨if_pos hfit, hfit⟩
  · cases h

/-- The fragments are laid out by their offsets if and only if the ranges fit and no empty fragment
stands in the way. -/
theorem not_relaid_iff (p : Pending) :
    p.frame.relaid = false ↔ p.received = p.total ∧ p.Covered ∧ p.EmptyFit := by
  constructor
  · intro h
    obtain ⟨-, hr, ht⟩ := layout?_of_not_relaid h
    refine ⟨hr, ?_, emptyFit_of_tiles hr ht⟩
    intro pos
    rw [← p.perm_sorted.countP_eq, countP_of_tiles ht, length_sorted, hr]
    simp
  · rintro ⟨hr, hc, he⟩
    rw [relaid_frame, layout?_eq, if_pos ⟨hr, tiles_of_fit hc he⟩]
    rfl

theorem frame_of_not_relaid (h : p.frame.relaid = false) :
    p.frame.data.length = p.total ∧
      ∀ f ∈ p.fragments, (p.frame.data.drop f.header.offset).take f.data.length = f.data := by
  obtain ⟨hl, hr, ht⟩ := layout?_of_not_relaid h
  have hdata : p.frame.data = p.sorted.flatMap (·.data) := by simp [frame, hl]
  rw [hdata, length_sorted]
  exact ⟨hr, fun f hf => data_of_tiles ht (p.perm_sorted.mem_iff.2 hf)⟩

theorem starts_eq_lengths (start : Nat) (fs : List Fragment) :
    starts start fs = (List.range fs.length).map fun i =>
      start + ((fs.take i).flatMap (·.data)).length := by
  induction fs generalizing start with
  | nil => rfl
  | cons f fs ih =>
    rw [starts, ih, List.length_cons, List.range_succ_eq_map, List.map_cons, List.map_map]
    simp [Function.comp_def, Nat.add_assoc]

theorem frame_of_relaid (h : p.frame.relaid = true) :
    p.frame.data = p.fragments.flatMap (·.data) ∧
      p.frame.offsets = (List.range p.fragments.length).map fun i =>
        ((p.fragments.take i).flatMap (·.data)).length := by
  rw [relaid_frame, Option.isNone_iff_eq_none] at h
  simp [frame, h, starts_eq_lengths]

end Pending

namespace Assembly

/-- The fragments of each frame that is handed out are laid out by their offsets if and only if their
ranges fit and no empty one stands in the way; otherwise they stand in order of arrival. -/
theorem layout_by_offsets (stream : Nat) (qs : List Request) :
    let r := ({ stream } : Assembly).answerAll qs
    ∃ sets : List Pending, r.2.flatMap (·.frames) = sets.map Pending.frame ∧
      r.1.Accounts (qs.flatMap Request.fragments) sets ∧ ∀ p ∈ sets,
        (p.frame.relaid = false ↔ p.received = p.total ∧ p.Covered ∧ p.EmptyFit) ∧
        (p.frame.relaid = false → p.frame.data.length = p.total ∧
          ∀ f ∈ p.fragments, (p.frame.data.drop f.header.offset).take f.data.length = f.data) ∧
        (p.frame.relaid = true → p.frame.data = p.fragments.flatMap (·.data) ∧
          p.frame.offsets = (List.range p.fragments.length).map fun i =>
            ((p.fragments.take i).flatMap (·.data)).length) := by
  intro r
  obtain ⟨sets, hframes, hacc⟩ := accounts_answerAll stream qs
  refine ⟨sets, hframes, hacc, ?_⟩
  intro p _
  exact ⟨p.not_relaid_iff, Pending.frame_of_not_relaid, Pending.frame_of_relaid⟩

/-- A fragment of a frame of five bytes. -/
def partOfFive (offset : Nat) (data : Bytes) : Fragment where
  header :=
    { descriptor := 0x00, subSequence := 0, sequence := 0, total := 5, offset, merged := false
      time := none }
  data := data

/-- The end of a frame, an empty fragment at the same place, and the start of the frame. -/
def withEmpty : Pending where
  fragments := [partOfFive 2 [3, 4, 5], partOfFive 2 [], partOfFive 0 [1, 2]]
  total := 5
  merged := false
  key := true
  time := 0

/-- The ranges of the fragments fit, but for an empty fragment the frame is in order of arrival. -/
theorem relaid_for_empty :
    (({ stream := 0 } : Assembly).answerAll
        (withEmpty.fragments.map fun f => .fragment f 0 true)).2.flatMap (·.frames) =
      [⟨[3, 4, 5, 1, 2], [0, 3, 3], false, true, 0, true⟩] ∧
    withEmpty.received = withEmpty.total ∧ withEmpty.Covered := by
  have hrelaid : withEmpty.frame.relaid = true := by
    rw [← Bool.not_eq_false, withEmpty.not_relaid_iff]
    rintro ⟨-, -, hfit⟩
    obtain ⟨hfirst, -⟩ := List.pairwise_cons.1 hfit.first
    exact hfirst (partOfFive 2 []) (by simp) rfl (by simp [partOfFive]) rfl
  have hlayout : withEmpty.layout? = none := Option.isNone_iff_eq_none.1 hrelaid
  have hout : (({ stream := 0 } : Assembly).answerAll
      (withEmpty.fragments.map fun f => .fragment f 0 true)).2.flatMap (·.frames) =
        [withEmpty.frame] := rfl
  refine ⟨?_, rfl, ?_⟩
  · rw [hout, Pending.frame, hlayout]
    rfl
  · intro pos
    change (withEmpty.fragments.countP fun f => f.Covers pos) = if pos < 5 then 1 else 0
    simp only [withEmpty, partOfFive, Pending.countP_cons_covers, List.countP_nil, List.length_cons,
      List.length_nil]
    split_ifs <;> omega

end Assembly

end RealMedia.RealVideo
