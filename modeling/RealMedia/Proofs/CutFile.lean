import RealMedia.Proofs.DraftRun

/-!
A file that breaks off is read as if it had ended in front of the packet that is cut: its sink sees
what it would see of a file without the packets that are not wholly there.
-/

namespace RealMedia

open Container Container.Draft

variable {o : Options} {ss : List Step} {n pos : Nat} {d e : Demultiplexer}
  {ms : List Description} {now later : List Written}

namespace Container.Draft

theorem sublist_trimFrom (n pos : Nat) (ss : List Step) : (trimFrom n pos ss).Sublist ss := by
  induction ss generalizing pos with
  | nil => exact .slnil
  | cons s ss ih =>
    rw [trimFrom]
    split
    · exact .cons s (ih _)
    · exact .cons_cons s (ih _)

/-- Only packets are removed, so the streams stay described as they are. -/
theorem described_trimFrom (n pos : Nat) (ss : List Step) :
    described (trimFrom n pos ss) = described ss := by
  induction ss generalizing pos with
  | nil => rfl
  | cons s ss ih =>
    rw [trimFrom]
    split
    · rename_i hs
      have hnone : s.description? = none := by
        cases s with
        | packet => rfl
        | duration | content | media | video | audio4 | audio5 | object | nextSection | index =>
          cases hs.1
      rw [ih, described, described, List.filterMap_cons_none hnone]
    · rw [described, described, List.filterMap_cons, List.filterMap_cons]
      have hrest := ih (pos + s.room)
      rw [described, described] at hrest
      rw [hrest]

theorem sound_trim (hs : Sound ss) (hk : (kept ss).length < 4294967296) (n : Nat) :
    Sound (trim n ss) := by
  have hsub := sublist_trimFrom n (dataStart ss) ss
  have hkept : (kept (trim n ss)).Sublist (kept ss) := (hsub.filterMap _).filter _
  exact sound_of_kept (fun s hmem => hs.steps s (hsub.subset hmem))
    (Nat.lt_of_le_of_lt hkept.length_le hk)

end Container.Draft

/-- What a sink is told hangs on the streams and on the packets that are whole. -/
theorem calls_openedAt (hd : OpenedAt o ms now later d) (he : OpenedAt o ms now later e) :
    calls d.run.out = calls e.run.out := by
  rw [(run_openedAt hd).2.2, (run_openedAt he).2.2]

/-- A drafted file, cut anywhere behind the headers of its first section, is read to the end with
the same calls as the file of the draft without the packets that are not wholly left. -/
theorem cut_file (o : Options) (hl : ∀ s ∈ ss, s.Limited) (hsize : (file ss).length < 4294967296)
    (hn : dataStart ss ≤ n) :
    ∃ d e, (Demultiplexer.ofBytes o ((file ss).take n)).1 = .ok d ∧
      (Demultiplexer.ofBytes o (file (trim n ss))).1 = .ok e ∧
      (∃ m, d.run.reads = .ok m) ∧ (∃ m, e.run.reads = .ok m) ∧
      calls d.run.out = calls e.run.out := by
  have hs := sound_of_length hl hsize
  have hk := Nat.lt_of_le_of_lt (length_kept_le ss) hsize
  obtain ⟨d, hd, hcut⟩ := opens_cut hs hn o
  obtain ⟨e, he, hwhole⟩ := opens_file (sound_trim hs hk n) o
  rw [Opened, trim, described_trimFrom] at hwhole
  exact ⟨d, e, hd, he, (run_openedAt hcut).1, (run_openedAt hwhole).1, calls_openedAt hcut hwhole⟩

/-- A stream of plain audio in two sections. -/
def pieces : List Step :=
  [.audio4 2 (ascii "cook") 8000 1 [], .packet 2 10 true [1, 2], .packet 1 20 true [3],
    .nextSection, .packet 2 30 true [4, 5, 6], .packet 2 40 true [], .index]

/-- Cut in front of its last byte, the first packet of the second section goes. -/
theorem cut_file_pieces : ∃ d e,
    (Demultiplexer.ofBytes {} ((file pieces).take 277)).1 = .ok d ∧
    (Demultiplexer.ofBytes {} (file
      [.audio4 2 (ascii "cook") 8000 1 [], .packet 2 10 true [1, 2], .packet 1 20 true [3],
        .nextSection, .index])).1 = .ok e ∧
    (∃ m, d.run.reads = .ok m) ∧ (∃ m, e.run.reads = .ok m) ∧
    calls d.run.out = calls e.run.out := by
  have hlimits : ∀ s ∈ pieces, s.Limited := by
    intro s hs
    simp only [pieces, List.mem_cons, List.not_mem_nil, or_false] at hs
    rcases hs with rfl | rfl | rfl | rfl | rfl | rfl | rfl
    · rintro m ⟨⟩
      rw [length_encode]
      decide
    all_goals rintro m ⟨⟩
  have hstart : dataStart pieces = 218 := by decide +kernel
  have htrim : trim 277 pieces = [.audio4 2 (ascii "cook") 8000 1 [], .packet 2 10 true [1, 2],
      .packet 1 20 true [3], .nextSection, .index] := by
    rw [trim, hstart]
    rfl
  rw [← htrim]
  exact cut_file {} hlimits (by decide +kernel) (by rw [hstart]; decide)

end RealMedia
