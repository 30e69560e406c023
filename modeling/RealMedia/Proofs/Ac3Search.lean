import RealMedia.Framer.Ac3
import RealMedia.Proofs.Ac3Verdict

/-! The search for AC3 frames, described by the places that the bytes do not rule out. -/

namespace RealMedia

/-- The packets among the calls of a step. -/
def packets (out : Outputs) : List Packet := (calls out).filterMap SinkCall.packet?

@[simp] theorem packets_append (a b : Outputs) : packets (a ++ b) = packets a ++ packets b := by
  simp [packets]

theorem packets_of_calls {out : Outputs} {ps : List Packet}
    (hc : calls out = ps.map .packet) :
    packets out = ps := by
  rw [packets, hc, List.filterMap_map]
  exact List.filterMap_some

namespace Ac3

variable {b : Bytes} {i n : Nat}

/-- Without a sync word only a last byte that may be the first half of one is kept. -/
theorem scan_of_findSync_none (hf : findSyncFrom i b = none) :
    scan b = (b.length - if b.getLast? = some 0x0b then 1 else 0, none) := by
  fun_induction findSyncFrom i b with
  | case1 i a x rest hs => cases hf
  | case2 i a x rest hs ih =>
    have hj : judge (a :: x :: rest) = .reject := by simp only [judge, if_neg hs]
    rw [scan_cons_reject hj, ih hf, List.getLast?_cons_cons]
    simp only [List.length_cons, Prod.mk.injEq, and_true]
    split <;> omega
  | case3 b i hb =>
    cases b with
    | nil => rfl
    | cons a r =>
      cases r with
      | nil => by_cases ha : a = 0x0b <;> simp [scan_cons, judge, ha]
      | cons x r => exact (hb a x r rfl).elim

/-- Everything before the first sync word is rejected, and the verdict there is about the frame
behind it. -/
theorem scan_of_findSync_some (hf : findSyncFrom i b = some n) :
    ∃ k, n = i + k ∧ scan b = ((scan (b.drop k)).1 + k, (scan (b.drop k)).2) ∧
      judge (b.drop k) = judgeSynced (b.drop k) := by
  fun_induction findSyncFrom i b with
  | case1 i a x rest hs =>
    cases hf
    exact ⟨0, rfl, rfl, by simp only [List.drop_zero, judge, if_pos hs]⟩
  | case2 i a x rest hs ih =>
    obtain ⟨k, rfl, hscan, hj⟩ := ih hf
    have hr : judge (a :: x :: rest) = .reject := by simp only [judge, if_neg hs]
    refine ⟨k + 1, by omega, ?_, hj⟩
    rw [scan_cons_reject hr, hscan]
    rfl
  | case3 i b hb => cases hf

end Ac3

namespace Ac3Framer

open Ac3

variable {f g : Ac3Framer} {h : FrameHeader} {ps qs : List Packet} {r : Option Ac3Framer}
  {out before : Outputs} {m n : Nat}

@[simp] theorem buffer_discard : (f.discard n).buffer = f.buffer.drop n := rfl

@[simp] theorem junk_discard : (f.discard n).junk = f.junk + n := rfl

@[simp] theorem window_discard : (f.discard n).window = f.window := rfl

@[simp] theorem start_discard : (f.discard n).start = f.start + n := rfl

@[simp] theorem header_discard : (f.discard n).header = f.header := rfl

@[simp] theorem discard_zero : f.discard 0 = f := by simp [discard, advance]

theorem discard_discard : (f.discard m).discard n = f.discard (n + m) := by
  simp [discard, advance, List.drop_drop, Nat.add_assoc, Nat.add_comm n m]

@[simp] theorem calls_discardNotes : calls (f.discardNotes n) = [] := by
  rw [discardNotes]
  split <;> rfl

/-- The packet of the frame at the start of the buffer. -/
def packetOf (f : Ac3Framer) (h : FrameHeader) : Packet :=
  { stream := f.header.id, data := f.buffer.take h.bytes, time := f.reach.frameTime h.duration,
    duration := h.duration, backward := noTime, forward := noTime }

theorem calls_emit : calls (f.emit h).2 = [.packet (f.packetOf h)] := by
  simp only [emit, calls_append, packetOf]
  split <;> rfl

theorem search_eq (f : Ac3Framer) (before : Outputs) :
    f.search before = match f.step with
      | .wait g out => (g, (out.reverse ++ before).reverse, none)
      | .lost g out => (g, (out.reverse ++ before).reverse, some g.fault)
      | .next g out => g.search (out.reverse ++ before) := by
  rw [search]
  split <;> rename_i hs <;> simp only [hs]

theorem search_before (f : Ac3Framer) (before : Outputs) :
    f.search before =
      ((f.search []).1, before.reverse ++ (f.search []).2.1, (f.search []).2.2) := by
  induction hn : f.buffer.length using Nat.strongRecOn generalizing f before with
  | _ n ih =>
    subst hn
    rw [search_eq f before, search_eq f []]
    cases hs : f.step with
    | wait g out => simp
    | lost g out => simp
    | next g out =>
      simp only [ih _ (length_step hs) g (out.reverse ++ before) rfl,
        ih _ (length_step hs) g (out.reverse ++ []) rfl]
      simp

theorem search_next (hs : f.step = .next g out) :
    f.search [] = ((g.search []).1, out ++ (g.search []).2.1, (g.search []).2.2) := by
  rw [search_eq, hs]
  simp only [search_before g (out.reverse ++ [])]
  simp

/-- What a search hands out, and the framer it leaves unless the stream is lost. -/
inductive Finds : Ac3Framer → List Packet → Option Ac3Framer → Prop
  /-- Too much is rejected since the last frame. -/
  | lost {f : Ac3Framer} (hj : f.window < f.junk + (scan f.buffer).1) : Finds f [] none
  | wait {f : Ac3Framer} {n : Nat} (hs : scan f.buffer = (n, none)) (hj : f.junk + n ≤ f.window) :
    Finds f [] (some (f.discard n))
  | frame {f : Ac3Framer} {n : Nat} {h : FrameHeader} {ps : List Packet} {r : Option Ac3Framer}
    (hs : scan f.buffer = (n, some h)) (hj : f.junk + n ≤ f.window)
    (next : Finds ((f.discard n).emit h).1 ps r) : Finds f ((f.discard n).packetOf h :: ps) r

/-- Bytes that are rejected anyway may be thrown away beforehand. -/
theorem finds_of_discard
    (hs : scan f.buffer = ((scan (f.buffer.drop m)).1 + m, (scan (f.buffer.drop m)).2))
    (hf : Finds (f.discard m) ps r) : Finds f ps r := by
  generalize hg : f.discard m = g at hf
  cases hf with
  | lost hj =>
    subst hg
    refine .lost ?_
    simp only [buffer_discard, junk_discard, window_discard] at hj
    rw [hs]
    omega
  | @wait _ n hn hj =>
    subst hg
    simp only [buffer_discard, junk_discard, window_discard] at hn hj
    rw [discard_discard]
    exact .wait (by rw [hs, hn]) (by omega)
  | @frame _ n h ps r hn hj next =>
    subst hg
    simp only [buffer_discard, junk_discard, window_discard] at hn hj
    rw [discard_discard] at next ⊢
    exact .frame (by rw [hs, hn]) (by omega) next

theorem finds_unique {qs : List Packet} {s : Option Ac3Framer} (hp : Finds f ps r)
    (hq : Finds f qs s) : ps = qs ∧ r = s := by
  induction hp generalizing qs s with
  | lost hj =>
    cases hq with
    | lost => exact ⟨rfl, rfl⟩
    | wait hs hk => rw [hs] at hj; omega
    | frame hs hk => rw [hs] at hj; omega
  | wait hs hj =>
    cases hq with
    | lost hk => rw [hs] at hk; omega
    | wait ht hk =>
      rw [hs, Prod.mk.injEq] at ht
      exact ⟨rfl, by rw [ht.1]⟩
    | frame ht hk => rw [hs] at ht; cases ht
  | frame hs hj next ih =>
    cases hq with
    | lost hk => rw [hs] at hk; omega
    | wait ht hk => rw [hs] at ht; cases ht
    | frame ht hk more =>
      rw [hs] at ht
      cases ht
      obtain ⟨rfl, rfl⟩ := ih more
      exact ⟨rfl, rfl⟩

/-- The framer that a search leaves, unless the stream is lost. -/
def leftBy (result : Ac3Framer × Outputs × Option SyncFault) : Option Ac3Framer :=
  match result.2.2 with
  | none => some result.1
  | some _ => none

/-- A step at a sync word follows the verdict on the bytes behind it. -/
theorem stepAtSync_eq (f : Ac3Framer) :
    ∃ out, calls out = [] ∧ f.stepAtSync = match judgeSynced f.buffer with
      | .reject => .next (f.discard 1) out
      | .undecided => .wait f []
      | .frame h => .next (f.emit h).1 (f.emit h).2 := by
  rw [stepAtSync, judgeSynced]
  simp only [Bool.not_eq_true', atLeast_eq_false]
  by_cases hlen : f.buffer.length < headerSize
  · exact ⟨[], rfl, by simp only [if_pos hlen]⟩
  simp only [if_neg hlen]
  cases hp : FrameHeader.parse? f.buffer with
  | none => exact ⟨f.discardNotes 1, calls_discardNotes, rfl⟩
  | some h =>
    by_cases hspan : f.buffer.length < crcSpan h.bytes
    · exact ⟨[], rfl, by simp only [if_pos hspan]⟩
    by_cases hcrc : crcMatches f.buffer h.bytes = false
    · refine ⟨[.note (.crcMismatch f.header.id)] ++ f.discardNotes 1, ?_,
        by simp only [if_neg hspan, if_pos hcrc]⟩
      rw [calls_append, calls_discardNotes]
      rfl
    by_cases hwhole : f.buffer.length < h.bytes
    · exact ⟨[], rfl, by simp only [if_neg hspan, if_neg hcrc, if_pos hwhole]⟩
    · exact ⟨[], rfl, by simp only [if_neg hspan, if_neg hcrc, if_neg hwhole]⟩

/-- A step without a sync word throws away all but a possible first half of one. -/
theorem step_of_no_sync (hf : findSync f.buffer 0 = none) :
    ∃ n, scan f.buffer = (n, none) ∧
      f.step = if f.window < f.junk + n then .lost (f.discard n) (f.discardNotes n)
        else .wait (f.discard n) (f.discardNotes n) := by
  refine ⟨_, scan_of_findSync_none hf, ?_⟩
  rw [step, hf]
  rfl

/-- A step to a sync word throws away what is rejected before it, and then follows the verdict. -/
theorem step_of_sync (hf : findSync f.buffer 0 = some n) :
    scan f.buffer = ((scan (f.buffer.drop n)).1 + n, (scan (f.buffer.drop n)).2) ∧
      judge (f.buffer.drop n) = judgeSynced (f.buffer.drop n) ∧
      f.step = if f.window < f.junk + n then .lost (f.discard n) (f.discardNotes n)
        else (f.discard n).stepAtSync.after (f.discardNotes n) := by
  obtain ⟨k, rfl, hs, hj⟩ := scan_of_findSync_some hf
  rw [Nat.zero_add] at hf ⊢
  refine ⟨hs, hj, ?_⟩
  rw [step, hf]
  rfl

/-- The search of the framer is the one described by the verdicts on the bytes. -/
theorem search_finds (f : Ac3Framer) :
    ∃ ps, calls (f.search []).2.1 = ps.map .packet ∧ Finds f ps (leftBy (f.search [])) := by
  induction hlen : f.buffer.length using Nat.strongRecOn generalizing f with
  | _ len ih =>
    subst hlen
    cases hf : findSync f.buffer 0 with
    | none =>
      obtain ⟨n, hs, hstep⟩ := step_of_no_sync hf
      refine ⟨[], ?_⟩
      by_cases hw : f.window < f.junk + n
      · rw [if_pos hw] at hstep
        rw [search_eq, hstep]
        exact ⟨by simp, .lost (by rwa [hs])⟩
      · rw [if_neg hw] at hstep
        rw [search_eq, hstep]
        exact ⟨by simp, .wait hs (by omega)⟩
    | some n =>
      obtain ⟨hs, hj, hstep⟩ := step_of_sync hf
      obtain ⟨out, hout, hsync⟩ := (f.discard n).stepAtSync_eq
      by_cases hw : f.window < f.junk + n
      · rw [if_pos hw] at hstep
        rw [search_eq, hstep]
        exact ⟨[], by simp, .lost (by rw [hs]; omega)⟩
      rw [if_neg hw, hsync] at hstep
      cases hv : judgeSynced (f.discard n).buffer with
      | undecided =>
        rw [scan_of_undecided (hj.trans hv), Nat.zero_add] at hs
        simp only [hv, Step.after] at hstep
        rw [search_eq, hstep]
        exact ⟨[], by simp, .wait hs (by omega)⟩
      | reject =>
        simp only [hv, Step.after] at hstep
        obtain ⟨ps, hps, hfinds⟩ := ih _ (length_step hstep) _ rfl
        rw [search_next hstep]
        have hskip := scan_of_reject (hj.trans hv)
        exact ⟨ps, by simpa [hout] using hps, finds_of_discard hs (finds_of_discard hskip hfinds)⟩
      | frame h =>
        rw [scan_of_frame (hj.trans hv), Nat.zero_add] at hs
        simp only [hv, Step.after] at hstep
        obtain ⟨ps, hps, hfinds⟩ := ih _ (length_step hstep) _ rfl
        rw [search_next hstep]
        exact ⟨_ :: ps, by simp [calls_emit, hps], .frame hs (by omega) hfinds⟩

end Ac3Framer

end RealMedia
