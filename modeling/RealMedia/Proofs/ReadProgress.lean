import RealMedia.Proofs.DraftRun
import RealMedia.Proofs.SinkProtocol

/-!
Reading always ends: no read fails, and one that leaves more to read has moved on by at least the
length of a packet header, whatever counts and lengths the file declares.
-/

namespace RealMedia

open Container

variable {o : Options} {file : Bytes} {s t : Source} {h : ObjectHeader}

theorem Source.length_rest (s : Source) : s.rest.length = s.data.length - s.pos := by
  rw [s.rest_eq, List.length_drop]

namespace Container

@[simp] theorem data_readPayload (h : ObjectHeader) (s : Source) :
    (readPayload h s).2.data = s.data := by
  rw [readPayload]
  split
  · rfl
  · split
    · rename_i hr
      exact Source.data_of_read hr
    · rfl

/-- The source behind the header of the first data object is the one the chain was read from. -/
theorem data_readChain {x : DataHeader} (hc : (readChain s).2 = .data x t) : t.data = s.data := by
  induction hlen : s.rest.length using Nat.strongRecOn generalizing s with
  | _ len ih =>
    subst hlen
    rw [readChain] at hc
    split at hc
    · cases hc
    split at hc
    · cases hc
    · rename_i h s₁ ho
      have h₁ := length_rest_read ObjectHeader.consumes_decoder ho
      have hsame := Source.data_of_read ho
      split at hc
      · split at hc
        · rename_i hd
          cases hc
          exact (Source.data_of_read hd).trans hsame
        · cases hc
      · split at hc
        · cases hc
        · rename_i payload s₂ hp
          have h₂ := length_rest_readPayload_le (h := h) (s := s₁)
          have hkeep := data_readPayload h s₁
          rw [hp] at h₂ hkeep
          simp only [ObjectHeader.length] at h₁ h₂
          exact (ih s₂.rest.length (by omega) hc rfl).trans (hkeep.trans hsame)

end Container

namespace Demultiplexer

variable {d e : Demultiplexer} {r : Outcome} {n : Nat}

theorem data_readFileHeader {x : FileHeader} (hr : readFileHeader s = .ok (x, t)) :
    t.data = s.data := by
  rw [readFileHeader] at hr
  split at hr
  · cases hr
  · rename_i h s₁ ho
    have hkeep := data_readPayload h s₁
    split at hr
    · cases hr
    · rename_i payload s₂ hp
      rw [hp] at hkeep
      cases hd : decodePayload FileHeader.decoder payload with
      | error e =>
        rw [hd] at hr
        cases hr
      | ok f =>
        rw [hd] at hr
        cases hr
        exact hkeep.trans (Source.data_of_read ho)

/-- An open file is read from the bytes it was opened on. -/
theorem data_ofBytes (ho : (ofBytes o file).1 = .ok d) : d.source.data = file := by
  obtain ⟨-, f, t, xs, h, s, hs, hread, hchain, -, rfl⟩ := ofBytes_eq_ok.1 ho
  have hlast : (readChain t).2 = .data h s := by rw [hchain]
  exact (data_readChain hlast).trans (data_readFileHeader hread)

/-- How a step of reading leaves the source, and how alone it can fail or be the last one. -/
structure Stays (d : Demultiplexer) (r : Outcome) : Prop where
  data : r.1.source.data = d.source.data
  fault : ∀ x, r.2.2 = .error x → ∃ cause, x = .io cause
  done : r.2.2 = .ok .done → r.1.done = true

theorem stays_finishAfter {out : Outputs} (hs : e.source.data = d.source.data) :
    Stays d (e.finishAfter out) where
  data := by
    rw [finishAfter, source_finish]
    exact hs
  fault := by
    intro x hx
    rw [finishAfter_result] at hx
    cases hx
  done _ := e.done_finish

theorem stays_breakOff (hs : s.data = d.source.data) : Stays d (d.breakOff s) where
  data := hs
  fault := by
    rintro x ⟨⟩
    exact ⟨_, rfl⟩
  done := by rintro ⟨⟩

theorem stays_more {out : Outputs} (hs : e.source.data = d.source.data) :
    Stays d (e, out, .ok .moreData) where
  data := hs
  fault := by rintro x ⟨⟩
  done := by rintro ⟨⟩

theorem Reads.stays (hr : Reads d r) : Stays d r := by
  cases hr with
  | short => exact stays_finishAfter rfl
  | step _ _ hr =>
    cases hr with
    | noObject ho => exact stays_breakOff (Source.data_of_read ho)
    | noHeader ho _ hd =>
      exact stays_breakOff ((Source.data_of_read hd).trans (Source.data_of_read ho))
    | next ho _ hd => exact stays_more ((Source.data_of_read hd).trans (Source.data_of_read ho))
    | other ho => exact stays_finishAfter (Source.data_of_read ho)
  | packet _ _ hr =>
    cases hr with
    | noHeader hh => exact stays_breakOff (Source.data_of_read hh)
    | undersized hh => exact stays_finishAfter (Source.data_of_read hh)
    | skipped hh =>
      have hs := Source.data_of_read hh
      exact stays_more hs
    | truncated hh _ _ hr =>
      exact stays_finishAfter ((Source.data_of_read hr).trans (Source.data_of_read hh))
    | @routed h s u n t b hh _ ht hr =>
      obtain ⟨-, -, hmore⟩ := (d.behindHeader u).route_take (enabled_of_taker? ht).2 h b
      refine ⟨?_, ?_, ?_⟩
      · rw [source_route]
        exact (Source.data_of_read hr).trans (Source.data_of_read hh)
      · intro x hx
        rw [hmore] at hx
        cases hx
      · intro hx
        rw [hmore] at hx
        cases hx

/-- Running out of data is turned into the end, so no read fails. -/
theorem read_succeeds (d : Demultiplexer) :
    Stays d d.read ∧ ∃ status, d.read.2.2 = .ok status := by
  rw [read]
  by_cases hd : d.done = true
  · rw [if_pos hd]
    exact ⟨⟨rfl, by rintro x ⟨⟩, fun _ => hd⟩, _, rfl⟩
  rw [if_neg hd]
  have hs := (reads_readNext d.ensureAnnounced.1).stays
  have hsource := congrArg Source.data (source_ensureAnnounced (d := d))
  dsimp only
  rcases hn : d.ensureAnnounced.1.readNext with ⟨e, out, result⟩
  rw [hn] at hs
  cases result with
  | ok status => exact ⟨⟨hs.data.trans hsource, by rintro x ⟨⟩, hs.done⟩, status, rfl⟩
  | error fault =>
    obtain ⟨cause, rfl⟩ := hs.fault fault rfl
    exact ⟨stays_finishAfter (hs.data.trans hsource), .done, rfl⟩

/-- A read that leaves more to read has moved on by at least a packet header. -/
theorem pos_read (hr : d.read.2.2 = .ok .moreData) :
    PacketHeader.size ≤ d.source.data.length - d.source.pos ∧
      d.source.pos + PacketHeader.size ≤ d.read.1.source.pos := by
  have hdata := d.read_succeeds.1.data
  have hrest : d.read.1.source.rest.length + PacketHeader.size ≤ d.source.rest.length :=
    @length_read d d.read.1 d.read.2.1 (by rw [← hr])
  rw [Source.length_rest, Source.length_rest, hdata] at hrest
  simp only [PacketHeader.size] at hrest ⊢
  constructor <;> omega

theorem data_perform (d : Demultiplexer) (as : List Action) :
    (d.perform as).1.source.data = d.source.data := by
  induction as generalizing d with
  | nil => rfl
  | cons a as ih =>
    rw [perform]
    refine (ih _).trans ?_
    cases a with
    | read => exact d.read_succeeds.1.data
    | finish => exact congrArg Source.data source_finish

/-- A run is as many reads as it counts and one more, and there is room for that many packets. -/
theorem runFrom_reads (d : Demultiplexer) (n : Nat) (before : Outputs) :
    ∃ k, k * PacketHeader.size ≤ d.source.rest.length ∧
      let last := d.perform (List.replicate (k + 1) .read)
      d.runFrom n before = ⟨last.1, before.reverse ++ last.2, .ok (n + k)⟩ ∧
        last.1.done = true := by
  induction hlen : d.source.rest.length using Nat.strongRecOn generalizing d n before with
  | _ len ih =>
    subst hlen
    obtain ⟨hstays, status, hstatus⟩ := d.read_succeeds
    rw [runFrom_eq]
    rcases hr : d.read with ⟨e, out, result⟩
    rw [hr] at hstays hstatus
    subst hstatus
    cases status with
    | done =>
      refine ⟨0, by omega, ?_, ?_⟩
      · simp [perform, act, hr]
      · simpa [perform, act, hr] using hstays.done rfl
    | moreData =>
      have hshort := length_read hr
      simp only [PacketHeader.size] at hshort ih ⊢
      obtain ⟨k, hk, hrun, hdone⟩ := ih _ (by omega) e (n + 1) (out.reverse ++ before) rfl
      have hlater : d.perform (List.replicate (k + 2) .read) =
          ((e.perform (List.replicate (k + 1) .read)).1,
            out ++ (e.perform (List.replicate (k + 1) .read)).2) := by
        rw [List.replicate_succ, perform, act, hr]
      refine ⟨k + 1, by omega, ?_, ?_⟩
      · rw [hrun, hlater, List.reverse_append, List.reverse_reverse, List.append_assoc,
          Nat.add_right_comm, Nat.add_assoc n k 1]
      · rw [hlater]
        exact hdone

/-- Every read of an open file succeeds, and one that leaves more to read has moved on by at least
a packet header of the file. So a run is finitely many reads, at most one for every twelve bytes of
the file and one more, which says that everything is done. -/
theorem reading_ends (ho : (ofBytes o file).1 = .ok d) :
    (∀ as, let e := (d.perform as).1
      ∃ status, e.read.2.2 = .ok status ∧
        (status = .moreData → PacketHeader.size ≤ file.length - e.source.pos ∧
          e.source.pos + PacketHeader.size ≤ e.read.1.source.pos)) ∧
    ∃ n, n ≤ file.length / PacketHeader.size ∧
      let last := d.perform (List.replicate (n + 1) .read)
      d.run = ⟨last.1, last.2, .ok n⟩ ∧ last.1.done = true := by
  have hfile := data_ofBytes ho
  refine ⟨?_, ?_⟩
  · intro as e
    obtain ⟨-, status, hstatus⟩ := e.read_succeeds
    refine ⟨status, hstatus, ?_⟩
    rintro rfl
    have hpos := pos_read hstatus
    rwa [data_perform, hfile] at hpos
  · obtain ⟨k, hk, hrun, hdone⟩ := d.runFrom_reads 0 []
    rw [Source.length_rest, hfile] at hk
    refine ⟨k, ?_, ?_, hdone⟩
    · rw [Nat.le_div_iff_mul_le (by decide)]
      omega
    · rw [run, hrun, Nat.zero_add]
      rfl

/-- A file that declares more packets than anyone can count, with the header of one that reaches
past the end. -/
def overreach : Bytes :=
  objectBytes fileId (zeros 8) ++ dataId.bytes ++ bytes32 0 ++ bytes16 0 ++ bytes32 4294967295 ++
    zeros 4 ++ PacketHeader.bytes ⟨0, 65535, 7, 0, 0, 0⟩

/-- The packet is of no stream, and skipping it leads past the end, where reading ends. -/
theorem reading_ends_overreach : ∃ d, (ofBytes {} overreach).1 = .ok d ∧
    (∀ as, let e := (d.perform as).1
      ∃ status, e.read.2.2 = .ok status ∧
        (status = .moreData → PacketHeader.size ≤ overreach.length - e.source.pos ∧
          e.source.pos + PacketHeader.size ≤ e.read.1.source.pos)) ∧
    ∃ n, n ≤ overreach.length / PacketHeader.size ∧
      let last := d.perform (List.replicate (n + 1) .read)
      d.run = ⟨last.1, last.2, .ok n⟩ ∧ last.1.done = true := by
  have hopen : (ofBytes {} overreach).1.toOption.isSome = true := by decide +kernel
  cases hd : (ofBytes {} overreach).1 with
  | error e =>
    rw [hd] at hopen
    cases hopen
  | ok d => exact ⟨d, rfl, reading_ends hd⟩

end Demultiplexer

end RealMedia
