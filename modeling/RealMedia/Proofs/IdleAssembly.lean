import RealMedia.Proofs.ArrivalOrder
import RealMedia.Proofs.FragmentAccounts

/-!
Two assemblies side by side. While no frame is unfinished, nothing that an assembly remembers of the
frames before can be told from its answers.
-/

namespace RealMedia.RealVideo.Assembly

variable {a b : Assembly} {f : Fragment} {fs : List Fragment} {sets : List Pending} {time : Int}
  {key : Bool} {q : Request} {qs : List Request}

/-- Both hold the same unfinished frame, or none. Only beside an unfinished frame does the time of
the last fragment matter. -/
structure Matches (a b : Assembly) : Prop where
  pending : a.pending = b.pending
  lastTime : a.pending.isSome → a.lastTime = b.lastTime

theorem Matches.of_idle (ha : a.pending = none) (hb : b.pending = none) : a.Matches b := by
  refine ⟨ha.trans hb.symm, ?_⟩
  intro hbusy
  simp [ha] at hbusy

theorem Matches.flush (h : a.Matches b) :
    a.flush.2.1 = b.flush.2.1 ∧ a.flush.1.Matches b.flush.1 := by
  have hpending := h.pending
  cases hp : a.pending with
  | none =>
    rw [hp] at hpending
    rw [flush_idle hp, flush_idle hpending.symm]
    exact ⟨rfl, h⟩
  | some p =>
    rw [hp] at hpending
    obtain ⟨_, ha⟩ := flush_busy hp
    obtain ⟨_, hb⟩ := flush_busy hpending.symm
    rw [ha, hb]
    exact ⟨rfl, .of_idle rfl rfl⟩

/-- A fragment joins or starts the same frame, and stays in both or in none. -/
theorem Matches.push (h : a.Matches b) (f : Fragment) (time : Int) (key : Bool) :
    (a.push f time key).2.1 = (b.push f time key).2.1 ∧
      (a.push f time key).1.Matches (b.push f time key).1 := by
  have hopen : a.opened f time key = b.opened f time key := by rw [opened, opened, h.pending]
  by_cases hkept : f.header.isLast = false ∧
      (a.opened f time key).received < (a.opened f time key).total
  · obtain ⟨_, ha⟩ := push_keeps time key hkept.1 hkept.2
    rw [hopen] at hkept
    obtain ⟨_, hb⟩ := push_keeps time key hkept.1 hkept.2
    rw [ha, hb, hopen]
    exact ⟨rfl, rfl, fun _ => rfl⟩
  · obtain ⟨_, ha⟩ := push_hands_of_not time key hkept
    rw [hopen] at hkept
    obtain ⟨_, hb⟩ := push_hands_of_not time key hkept
    rw [ha, hb, hopen]
    exact ⟨rfl, .of_idle rfl rfl⟩

theorem Matches.pushAll (h : a.Matches b) (time : Int) (key : Bool) (fs : List Fragment) :
    (a.pushAll time key fs).2.1 = (b.pushAll time key fs).2.1 ∧
      (a.pushAll time key fs).1.Matches (b.pushAll time key fs).1 := by
  induction fs generalizing a b key with
  | nil => exact ⟨rfl, h⟩
  | cons f fs ih =>
    obtain ⟨hframe, hnext⟩ := h.push f time key
    obtain ⟨hframes, hend⟩ := ih hnext (key && (a.push f time key).2.1.isNone)
    simp only [Assembly.pushAll]
    rw [← hframe]
    exact ⟨congrArg _ hframes, hend⟩

/-- The time of the last fragment decides only whether an unfinished frame is handed out first. -/
theorem Matches.left (h : a.Matches b) (time : Int) :
    (a.pending.isSome && decide (time ≠ a.lastTime)) =
      (b.pending.isSome && decide (time ≠ b.lastTime)) := by
  rw [← h.pending]
  cases hbusy : a.pending.isSome with
  | false => rfl
  | true => rw [h.lastTime hbusy]

theorem Matches.answer (h : a.Matches b) (q : Request) :
    (a.answer q).2 = (b.answer q).2 ∧ (a.answer q).1.Matches (b.answer q).1 := by
  cases q with
  | chunk data time key =>
    simp only [Assembly.answer, pushChunk, h.left time]
    cases b.pending.isSome && decide (time ≠ b.lastTime) with
    | false =>
      obtain ⟨hframes, hend⟩ := h.pushAll time key (Fragment.ofChunk data).1
      exact ⟨congrArg (Reply.mk · _) hframes, hend⟩
    | true =>
      obtain ⟨hframe, hidle⟩ := h.flush
      obtain ⟨hframes, hend⟩ := hidle.pushAll time key (Fragment.ofChunk data).1
      simp only [if_true]
      rw [hframe, hframes]
      exact ⟨rfl, hend⟩
  | fragment f time key =>
    obtain ⟨hframe, hnext⟩ := h.push f time key
    exact ⟨congrArg (Reply.mk ·.toList none) hframe, hnext⟩
  | flush =>
    obtain ⟨hframe, hnext⟩ := h.flush
    exact ⟨congrArg (Reply.mk ·.toList none) hframe, hnext⟩

theorem Matches.answerAll (h : a.Matches b) (qs : List Request) :
    (a.answerAll qs).2 = (b.answerAll qs).2 ∧ (a.answerAll qs).1.Matches (b.answerAll qs).1 := by
  induction qs generalizing a b with
  | nil => exact ⟨rfl, h⟩
  | cons q qs ih =>
    obtain ⟨hreply, hnext⟩ := h.answer q
    obtain ⟨hreplies, hend⟩ := ih hnext
    exact ⟨congrArg₂ _ hreply hreplies, hend⟩

/-- The counters grow by the frames that go out. -/
theorem Accounts.grows (ha : a.Accounts fs sets) (qs : List Request) :
    let r := a.answerAll qs
    let frames := r.2.flatMap (·.frames)
    r.1.delivered = a.delivered + frames.length ∧
      r.1.relaid = a.relaid + frames.countP (·.relaid) := by
  intro r frames
  obtain ⟨more, hframes, hend⟩ := passes_answerAll a qs fs sets ha
  have hout : frames = more.map Pending.frame := hframes
  constructor
  · rw [hout, List.length_map, ha.delivered, hend.delivered, List.length_append]
  · rw [hout, List.countP_map, ha.relaid, hend.relaid, List.countP_append]
    rfl

/-- Two assemblies without an unfinished frame, whatever each has been asked before, answer all
further requests alike: with the same frames and errors, the same unfinished frame behind them, and
counters that grow by the same numbers. -/
theorem idle_carries_nothing (stream other : Nat) (past before next : List Request)
    (hidle : (({ stream } : Assembly).answerAll past).1.pending = none)
    (hother : (({ stream := other } : Assembly).answerAll before).1.pending = none) :
    let a := (({ stream } : Assembly).answerAll past).1
    let b := (({ stream := other } : Assembly).answerAll before).1
    let r := a.answerAll next
    let s := b.answerAll next
    r.2 = s.2 ∧ r.1.pending = s.1.pending ∧ ∃ delivered relaid,
      r.1.delivered = a.delivered + delivered ∧ s.1.delivered = b.delivered + delivered ∧
      r.1.relaid = a.relaid + relaid ∧ s.1.relaid = b.relaid + relaid := by
  intro a b r s
  obtain ⟨hreplies, hend⟩ := (Matches.of_idle hidle hother).answerAll next
  obtain ⟨_, -, haccounts⟩ := accounts_answerAll stream past
  obtain ⟨_, -, hothers⟩ := accounts_answerAll other before
  obtain ⟨hdelivered, hrelaid⟩ := haccounts.grows next
  obtain ⟨hdelivered', hrelaid'⟩ := hothers.grows next
  rw [← hreplies] at hdelivered' hrelaid'
  exact ⟨hreplies, hend.pending, _, _, hdelivered, hdelivered', hrelaid, hrelaid'⟩

/-- A new assembly, and one that has handed out a frame in order of arrival under a key flag and at
another time. -/
theorem idle_carries_nothing_relaid :
    let past : List Request := [.fragment (partOfSix 0x80 3 true [4, 5]) 40 true]
    let next : List Request :=
      [.fragment (partOfSix 0x00 0 false [1, 2, 3]) 0 false,
        .fragment (partOfSix 0x00 3 false [4, 5, 6]) 0 false]
    let a := (({ stream := 3 } : Assembly).answerAll past).1
    let b := (({ stream := 5 } : Assembly).answerAll []).1
    a.pending = none ∧ b.pending = none ∧ a.lastTime ≠ b.lastTime ∧
      let r := a.answerAll next
      let s := b.answerAll next
      r.2 = s.2 ∧ r.1.pending = s.1.pending ∧ ∃ delivered relaid,
        r.1.delivered = a.delivered + delivered ∧ s.1.delivered = b.delivered + delivered ∧
        r.1.relaid = a.relaid + relaid ∧ s.1.relaid = b.relaid + relaid :=
  ⟨rfl, rfl, by decide, idle_carries_nothing 3 5 _ [] _ rfl rfl⟩

end RealMedia.RealVideo.Assembly
