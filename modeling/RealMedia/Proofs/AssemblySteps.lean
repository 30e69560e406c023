import RealMedia.Proofs.FrameLayout

/-! What an assembly may be asked to do, and what a fragment that arrives does to it. -/

namespace RealMedia.RealVideo

namespace Pending

variable {p : Pending} {f : Fragment} {fs : List Fragment}

@[simp] theorem total_add : (p.add f).total = p.total := rfl

@[simp] theorem received_add : (p.add f).received = p.received + f.data.length := by
  simp [received_eq, add]

/-- Fragments without a time of their own only join those that are there. -/
theorem foldl_add (ht : ∀ f ∈ fs, f.header.time = none) :
    fs.foldl add p =
      { p with fragments := p.fragments ++ fs
               merged := p.merged || fs.any (·.header.merged) } := by
  induction fs generalizing p with
  | nil => simp
  | cons f fs ih =>
    have hf : f.header.time = none := ht f (by simp)
    rw [List.foldl_cons, ih fun g hg => ht g (by simp [hg]), add, hf]
    simp [Bool.or_assoc]

end Pending

namespace Assembly

/-- What an assembly may be asked to do. -/
inductive Request
  | chunk (data : Bytes) (time : Int) (key : Bool)
  | fragment (f : Fragment) (time : Int) (key : Bool)
  | flush

structure Reply where
  frames : List Frame
  error : Option OutOfData

def answer (a : Assembly) : Request → Assembly × Reply
  | .chunk data time key =>
    let (b, r) := a.pushChunk data time key
    (b, ⟨r.frames, r.error⟩)
  | .fragment f time key =>
    let (b, frame, _) := a.push f time key
    (b, ⟨frame.toList, none⟩)
  | .flush =>
    let (b, frame, _) := a.flush
    (b, ⟨frame.toList, none⟩)

/-- The state after several requests, and the reply to each of them. -/
def answerAll (a : Assembly) : List Request → Assembly × List Reply
  | [] => (a, [])
  | q :: qs =>
    let (b, r) := a.answer q
    let (c, rs) := b.answerAll qs
    (c, r :: rs)

variable {a : Assembly} {f : Fragment} {p : Pending}

theorem flush_idle (hp : a.pending = none) : a.flush = (a, none, []) := by
  simp only [flush, hp]

theorem flush_busy (hp : a.pending = some p) :
    ∃ notes, a.flush = ({ a with pending := none, delivered := a.delivered + 1
                                 relaid := a.relaid + p.frame.relaid.toNat },
      some p.frame, notes) := by
  simp only [flush, hp]
  exact ⟨_, rfl⟩

/-- The unfinished frame with a fragment that has just arrived. -/
def opened (a : Assembly) (f : Fragment) (time : Int) (key : Bool) : Pending :=
  (a.pending.getD ⟨[], f.header.total, false, key, f.header.time.getD time⟩).add f

/-- A fragment that arrives while others are kept joins them. -/
@[simp] theorem opened_some (a : Assembly) (p : Pending) (last time : Int) (key : Bool) :
    ({ a with pending := some p, lastTime := last } : Assembly).opened f time key = p.add f := rfl

/-- A fragment is kept as long as it is not the last one and bytes are missing. -/
theorem push_keeps (time : Int) (key : Bool) (hl : f.header.isLast = false)
    (hc : (a.opened f time key).received < (a.opened f time key).total) :
    ∃ notes, a.push f time key =
      ({ a with pending := some (a.opened f time key), lastTime := f.header.time.getD time },
        none, notes) := by
  have hopen : (f.header.isLast || (a.opened f time key).isComplete) = false := by
    rw [hl, Bool.false_or, Pending.isComplete, decide_eq_false_iff_not]
    omega
  rw [opened] at hopen
  rw [push]
  simp only [hopen]
  exact ⟨_, rfl⟩

/-- The last fragment, and one that completes the frame, hands the frame out. -/
theorem push_hands (time : Int) (key : Bool) (h : f.header.isLast = true ∨
      (a.opened f time key).total ≤ (a.opened f time key).received) :
    ∃ notes, a.push f time key =
      ({ a with pending := none, lastTime := f.header.time.getD time, delivered := a.delivered + 1
                relaid := a.relaid + (a.opened f time key).frame.relaid.toNat },
        some (a.opened f time key).frame, notes) := by
  have hclose : (f.header.isLast || (a.opened f time key).isComplete) = true := by
    rwa [Bool.or_eq_true, Pending.isComplete, decide_eq_true_eq]
  rw [opened] at hclose
  rw [push]
  simp only [hclose]
  exact ⟨_, rfl⟩

/-- A fragment that is not kept hands the frame out. -/
theorem push_hands_of_not (time : Int) (key : Bool) (h : ¬(f.header.isLast = false ∧
      (a.opened f time key).received < (a.opened f time key).total)) :
    ∃ notes, a.push f time key =
      ({ a with pending := none, lastTime := f.header.time.getD time, delivered := a.delivered + 1
                relaid := a.relaid + (a.opened f time key).frame.relaid.toNat },
        some (a.opened f time key).frame, notes) := by
  refine push_hands time key ?_
  rwa [← Nat.not_lt, ← Bool.not_eq_false, ← Classical.not_and_iff_not_or_not]

/-- A fragment is kept while bytes of its frame are missing, or it hands the frame out. -/
theorem push_cases (a : Assembly) (f : Fragment) (time : Int) (key : Bool) :
    ((a.opened f time key).received < (a.opened f time key).total ∧ ∃ notes,
      a.push f time key =
        ({ a with pending := some (a.opened f time key), lastTime := f.header.time.getD time },
          none, notes)) ∨
    ∃ notes, a.push f time key =
      ({ a with pending := none, lastTime := f.header.time.getD time, delivered := a.delivered + 1
                relaid := a.relaid + (a.opened f time key).frame.relaid.toNat },
        some (a.opened f time key).frame, notes) := by
  by_cases hopen : f.header.isLast = false ∧
      (a.opened f time key).received < (a.opened f time key).total
  · exact .inl ⟨hopen.2, push_keeps time key hopen.1 hopen.2⟩
  · exact .inr (push_hands_of_not time key hopen)

end Assembly

end RealMedia.RealVideo
