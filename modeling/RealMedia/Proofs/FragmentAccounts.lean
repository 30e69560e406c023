import Mathlib.Data.List.Forall2
import RealMedia.Proofs.AssemblySteps

/-!
Where the fragments go that an assembly is handed: in order of arrival, into the frames it hands out
and into the unfinished frame that it keeps.
-/

namespace RealMedia.RealVideo

namespace Pending

variable {p : Pending} {f : Fragment}

/-- There is a first fragment, and the length is the one that it tells. -/
def Begun (p : Pending) : Prop := p.fragments.head?.map (·.header.total) = some p.total

theorem Begun.ne_nil (hp : p.Begun) : p.fragments ≠ [] := by
  intro he
  simp [Begun, he] at hp

theorem begun_add (hp : p.Begun) : (p.add f).Begun := by
  cases hf : p.fragments with
  | nil => exact absurd hf hp.ne_nil
  | cons g gs => simpa [Begun, add, hf] using hp

/-- The pieces of a frame are its fragments, in some order, and lie one behind the other. -/
theorem frame_laid (p : Pending) : ∃ fs : List Fragment, fs.Perm p.fragments ∧
    p.frame.data = fs.flatMap (·.data) ∧ p.frame.offsets = starts 0 fs := by
  cases hl : p.layout? with
  | none => exact ⟨p.fragments, .refl _, by simp [frame, hl], by simp [frame, hl]⟩
  | some fs =>
    refine ⟨fs, ?_, by simp [frame, hl], by simp [frame, hl]⟩
    rw [layout?_eq] at hl
    split at hl
    · cases hl
      exact p.perm_sorted
    · cases hl

theorem frame_pieces (p : Pending) :
    ∃ fs : List Fragment, fs.Perm p.fragments ∧ p.frame.data = fs.flatMap (·.data) := by
  obtain ⟨fs, hperm, hdata, -⟩ := p.frame_laid
  exact ⟨fs, hperm, hdata⟩

end Pending

namespace Assembly

variable {a b c : Assembly} {f : Fragment} {fs gs : List Fragment} {sets : List Pending}
  {xs ys : List Frame} {time : Int} {key : Bool}

/-- The fragments that a request hands over. -/
def Request.fragments : Request → List Fragment
  | .chunk data _ _ => (Fragment.ofChunk data).1
  | .fragment f _ _ => [f]
  | .flush => []

/-- The fragments of the unfinished frame. -/
def kept (a : Assembly) : List Fragment := (a.pending.map (·.fragments)).getD []

/-- All fragments that have come in are in the sets that have been handed out or are kept, and the
counters tell how many of these sets there are. -/
structure Accounts (a : Assembly) (fs : List Fragment) (sets : List Pending) : Prop where
  whole : fs = sets.flatMap (·.fragments) ++ a.kept
  begun : ∀ p ∈ sets, p.Begun
  pending : ∀ p, a.pending = some p → p.Begun ∧ p.received < p.total
  delivered : a.delivered = sets.length
  relaid : a.relaid = sets.countP (·.frame.relaid)

/-- While these fragments come in and these frames go out, the accounts stay in order. -/
def Passes (a : Assembly) (fs : List Fragment) (xs : List Frame) (b : Assembly) : Prop :=
  ∀ gs sets, a.Accounts gs sets →
    ∃ more, xs = more.map Pending.frame ∧ b.Accounts (gs ++ fs) (sets ++ more)

theorem accounts_new (stream : Nat) : Accounts { stream } [] [] :=
  ⟨rfl, by simp, by rintro p ⟨⟩, rfl, rfl⟩

theorem Passes.refl (a : Assembly) : a.Passes [] [] a := by
  intro gs sets ha
  exact ⟨[], rfl, by simpa using ha⟩

theorem Passes.trans (hb : a.Passes fs xs b) (hc : b.Passes gs ys c) :
    a.Passes (fs ++ gs) (xs ++ ys) c := by
  intro hs sets ha
  obtain ⟨out, rfl, hout⟩ := hb hs sets ha
  obtain ⟨more, rfl, hmore⟩ := hc _ _ hout
  refine ⟨out ++ more, (List.map_append ..).symm, ?_⟩
  simpa only [List.append_assoc] using hmore

/-- Whatever is kept is handed out as one more set. -/
theorem passes_flush (a : Assembly) : a.Passes [] a.flush.2.1.toList a.flush.1 := by
  intro gs sets ha
  cases hp : a.pending with
  | none =>
    rw [flush_idle hp]
    exact Passes.refl a gs sets ha
  | some p =>
    obtain ⟨notes, hflush⟩ := flush_busy hp
    rw [hflush]
    refine ⟨[p], rfl, ?_⟩
    have hwhole := ha.whole
    simp only [kept, hp, Option.map_some, Option.getD_some] at hwhole
    refine ⟨by simpa [kept] using hwhole, ?_, by rintro q ⟨⟩, ?_, ?_⟩
    · intro q hq
      rcases List.mem_append.1 hq with hq | hq
      · exact ha.begun q hq
      · rw [List.mem_singleton.1 hq]
        exact (ha.pending p hp).1
    · simpa using ha.delivered
    · have hrelaid := ha.relaid
      cases hr : p.frame.relaid <;> simp [hr, hrelaid]

theorem begun_opened (hp : ∀ p, a.pending = some p → p.Begun) : (a.opened f time key).Begun := by
  rw [opened]
  cases h : a.pending with
  | none => rfl
  | some p => exact Pending.begun_add (hp p h)

theorem fragments_opened (a : Assembly) : (a.opened f time key).fragments = a.kept ++ [f] := by
  rw [opened, kept]
  cases a.pending <;> rfl

/-- A fragment is kept, or goes out with all that are kept. -/
theorem passes_push (a : Assembly) (f : Fragment) (time : Int) (key : Bool) :
    a.Passes [f] (a.push f time key).2.1.toList (a.push f time key).1 := by
  intro gs sets ha
  have hbegun : (a.opened f time key).Begun := begun_opened fun p hp => (ha.pending p hp).1
  have hwhole : gs ++ [f] = sets.flatMap (·.fragments) ++ (a.opened f time key).fragments := by
    rw [fragments_opened, ha.whole, List.append_assoc]
  rcases a.push_cases f time key with ⟨hmissing, notes, hpush⟩ | ⟨notes, hpush⟩
  · rw [hpush]
    refine ⟨[], rfl, ?_⟩
    rw [List.append_nil]
    refine ⟨hwhole, ha.begun, ?_, ha.delivered, ha.relaid⟩
    rintro p ⟨⟩
    exact ⟨hbegun, hmissing⟩
  · rw [hpush]
    refine ⟨[a.opened f time key], rfl, ?_⟩
    refine ⟨by simpa [kept] using hwhole, ?_, by rintro p ⟨⟩, ?_, ?_⟩
    · intro q hq
      rcases List.mem_append.1 hq with hq | hq
      · exact ha.begun q hq
      · rw [List.mem_singleton.1 hq]
        exact hbegun
    · simp [ha.delivered]
    · cases hr : (a.opened f time key).frame.relaid <;> simp [hr, ha.relaid]

theorem passes_pushAll (a : Assembly) (time : Int) (key : Bool) (fs : List Fragment) :
    a.Passes fs (a.pushAll time key fs).2.1 (a.pushAll time key fs).1 := by
  induction fs generalizing a key with
  | nil => exact .refl a
  | cons f fs ih => exact (passes_push a f time key).trans (ih _ _)

theorem passes_pushChunk (a : Assembly) (chunk : Bytes) (time : Int) (key : Bool) :
    a.Passes (Fragment.ofChunk chunk).1 (a.pushChunk chunk time key).2.frames
      (a.pushChunk chunk time key).1 := by
  by_cases hleft : (a.pending.isSome && decide (time ≠ a.lastTime)) = true
  · simp only [pushChunk, hleft, if_true]
    exact (passes_flush a).trans (passes_pushAll a.flush.1 time key _)
  · simp only [pushChunk, hleft]
    exact passes_pushAll a time key _

theorem passes_answer (a : Assembly) (q : Request) :
    a.Passes q.fragments (a.answer q).2.frames (a.answer q).1 := by
  cases q with
  | chunk data time key => exact passes_pushChunk a data time key
  | fragment f time key => exact passes_push a f time key
  | flush => exact passes_flush a

theorem passes_answerAll (a : Assembly) (qs : List Request) :
    a.Passes (qs.flatMap Request.fragments) ((a.answerAll qs).2.flatMap (·.frames))
      (a.answerAll qs).1 := by
  induction qs generalizing a with
  | nil => exact .refl a
  | cons q qs ih => exact (passes_answer a q).trans (ih _)

/-- What a new assembly has been asked to do is accounted for. -/
theorem accounts_answerAll (stream : Nat) (qs : List Request) :
    let r := ({ stream } : Assembly).answerAll qs
    ∃ sets : List Pending, r.2.flatMap (·.frames) = sets.map Pending.frame ∧
      r.1.Accounts (qs.flatMap Request.fragments) sets := by
  intro r
  simpa using passes_answerAll _ qs [] [] (accounts_new stream)

/-- The fragments that are handed over go, in order of arrival, into the frames and then into the
unfinished frame, and none is lost or used twice. A frame has the data of its own fragments. The
counters tell how many frames there were, and an unfinished frame lacks bytes. -/
theorem fragments_conserved (stream : Nat) (qs : List Request) :
    let r := ({ stream } : Assembly).answerAll qs
    let frames := r.2.flatMap (·.frames)
    (∃ groups : List (List Fragment),
      qs.flatMap Request.fragments = groups.flatten ++ r.1.kept ∧
      List.Forall₂ (fun group x =>
        group ≠ [] ∧ ∃ fs : List Fragment, fs.Perm group ∧ x.data = fs.flatMap (·.data))
        groups frames) ∧
    r.1.delivered = frames.length ∧ r.1.relaid = frames.countP (·.relaid) ∧
    ∀ p, r.1.pending = some p → p.fragments ≠ [] ∧ p.received < p.total := by
  intro r frames
  obtain ⟨sets, hframes, hacc⟩ := accounts_answerAll stream qs
  have hout : frames = sets.map Pending.frame := hframes
  refine ⟨⟨sets.map (·.fragments), ?_, ?_⟩, ?_, ?_, ?_⟩
  · rw [hacc.whole, List.flatMap_def]
  · rw [hout, List.forall₂_map_left_iff, List.forall₂_map_right_iff, List.forall₂_same]
    intro p hp
    exact ⟨(hacc.begun p hp).ne_nil, p.frame_pieces⟩
  · rw [hout, List.length_map]
    exact hacc.delivered
  · rw [hout, List.countP_map]
    exact hacc.relaid
  · intro p hp
    exact ⟨(hacc.pending p hp).1.ne_nil, (hacc.pending p hp).2⟩

end Assembly

end RealMedia.RealVideo
