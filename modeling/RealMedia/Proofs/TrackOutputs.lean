import RealMedia.Demux.Track
import RealMedia.Proofs.Ac3Chunks

/-! What a track lets out: packets and changed headers of its own stream, and nothing else. -/

namespace RealMedia

/-- A call that hands over a packet or a changed header of a stream. -/
def SinkCall.Concerns (id : Nat) : SinkCall → Prop
  | packet p => p.stream = id
  | changed h => h.id = id
  | headers _ => False
  | flush => False

@[simp] theorem concerns_packet {id : Nat} {p : Packet} :
    (SinkCall.packet p).Concerns id ↔ p.stream = id := Iff.rfl

@[simp] theorem concerns_changed {id : Nat} {h : StreamHeader} :
    (SinkCall.changed h).Concerns id ↔ h.id = id := Iff.rfl

@[simp] theorem calls_nil : calls [] = [] := rfl

@[simp] theorem calls_note (n : Note) (out : Outputs) : calls (.note n :: out) = calls out := rfl

@[simp] theorem calls_call (c : SinkCall) (out : Outputs) :
    calls (.call c :: out) = c :: calls out := rfl

/-- Every call among the outputs concerns one stream. -/
def Speaks (id : Nat) (out : Outputs) : Prop := ∀ c ∈ calls out, c.Concerns id

section

variable {id : Nat} {a b out : Outputs}

@[simp] theorem speaks_nil : Speaks id [] := by simp [Speaks]

@[simp] theorem speaks_note {n : Note} : Speaks id (.note n :: out) ↔ Speaks id out := Iff.rfl

@[simp] theorem speaks_call {c : SinkCall} :
    Speaks id (.call c :: out) ↔ c.Concerns id ∧ Speaks id out := by
  simp [Speaks]

@[simp] theorem speaks_append : Speaks id (a ++ b) ↔ Speaks id a ∧ Speaks id b := by
  simp only [Speaks, calls_append, List.mem_append]
  exact ⟨fun h => ⟨fun c hc => h c (.inl hc), fun c hc => h c (.inr hc)⟩,
    fun h c hc => hc.elim (h.1 c) (h.2 c)⟩

@[simp] theorem calls_map_note (ns : List Note) : calls (ns.map .note) = [] := by
  induction ns with
  | nil => rfl
  | cons n ns ih => exact ih

@[simp] theorem speaks_map_note {ns : List Note} : Speaks id (ns.map .note) := by simp [Speaks]

end

namespace Ac3Framer

variable {f g : Ac3Framer} {out : Outputs} {ps : List Packet} {r : Option Ac3Framer}

/-- The framer that a step of the search leaves. -/
def Step.left : Step → Ac3Framer
  | wait f _ => f
  | lost f _ => f
  | next f _ => f

@[simp] theorem left_after (s : Step) : (s.after out).left = s.left := by
  cases s <;> rfl

@[simp] theorem header_reach : f.reach.header = f.header := by
  rw [reach]
  split <;> rfl

@[simp] theorem header_emit (x : Ac3.FrameHeader) : (f.emit x).1.header = f.header := by
  simp [emit, advance]

theorem header_stepAtSync : f.stepAtSync.left.header = f.header := by
  obtain ⟨out, -, hs⟩ := f.stepAtSync_eq
  rw [hs]
  split <;> simp [Step.left]

theorem header_step : f.step.left.header = f.header := by
  cases hf : Ac3.findSync f.buffer 0 with
  | none =>
    obtain ⟨n, -, hs⟩ := step_of_no_sync hf
    rw [hs]
    split <;> rfl
  | some n =>
    rw [(step_of_sync hf).2.2]
    split
    · rfl
    · rw [left_after, header_stepAtSync, header_discard]

theorem header_search (f : Ac3Framer) : (f.search []).1.header = f.header := by
  induction hlen : f.buffer.length using Nat.strongRecOn generalizing f with
  | _ len ih =>
    subst hlen
    have hh := header_step (f := f)
    cases hs : f.step with
    | wait g out =>
      rw [hs] at hh
      rw [search_eq, hs]
      exact hh
    | lost g out =>
      rw [hs] at hh
      rw [search_eq, hs]
      exact hh
    | next g out =>
      rw [hs] at hh
      rw [search_next hs]
      exact (ih _ (length_step hs) g rfl).trans hh

theorem stream_of_finds (hf : Finds f ps r) : ∀ p ∈ ps, p.stream = f.header.id := by
  induction hf with
  | lost => simp
  | wait => simp
  | frame _ _ _ ih =>
    intro p hp
    rcases List.mem_cons.1 hp with rfl | hp
    · rfl
    · rw [ih p hp, header_emit, header_discard]

theorem header_process (f : Ac3Framer) (c : Chunk) : (f.process c).1.header = f.header := by
  rw [process_eq, header_search]
  rfl

theorem speaks_process (f : Ac3Framer) (c : Chunk) : Speaks f.header.id (f.process c).2.1 := by
  intro x hx
  obtain ⟨ps, hps, hfinds⟩ := f.process_finds c
  rw [hps] at hx
  obtain ⟨p, hp, rfl⟩ := List.mem_map.1 hx
  exact stream_of_finds hfinds p hp

theorem empty_flush (f : Ac3Framer) : f.flush.1.buffer = [] ∧ f.flush.1.odd = none := by
  rw [flush]
  split
  · rename_i hl
    simp only [left, Nat.add_eq_zero_iff, List.length_eq_zero_iff,
      Option.toList_eq_nil_iff] at hl
    exact hl
  · exact ⟨rfl, rfl⟩

theorem calls_flush (f : Ac3Framer) : calls f.flush.2 = [] := by
  rw [flush]
  split <;> rfl

theorem header_flush (f : Ac3Framer) : f.flush.1.header = f.header := by
  rw [flush]
  split <;> rfl

end Ac3Framer

theorem pending_flush (a : RealVideo.Assembly) : a.flush.1.pending = none := by
  cases hp : a.pending with
  | none => simp only [RealVideo.Assembly.flush, hp]
  | some p => simp only [RealVideo.Assembly.flush, hp]

theorem id_resize {o : Options} {h k : StreamHeader} {size : Nat × Nat} {note : Note}
    (hr : resize? o h size = some (k, note)) : k.id = h.id := by
  rw [resize?] at hr
  split at hr
  · cases hr
  · dsimp only at hr
    split at hr <;> cases hr
    rfl

theorem speaks_video_process (f : VideoFramer) (c : Chunk) :
    Speaks f.header.id (f.process c).2 := by
  simp [VideoFramer.process, Chunk.packet]

theorem speaks_aac_process (f : AacFramer) (c : Chunk) :
    Speaks f.header.id (f.process c).2 := by
  simp [AacFramer.process]

theorem speaks_plain_process (f : PlainFramer) (c : Chunk) :
    Speaks f.header.id (f.process c).2 := by
  simp [PlainFramer.process, Chunk.packet]

theorem deliverFrame_stream (o : Options) (watched : Bool) (f : VideoFramer)
    (last : Option (Nat × Nat)) (frame : RealVideo.Frame) :
    (deliverFrame o watched f last frame).1.header.id = f.header.id ∧
      Speaks f.header.id (deliverFrame o watched f last frame).2.2 := by
  rw [deliverFrame]
  generalize (if watched then newSize? last frame else none) = size
  cases hr : size.bind (resize? o f.header) with
  | none => exact ⟨rfl, speaks_video_process f _⟩
  | some r =>
    obtain ⟨k, note⟩ := r
    obtain ⟨x, -, hx⟩ := Option.bind_eq_some_iff.1 hr
    have hid := id_resize hx
    refine ⟨hid, ?_⟩
    have hspeaks := speaks_video_process { f with header := k }
    rw [hid] at hspeaks
    simp [hid, hspeaks]

theorem deliverFrames_stream (o : Options) (watched : Bool) (f : VideoFramer)
    (last : Option (Nat × Nat)) (frames : List RealVideo.Frame) :
    (deliverFrames o watched f last frames).1.header.id = f.header.id ∧
      Speaks f.header.id (deliverFrames o watched f last frames).2.2 := by
  induction frames generalizing f last with
  | nil => exact ⟨rfl, speaks_nil⟩
  | cons frame frames ih =>
    obtain ⟨hid, hout⟩ := deliverFrame_stream o watched f last frame
    obtain ⟨hid', hout'⟩ := ih (deliverFrame o watched f last frame).1
      (deliverFrame o watched f last frame).2.1
    rw [hid] at hid' hout'
    exact ⟨hid', speaks_append.2 ⟨hout, hout'⟩⟩

theorem deliverAac_stream (f : AacFramer) (time : Int) (frames : List Bytes) :
    (deliverAac f time frames).1.header = f.header ∧
      Speaks f.header.id (deliverAac f time frames).2 := by
  induction frames generalizing f time with
  | nil => exact ⟨rfl, speaks_nil⟩
  | cons data frames ih =>
    obtain ⟨hid, hout⟩ := ih (f.process { data, time }).1 noTime
    exact ⟨hid, speaks_append.2 ⟨speaks_aac_process f _, hout⟩⟩

namespace Track

variable {t : Track} {o : Options} {data : Bytes} {time : Int} {key : Bool}

theorem id_of_route {r : Route} (hr : t.route = r) : t.id = r.framer.header.id := by
  rw [id, header, framer, hr]

/-- A track stays with its stream, and speaks of no other. -/
theorem push_stream (o : Options) (t : Track) (data : Bytes) (time : Int) (key : Bool) :
    (t.push o data time key).1.id = t.id ∧ Speaks t.id (t.push o data time key).2.1 := by
  rw [push]
  cases hr : t.route with
  | video f a watched size =>
    have ht : t.id = f.header.id := id_of_route hr
    obtain ⟨hid, hout⟩ := deliverFrames_stream o watched f size (a.pushChunk data time key).2.frames
    rw [ht]
    exact ⟨hid, speaks_append.2 ⟨speaks_map_note, hout⟩⟩
  | ac3 f =>
    have ht : t.id = f.header.id := id_of_route hr
    rw [ht]
    exact ⟨congrArg _ (f.header_process _), f.speaks_process _⟩
  | aac f =>
    have ht : t.id = f.header.id := id_of_route hr
    rw [ht]
    cases Aac.frames data with
    | error e => exact ⟨ht, by simp⟩
    | ok frames =>
      obtain ⟨hid, hout⟩ := deliverAac_stream f time frames
      exact ⟨congrArg _ hid, hout⟩
  | plain f held start count =>
    have ht : t.id = f.header.id := id_of_route hr
    rw [ht]
    cases held with
    | none => exact ⟨rfl, speaks_nil⟩
    | some h => exact ⟨rfl, speaks_plain_process f _⟩

/-- Nothing of the stream is kept back. -/
def Settled (t : Track) : Prop :=
  match t.route with
  | .video _ a _ _ => a.pending = none
  | .ac3 f => f.buffer = [] ∧ f.odd = none
  | .aac _ => True
  | .plain _ held _ _ => held = none

theorem settled_drain (o : Options) (t : Track) : (t.drain o).1.Settled := by
  rw [drain]
  cases hr : t.route with
  | video f a watched size => exact pending_flush a
  | ac3 f => exact f.empty_flush
  | aac f => simp only [Settled, hr]
  | plain f held start count =>
    cases held with
    | none => simp only [Settled, hr]
    | some h => rfl

theorem drain_stream (o : Options) (t : Track) :
    (t.drain o).1.id = t.id ∧ Speaks t.id (t.drain o).2 := by
  rw [drain]
  cases hr : t.route with
  | video f a watched size =>
    have ht : t.id = f.header.id := id_of_route hr
    obtain ⟨hid, hout⟩ := deliverFrames_stream o watched f size a.flush.2.1.toList
    rw [ht]
    exact ⟨hid, speaks_append.2 ⟨speaks_map_note, hout⟩⟩
  | ac3 f =>
    have ht : t.id = f.header.id := id_of_route hr
    rw [ht]
    exact ⟨congrArg _ f.header_flush, by simp [Speaks, f.calls_flush]⟩
  | aac f => exact ⟨rfl, speaks_nil⟩
  | plain f held start count =>
    have ht : t.id = f.header.id := id_of_route hr
    rw [ht]
    cases held with
    | none => exact ⟨ht, speaks_nil⟩
    | some h => exact ⟨rfl, speaks_plain_process f _⟩

end Track

end RealMedia
