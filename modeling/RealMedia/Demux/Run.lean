import RealMedia.Container.Chain
import RealMedia.Demux.Read

/-! Reading to the end. Every step that leaves more to read takes at least a packet header. -/

namespace RealMedia.Demultiplexer

open Container

variable {d e : Demultiplexer} {out : Outputs} {t : Track} {h : PacketHeader} {b : Bytes}

@[simp] theorem source_announce : d.announce.1.source = d.source := rfl

@[simp] theorem source_ensureAnnounced : d.ensureAnnounced.1.source = d.source := by
  unfold ensureAnnounced
  split <;> rfl

@[simp] theorem source_finish : d.finish.1.source = d.source := by
  unfold finish
  split
  · rfl
  · exact source_ensureAnnounced

@[simp] theorem source_route : (d.route t h b).1.source = d.source := by
  unfold route
  dsimp only
  split <;> rfl

theorem finishAfter_result : (d.finishAfter out).2.2 = .ok .done := rfl

theorem length_readSection (hr : d.readSection = (e, out, .ok .moreData)) :
    e.source.rest.length + PacketHeader.size ≤ d.source.rest.length := by
  unfold readSection at hr
  dsimp only at hr
  split at hr
  · simp at hr
  · rename_i o s ho
    have h₁ := length_rest_read ObjectHeader.consumes_decoder ho
    split at hr
    · split at hr
      · simp at hr
      · rename_i x u hx
        have h₂ := length_rest_read DataHeader.consumes_decoder hx
        simp only [Prod.mk.injEq, and_true] at hr
        rw [← hr.1]
        simp only [PacketHeader.size, ObjectHeader.length] at *
        omega
    · have := congrArg (·.2.2) hr
      simp [finishAfter_result] at this

theorem length_readPacket (hr : d.readPacket = (e, out, .ok .moreData)) :
    e.source.rest.length + PacketHeader.size ≤ d.source.rest.length := by
  unfold readPacket at hr
  dsimp only at hr
  split at hr
  · simp at hr
  · rename_i x s hx
    have h₁ := length_rest_read PacketHeader.consumes_decoder hx
    split at hr
    · have := congrArg (·.2.2) hr
      simp [finishAfter_result] at this
    · rename_i n hn
      split at hr
      · simp only [Prod.mk.injEq] at hr
        rw [← hr.1]
        simp only [x.skip_payload hn, Source.length_rest_advance]
        omega
      · split at hr
        · have := congrArg (·.2.2) hr
          simp [finishAfter_result] at this
        · rename_i p u hu
          have h₂ := length_rest_read Decoder.consumes_take hu
          have := congrArg (·.1.source.rest.length) hr
          simp only [source_route] at this
          omega

/-- A step that leaves more to read has taken at least the bytes of a packet header. -/
theorem length_read (hr : d.read = (e, out, .ok .moreData)) :
    e.source.rest.length + PacketHeader.size ≤ d.source.rest.length := by
  unfold read at hr
  split at hr
  · simp at hr
  · dsimp only at hr
    split at hr
    · have := congrArg (·.2.2) hr
      simp [finishAfter_result] at this
    · rename_i f more result _ hn
      simp only [Prod.mk.injEq] at hr
      obtain ⟨rfl, -, rfl⟩ := hr
      rw [← source_ensureAnnounced (d := d)]
      unfold readNext at hn
      split at hn
      · have := congrArg (·.2.2) hn
        simp [finishAfter_result] at this
      · split at hn
        · exact length_readSection hn
        · exact length_readPacket hn

structure RunResult where
  final : Demultiplexer
  out : Outputs
  /-- The steps that left more to read, unless the run broke off. -/
  reads : Except Fault Nat

/-- Read on after `reads` steps. The outputs are collected last first. -/
def runFrom (d : Demultiplexer) (reads : Nat) (before : Outputs) : RunResult :=
  match _h : d.read with
  | (e, out, .ok .moreData) => e.runFrom (reads + 1) (out.reverse ++ before)
  | (e, out, .ok .done) => ⟨e, (out.reverse ++ before).reverse, .ok reads⟩
  | (e, out, .error fault) => ⟨e, (out.reverse ++ before).reverse, .error fault⟩
termination_by d.source.rest.length
decreasing_by
  have := length_read _h
  simp only [PacketHeader.size] at this
  omega

/-- Read until nothing is left. -/
def run (d : Demultiplexer) : RunResult := d.runFrom 0 []

end RealMedia.Demultiplexer
