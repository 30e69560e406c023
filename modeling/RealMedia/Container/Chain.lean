import RealMedia.Bytes.Source
import RealMedia.Container.Object
import RealMedia.Fault

/-! The chain of objects in front of the first data object of a file. -/

namespace RealMedia.Container

structure Object where
  header : ObjectHeader
  payload : Bytes

/-- How the chain ends: with the header of a data object, behind which the source is left, or with
something that is no object. -/
inductive ChainEnd
  | data (h : DataHeader) (s : Source)
  | broken (e : HeaderFault)

variable {s t : Source} {h : ObjectHeader} {n : Nat}

theorem length_rest_read {α : Type} {d : Decoder α} {a : α} (hd : d.Consumes n)
    (hr : s.read d = (some a, t)) : t.rest.length + n ≤ s.rest.length := by
  unfold Source.read at hr
  split at hr
  · rename_i a' c hc
    cases hr
    obtain ⟨r, hr, hp, hn⟩ := hd _ _ _ hc
    have hl := congrArg List.length hr
    simp only [List.length_append, Source.length_rest_advance] at *
    omega
  · cases hr

/-- The payload of an object whose header has just been read. -/
def readPayload (h : ObjectHeader) (s : Source) : Except HeaderFault Bytes × Source :=
  match h.payload? with
  | none => (.error (.impossibleSize h.id h.size.toNat), s)
  | some n =>
    match s.read (Decoder.take n) with
    | (some payload, s) => (.ok payload, s)
    | (none, _) => (.error (.oversized h.id n s.rest.length), s)

theorem length_rest_readPayload_le : (readPayload h s).2.rest.length ≤ s.rest.length := by
  unfold readPayload
  split
  · simp
  · split
    · rename_i t heq
      have := Source.length_rest_read_le (s := s) (d := Decoder.take (h.payload?.getD 0))
      simp_all
    · simp

def readChain (s : Source) : List Object × ChainEnd :=
  if !atLeast ObjectHeader.length s.rest then ([], .broken .noData)
  else
    match _h : s.read ObjectHeader.decoder with
    | (none, _) => ([], .broken .truncated)
    | (some h, s₁) =>
      if h.id = dataId then
        match s₁.read DataHeader.decoder with
        | (some d, s₂) => ([], .data d s₂)
        | (none, _) => ([], .broken .truncated)
      else
        match _p : readPayload h s₁ with
        | (.error e, _) => ([], .broken e)
        | (.ok payload, s₂) =>
          let more := readChain s₂
          (⟨h, payload⟩ :: more.1, more.2)
termination_by s.rest.length
decreasing_by
  have h₁ := length_rest_read ObjectHeader.consumes_decoder _h
  have h₂ := length_rest_readPayload_le (h := h) (s := s₁)
  simp only [_p, ObjectHeader.length] at *
  omega

end RealMedia.Container
