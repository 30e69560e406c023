import RealMedia.Proofs.DraftFile
import RealMedia.Proofs.PacketFront

/-! The packets that a byte string holds behind a data header, up to where it breaks off. -/

namespace RealMedia

open Container Container.Draft

variable {w : Written} {now later : List Written} {s : Source} {b r : Bytes} {left : Nat}
  {wanted : List Nat}

namespace Container

/-- With `left` packets of the section still to come, the bytes hold these whole packets of it, and
these of the sections behind it. -/
inductive Remains : Nat → Bytes → List Written → List Written → Prop
  | packet {left : Nat} {r : Bytes} {w : Written} {now later : List Written}
    (hw : w.payload.length ≤ PacketHeader.maxPayload) (hr : Remains left r now later) :
    Remains (left + 1) (writtenBytes w ++ r) (w :: now) later
  | next {h : ObjectHeader} {k : DataHeader} {r : Bytes} {now later : List Written}
    (hi : h.id = dataId) (hr : Remains k.packets.toNat r now later) :
    Remains 0 (h.bytes ++ (k.bytes ++ r)) [] (now ++ later)
  /-- Less than a packet header. -/
  | short {left : Nat} {r : Bytes} (hr : r.length < PacketHeader.size) : Remains left r [] []
  /-- The header of an object that holds no packets. -/
  | other {h : ObjectHeader} {r : Bytes} (hi : h.id ≠ dataId) : Remains 0 (h.bytes ++ r) [] []
  /-- A data object that breaks off in its header. -/
  | uncounted {h : ObjectHeader} {r : Bytes} (hi : h.id = dataId) (hr : r.length < 8) :
    Remains 0 (h.bytes ++ r) [] []
  /-- A packet that breaks off in its payload. -/
  | torn {left : Nat} {r : Bytes} {w : Written}
    (hw : w.payload.length ≤ PacketHeader.maxPayload) (hr : r.length < w.payload.length) :
    Remains (left + 1) (w.header.bytes ++ r) [] []

theorem writtenBytes_eq (w : Written) : writtenBytes w = w.header.bytes ++ w.payload := rfl

theorem read_header (hs : s.rest = w.header.bytes ++ r) :
    s.read PacketHeader.decoder = (some w.header, s.advance PacketHeader.size) ∧
      (s.advance PacketHeader.size).rest = r :=
  ⟨Source.read_of_yields (PacketHeader.yields_bytes _) hs, Source.rest_advance hs⟩

/-- The payload of a packet is read if it is whole. -/
theorem read_payload (hs : s.rest = w.payload ++ r) :
    s.read (Decoder.take w.payload.length) = (some w.payload, s.advance w.payload.length) ∧
      (s.advance w.payload.length).rest = r :=
  ⟨Source.read_of_yields (Decoder.yields_take _) hs, Source.rest_advance hs⟩

end Container

/-- The versions that packets show of the streams asked for, each from its first packet of five
bytes or more. -/
def seen : List Nat → List Written → List (Nat × Nat)
  | _, [] => []
  | wanted, w :: ws =>
    let id := w.stream.toNat
    if wanted.contains id then
      match w.payload with
      | _ :: _ :: _ :: _ :: b :: _ => (id, (b >>> 3).toNat) :: seen (wanted.filter (· ≠ id)) ws
      | _ => seen wanted ws
    else seen wanted ws

def Container.Written.stored (w : Written) : StoredPacket := ⟨w.header, w.payload⟩

theorem seen_eq (ws : List Written) : seen wanted ws = versionsIn wanted (ws.map Written.stored) := by
  induction ws generalizing wanted with
  | nil => rfl
  | cons w ws ih =>
    rw [List.map_cons, seen, versionsIn]
    change (if wanted.contains w.stream.toNat then _ else _) =
      if wanted.contains w.stream.toNat then _ else _
    split
    · change _ = match w.payload with
        | _ :: _ :: _ :: _ :: b :: _ => _
        | _ => _
      split
      · exact congrArg _ ih
      · exact ih
    · exact ih

/-- A packet that breaks off in its payload is not whole. -/
theorem not_beginsWhole (hw : w.payload.length ≤ PacketHeader.maxPayload)
    (hr : r.length < w.payload.length) : ¬ BeginsWhole (w.header.bytes ++ r) := by
  rintro ⟨p, v, hp, heq⟩
  have hread := read_header (w := w) (s := .ofBytes _) (r := r) rfl
  obtain ⟨hsame, -, hrest⟩ := read_whole (s := .ofBytes _) heq
  rw [hread.1, Prod.mk.injEq, Option.some.injEq] at hsame
  have hlen := StoredPacket.whole_iff.1 hp
  rw [← hsame.1, Written.payload?_header hw, Option.some.injEq] at hlen
  rw [StoredPacket.bytes, List.append_assoc] at heq
  have hlong := congrArg List.length (List.append_inj_right heq rfl)
  rw [List.length_append] at hlong
  omega

/-- The packets of the section that remain are those in front. -/
theorem inFront_remains (hr : Remains left b now later) :
    InFront left b (now.map Written.stored) := by
  induction hr with
  | @packet left r w now later hw hr ih =>
    obtain ⟨hwhole, hcount, v, rfl, hend⟩ := ih
    have hw : w.stored.Whole := StoredPacket.whole_iff.2 (Written.payload?_header hw)
    refine ⟨List.forall_mem_cons.2 ⟨hw, hwhole⟩, by simpa using hcount, v, ?_, ?_⟩
    · rw [List.map_cons, List.flatMap_cons, List.append_assoc]
      rfl
    · intro hlt
      exact hend (by simpa using hlt)
  | next | other | uncounted => exact ⟨by simp, by simp, _, rfl, fun hlt => absurd hlt (by simp)⟩
  | @short left r hr =>
    refine ⟨by simp, by simp, _, rfl, ?_⟩
    rintro - ⟨p, v, -, rfl⟩
    rw [StoredPacket.bytes, List.length_append, List.length_append,
      PacketHeader.length_bytes] at hr
    omega
  | torn hw hr => exact ⟨by simp, by simp, _, rfl, fun _ => not_beginsWhole hw hr⟩

/-- Looking ahead finds the versions that the whole packets of the first section show. -/
theorem findVersions_remains (hr : Remains left b now later) (hs : s.rest = b) :
    (findVersions left wanted s).1 = seen wanted now := by
  rw [seen_eq]
  exact findVersions_inFront (hs ▸ inFront_remains hr)

end RealMedia
