import RealMedia.Demux.Open
import RealMedia.Proofs.ObjectChain

/-!
The packets at the front of a byte string, up to where no whole packet follows, and what looking
ahead finds in them.
-/

namespace RealMedia

open Decoder

namespace Container

/-- A packet as it stands in a file. -/
structure StoredPacket where
  header : PacketHeader
  payload : Bytes

variable {s t : Source} {h : PacketHeader} {p : StoredPacket} {ps : List StoredPacket}
  {b r : Bytes} {n : Nat}

namespace StoredPacket

def bytes (p : StoredPacket) : Bytes := p.header.bytes ++ p.payload

/-- The length in the header is that of header and payload. -/
def Whole (p : StoredPacket) : Prop :=
  p.header.length.toNat = PacketHeader.size + p.payload.length

end StoredPacket

@[simp] theorem PacketHeader.length_bytes (h : PacketHeader) :
    h.bytes.length = PacketHeader.size := rfl

theorem PacketHeader.read_iff :
    s.read decoder = (some h, t) ↔ ∃ r, s.rest = h.bytes ++ r ∧ t = s.advance h.bytes.length := by
  apply Source.read_iff yields_bytes
  intro c a e h
  obtain ⟨version, c₁, hversion, h⟩ := bind_eq_ok.1 h
  obtain ⟨length, c₂, hlength, h⟩ := bind_eq_ok.1 h
  obtain ⟨stream, c₃, hstream, h⟩ := bind_eq_ok.1 h
  obtain ⟨timestamp, c₄, htimestamp, h⟩ := bind_eq_ok.1 h
  obtain ⟨reserved, c₅, hreserved, h⟩ := bind_eq_ok.1 h
  obtain ⟨flags, c₆, hflags, h⟩ := bind_eq_ok.1 h
  cases h
  rw [be16_eq_ok hversion, be16_eq_ok hlength, be16_eq_ok hstream, be32_eq_ok htimestamp,
    u8_eq_ok hreserved, u8_eq_ok hflags]
  simp only [bytes, List.append_assoc, List.cons_append, List.nil_append]

theorem StoredPacket.whole_iff : p.Whole ↔ p.header.payload? = some p.payload.length := by
  unfold StoredPacket.Whole PacketHeader.payload?
  split
  · rw [Option.some.injEq]
    omega
  · simp only [reduceCtorEq, iff_false]
    omega

/-- The bytes begin with a packet that is all there. -/
def BeginsWhole (b : Bytes) : Prop := ∃ (p : StoredPacket) (r : Bytes), p.Whole ∧ b = p.bytes ++ r

/-- The packets of a section that a byte string begins with: `left` of them, or fewer if no whole
packet stands behind them. -/
def InFront (left : Nat) (b : Bytes) (ps : List StoredPacket) : Prop :=
  (∀ p ∈ ps, p.Whole) ∧ ps.length ≤ left ∧
    ∃ r, b = ps.flatMap StoredPacket.bytes ++ r ∧ (ps.length < left → ¬ BeginsWhole r)

/-- However a byte string goes on, it begins with some packets. -/
theorem exists_inFront (left : Nat) (b : Bytes) : ∃ ps, InFront left b ps := by
  induction left generalizing b with
  | zero => exact ⟨[], by simp, by simp, b, by simp, by simp⟩
  | succ left ih =>
    by_cases hb : BeginsWhole b
    · obtain ⟨p, r, hp, rfl⟩ := hb
      obtain ⟨ps, hwhole, hcount, v, rfl, hend⟩ := ih r
      refine ⟨p :: ps, by simpa using ⟨hp, hwhole⟩, by simpa using hcount, v, by simp, ?_⟩
      intro hlt
      exact hend (by simpa using hlt)
    · exact ⟨[], by simp, by simp, b, by simp, fun _ => hb⟩

/-- A packet is read in two steps, its header and then its payload. -/
theorem read_whole (hs : s.rest = p.bytes ++ r) :
    s.read PacketHeader.decoder = (some p.header, s.advance PacketHeader.size) ∧
      (s.advance PacketHeader.size).read (take p.payload.length) =
        (some p.payload, s.advance p.bytes.length) ∧ (s.advance p.bytes.length).rest = r := by
  have hbehind := Source.rest_advance hs
  rw [StoredPacket.bytes, List.append_assoc] at hs
  refine ⟨PacketHeader.read_iff.2 ⟨_, hs, rfl⟩, ?_, hbehind⟩
  refine Source.read_take_iff.2 ⟨rfl, r, Source.rest_advance hs, ?_⟩
  rw [Source.advance_advance, StoredPacket.bytes, List.length_append]
  rfl

/-- Where no whole packet stands, there is no header, or one that is too short for itself, or less
than it announces. -/
theorem read_broken (hb : ¬ BeginsWhole s.rest) (hh : s.read PacketHeader.decoder = (some h, t)) :
    h.payload? = none ∨ ∃ n, h.payload? = some n ∧ t.rest.length < n := by
  obtain ⟨r, hs, rfl⟩ := PacketHeader.read_iff.1 hh
  rw [Source.rest_advance hs]
  cases hn : h.payload? with
  | none => exact .inl rfl
  | some n =>
    refine .inr ⟨n, rfl, Nat.lt_of_not_le fun hlong => hb ?_⟩
    have hlen : (r.take n).length = n := List.length_take_of_le hlong
    refine ⟨⟨h, r.take n⟩, r.drop n, StoredPacket.whole_iff.2 (by rw [hn, hlen]), ?_⟩
    rw [hs, StoredPacket.bytes, List.append_assoc, List.take_append_drop]

/-- The versions that packets show of the streams asked for, each from the first packet of its
stream that has a fifth byte. -/
def versionsIn : List Nat → List StoredPacket → List (Nat × Nat)
  | _, [] => []
  | wanted, p :: ps =>
    let id := p.header.stream.toNat
    if wanted.contains id then
      match p.payload with
      | _ :: _ :: _ :: _ :: b :: _ =>
        (id, (b >>> 3).toNat) :: versionsIn (wanted.filter (· ≠ id)) ps
      | _ => versionsIn wanted ps
    else versionsIn wanted ps

theorem versionsIn_nil (ps : List StoredPacket) : versionsIn [] ps = [] := by
  induction ps with
  | nil => rfl
  | cons p ps ih => exact ih

end Container

open Container

variable {s : Source} {left : Nat} {wanted : List Nat} {p : StoredPacket} {ps : List StoredPacket}
  {r : Bytes}

theorem findVersions_nil (left : Nat) (s : Source) : findVersions left [] s = ([], s) := by
  cases left <;> rfl

theorem findVersions_short (hs : s.rest.length < PacketHeader.size) :
    (findVersions left wanted s).1 = [] := by
  cases left with
  | zero => rfl
  | succ left =>
    rw [findVersions, Source.read_short PacketHeader.consumes_decoder hs]
    split <;> rfl

/-- Looking ahead ends where no whole packet stands: a payload that is skipped leads to the end. -/
theorem findVersions_broken (hb : ¬ BeginsWhole s.rest) :
    (findVersions left wanted s).1 = [] := by
  cases left with
  | zero => rfl
  | succ left =>
    rw [findVersions]
    split
    · rfl
    cases hh : s.read PacketHeader.decoder with
    | mk found t =>
      cases found with
      | none => rfl
      | some h =>
        dsimp only
        rcases read_broken hb hh with hn | ⟨n, hn, hshort⟩
        · rw [hn]
        · rw [hn]
          dsimp only
          split
          · rw [Source.read_short consumes_take hshort]
          · rw [h.skip_payload hn]
            refine findVersions_short ?_
            rw [Source.length_rest_advance, PacketHeader.size]
            omega

/-- Looking ahead finds the versions that the packets in front show. -/
theorem findVersions_inFront (hf : InFront left s.rest ps) :
    (findVersions left wanted s).1 = versionsIn wanted ps := by
  induction ps generalizing left wanted s with
  | nil =>
    obtain ⟨-, -, r, hrest, hend⟩ := hf
    cases left with
    | zero => rfl
    | succ left => exact findVersions_broken (by simpa [hrest] using hend (Nat.succ_pos left))
  | cons p ps ih =>
    obtain ⟨hwhole, hcount, r, hrest, hend⟩ := hf
    obtain ⟨hp, hps⟩ := List.forall_mem_cons.1 hwhole
    rw [List.flatMap_cons, List.append_assoc] at hrest
    obtain ⟨hheader, hpayload, hbehind⟩ := read_whole hrest
    cases left with
    | zero => cases hcount
    | succ left =>
      cases wanted with
      | nil => rw [findVersions_nil, versionsIn_nil]
      | cons i is =>
        have hfront : InFront left (s.advance p.bytes.length).rest ps :=
          ⟨hps, Nat.le_of_succ_le_succ hcount, r, hbehind, fun hlt => hend (Nat.succ_lt_succ hlt)⟩
        have hskip : (s.advance PacketHeader.size).skip p.payload.length =
            s.advance p.bytes.length := by
          rw [p.header.skip_payload (StoredPacket.whole_iff.1 hp), Source.advance_advance,
            StoredPacket.bytes, List.length_append, PacketHeader.length_bytes]
        rw [findVersions, versionsIn, hheader]
        simp only [StoredPacket.whole_iff.1 hp, hpayload, hskip, List.isEmpty_cons,
          Bool.false_eq_true, if_false]
        split
        · rcases p.payload with _ | ⟨a, _ | ⟨b, _ | ⟨c, _ | ⟨d, _ | ⟨e, l⟩⟩⟩⟩⟩
          case cons.cons.cons.cons.cons => exact congrArg _ (ih hfront)
          all_goals exact ih hfront
        · exact ih hfront

end RealMedia
