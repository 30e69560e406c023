import RealMedia.Demux.Read

/-! Every way in which a step of reading can turn out, with what it finds at the read position. -/

namespace RealMedia.Demultiplexer

open Container

/-- A step that runs out of data inside a header. -/
def breakOff (d : Demultiplexer) (s : Source) : Outcome :=
  ({ d with source := s }, [], .error (.io .unexpectedEof))

/-- The demultiplexer behind a packet header. -/
def behindHeader (d : Demultiplexer) (s : Source) : Demultiplexer :=
  { d with source := s, taken := d.taken + 1 }

/-- The track that a packet goes to. -/
def taker? (d : Demultiplexer) (h : PacketHeader) : Option Track :=
  d.tracks.find? fun t => t.id = h.stream.toNat && !t.disabled

/-- The ways on to the next data object. -/
inductive ReadsSection (d : Demultiplexer) : Outcome → Prop
  | noObject {s : Source} (ho : d.source.read ObjectHeader.decoder = (none, s)) :
    ReadsSection d (d.breakOff s)
  | noHeader {o : ObjectHeader} {s u : Source}
    (ho : d.source.read ObjectHeader.decoder = (some o, s)) (hi : o.id = dataId)
    (hd : s.read DataHeader.decoder = (none, u)) : ReadsSection d (d.breakOff u)
  | next {o : ObjectHeader} {h : DataHeader} {s u : Source}
    (ho : d.source.read ObjectHeader.decoder = (some o, s)) (hi : o.id = dataId)
    (hd : s.read DataHeader.decoder = (some h, u)) :
    ReadsSection d ({ d with source := u, declared := h.packets.toNat, taken := 0 },
      [.note (.nextSection h.packets.toNat)], .ok .moreData)
  | other {o : ObjectHeader} {s : Source}
    (ho : d.source.read ObjectHeader.decoder = (some o, s)) (hi : o.id ≠ dataId) :
    ReadsSection d ({ d with source := s }.finishAfter [.note (.endObject o.id)])

/-- The fates of the next packet. -/
inductive ReadsPacket (d : Demultiplexer) : Outcome → Prop
  | noHeader {s : Source} (hh : d.source.read PacketHeader.decoder = (none, s)) :
    ReadsPacket d (d.breakOff s)
  | undersized {h : PacketHeader} {s : Source}
    (hh : d.source.read PacketHeader.decoder = (some h, s)) (hp : h.payload? = none) :
    ReadsPacket d ({ d with source := s }.finishAfter
      [.note (.packetTooSmall h.length.toNat h.version.toNat h.stream.toNat h.timestamp.toNat
        h.flags.toNat d.source.pos)])
  | skipped {h : PacketHeader} {s : Source} {n : Nat}
    (hh : d.source.read PacketHeader.decoder = (some h, s)) (hp : h.payload? = some n)
    (ht : d.taker? h = none) : ReadsPacket d (d.behindHeader (s.advance n), [], .ok .moreData)
  | truncated {h : PacketHeader} {s u : Source} {n : Nat} {t : Track}
    (hh : d.source.read PacketHeader.decoder = (some h, s)) (hp : h.payload? = some n)
    (ht : d.taker? h = some t)
    (hr : s.read (Decoder.take n) = (none, u)) :
    ReadsPacket d ((d.behindHeader u).finishAfter
      [.note (.packetTruncated h.stream.toNat d.source.pos)])
  | routed {h : PacketHeader} {s u : Source} {n : Nat} {t : Track} {payload : Bytes}
    (hh : d.source.read PacketHeader.decoder = (some h, s)) (hp : h.payload? = some n)
    (ht : d.taker? h = some t) (hr : s.read (Decoder.take n) = (some payload, u)) :
    ReadsPacket d ((d.behindHeader u).route t h payload)

/-- A step of reading: the end, the way to the next data object, or a packet. -/
inductive Reads (d : Demultiplexer) : Outcome → Prop
  | short (hl : d.source.rest.length < PacketHeader.size) : Reads d (d.finishAfter [])
  | step {r : Outcome} (hl : PacketHeader.size ≤ d.source.rest.length) (hd : d.declared ≤ d.taken)
    (hr : ReadsSection d r) : Reads d r
  | packet {r : Outcome} (hl : PacketHeader.size ≤ d.source.rest.length) (hd : d.taken < d.declared)
    (hr : ReadsPacket d r) : Reads d r

theorem reads_readSection (d : Demultiplexer) : ReadsSection d d.readSection := by
  rw [readSection]
  cases ho : d.source.read ObjectHeader.decoder with
  | mk found s =>
    cases found with
    | none => exact .noObject ho
    | some o =>
      by_cases hi : o.id = dataId
      · simp only [if_pos hi]
        cases hd : s.read DataHeader.decoder with
        | mk found u =>
          cases found with
          | none => exact .noHeader ho hi hd
          | some h => exact .next ho hi hd
      · simp only [if_neg hi]
        exact .other ho hi

theorem reads_readPacket (d : Demultiplexer) : ReadsPacket d d.readPacket := by
  rw [readPacket]
  cases hh : d.source.read PacketHeader.decoder with
  | mk found s =>
    cases found with
    | none => exact .noHeader hh
    | some h =>
      cases hp : h.payload? with
      | none =>
        simp only [hp]
        exact .undersized hh hp
      | some n =>
        simp only [hp]
        cases ht : d.taker? h with
        | none =>
          rw [taker?] at ht
          simp only [ht, h.skip_payload hp]
          exact .skipped hh hp ht
        | some t =>
          have hf := ht
          rw [taker?] at hf
          simp only [hf]
          cases hr : s.read (Decoder.take n) with
          | mk found u =>
            cases found with
            | none => exact .truncated hh hp ht hr
            | some payload => exact .routed hh hp ht hr

/-- A packet that is all there is routed, or skipped if nobody takes it. -/
theorem readPacket_whole {d : Demultiplexer} {h : PacketHeader} {s u : Source} {n : Nat} {b : Bytes}
    (hh : d.source.read PacketHeader.decoder = (some h, s)) (hp : h.payload? = some n)
    (hr : s.read (Decoder.take n) = (some b, u)) :
    d.readPacket = match d.taker? h with
      | none => (d.behindHeader (s.advance n), [], .ok .moreData)
      | some t => (d.behindHeader u).route t h b := by
  rw [readPacket, hh]
  simp only [hp, hr, h.skip_payload hp]
  rfl

/-- A packet that breaks off is the end, but for a packet that nobody takes. -/
theorem readPacket_torn {d : Demultiplexer} {h : PacketHeader} {s u : Source} {n : Nat}
    (hh : d.source.read PacketHeader.decoder = (some h, s)) (hp : h.payload? = some n)
    (hr : s.read (Decoder.take n) = (none, u)) :
    d.readPacket = match d.taker? h with
      | none => (d.behindHeader (s.advance n), [], .ok .moreData)
      | some _ => (d.behindHeader u).finishAfter
          [.note (.packetTruncated h.stream.toNat d.source.pos)] := by
  rw [readPacket, hh]
  simp only [hp, hr, h.skip_payload hp]
  rfl

theorem reads_readNext (d : Demultiplexer) : Reads d d.readNext := by
  rw [readNext]
  by_cases hl : d.source.rest.length < PacketHeader.size
  · rw [if_pos (by simpa using hl)]
    exact .short hl
  rw [if_neg (by simpa using hl)]
  by_cases hd : d.declared ≤ d.taken
  · rw [if_pos hd]
    exact .step (by omega) hd d.reads_readSection
  · rw [if_neg hd]
    exact .packet (by omega) (by omega) d.reads_readPacket

end RealMedia.Demultiplexer
