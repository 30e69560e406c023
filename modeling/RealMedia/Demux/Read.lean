import RealMedia.Demux.Basic

/-! Reading an open file: packet by packet to its end, and then what every track still keeps. -/

namespace RealMedia

open Container

/-- Put a place behind others, unless it is among them. -/
def addPlace (places : List Nat) (i : Nat) : List Nat :=
  if places.contains i then places else places ++ [i]

/-- The places of the headers that an order names, as they are first mentioned. -/
def namedPlaces (order : List Nat) (hs : List StreamHeader) : List Nat :=
  order.foldl (fun places id =>
    match hs.findIdx? (·.id = id) with
    | some i => addPlace places i
    | none => places) []

/-- Headers in the order asked for: those that are named, and then all others as they stand. -/
def inOrder (order : List Nat) (hs : List StreamHeader) : List StreamHeader :=
  ((List.range hs.length).foldl addPlace (namedPlaces order hs)).filterMap (hs[·]?)

/-- Drain the tracks that are not lost. -/
def drainAll (o : Options) : List Track → List Track × Outputs
  | [] => ([], [])
  | t :: ts =>
    let (u, out) := if t.disabled then (t, []) else t.drain o
    let (us, more) := drainAll o ts
    (u :: us, out ++ more)

namespace Demultiplexer

/-- Hand the headers over. -/
def announce (d : Demultiplexer) : Demultiplexer × Outputs :=
  let tracks := d.tracks.map (·.finalize)
  ({ d with tracks, announced := true },
    [.call (.headers (inOrder d.options.order (tracks.map (·.header))))])

/-- Hand the headers over unless that has been done. -/
def ensureAnnounced (d : Demultiplexer) : Demultiplexer × Outputs :=
  if d.announced then (d, []) else d.announce

/-- Hand out everything kept and end the sink's input. -/
def finish (d : Demultiplexer) : Demultiplexer × Outputs :=
  if d.done then (d, [])
  else
    let (d, first) := d.ensureAnnounced
    let (tracks, out) := drainAll d.options d.tracks
    ({ d with tracks, done := true }, first ++ out ++ [.call .flush])

/-- How a step of reading turns out. The state after a fault counts like any other. -/
abbrev Outcome := Demultiplexer × Outputs × Except Fault Status

/-- End the input after some last outputs. -/
def finishAfter (d : Demultiplexer) (before : Outputs) : Outcome :=
  let (d, out) := d.finish
  (d, before ++ out, .ok .done)

/-- Replace the track of a stream that is not lost. -/
def update (d : Demultiplexer) (u : Track) : Demultiplexer :=
  { d with tracks := d.tracks.map fun t => if t.id = u.id && !t.disabled then u else t }

/-- Route a packet to its track. A track that loses its stream takes part no longer. -/
def route (d : Demultiplexer) (t : Track) (h : PacketHeader) (payload : Bytes) : Outcome :=
  let seen := if d.options.isVerbose 4 then
    [.note (.packetTime t.id h.timestamp.toNat)] else []
  match t.push d.options payload h.time h.isKey with
  | (u, out, none) => (d.update u, seen ++ out, .ok .moreData)
  | (u, out, some e) =>
    (d.update { u with disabled := true }, seen ++ out ++ [.note (.disabled e)], .ok .moreData)

/-- Go on to the next data object, if the next object is one. -/
def readSection (d : Demultiplexer) : Outcome :=
  let eof : Except Fault Status := .error (.io .unexpectedEof)
  match d.source.read ObjectHeader.decoder with
  | (none, s) => ({ d with source := s }, [], eof)
  | (some h, s) =>
    if h.id = dataId then
      match s.read DataHeader.decoder with
      | (none, s) => ({ d with source := s }, [], eof)
      | (some h, s) =>
        ({ d with source := s, declared := h.packets.toNat, taken := 0 },
          [.note (.nextSection h.packets.toNat)], .ok .moreData)
    else { d with source := s }.finishAfter [.note (.endObject h.id)]

/-- Read a packet, and route it if its stream is wanted. -/
def readPacket (d : Demultiplexer) : Outcome :=
  let pos := d.source.pos
  match d.source.read PacketHeader.decoder with
  | (none, s) => ({ d with source := s }, [], .error (.io .unexpectedEof))
  | (some h, s) =>
    let id := h.stream.toNat
    match h.payload? with
    | none =>
      { d with source := s }.finishAfter
        [.note (.packetTooSmall h.length.toNat h.version.toNat id h.timestamp.toNat
          h.flags.toNat pos)]
    | some n =>
      let d := { d with taken := d.taken + 1 }
      match d.tracks.find? fun t => t.id = id && !t.disabled with
      | none => ({ d with source := s.skip n }, [], .ok .moreData)
      | some t =>
        match s.read (Decoder.take n) with
        | (none, s) => { d with source := s }.finishAfter [.note (.packetTruncated id pos)]
        | (some payload, s) => { d with source := s }.route t h payload

/-- One step: nothing more if not even a packet header is left. -/
def readNext (d : Demultiplexer) : Outcome :=
  if !atLeast PacketHeader.size d.source.rest then d.finishAfter []
  else if d.declared ≤ d.taken then d.readSection
  else d.readPacket

/-- Read and route one packet. Running out of data ends the input. -/
def read (d : Demultiplexer) : Outcome :=
  if d.done then (d, [], .ok .done)
  else
    let (d, first) := d.ensureAnnounced
    match d.readNext with
    | (d, out, .error (.io e)) => d.finishAfter (first ++ out ++ [.note (.endOfData e)])
    | (d, out, result) => (d, first ++ out, result)

end Demultiplexer

end RealMedia
