import RealMedia.Container.Chain
import RealMedia.Listing.Line

/-!
A walk over the objects and packets of a file. It goes by the sizes of the objects, and does not
stop at everything that a demultiplexer refuses.
-/

namespace RealMedia.Listing

open Container

/-- The lines up to the first thing that cannot be read, and what that is. -/
structure Report where
  lines : List Line
  fault : Option Fault := none

/-- Go on behind a report unless it broke off. -/
def Report.andThen (r : Report) (next : Report) : Report :=
  match r.fault with
  | some _ => r
  | none => { next with lines := r.lines ++ next.lines }

/-- Packets listed for each data object if not all are asked for. -/
def maxListed : Nat := 50

/-- The lines that sum up a data object of `total` packets. -/
def closing (total listed keys : Nat) : Report :=
  { lines :=
      (if listed < total then [.morePackets (total - listed)] else []) ++ [.keyPackets keys] }

/-- The packets of a data object that ends at `stop`: `left` of them are to come, `n` have been
seen, `listed` have been listed, and `keys` are key packets. -/
def packetLines (all : Bool) (stop total : Nat) : (left n listed keys : Nat) → Source → Report
  | 0, _, listed, keys, _ => closing total listed keys
  | left + 1, n, listed, keys, s =>
    if stop < s.pos + PacketHeader.size then
      ({ lines := [.sectionEnds n] } : Report).andThen (closing total listed keys)
    else
      match s.read PacketHeader.decoder with
      | (none, _) => { lines := [], fault := some (.io .unexpectedEof) }
      | (some h, rest) =>
        match h.payload? with
        | none =>
          ({ lines := [.packetTooSmall h.length.toNat s.pos] } : Report).andThen
            (closing total listed keys)
        | some payload =>
          let shown := all || listed < maxListed
          let more := packetLines all stop total left (n + 1) (listed + shown.toNat)
            (keys + h.isKey.toNat) (rest.advance payload)
          if shown then { more with lines := .packet h payload s.pos :: more.lines } else more

/-- A data object that ends at `stop`. -/
def dataReport (all : Bool) (stop : Nat) (s : Source) : Report :=
  match s.read DataHeader.decoder with
  | (none, _) => { lines := [], fault := some (.io .unexpectedEof) }
  | (some h, s) =>
    ({ lines := [.packets h] } : Report).andThen
      (packetLines all stop h.packets.toNat h.packets.toNat 0 0 0 s)

def contentLines (c : Content) : List Line :=
  ([("title", c.title), ("author", c.author), ("copyright", c.copyright),
    ("comment", c.comment)].filter (!·.2.isEmpty)).map fun x => .content x.1 x.2

def typeLine (b : Bytes) : Line :=
  match Container.TypeData.parse b with
  | .video v => .video v
  | .audio a => .audio a
  | .other => .typeBytes b

/-- The lines of an object that can be decoded. -/
def decoded {α : Type} (d : Decoder α) (payload : Bytes) (lines : α → List Line) : Report :=
  match d.decode payload with
  | .ok a => { lines := lines a }
  | .error e => { lines := [], fault := some (.outOfData e) }

def payloadReport (id : FourCC) (payload : Bytes) : Report :=
  if id = propertiesId then decoded Properties.decoder payload fun p => [.properties p]
  else if id = contentId then decoded Content.decoder payload contentLines
  else if id = mediaId then
    decoded MediaHeader.decoder payload fun m => [.stream m, typeLine m.typeData]
  else { lines := if payload.isEmpty then [] else [.firstBytes payload] }

theorem length_advance_lt {s : Source} {size : Nat}
    (hs : ¬(size < ObjectHeader.length ∨ (!atLeast size s.rest) = true)) :
    (s.advance size).rest.length < s.rest.length := by
  simp only [ObjectHeader.length, Bool.not_eq_true', atLeast_eq_false] at hs
  rw [Source.length_rest_advance]
  omega

def objectReport (all : Bool) (s : Source) : Report :=
  if !atLeast ObjectHeader.length s.rest then { lines := [] }
  else
    match s.read ObjectHeader.decoder with
    | (none, _) => { lines := [], fault := some (.io .unexpectedEof) }
    | (some h, body) =>
      let size := h.size.toNat
      let first : Report := { lines := [.object h s.pos] }
      if size < ObjectHeader.length ∨ !atLeast size s.rest then
        first.andThen { lines := [.invalidSize size s.pos] }
      else
        let inner :=
          if h.id = dataId then dataReport all (s.pos + size) body
          else payloadReport h.id (body.rest.take (size - ObjectHeader.length))
        (first.andThen inner).andThen (objectReport all (s.advance size))
termination_by s.rest.length
decreasing_by exact length_advance_lt ‹_›

def fileReport (all : Bool) (name : String) (file : Bytes) : Report :=
  ({ lines := [.file name, .size file.length, .blank] } : Report).andThen
    (objectReport all (.ofBytes file))

/-- The listing of a named file, given what is stored under each name. -/
def listing (files : String → Option Bytes) (all : Bool) (name : String) : List Line :=
  let report : Report := match files name with
    | none => { lines := [], fault := some (.io .notFound) }
    | some file => fileReport all name file
  let verdict : Line := match report.fault with
    | none => .completed
    | some e => .failed e.cause
  let identified : List Line := match (identifyFile files name).1 with
    | .ok info => .tracks :: info.tracks.map .track
    | .error e => [.unidentified e.message]
  report.lines ++ .blank :: verdict :: .blank :: identified

/-- The command line: a file name, and whether all packets are to be listed. -/
def command (files : String → Option Bytes) (args : List String) : List Line :=
  .title :: .rule ::
    match args with
    | [] => [.usage, .sample]
    | name :: _ => listing files (args.contains "--all-packets") name

end RealMedia.Listing
