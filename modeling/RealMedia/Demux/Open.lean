import RealMedia.Container.Chain
import RealMedia.Demux.Basic

/-!
A file opened for reading: its headers, the tracks they describe, and the source at the first
packet.
-/

namespace RealMedia

open Container

/-- What has been read from the headers so far. -/
structure Headers where
  properties : Option Properties := none
  content : Option Content := none
  tracks : List Track := []

def decodePayload {α : Type} (d : Decoder α) (payload : Bytes) : Except HeaderFault α :=
  (d.decode payload).mapError .truncatedField

namespace Headers

/-- Take a stream description. Only the first one of a stream counts. -/
def addMedia (o : Options) (hs : Headers) (m : MediaHeader) : Headers × List Note :=
  let names :=
    if o.isVerbose 2 then [Note.field "stream_name" m.name, .field "mime_type" m.mime] else []
  if hs.tracks.any (·.id = m.stream.toNat) then
    (hs, names ++ [.describedTwice m.stream.toNat])
  else
    let (track, said) := trackOf o m
    ({ hs with tracks := hs.tracks ++ track.toList }, names ++ said)

def contentNotes (o : Options) (c : Content) : List Note :=
  if o.isVerbose 2 then
    [.field "title" c.title, .field "author" c.author, .field "copyright" c.copyright,
      .field "comment" c.comment]
  else []

def add (o : Options) (hs : Headers) (x : Object) : Except HeaderFault (Headers × List Note) := do
  if x.header.id = propertiesId then
    let p ← decodePayload Properties.decoder x.payload
    return ({ hs with properties := some p },
      [.properties p.packets.toNat p.duration.toNat p.streams.toNat])
  else if x.header.id = contentId then
    let c ← decodePayload Content.decoder x.payload
    return ({ hs with content := some c }, contentNotes o c)
  else if x.header.id = mediaId then
    return hs.addMedia o (← decodePayload MediaHeader.decoder x.payload)
  else return (hs, [.unknownObject x.header.id x.payload.length])

/-- Take objects in turn, up to the first that cannot be read. -/
def addAll (o : Options) (hs : Headers) : List Object → Except HeaderFault Headers × List Note
  | [] => (.ok hs, [])
  | x :: xs =>
    match hs.add o x with
    | .error e => (.error e, [])
    | .ok (hs, said) =>
      let (r, more) := hs.addAll o xs
      (r, said ++ more)

end Headers

/-- The versions of AC3 streams, each from the first packet that shows one, among the next `left`
packets, and the source where the search for them ends. -/
def findVersions : Nat → List Nat → Source → List (Nat × Nat) × Source
  | 0, _, s => ([], s)
  | left + 1, wanted, s =>
    if wanted.isEmpty then ([], s)
    else
      match s.read PacketHeader.decoder with
      | (none, s) => ([], s)
      | (some h, s) =>
        match h.payload? with
        | none => ([], s)
        | some n =>
          let id := h.stream.toNat
          if wanted.contains id then
            match s.read (Decoder.take n) with
            | (none, s) => ([], s)
            | (some (_ :: _ :: _ :: _ :: b :: _), s) =>
              let (found, s) := findVersions left (wanted.filter (· ≠ id)) s
              ((id, (b >>> 3).toNat) :: found, s)
            | (some _, s) => findVersions left wanted s
          else findVersions left wanted (s.skip n)

/-- Look ahead for the versions of AC3 streams, and go back to where the packets start. -/
def lookAhead (left : Nat) (wanted : List Nat) (s : Source) : List (Nat × Nat) × Source :=
  if wanted.isEmpty then ([], s)
  else
    let start := s.pos
    let (versions, s) := findVersions left wanted s
    (versions, s.seek start)

/-- However the search ends, it is in the same source. -/
theorem data_findVersions {left : Nat} {wanted : List Nat} {s : Source} :
    (findVersions left wanted s).2.data = s.data := by
  fun_induction findVersions left wanted s with
  | case1 | case2 => rfl
  | case3 left wanted s _ t hheader => exact Source.data_of_read hheader
  | case4 left wanted s _ h t hheader => exact Source.data_of_read hheader
  | case5 left wanted s _ h t hheader n _ _ _ u hpayload =>
    exact (Source.data_of_read hpayload).trans (Source.data_of_read hheader)
  | case6 left wanted s _ h t hheader n _ _ _ _ _ _ _ _ _ u hpayload found v hfound ih =>
    rw [hfound] at ih
    exact ih.trans ((Source.data_of_read hpayload).trans (Source.data_of_read hheader))
  | case7 left wanted s _ h t hheader n _ _ _ b u _ hpayload ih =>
    exact ih.trans ((Source.data_of_read hpayload).trans (Source.data_of_read hheader))
  | case8 left wanted s _ h t hheader n _ _ _ ih =>
    exact ih.trans (Source.data_skip.trans (Source.data_of_read hheader))

/-- Looking ahead leaves the source where it was. -/
theorem lookAhead_eq (left : Nat) (wanted : List Nat) (s : Source) :
    lookAhead left wanted s = ((findVersions left wanted s).1, s) := by
  rw [lookAhead]
  split
  · rename_i hnone
    rw [List.isEmpty_iff.1 hnone]
    cases left <;> rfl
  · exact Prod.ext rfl (Source.seek_pos data_findVersions)

namespace Track

/-- Give an AC3 track the codec name of its version. -/
def setVersion (t : Track) (bsid : Nat) : Track :=
  match t.route with
  | .ac3 f => { t with route := .ac3 { f with
      header := { f.header with codecId := ac3CodecId (some bsid) } } }
  | _ => t

end Track

/-- Name the versions of all AC3 tracks. -/
def nameVersions (versions : List (Nat × Nat)) (tracks : List Track) : List Track :=
  tracks.map fun t => ((versions.lookup t.id).map t.setVersion).getD t

namespace Demultiplexer

/-- The leading object, which must be the file header. -/
def readFileHeader (s : Source) : Except HeaderFault (FileHeader × Source) :=
  match s.read ObjectHeader.decoder with
  | (none, _) => .error .truncated
  | (some h, s) =>
    match readPayload h s with
    | (.error e, _) => .error e
    | (.ok payload, s) => (decodePayload FileHeader.decoder payload).map fun f => (f, s)

/-- Open a file. The first data object is looked ahead into for the versions of AC3 streams. -/
def ofBytes (o : Options) (file : Bytes) : Except Fault Demultiplexer × List Note :=
  if !isRealMedia file then (.error (.header .notRealMedia), [])
  else
    match readFileHeader (.ofBytes file) with
    | .error e => (.error (.header e), [.reading])
    | .ok (fileHeader, s) =>
      let said := [.reading, .fileVersion fileHeader.version.toNat fileHeader.headers.toNat]
      let (objects, last) := readChain s
      match Headers.addAll o {} objects, last with
      | (.error e, more), _ => (.error (.header e), said ++ more)
      | (.ok _, more), .broken e => (.error (.header e), said ++ more)
      | (.ok hs, more), .data d s =>
        let declared := d.packets.toNat
        let wanted := (hs.tracks.filter (·.isAc3)).map (·.id)
        let (versions, s) := lookAhead declared wanted s
        (.ok
          { options := o, source := s, fileHeader, properties := hs.properties
            content := hs.content, tracks := nameVersions versions hs.tracks, declared },
          said ++ more ++ [.firstSection declared] ++ versions.map fun v => .ac3Version v.1 v.2)

end Demultiplexer

end RealMedia
