import RealMedia.Container.Object
import RealMedia.Container.TypeData
import RealMedia.Demux.Track
import RealMedia.Text.Uppercase

/-! Tracks set up from the stream descriptions in the headers of a file. -/

namespace RealMedia

open Container

def equalsIgnoringCase (a b : String) : Bool := a.map Char.toLower = b.map Char.toLower

def isAac (fourcc : String) : Bool :=
  equalsIgnoringCase fourcc "raac" || equalsIgnoringCase fourcc "racp"

/-- The codec name of AC3 audio of a version. -/
def ac3CodecId : Option Nat → String
  | some 9 => "A_AC3/BSID9"
  | some 10 => "A_AC3/BSID10"
  | _ => "A_AC3"

/-- The configuration record in the extra data of AAC audio: a length of four bytes, a byte of no
interest, and the record. The outer layer tells whether there is room for a record, the inner one
whether it can be read. -/
def aacRecord? (extra : Bytes) : Option (Option Aac.Config) :=
  match extra with
  | a :: b :: c :: d :: e :: rest =>
    let length := (word32 a b c d).toNat
    if 0 < length ∧ atLeast length (e :: rest) then
      some (Aac.Config.parse? (rest.take (length - 1)))
    else none
  | _ => none

def aacNotes (id : Nat) (extra : Bytes) : List Note :=
  match extra with
  | a :: b :: c :: d :: _ :: _ => [.aacExtra id (word32 a b c d).toNat]
  | _ => []

/-- What the container alone tells of AAC audio. Low rates are taken for the core of SBR audio. -/
def aacDefault (fourcc : String) (a : AudioType) : Aac.Config :=
  let rate := a.sampleRate.toNat
  let sbr := equalsIgnoringCase fourcc "racp" || rate < 44100
  { profile := if sbr then .sbr else .lc
    sampleRate := rate
    outputRate := if sbr then 2 * rate else rate
    channels := a.channels.toNat
    sbr }

def aacConfig (o : Options) (id : Nat) (fourcc : String) (a : AudioType) : Aac.Config :=
  let c := (aacRecord? a.extra).join.getD (aacDefault fourcc a)
  if o.forcesSbr id && !c.sbr then
    { c with profile := .sbr, sbr := true, outputRate := 2 * c.sampleRate }
  else c

def videoTrack (m : MediaHeader) (v : VideoType) : Track × List Note :=
  let id := m.stream.toNat
  let fourcc := v.fourcc.text
  let width := v.width.toNat
  let height := v.height.toNat
  let header : StreamHeader :=
    { id, kind := .video, fourcc, codecId := "V_REAL/" ++ fourcc, family := .realVideo
      params := .video
        { pixelWidth := width, pixelHeight := height, displayWidth := width, displayHeight := height
          frameRate := v.frameRate }
      codecPrivate := m.typeData, startTime := m.startTime.toNat, preroll := m.preroll.toNat
      duplicateData := false, defaultDuration := none }
  let watched := v.fourcc.bytes = ascii "RV40"
  ({ route := .video (.ofHeader header) { stream := id } watched none },
    [.routed "video" id fourcc])

/-- The header of an audio stream whose codec is not looked into. -/
def audioHeader (m : MediaHeader) (a : AudioType) : StreamHeader :=
  let fourcc := (a.fourcc.getD a.formatTag).text
  { id := m.stream.toNat, kind := .audio, fourcc, codecId := "A_REAL/" ++ Uppercase.text fourcc
    family := .passthrough
    params := .audio
      { sampleRate := a.sampleRate.toNat, outputRate := none, channels := a.channels.toNat
        bitsPerSample := a.sampleSize.toNat, extraData := a.extra }
    codecPrivate := m.typeData, startTime := m.startTime.toNat, preroll := m.preroll.toNat
    duplicateData := false, defaultDuration := none }

def audioTrack (o : Options) (m : MediaHeader) (a : AudioType) : Track × List Note :=
  let header := audioHeader m a
  let id := header.id
  let fourcc := header.fourcc
  let named := a.fourcc.isSome
  let unnamed := if named then [] else [Note.noCodec id fourcc]
  let routed := fun route => if o.isVerbose 1 then [Note.routed route id fourcc] else []
  if named && equalsIgnoringCase fourcc "dnet" then
    let header :=
      { header with family := .ac3, codecId := ac3CodecId none, codecPrivate := [] }
    ({ route := .ac3 (.ofOptions header true o) }, routed "the AC3")
  else if named && isAac fourcc then
    let config := aacConfig o id fourcc a
    let header := { header with family := .aac, codecPrivate := [], duplicateData := true }
    let unsure :=
      if !config.sbr && (aacRecord? a.extra).isNone then [Note.perhapsSbr id] else []
    ({ route := .aac (.ofConfig header config) }, aacNotes id a.extra ++ unsure ++ routed "the AAC")
  else
    ({ route := .plain { header } none none 0 }, unnamed ++ [.routed "generic audio" id fourcc])

/-- The track of a stream description, if there is one for it, with what is to be said about it. -/
def trackOf (o : Options) (m : MediaHeader) : Option Track × List Note :=
  let id := m.stream.toNat
  match TypeData.parse m.typeData with
  | .video v =>
    if o.wantsVideo id then
      let (t, said) := videoTrack m v
      (some t, said)
    else (none, [.notSelected id])
  | .audio a =>
    if o.wantsAudio id then
      let (t, said) := audioTrack o m a
      (some t, said)
    else (none, [.notSelected id])
  | .other => (none, [.notMedia id m.mime])

end RealMedia
