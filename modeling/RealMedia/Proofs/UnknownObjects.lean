import RealMedia.Proofs.DraftFile
import RealMedia.Proofs.HeaderGrammar
import RealMedia.Proofs.ReadProgress
import RealMedia.Proofs.SameRest

/-! Objects without a meaning, put between the headers of a file, change nothing that is read. -/

namespace RealMedia

open Container

variable {o : Options} {file : Bytes} {hs : Headers} {x : Object} {xs ys : List Object}
  {d : Demultiplexer}

namespace Container

/-- A whole object whose mark has no meaning in a header. Its payload may be anything. -/
structure Object.Unknown (x : Object) : Prop where
  id : x.header.id ∉ [propertiesId, contentId, mediaId, dataId]
  whole : x.Whole

/-- Objects with unknown ones put anywhere between them. -/
inductive Interspersed : List Object → List Object → Prop
  | nil : Interspersed [] []
  | keep {x : Object} {xs ys : List Object} (h : Interspersed xs ys) :
    Interspersed (x :: xs) (x :: ys)
  | insert {x : Object} {xs ys : List Object} (hx : x.Unknown) (h : Interspersed xs ys) :
    Interspersed xs (x :: ys)

theorem Interspersed.mem (h : Interspersed xs ys) : ∀ y ∈ ys, y ∈ xs ∨ y.Unknown := by
  induction h with
  | nil => simp
  | keep h ih =>
    intro y hy
    rcases List.mem_cons.1 hy with rfl | hy
    · exact .inl List.mem_cons_self
    · rcases ih y hy with hy | hy
      · exact .inl (List.mem_cons_of_mem _ hy)
      · exact .inr hy
  | insert hx h ih =>
    intro y hy
    rcases List.mem_cons.1 hy with rfl | hy
    · exact .inr hx
    · exact ih y hy

/-- Nothing is asked of the payload of an unknown object. -/
theorem Object.Unknown.readable (hx : x.Unknown) : x.Readable := by
  have hid := hx.id
  simp only [List.mem_cons, List.not_mem_nil, or_false, not_or] at hid
  exact ⟨fun h => absurd h hid.1, fun h => absurd h hid.2.1, fun h => absurd h hid.2.2.1⟩

theorem Grammar.interspersed {first : Object} {last : ObjectHeader} {behind : Bytes}
    (hg : Grammar file first xs last behind) (hi : Interspersed xs ys) :
    Grammar (first.bytes ++ ys.flatMap Object.bytes ++ last.bytes ++ behind) first ys last
      behind where
  file_eq := rfl
  mark := hg.mark
  first_whole := hg.first_whole
  first_long := hg.first_long
  objects := by
    intro y hy
    rcases hi.mem y hy with hy | hy
    · exact hg.objects y hy
    · refine ⟨?_, hy.whole, hy.readable⟩
      intro hdata
      exact hy.id (by simp [hdata])
  last_data := hg.last_data
  last_long := hg.last_long

end Container

namespace Headers

/-- An unknown object is mentioned, and that is all. -/
theorem add_unknown (o : Options) (hs : Headers) (hx : x.Unknown) :
    hs.add o x = .ok (hs, [.unknownObject x.header.id x.payload.length]) := by
  have hid := hx.id
  simp only [List.mem_cons, List.not_mem_nil, or_false, not_or] at hid
  rw [add, if_neg hid.1, if_neg hid.2.1, if_neg hid.2.2.1]
  rfl

theorem addAll_interspersed (o : Options) (hs : Headers) (hi : Interspersed xs ys) :
    (hs.addAll o ys).1 = (hs.addAll o xs).1 := by
  induction hi generalizing hs with
  | nil => rfl
  | @keep x xs ys h ih =>
    rw [addAll, addAll]
    cases hs.add o x with
    | error e => rfl
    | ok r => exact ih r.1
  | insert hx h ih =>
    rw [addAll, add_unknown o hs hx]
    exact ih hs

end Headers

namespace Demultiplexer

/-- The file with unknown objects is opened as if they were not there. -/
theorem opens_interspersed {first : Object} {last : ObjectHeader} {behind : Bytes}
    (ho : (ofBytes o file).1 = .ok d) (hg : Grammar file first xs last behind)
    (hi : Interspersed xs ys) :
    ∃ e, (ofBytes o (first.bytes ++ ys.flatMap Object.bytes ++ last.bytes ++ behind)).1 = .ok e ∧
      SameAhead d e := by
  obtain ⟨k, r, f, hs, rfl, hf, hadd, hd⟩ := opened_of_grammar o hg
  rw [ho] at hd
  cases hd
  have hnew := hg.interspersed hi
  rw [← Headers.addAll_interspersed o {} hi] at hadd
  refine ⟨_, ofBytes_iff_grammar.2 ⟨first, ys, last, k, r, f, hs, hnew, hf, hadd, rfl⟩, ?_⟩
  have hrest := hg.rest_behind.trans hnew.rest_behind.symm
  refine ⟨_, hrest, ?_⟩
  rw [opened, opened, findVersions_rest hrest]

/-- Every file that is opened can get unknown objects at any places between its headers, any number
of them and whatever they hold: it is opened as before, with the same headers and streams, and read
to the end with the same calls. -/
theorem unknown_objects_invisible (ho : (ofBytes o file).1 = .ok d) :
    (∃ first xs last behind, Grammar file first xs last behind) ∧
    ∀ first xs ys last behind, Grammar file first xs last behind → Interspersed xs ys →
      ∃ e, (ofBytes o (first.bytes ++ ys.flatMap Object.bytes ++ last.bytes ++ behind)).1 = .ok e ∧
        e.fileHeader = d.fileHeader ∧ e.properties = d.properties ∧ e.content = d.content ∧
        e.streams = d.streams ∧
        (∃ n, d.run.reads = .ok n ∧ e.run.reads = .ok n) ∧
        calls e.run.out = calls d.run.out := by
  refine ⟨ofBytes_isOk_iff.1 ⟨d, ho⟩, ?_⟩
  intro first xs ys last behind hg hi
  obtain ⟨e, he, hsame⟩ := opens_interspersed ho hg hi
  obtain ⟨-, hcalls, hreads⟩ : SameRun d.run e.run := hsame.runFrom 0 rfl
  obtain ⟨n, -, hrun, -⟩ := d.runFrom_reads 0 []
  have hends : d.run.reads = .ok (0 + n) := congrArg RunResult.reads hrun
  refine ⟨e, he, ?_⟩
  obtain ⟨s, -, rfl⟩ := hsame
  exact ⟨rfl, rfl, rfl, rfl, ⟨_, hends, hreads ▸ hends⟩, hcalls.symm⟩

def songHeader : Object := objectOf (fileId, zeros 8)

/-- The description of a stream of plain audio. -/
def song : Object := objectOf (mediaId,
  Draft.mediaBytes 1 "" (TypeData.audio4Bytes (ascii "cook") 8000 16 1 []))

def songStart : ObjectHeader := ⟨dataId, 0, 0⟩

def songData : Bytes := DataHeader.bytes ⟨2, 0⟩ ++
  (Draft.packetBytes 1 0 true [1, 2, 3] ++ Draft.packetBytes 1 40 true [4])

def songFile (xs : List Object) : Bytes :=
  songHeader.bytes ++ xs.flatMap Object.bytes ++ songStart.bytes ++ songData

/-- An object that holds what looks like the description of another stream, and then like the start
of its packets. -/
def decoy : Object := objectOf (⟨0x58, 0x58, 0x58, 0x58⟩,
  objectBytes mediaId (Draft.mediaBytes 2 "" (TypeData.audio4Bytes (ascii "sipr") 8000 16 1 [])) ++
    objectBytes dataId (zeros 8))

theorem grammar_songFile : Grammar (songFile [song]) songHeader [song] songStart songData where
  file_eq := rfl
  mark := ⟨rfl, by decide, by decide, by decide⟩
  first_whole := whole_objectOf (by decide)
  first_long := by decide
  objects := by
    intro x hx
    obtain rfl := List.mem_singleton.1 hx
    refine ⟨by decide, whole_objectOf (by decide +kernel),
      fun h => absurd h (by decide), fun h => absurd h (by decide), fun _ => ?_⟩
    have hshort : (Utf8.encode "").length ≤ 255 := by decide +kernel
    exact MediaHeader.decode_iff.1
      ⟨_, Decoder.decode_of_yields (Draft.yields_mediaBytes hshort (by decide))⟩
  last_data := rfl
  last_long := by decide

theorem unknown_objects_invisible_decoy : ∃ d e, (ofBytes {} (songFile [song])).1 = .ok d ∧
    (ofBytes {} (songFile [decoy, song, decoy])).1 = .ok e ∧
    e.fileHeader = d.fileHeader ∧ e.properties = d.properties ∧ e.content = d.content ∧
    e.streams = d.streams ∧ (∃ n, d.run.reads = .ok n ∧ e.run.reads = .ok n) ∧
    calls e.run.out = calls d.run.out := by
  have hdecoy : decoy.Unknown := ⟨by decide, whole_objectOf (by decide +kernel)⟩
  have hi : Interspersed [song] [decoy, song, decoy] :=
    .insert hdecoy (.keep (.insert hdecoy .nil))
  obtain ⟨d, hd⟩ := (ofBytes_isOk_iff (o := {})).2 ⟨_, _, _, _, grammar_songFile⟩
  obtain ⟨e, he, hsame⟩ := (unknown_objects_invisible hd).2 _ _ _ _ _ grammar_songFile hi
  exact ⟨d, e, hd, he, hsame⟩

end Demultiplexer

end RealMedia
