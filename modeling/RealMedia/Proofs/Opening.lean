import RealMedia.Demux.Open

/-! What an open file is made of, and how alone opening can fail. -/

namespace RealMedia

open Container

variable {o : Options} {file : Bytes} {hs r : Headers} {x : Object} {xs : List Object}
  {d : Demultiplexer}

/-- The streams that are looked ahead for. -/
def ac3Ids (ts : List Track) : List Nat := (ts.filter (·.isAc3)).map (·.id)

/-- The object is a stream description that can be read. -/
def Container.Object.Describes (x : Object) (m : MediaHeader) : Prop :=
  x.header.id = mediaId ∧ decodePayload MediaHeader.decoder x.payload = .ok m

namespace Headers

/-- Only a stream description changes the tracks. -/
theorem tracks_add {said : List Note} (ha : hs.add o x = .ok (r, said)) :
    r.tracks = hs.tracks ∨ ∃ m, x.Describes m ∧ r.tracks = (hs.addMedia o m).1.tracks := by
  unfold add at ha
  split at ha
  · cases hp : decodePayload Properties.decoder x.payload with
    | error e => simp [hp, bind, Except.bind] at ha
    | ok p =>
      simp only [hp, bind, Except.bind, pure, Except.pure, Except.ok.injEq, Prod.mk.injEq] at ha
      exact .inl (by rw [← ha.1])
  split at ha
  · cases hc : decodePayload Content.decoder x.payload with
    | error e => simp [hc, bind, Except.bind] at ha
    | ok c =>
      simp only [hc, bind, Except.bind, pure, Except.pure, Except.ok.injEq, Prod.mk.injEq] at ha
      exact .inl (by rw [← ha.1])
  split at ha
  · rename_i hid
    cases hm : decodePayload MediaHeader.decoder x.payload with
    | error e => simp [hm, bind, Except.bind] at ha
    | ok m =>
      simp only [hm, bind, Except.bind, pure, Except.pure, Except.ok.injEq] at ha
      exact .inr ⟨m, ⟨hid, hm⟩, by rw [ha]⟩
  · cases ha
    exact .inl rfl

/-- What stays true of the tracks with each description is true behind all objects. -/
theorem tracks_addAll {P : List Track → Prop}
    (hm : ∀ (hs : Headers) (m : MediaHeader), P hs.tracks → P (hs.addMedia o m).1.tracks)
    (hp : P hs.tracks) (ha : (hs.addAll o xs).1 = .ok r) : P r.tracks := by
  induction xs generalizing hs with
  | nil =>
    cases ha
    exact hp
  | cons x xs ih =>
    rw [addAll] at ha
    cases hx : hs.add o x with
    | error e =>
      rw [hx] at ha
      cases ha
    | ok y =>
      rw [hx] at ha
      refine ih ?_ ha
      rcases tracks_add hx with hsame | ⟨m, -, hmore⟩
      · rwa [hsame]
      · rw [hmore]
        exact hm hs m hp

theorem mem_addMedia {m : MediaHeader} {t : Track} (ht : t ∈ (hs.addMedia o m).1.tracks) :
    t ∈ hs.tracks ∨ (trackOf o m).1 = some t := by
  rw [addMedia] at ht
  dsimp only at ht
  split at ht
  · exact .inl ht
  · exact (List.mem_append.1 ht).imp_right Option.mem_toList.1

/-- Each track is that of a description among the objects. -/
theorem described_addAll (ha : (hs.addAll o xs).1 = .ok r) : ∀ t ∈ r.tracks,
    t ∈ hs.tracks ∨ ∃ x ∈ xs, ∃ m, x.Describes m ∧ (trackOf o m).1 = some t := by
  induction xs generalizing hs with
  | nil =>
    cases ha
    exact fun t ht => .inl ht
  | cons x xs ih =>
    rw [addAll] at ha
    cases hx : hs.add o x with
    | error e =>
      rw [hx] at ha
      cases ha
    | ok y =>
      rw [hx] at ha
      intro t ht
      rcases ih ha t ht with ht | ⟨z, hz, hmore⟩
      · rcases tracks_add hx with hsame | ⟨m, hm, hmore⟩
        · exact .inl (hsame ▸ ht)
        · rw [hmore] at ht
          refine (mem_addMedia ht).imp_right ?_
          intro htrack
          exact ⟨x, List.mem_cons_self, m, hm, htrack⟩
      · exact .inr ⟨z, List.mem_cons_of_mem _ hz, hmore⟩

end Headers

namespace Demultiplexer

/-- A file that is open at its first packet, with what its headers say. -/
def opened (o : Options) (f : FileHeader) (hs : Headers) (h : DataHeader) (s : Source) :
    Demultiplexer where
  options := o
  source := s
  fileHeader := f
  properties := hs.properties
  content := hs.content
  tracks := nameVersions (findVersions h.packets.toNat (ac3Ids hs.tracks) s).1 hs.tracks
  declared := h.packets.toNat

/-- A file is opened if each part of its headers is read. -/
theorem ofBytes_eq_ok : (ofBytes o file).1 = .ok d ↔ isRealMedia file = true ∧ ∃ f t xs h s hs,
    readFileHeader (.ofBytes file) = .ok (f, t) ∧ readChain t = (xs, .data h s) ∧
      (Headers.addAll o {} xs).1 = .ok hs ∧ d = opened o f hs h s := by
  unfold ofBytes
  constructor
  · intro hd
    split at hd
    · cases hd
    · rename_i hmark
      split at hd
      · cases hd
      · rename_i f t hf
        dsimp only at hd
        split at hd
        · cases hd
        · cases hd
        · rename_i hs more h s ha hc
          rw [lookAhead_eq] at hd
          cases hd
          exact ⟨by simpa using hmark, f, t, _, h, s, hs, hf, Prod.ext rfl hc, by rw [ha], rfl⟩
  · rintro ⟨hmark, f, t, xs, h, s, hs, hf, hc, ha, rfl⟩
    have hadd : Headers.addAll o {} xs = (.ok hs, (Headers.addAll o {} xs).2) := Prod.ext ha rfl
    rw [if_neg (by simp [hmark]), hf]
    dsimp only
    rw [hc]
    dsimp only
    rw [hadd]
    dsimp only
    rw [lookAhead_eq]
    rfl

/-- Opening fails for the headers alone. -/
theorem ofBytes_fault {e : Fault} (he : (ofBytes o file).1 = .error e) :
    ∃ fault, e = .header fault := by
  unfold ofBytes at he
  split at he
  · exact ⟨_, (Except.error.inj he).symm⟩
  split at he
  · exact ⟨_, (Except.error.inj he).symm⟩
  · dsimp only at he
    split at he
    · exact ⟨_, (Except.error.inj he).symm⟩
    · exact ⟨_, (Except.error.inj he).symm⟩
    · cases he

/-- What stays true of the tracks with each description, and when AC3 versions are named, is true of
an open file. -/
theorem tracks_ofBytes {P : List Track → Prop}
    (hm : ∀ (hs : Headers) (m : MediaHeader), P hs.tracks → P (hs.addMedia o m).1.tracks)
    (hn : ∀ versions ts, P ts → P (nameVersions versions ts)) (hp : P [])
    (hd : (ofBytes o file).1 = .ok d) : P d.tracks := by
  obtain ⟨-, f, t, xs, h, s, hs, -, -, ha, rfl⟩ := ofBytes_eq_ok.1 hd
  exact hn _ _ (Headers.tracks_addAll hm hp ha)

end Demultiplexer

end RealMedia
