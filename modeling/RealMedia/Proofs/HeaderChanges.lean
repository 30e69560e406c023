import Mathlib.Data.List.Chain
import RealMedia.Proofs.StreamView

/-! How the header of a track changes: the picture of an RV40 stream may get another size. -/

namespace RealMedia

open RealVideo

variable {o : Options} {h k l : StreamHeader} {hs ks : List StreamHeader} {cs ds : List SinkCall}
  {f : VideoFramer} {watched : Bool} {t : Track} {id : Nat}

def StreamHeader.pixelSize (h : StreamHeader) : Option (Nat × Nat) :=
  h.video?.map fun v => (v.pixelWidth, v.pixelHeight)

/-- The header of an RV40 stream with other sizes. -/
inductive Resizes : StreamHeader → StreamHeader → Prop
  | size {h : StreamHeader} {v w : VideoParams} (hf : h.fourcc = "RV40") (hv : h.params = .video v)
    (hr : w.frameRate = v.frameRate)
    (hw : (v.pixelWidth, v.pixelHeight) ≠ (w.pixelWidth, w.pixelHeight)) :
    Resizes h { h with params := .video w }

/-- Nothing but the sizes of an RV40 stream is different. -/
inductive Resized (h : StreamHeader) : StreamHeader → Prop
  | same : Resized h h
  | size {v w : VideoParams} (hf : h.fourcc = "RV40") (hv : h.params = .video v)
    (hr : w.frameRate = v.frameRate) : Resized h { h with params := .video w }

/-- A header becomes another through several new ones, each of which changes the size again. -/
inductive Evolves : StreamHeader → List StreamHeader → StreamHeader → Prop
  | nil (h : StreamHeader) : Evolves h [] h
  | cons {h k l : StreamHeader} {hs : List StreamHeader} (hr : Resizes h k)
    (he : Evolves k hs l) : Evolves h (k :: hs) l

theorem Resizes.id_eq (hr : Resizes h k) : k.id = h.id := by
  cases hr
  rfl

theorem Resizes.fourcc_eq (hr : Resizes h k) : k.fourcc = h.fourcc := by
  cases hr
  rfl

theorem Resizes.pixelSize_ne (hr : Resizes h k) : h.pixelSize ≠ k.pixelSize := by
  cases hr with
  | size hf hv hr hw =>
    intro hsame
    simp only [StreamHeader.pixelSize, StreamHeader.video?, hv, Option.map_some,
      Option.some.injEq] at hsame
    exact hw hsame

theorem Resizes.resized (hr : Resizes h k) (hk : Resized k l) : Resized h l := by
  cases hr with
  | size hf hv hr hw =>
    cases hk with
    | same => exact .size hf hv hr
    | size hf' hv' hr' =>
      cases hv'
      exact .size hf hv (hr'.trans hr)

theorem Evolves.resized (he : Evolves h hs k) : Resized h k := by
  induction he with
  | nil => exact .same
  | cons hr _ ih => exact hr.resized ih

theorem Evolves.id_eq (he : Evolves h hs k) : k.id = h.id := by
  induction he with
  | nil => rfl
  | cons hr _ ih => exact ih.trans hr.id_eq

theorem Evolves.fourcc_eq (he : Evolves h hs k) : k.fourcc = h.fourcc := by
  induction he with
  | nil => rfl
  | cons hr _ ih => exact ih.trans hr.fourcc_eq

theorem Evolves.append (he : Evolves h hs k) (hk : Evolves k ks l) : Evolves h (hs ++ ks) l := by
  induction he with
  | nil => exact hk
  | cons hr _ ih => exact .cons hr (ih hk)

/-- Each new header has another size than the one before. -/
theorem Evolves.isChain (he : Evolves h hs k) :
    (h :: hs).IsChain fun a b => a.pixelSize ≠ b.pixelSize := by
  induction he with
  | nil => exact .singleton _
  | cons hr _ ih => exact .cons_cons hr.pixelSize_ne ih

/-- The new headers that a sink is handed. -/
def changes (cs : List SinkCall) : List StreamHeader :=
  cs.filterMap fun
    | .changed h => some h
    | _ => none

/-- The new headers of one stream. -/
def changesOf (id : Nat) (cs : List SinkCall) : List StreamHeader :=
  (changes cs).filter (·.id = id)

@[simp] theorem changes_nil : changes [] = [] := rfl

@[simp] theorem changes_append : changes (cs ++ ds) = changes cs ++ changes ds :=
  List.filterMap_append

@[simp] theorem changes_packets (ps : List Packet) : changes (ps.map .packet) = [] := by
  induction ps with
  | nil => rfl
  | cons p ps ih => exact ih

@[simp] theorem changesOf_append : changesOf id (cs ++ ds) = changesOf id cs ++ changesOf id ds := by
  simp [changesOf]

theorem mem_changes : h ∈ changes cs ↔ .changed h ∈ cs := by
  rw [changes, List.mem_filterMap]
  constructor
  · rintro ⟨c, hc, hh⟩
    cases c with
    | changed k =>
      cases hh
      exact hc
    | packet | headers | flush => cases hh
  · intro hh
    exact ⟨_, hh, rfl⟩

theorem changesOf_self (hs : ∀ c ∈ cs, c.Concerns id) : changesOf id cs = changes cs := by
  refine List.filter_eq_self.2 ?_
  intro k hk
  have : k.id = id := hs _ (mem_changes.1 hk)
  simpa using this

theorem changesOf_other {i : Nat} (hs : ∀ c ∈ cs, c.Concerns i) (hi : i ≠ id) :
    changesOf id cs = [] := by
  refine List.filter_eq_nil_iff.2 ?_
  intro k hk
  have : k.id = i := hs _ (mem_changes.1 hk)
  simpa [this] using hi

/-- A new header is made for another size than the old one has. -/
theorem resizes_resize {size : Nat × Nat} {note : Note} (hf : h.fourcc = "RV40")
    (hr : resize? o h size = some (k, note)) : Resizes h k := by
  rw [resize?] at hr
  split at hr
  · cases hr
  · rename_i v hv
    dsimp only at hr
    split at hr
    · cases hr
    · rename_i hne
      cases hr
      exact .size hf hv rfl hne

theorem changes_video_process (f : VideoFramer) (c : Chunk) :
    changes (calls (f.process c).2) = [] := rfl

theorem deliverFrame_evolves (hf : watched = true → f.header.fourcc = "RV40")
    (last : Option (Nat × Nat)) (frame : Frame) :
    Evolves f.header (changes (calls (deliverFrame o watched f last frame).2.2))
      (deliverFrame o watched f last frame).1.header := by
  rw [deliverFrame]
  generalize hsize : (if watched then newSize? last frame else none) = size
  cases hr : size.bind (resize? o f.header) with
  | none =>
    dsimp only
    rw [List.nil_append, changes_video_process]
    exact .nil f.header
  | some r =>
    obtain ⟨k, note⟩ := r
    obtain ⟨x, hx, hk⟩ := Option.bind_eq_some_iff.1 hr
    have hw : watched = true := by
      by_contra hw
      rw [if_neg hw] at hsize
      rw [hx] at hsize
      cases hsize
    dsimp only
    rw [calls_append, changes_append, changes_video_process]
    exact .cons (resizes_resize (hf hw) hk) (.nil k)

theorem deliverFrames_evolves (hf : watched = true → f.header.fourcc = "RV40")
    (last : Option (Nat × Nat)) (frames : List Frame) :
    Evolves f.header (changes (calls (deliverFrames o watched f last frames).2.2))
      (deliverFrames o watched f last frames).1.header := by
  induction frames generalizing f last with
  | nil => exact .nil f.header
  | cons frame frames ih =>
    have hone := deliverFrame_evolves (o := o) hf last frame
    have hrest := ih (f := (deliverFrame o watched f last frame).1)
      (fun hw => hone.fourcc_eq.trans (hf hw)) (deliverFrame o watched f last frame).2.1
    simp only [deliverFrames, calls_append, changes_append]
    exact hone.append hrest

theorem deliverAac_keeps (g : AacFramer) (time : Int) (frames : List Bytes) :
    (deliverAac g time frames).1.header = g.header ∧
      (deliverAac g time frames).1.config = g.config ∧
      changes (calls (deliverAac g time frames).2) = [] := by
  induction frames generalizing g time with
  | nil => exact ⟨rfl, rfl, rfl⟩
  | cons data frames ih =>
    obtain ⟨hheader, hconfig, hcalls⟩ := ih (g.process { data, time }).1 noTime
    refine ⟨hheader, hconfig, ?_⟩
    simp only [deliverAac, calls_append, changes_append, hcalls, List.append_nil]
    rfl

namespace Track

/-- The size of the picture is watched for RV40 only, and only AAC has a header that is made ready. -/
structure Proper (t : Track) : Prop where
  watched : ∀ f a size, t.route = .video f a true size → f.header.fourcc = "RV40"
  aac : ∀ f, t.route = .aac f → f.header.family = .aac

/-- The header is as it is handed over. -/
def Final (t : Track) : Prop := ∀ f, t.route = .aac f → f.header.codecPrivate = f.config.bytes

/-- A step takes a track to another and lets these outputs out. -/
structure Goes (t : Track) (out : Outputs) (u : Track) : Prop where
  speaks : Speaks t.id out
  evolves : Evolves t.header (changes (calls out)) u.header
  proper : u.Proper
  final : t.Final → u.Final

theorem Goes.id_eq {out : Outputs} {u : Track} (hg : t.Goes out u) : u.id = t.id :=
  hg.evolves.id_eq

/-- A step that leaves the header alone, and the way of the stream. -/
theorem goes_same {out : Outputs} {u : Track} (hs : Speaks t.id out)
    (hc : changes (calls out) = []) (hh : u.header = t.header) (hp : u.Proper)
    (hf : t.Final → u.Final) : t.Goes out u := by
  refine ⟨hs, ?_, hp, hf⟩
  rw [hc, hh]
  exact .nil _

theorem goes_disable {out : Outputs} {u : Track} (hg : t.Goes out u) (lost : Bool) :
    t.Goes out { u with disabled := lost } :=
  ⟨hg.speaks, hg.evolves, ⟨hg.proper.watched, hg.proper.aac⟩, hg.final⟩

theorem goes_video {f g : VideoFramer} {a b : Assembly} {size last : Option (Nat × Nat)}
    {out : Outputs} {lost : Bool} (hp : Proper ⟨.video f a watched size, lost⟩)
    (hs : Speaks f.header.id out) (he : (watched = true → f.header.fourcc = "RV40") →
      Evolves f.header (changes (calls out)) g.header) :
    Goes ⟨.video f a watched size, lost⟩ out ⟨.video g b watched last, lost⟩ := by
  have hwatch : watched = true → f.header.fourcc = "RV40" := by
    rintro rfl
    exact hp.watched _ _ _ rfl
  refine ⟨hs, he hwatch, ⟨?_, by rintro _ ⟨⟩⟩, by rintro _ _ ⟨⟩⟩
  rintro _ _ _ ⟨⟩
  exact (he hwatch).fourcc_eq.trans (hwatch rfl)

/-- Taking a packet changes the header at most in its sizes, and hands each change over. -/
theorem push_goes (hp : t.Proper) (o : Options) (data : Bytes) (time : Int) (key : Bool) :
    t.Goes (t.push o data time key).2.1 (t.push o data time key).1 := by
  have hspeaks := (t.push_stream o data time key).2
  rcases t with ⟨route, lost⟩
  cases route with
  | video f a watched size =>
    refine goes_video hp hspeaks ?_
    intro hw
    simp only [push, calls_append, calls_map_note, List.nil_append]
    exact deliverFrames_evolves hw size _
  | ac3 f =>
    refine goes_same hspeaks ?_ (f.header_process _) ⟨by rintro _ _ _ ⟨⟩, by rintro _ ⟨⟩⟩
      (by rintro _ _ ⟨⟩)
    obtain ⟨ps, hps, -⟩ := f.process_finds { data, time }
    simp only [push, hps]
    exact changes_packets ps
  | aac f =>
    have haac := hp.aac f rfl
    simp only [push] at hspeaks ⊢
    cases hd : Aac.frames data with
    | error e =>
      rw [hd] at hspeaks
      exact goes_same hspeaks rfl rfl hp fun hf => hf
    | ok frames =>
      rw [hd] at hspeaks
      obtain ⟨hheader, hconfig, hout⟩ := deliverAac_keeps f time frames
      refine goes_same hspeaks hout hheader ⟨by rintro _ _ _ ⟨⟩, ?_⟩ ?_
      · rintro _ ⟨⟩
        exact (congrArg _ hheader).trans haac
      · rintro hf _ ⟨⟩
        rw [hheader, hconfig]
        exact hf f rfl
  | plain f held start count =>
    cases held <;> exact goes_same hspeaks rfl rfl ⟨by rintro _ _ _ ⟨⟩, by rintro _ ⟨⟩⟩
      (by rintro _ _ ⟨⟩)

theorem drain_goes (hp : t.Proper) (o : Options) : t.Goes (t.drain o).2 (t.drain o).1 := by
  have hspeaks := (t.drain_stream o).2
  rcases t with ⟨route, lost⟩
  cases route with
  | video f a watched size =>
    refine goes_video hp hspeaks ?_
    intro hw
    simp only [drain, calls_append, calls_map_note, List.nil_append]
    exact deliverFrames_evolves hw size _
  | ac3 f =>
    refine goes_same hspeaks ?_ f.header_flush ⟨by rintro _ _ _ ⟨⟩, by rintro _ ⟨⟩⟩
      (by rintro _ _ ⟨⟩)
    simp only [drain]
    rw [f.calls_flush]
    rfl
  | aac f => exact goes_same hspeaks rfl rfl hp fun hf => hf
  | plain f held start count =>
    cases held <;> exact goes_same hspeaks rfl rfl ⟨by rintro _ _ _ ⟨⟩, by rintro _ ⟨⟩⟩
      (by rintro _ _ ⟨⟩)

theorem take_goes (hp : t.Proper) (o : Options) (h : Container.PacketHeader) (b : Bytes) :
    t.Goes (t.take o h b).2 (t.take o h b).1 := by
  have hpush := push_goes hp o b h.time h.isKey
  rw [take]
  split
  · exact goes_same speaks_nil rfl rfl hp fun hf => hf
  · split <;> rename_i hr <;> rw [hr] at hpush
    · exact hpush
    · exact goes_disable hpush true

theorem close_goes (hp : t.Proper) (o : Options) : t.Goes (t.close o).2 (t.close o).1 := by
  rw [close]
  split
  · exact goes_same speaks_nil rfl rfl hp fun hf => hf
  · exact drain_goes hp o

end Track

end RealMedia
