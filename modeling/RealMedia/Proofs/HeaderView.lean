import RealMedia.Proofs.HeaderChanges
import RealMedia.Proofs.HeaderPlaces
import RealMedia.Proofs.SinkProtocol
import RealMedia.Proofs.TrackSetup

/-!
What a sink holds of the headers is what the demultiplexer says of them, whenever they are asked for,
and nothing is handed over as changed that is not.
-/

namespace RealMedia

open Container

variable {o : Options} {file : Bytes} {hs as bs : List StreamHeader} {h k : StreamHeader}
  {cs : List SinkCall} {q : Inbox} {ts ts₀ us vs : List Track} {t u : Track} {out : Outputs}
  {d e : Demultiplexer}

theorem nodup_eraseDups (l : List Nat) : l.eraseDups.Nodup := by
  induction hlen : l.length using Nat.strongRecOn generalizing l with
  | _ n ih =>
    subst hlen
    cases l with
    | nil => exact .nil
    | cons a l =>
      rw [List.eraseDups_cons, List.nodup_cons]
      refine ⟨?_, ih _ ?_ _ rfl⟩
      · rw [List.mem_eraseDups, List.mem_filter]
        simp
      · exact Nat.lt_succ_of_le (List.length_filter_le _ _)

/-- The order asked for leaves no header out, and has none twice. -/
theorem perm_inOrder (order : List Nat) (hn : (hs.map (·.id)).Nodup) :
    (inOrder order hs).Perm hs := by
  have hall : hs.Nodup := List.Pairwise.of_map _ (fun a b hne he => hne (congrArg _ he)) hn
  have hmem : ∀ h, h ∈ (order.eraseDups.filterMap fun id => hs.find? (·.id = id)) ↔
      h ∈ hs ∧ h.id ∈ order := by
    intro h
    rw [List.mem_filterMap]
    constructor
    · rintro ⟨i, hi, hf⟩
      have hid : h.id = i := by simpa using List.find?_some hf
      exact ⟨List.mem_of_find?_eq_some hf, hid ▸ List.mem_eraseDups.1 hi⟩
    · rintro ⟨hh, ho⟩
      exact ⟨h.id, List.mem_eraseDups.2 ho, find?_of_nodup (·.id) hn hh⟩
  rw [inOrder_eq order hn, List.perm_ext_iff_of_nodup ?_ hall]
  · intro h
    rw [List.mem_append, hmem, List.mem_filter]
    by_cases ho : h.id ∈ order <;> simp [ho]
  · rw [List.nodup_append]
    refine ⟨?_, hall.filter _, ?_⟩
    · refine List.Pairwise.filterMap _ ?_ (nodup_eraseDups order)
      intro i j hij h hi k hj hk
      subst hk
      have hi' : h.id = i := by simpa using List.find?_some hi
      have hj' : h.id = j := by simpa using List.find?_some hj
      exact hij (hi'.symm.trans hj')
    · rintro h hh k hk rfl
      have ho := ((hmem h).1 hh).2
      simp [ho] at hk

/-! ## One stream -/

/-- A header takes the place of the only one of its stream. -/
theorem replace_middle (hn : ((as ++ h :: bs).map (·.id)).Nodup) (hk : k.id = h.id) :
    Inbox.replace k (as ++ h :: bs) = as ++ k :: bs := by
  induction as with
  | nil => rw [List.nil_append, Inbox.replace, if_pos hk.symm, List.nil_append]
  | cons a as ih =>
    rw [List.cons_append, List.map_cons, List.nodup_cons] at hn
    have hne : a.id ≠ k.id := by
      intro he
      exact hn.1 (by simp [he, hk])
    rw [List.cons_append, Inbox.replace, if_neg hne, ih hn.2, List.cons_append]

/-- It does so wherever that one stands. -/
theorem perm_replace (hn : ((as ++ h :: bs).map (·.id)).Nodup) (hk : k.id = h.id)
    (hp : hs.Perm (as ++ h :: bs)) : (Inbox.replace k hs).Perm (as ++ k :: bs) := by
  obtain ⟨as', bs', rfl⟩ := List.append_of_mem (hp.mem_iff.2 (by simp : h ∈ as ++ h :: bs))
  have hn' := (hp.map (·.id)).nodup_iff.2 hn
  rw [replace_middle hn' hk]
  have hrest : (as' ++ bs').Perm (as ++ bs) :=
    ((List.perm_middle.symm.trans hp).trans List.perm_middle).cons_inv
  exact List.perm_middle.trans ((hrest.cons k).trans List.perm_middle.symm)

/-- A sink that holds the header of a stream holds the last one after the calls for the stream. -/
theorem receiveAll_evolves (hn : ((as ++ h :: bs).map (·.id)).Nodup)
    (hp : q.headers.Perm (as ++ h :: bs)) (hs : ∀ c ∈ cs, c.Concerns h.id)
    (he : Evolves h (changes cs) k) : (q.receiveAll cs).headers.Perm (as ++ k :: bs) := by
  induction cs generalizing q h with
  | nil =>
    cases he
    exact hp
  | cons c cs ih =>
    have hc := hs c (by simp)
    have hcs : ∀ c ∈ cs, c.Concerns h.id := fun c hmem => hs c (by simp [hmem])
    rw [Inbox.receiveAll, List.foldl_cons]
    cases c with
    | packet p => exact ih hn hp hcs he
    | changed x =>
      cases he with
      | cons hr he =>
        have hid := hr.id_eq
        have hn' : ((as ++ x :: bs).map (·.id)).Nodup := by
          rw [List.map_append, List.map_cons, hid]
          rwa [List.map_append, List.map_cons] at hn
        exact ih hn' (perm_replace hn hid hp) (fun c hmem => hid ▸ hcs c hmem) he
    | headers | flush => exact hc.elim

/-! ## All tracks -/

namespace Track

/-- A header that is as it is handed over need not be made ready. -/
theorem finalize_of_final (hf : t.Final) : t.finalize = t := by
  rcases t with ⟨route, lost⟩
  cases route with
  | aac f =>
    have hcodec := hf f rfl
    simp only [finalize, AacFramer.finalize, ← hcodec]
  | video | ac3 | plain => rfl

theorem final_finalize (t : Track) : t.finalize.Final := by
  rcases t with ⟨route, lost⟩
  cases route with
  | aac f =>
    rintro _ ⟨⟩
    rfl
  | video | ac3 | plain => rintro _ ⟨⟩

theorem proper_finalize (hp : t.Proper) : t.finalize.Proper := by
  rcases t with ⟨route, lost⟩
  cases route with
  | aac f =>
    refine ⟨by rintro _ _ _ ⟨⟩, ?_⟩
    rintro _ ⟨⟩
    exact hp.aac f rfl
  | video | ac3 | plain => exact hp

end Track

theorem distinct_middle (hd : Distinct (us ++ t :: vs)) :
    ∀ s ∈ us ++ vs, s.id ≠ t.id := by
  have hn := (List.perm_middle.map Track.id).nodup_iff.1 hd
  rw [List.map_cons, List.nodup_cons] at hn
  intro s hs he
  exact hn.1 (he ▸ List.mem_map_of_mem hs)

/-- What a sink holds after some calls are the headers of the tracks, and these have come from the
ones that were handed over first through the new headers of their streams. -/
structure View (ts₀ : List Track) (cs : List SinkCall) (ts : List Track) : Prop where
  distinct : Distinct ts
  ready : ∀ t ∈ ts, t.Proper ∧ t.Final
  ids : ts.map (·.id) = ts₀.map (·.id)
  held : (Inbox.receiveAll {} cs).headers.Perm (ts.map (·.header))
  known : ∀ h ∈ changes cs, h.id ∈ ts₀.map (·.id)
  evolved : ∀ s ∈ ts₀, ∀ t ∈ ts, t.id = s.id → Evolves s.header (changesOf s.id cs) t.header

/-- A track that goes on takes the view with it. -/
theorem View.goes (hv : View ts₀ cs (us ++ t :: vs)) (hg : t.Goes out u) :
    View ts₀ (cs ++ calls out) (us ++ u :: vs) := by
  have hids : (us ++ u :: vs).map (·.id) = (us ++ t :: vs).map (·.id) := by
    rw [List.map_append, List.map_append, List.map_cons, List.map_cons, hg.id_eq]
  refine ⟨?_, ?_, hids.trans hv.ids, ?_, ?_, ?_⟩
  · rw [Distinct, hids]
    exact hv.distinct
  · intro v hmem
    rcases List.mem_append.1 hmem with hmem | hmem
    · exact hv.ready v (by simp [hmem])
    rcases List.mem_cons.1 hmem with rfl | hmem
    · exact ⟨hg.proper, hg.final (hv.ready t (by simp)).2⟩
    · exact hv.ready v (by simp [hmem])
  · have hheld := hv.held
    rw [List.map_append, List.map_cons] at hheld ⊢
    rw [Inbox.receiveAll, List.foldl_append]
    refine receiveAll_evolves ?_ hheld hg.speaks hg.evolves
    have hdist := hv.distinct
    rw [Distinct, List.map_append, List.map_cons] at hdist
    rw [List.map_append, List.map_cons, List.map_map, List.map_map]
    exact hdist
  · intro h hh
    rw [changes_append, List.mem_append] at hh
    rcases hh with hh | hh
    · exact hv.known h hh
    · have hid : h.id = t.id := hg.speaks _ (mem_changes.1 hh)
      rw [hid, ← hv.ids]
      exact List.mem_map_of_mem (by simp)
  · intro s hs v hmem hid
    have hother : ∀ v ∈ us ++ vs, v.id = s.id →
        Evolves s.header (changesOf s.id (cs ++ calls out)) v.header := by
      intro v hmem hid
      have hne := distinct_middle hv.distinct v hmem
      rw [changesOf_append, changesOf_other hg.speaks (fun he => hne (hid.trans he.symm)),
        List.append_nil]
      exact hv.evolved s hs v (by
        rcases List.mem_append.1 hmem with hmem | hmem <;> simp [hmem]) hid
    rcases List.mem_append.1 hmem with hmem | hmem
    · exact hother v (by simp [hmem]) hid
    rcases List.mem_cons.1 hmem with rfl | hmem
    · have hsame : t.id = s.id := hg.id_eq.symm.trans hid
      have hspeaks := hg.speaks
      rw [hsame] at hspeaks
      rw [changesOf_append, changesOf_self hspeaks]
      exact (hv.evolved s hs t (by simp) hsame).append hg.evolves
    · exact hother v (by simp [hmem]) hid

theorem View.flush (hv : View ts₀ cs ts) : View ts₀ (cs ++ [.flush]) ts := by
  refine ⟨hv.distinct, hv.ready, hv.ids, ?_, ?_, ?_⟩
  · rw [Inbox.receiveAll, List.foldl_append]
    exact hv.held
  · rw [changes_append]
    simpa [changes] using hv.known
  · intro s hs t ht hid
    rw [changesOf_append]
    exact (hv.evolved s hs t ht hid).append (.nil _)

/-- Handing the headers over again shows them as they are. -/
theorem View.headers (hv : View ts₀ cs ts) (order : List Nat) :
    View ts₀ (cs ++ [.headers (inOrder order ((ts.map (·.finalize)).map (·.header)))])
      (ts.map (·.finalize)) := by
  have hsame : ts.map (·.finalize) = ts := by
    refine (List.map_congr_left ?_).trans (List.map_id ts)
    intro t ht
    exact Track.finalize_of_final (hv.ready t ht).2
  rw [hsame]
  refine ⟨hv.distinct, hv.ready, hv.ids, ?_, ?_, ?_⟩
  · rw [Inbox.receiveAll, List.foldl_append]
    refine perm_inOrder order ?_
    rw [List.map_map]
    exact hv.distinct
  · rw [changes_append]
    simpa [changes] using hv.known
  · intro s hs t ht hid
    rw [changesOf_append]
    exact (hv.evolved s hs t ht hid).append (.nil _)

/-- Handing the headers over for the first time begins the view. -/
theorem view_first (hd : Distinct ts) (hp : ∀ t ∈ ts, t.Proper) (order : List Nat) :
    View (ts.map (·.finalize))
      [.headers (inOrder order ((ts.map (·.finalize)).map (·.header)))] (ts.map (·.finalize)) := by
  have hd' : Distinct (ts.map (·.finalize)) := (distinct_map id_finalize).2 hd
  refine ⟨hd', ?_, rfl, ?_, by rintro h ⟨⟩, ?_⟩
  · intro t ht
    obtain ⟨s, hs, rfl⟩ := List.mem_map.1 ht
    exact ⟨Track.proper_finalize (hp s hs), s.final_finalize⟩
  · refine perm_inOrder order ?_
    rw [List.map_map]
    exact hd'
  · intro s hs t ht hid
    have hfind := find?_of_mem hd' hs
    rw [← hid, find?_of_mem hd' ht] at hfind
    cases hfind
    exact .nil _

theorem View.drainAll (hv : View ts₀ cs (us ++ ts)) (o : Options) :
    View ts₀ (cs ++ calls (drainAll o ts).2) (us ++ (drainAll o ts).1) := by
  induction ts generalizing us cs with
  | nil => simpa [RealMedia.drainAll] using hv
  | cons t ts ih =>
    have hone := hv.goes (Track.close_goes (hv.ready t (by simp)).1 o)
    rw [List.append_cons] at hone
    have hrest := ih hone
    rw [drainAll_cons, calls_append, ← List.append_assoc]
    rwa [← List.append_cons] at hrest

/-- The end of the input closes all tracks and is told last. -/
theorem View.finish (hv : View ts₀ cs ts) (o : Options) :
    View ts₀ (cs ++ calls ((RealMedia.drainAll o ts).2 ++ [.call .flush]))
      (RealMedia.drainAll o ts).1 := by
  have hall : View ts₀ cs ([] ++ ts) := hv
  rw [calls_append, ← List.append_assoc]
  exact (hall.drainAll o).flush

namespace Demultiplexer

theorem map_updated (hd : Distinct (us ++ t :: vs)) (hen : t.disabled = false)
    (hid : u.id = t.id) : (us ++ t :: vs).map (updated u) = us ++ u :: vs := by
  have hkeep : ∀ s ∈ us ++ vs, updated u s = s := by
    intro s hs
    have hne := distinct_middle hd s hs
    rw [updated, hid, if_neg (by simp [hne])]
  rw [List.map_append, List.map_cons, List.map_congr_left (g := id), List.map_id,
    List.map_congr_left (g := id) (l := vs), List.map_id]
  · simp [updated, hid, hen]
  · intro s hs
    exact hkeep s (by simp [hs])
  · intro s hs
    exact hkeep s (by simp [hs])

/-- The sink has had the headers, and its view is the one of the tracks. -/
structure Shows (ts₀ : List Track) (cs : List SinkCall) (d : Demultiplexer) : Prop where
  announced : d.announced = true
  view : View ts₀ cs d.tracks

/-- A step that leaves the tracks alone and calls nobody leaves the view alone. -/
theorem Shows.quiet {r : Outcome} (hs : Shows ts₀ cs d) (ha : r.1.announced = d.announced)
    (ht : r.1.tracks = d.tracks) (hout : calls r.2.1 = []) : Shows ts₀ (cs ++ calls r.2.1) r.1 := by
  rw [hout, List.append_nil]
  exact ⟨ha.trans hs.announced, ht ▸ hs.view⟩

theorem Shows.finish (hs : Shows ts₀ cs d) : Shows ts₀ (cs ++ calls d.finish.2) d.finish.1 := by
  rw [Demultiplexer.finish]
  split
  · rw [calls_nil, List.append_nil]
    exact hs
  · rw [ensureAnnounced, if_pos hs.announced]
    refine ⟨hs.announced, ?_⟩
    exact hs.view.finish d.options

theorem Shows.finishAfter (hs : Shows ts₀ cs d) (ha : e.announced = d.announced)
    (ht : e.tracks = d.tracks) (hout : calls out = []) :
    Shows ts₀ (cs ++ calls (e.finishAfter out).2.1) (e.finishAfter out).1 := by
  have he : Shows ts₀ cs e := ⟨ha.trans hs.announced, ht ▸ hs.view⟩
  rw [Demultiplexer.finishAfter, calls_append, hout]
  exact he.finish

/-- A packet that is routed changes the view of its stream alone. -/
theorem Shows.route {h : PacketHeader} (hs : Shows ts₀ cs d) (ht : d.taker? h = some t)
    (b : Bytes) : Shows ts₀ (cs ++ calls (d.route t h b).2.1) (d.route t h b).1 := by
  have hen := (enabled_of_taker? ht).2
  obtain ⟨us, vs, htracks⟩ := List.append_of_mem (List.mem_of_find?_eq_some ht)
  obtain ⟨hstate, hcalls, -⟩ := d.route_take hen h b
  have hview := hs.view
  rw [htracks] at hview
  have hgoes := Track.take_goes (hview.ready t (by simp)).1 d.options h b
  have hupdate : (d.update (t.take d.options h b).1).tracks =
      us ++ (t.take d.options h b).1 :: vs := by
    change d.tracks.map (updated _) = _
    rw [htracks]
    exact map_updated hview.distinct hen hgoes.id_eq
  rw [hstate, hcalls]
  refine ⟨hs.announced, ?_⟩
  rw [hupdate]
  exact hview.goes hgoes

theorem Reads.shows {r : Outcome} (hr : Reads d r) (hs : Shows ts₀ cs d) :
    Shows ts₀ (cs ++ calls r.2.1) r.1 := by
  cases hr with
  | short => exact hs.finishAfter rfl rfl rfl
  | step _ _ hr =>
    cases hr with
    | noObject => exact hs.quiet rfl rfl rfl
    | noHeader => exact hs.quiet rfl rfl rfl
    | next => exact hs.quiet rfl rfl rfl
    | other => exact hs.finishAfter rfl rfl rfl
  | packet _ _ hr =>
    cases hr with
    | noHeader => exact hs.quiet rfl rfl rfl
    | undersized => exact hs.finishAfter rfl rfl rfl
    | skipped => exact hs.quiet rfl rfl rfl
    | truncated => exact hs.finishAfter rfl rfl rfl
    | @routed h s u n t b _ _ ht =>
      have hbehind : Shows ts₀ cs (d.behindHeader u) := ⟨hs.announced, hs.view⟩
      exact hbehind.route ht b

/-- What may be asked of an open file, also to hand the headers over again. -/
inductive Request
  | announce
  | act (a : Action)

def answer (d : Demultiplexer) : Request → Demultiplexer × Outputs
  | .announce => d.announce
  | .act a => ((d.act a).1, (d.act a).2.1)

/-- The state after several requests, and everything they let out. -/
def serve (d : Demultiplexer) : List Request → Demultiplexer × Outputs
  | [] => (d, [])
  | r :: rs =>
    let (e, out) := d.answer r
    let (f, more) := e.serve rs
    (f, out ++ more)

/-- Either the sink has had nothing yet, or it shows the tracks. -/
inductive Agrees (ts : List Track) (d : Demultiplexer) : List SinkCall → Prop
  | before (ha : d.announced = false) (ht : d.tracks = ts) : Agrees ts d []
  | after {cs : List SinkCall} (hs : Shows (ts.map (·.finalize)) cs d) : Agrees ts d cs

theorem Agrees.shows {c : SinkCall} (ha : Agrees ts d cs) (hc : c ∈ cs) :
    Shows (ts.map (·.finalize)) cs d := by
  cases ha with
  | before => cases hc
  | after hs => exact hs

section

variable (hd : Distinct ts) (hp : ∀ t ∈ ts, t.Proper)

include hd hp

theorem Agrees.announce (ha : Agrees ts d cs) :
    Shows (ts.map (·.finalize)) (cs ++ calls d.announce.2) d.announce.1 := by
  cases ha with
  | before _ ht =>
    subst ht
    exact ⟨rfl, view_first hd hp d.options.order⟩
  | after hs => exact ⟨rfl, hs.view.headers d.options.order⟩

theorem Agrees.ensureAnnounced (ha : Agrees ts d cs) :
    Shows (ts.map (·.finalize)) (cs ++ calls d.ensureAnnounced.2) d.ensureAnnounced.1 := by
  rw [Demultiplexer.ensureAnnounced]
  split
  · rename_i hann
    cases ha with
    | before hnot => rw [hann] at hnot; cases hnot
    | after hs => simpa using hs
  · exact ha.announce hd hp

theorem Agrees.finish (ha : Agrees ts d cs) : Agrees ts d.finish.1 (cs ++ calls d.finish.2) := by
  by_cases hdone : d.done = true
  · rw [Demultiplexer.finish, if_pos hdone]
    simpa using ha
  · have hnow := ha.ensureAnnounced hd hp
    have hview := hnow.view.finish d.ensureAnnounced.1.options
    rw [List.append_assoc, ← calls_append, ← List.append_assoc] at hview
    rw [Demultiplexer.finish, if_neg hdone]
    exact .after ⟨hnow.announced, hview⟩

theorem Agrees.read (ha : Agrees ts d cs) : Agrees ts d.read.1 (cs ++ calls d.read.2.1) := by
  rw [Demultiplexer.read]
  by_cases hdone : d.done = true
  · rw [if_pos hdone]
    simpa using ha
  rw [if_neg hdone]
  have hnext := (reads_readNext d.ensureAnnounced.1).shows (ha.ensureAnnounced hd hp)
  dsimp only
  split
  · rename_i e out fault hr
    rw [hr] at hnext
    have hfinish := hnext.finish
    refine .after ?_
    simpa [Demultiplexer.finishAfter] using hfinish
  · rename_i e out x hx hr
    rw [hr] at hnext
    refine .after ?_
    simpa using hnext

theorem Agrees.serve (ha : Agrees ts d cs) (rs : List Request) :
    Agrees ts (d.serve rs).1 (cs ++ calls (d.serve rs).2) := by
  induction rs generalizing d cs with
  | nil => simpa [Demultiplexer.serve] using ha
  | cons r rs ih =>
    have hone : Agrees ts (d.answer r).1 (cs ++ calls (d.answer r).2) := by
      cases r with
      | announce => exact .after (ha.announce hd hp)
      | act a =>
        cases a with
        | read => exact ha.read hd hp
        | finish => exact ha.finish hd hp
    have hrest := ih hone
    rw [Demultiplexer.serve, calls_append, ← List.append_assoc]
    exact hrest

end

theorem proper_trackOf {m : MediaHeader} (ht : (trackOf o m).1 = some t) : t.Proper := by
  have hname : ∀ f : FourCC, f.bytes = ascii "RV40" → f.text = "RV40" := by
    intro f hf
    rw [FourCC.text, hf]
    decide
  cases setUp_trackOf ht with
  | video v =>
    refine ⟨?_, by rintro _ ⟨⟩⟩
    intro f a size hr
    obtain ⟨rfl, -, hwatched, -⟩ := Route.video.inj hr
    exact hname _ (of_decide_eq_true hwatched)
  | aac a =>
    refine ⟨by rintro _ _ _ ⟨⟩, ?_⟩
    rintro _ ⟨⟩
    rfl
  | ac3 | plain => exact ⟨by rintro _ _ _ ⟨⟩, by rintro _ ⟨⟩⟩

/-- An open file has one track of each stream, and each is set up properly. -/
theorem tracks_opened (ho : (ofBytes o file).1 = .ok d) :
    Distinct d.tracks ∧ ∀ t ∈ d.tracks, t.Proper := by
  constructor
  · refine tracks_ofBytes (fun hs m hd => distinct_addMedia hd m) ?_ .nil ho
    intro versions ts hd
    rwa [nameVersions_eq, distinct_map (id_named versions)]
  · refine forall_tracks_ofBytes (fun m t ht => proper_trackOf ht) ?_ ho
    intro f g lost _
    exact ⟨by rintro _ _ _ ⟨⟩, by rintro _ ⟨⟩⟩

theorem agrees_serve (ho : (ofBytes o file).1 = .ok d) (rs : List Request) :
    Agrees d.tracks (d.serve rs).1 (calls (d.serve rs).2) := by
  obtain ⟨hdist, hproper⟩ := tracks_opened ho
  have hbefore : Agrees d.tracks d [] := by
    obtain ⟨-, f, t, xs, h, s, hs, -, -, -, rfl⟩ := ofBytes_eq_ok.1 ho
    exact .before rfl rfl
  exact hbefore.serve hdist hproper rs

/-- Once the headers have been handed over, the sink has a view of the tracks. -/
theorem view_served (ho : (ofBytes o file).1 = .ok d) (rs : List Request)
    (hh : ∃ hs, .headers hs ∈ calls (d.serve rs).2) :
    View (d.tracks.map (·.finalize)) (calls (d.serve rs).2) (d.serve rs).1.tracks := by
  obtain ⟨hs, hmem⟩ := hh
  exact ((agrees_serve ho rs).shows hmem).view

/-- The codec record that the header of an AAC stream gets when it is handed over. -/
inductive Readied (h : StreamHeader) : StreamHeader → Prop
  | same : Readied h h
  | codec (hf : h.family = .aac) (record : Bytes) : Readied h { h with codecPrivate := record }

theorem readied_finalize (hp : t.Proper) : Readied t.header t.finalize.header := by
  rcases t with ⟨route, lost⟩
  cases route with
  | aac f => exact .codec (hp.aac f rfl) f.config.bytes
  | video | ac3 | plain => exact .same

/-- Whenever it has been handed the headers, a sink that keeps them has one of each stream, and it is
the one that the demultiplexer tells. When the headers are first handed over, AAC streams get their
codec records; after that nothing changes but the sizes of RV40 pictures, and a stream is handed over
as changed only if its pixel size is another than the last time. -/
theorem sink_view (ho : (ofBytes o file).1 = .ok d) (rs : List Request)
    (hh : ∃ hs, .headers hs ∈ calls (d.serve rs).2) :
    let e := (d.serve rs).1
    let cs := calls (d.serve rs).2
    let held := (Inbox.receiveAll {} cs).headers
    (held.map (·.id)).Nodup ∧ held.Perm e.streams ∧
      e.streams.map (·.id) = d.streams.map (·.id) ∧
      (∀ h ∈ d.streams, ∀ k ∈ d.announce.1.streams, k.id = h.id → Readied h k) ∧
      (∀ h ∈ d.announce.1.streams, ∀ k ∈ e.streams, k.id = h.id → Resized h k) ∧
      ∀ id, (changesOf id cs).IsChain fun a b => a.pixelSize ≠ b.pixelSize := by
  intro e cs held
  obtain ⟨hdist, hproper⟩ := tracks_opened ho
  have hview : View (d.tracks.map (·.finalize)) cs e.tracks := view_served ho rs hh
  have hfirst : ∀ h ∈ d.announce.1.streams, ∃ t ∈ d.tracks, t.finalize.header = h := by
    intro h hh
    obtain ⟨u, hu, rfl⟩ := List.mem_map.1 hh
    obtain ⟨t, ht, rfl⟩ := List.mem_map.1 hu
    exact ⟨t, ht, rfl⟩
  have hids : e.streams.map (·.id) = e.tracks.map (·.id) := List.map_map ..
  refine ⟨?_, hview.held, ?_, ?_, ?_, ?_⟩
  · rw [(hview.held.map _).nodup_iff]
    exact hids ▸ hview.distinct
  · rw [hids, hview.ids, List.map_map, streams, List.map_map]
    exact List.map_congr_left fun t _ => id_finalize t
  · intro h hh k hk hid
    obtain ⟨s, hs, rfl⟩ := List.mem_map.1 hh
    obtain ⟨t, ht, rfl⟩ := hfirst k hk
    have hsame : t.id = s.id := (id_finalize t).symm.trans hid
    have hfind := find?_of_mem hdist hs
    rw [← hsame, find?_of_mem hdist ht] at hfind
    cases hfind
    exact readied_finalize (hproper s hs)
  · intro h hh k hk hid
    obtain ⟨s, hs, rfl⟩ := hfirst h hh
    obtain ⟨t, ht, rfl⟩ := List.mem_map.1 hk
    exact (hview.evolved _ (List.mem_map_of_mem hs) t ht hid).resized
  · intro id
    by_cases hnone : changesOf id cs = []
    · rw [hnone]
      exact .nil
    · obtain ⟨h, hh⟩ := List.exists_mem_of_ne_nil _ hnone
      obtain ⟨hh, hid⟩ := List.mem_filter.1 hh
      obtain ⟨s, hs, hsid⟩ := List.mem_map.1 (hview.known h hh)
      obtain ⟨t, ht, htid⟩ := List.mem_map.1 (hview.ids ▸ hview.known h hh)
      have hsame : s.id = id := hsid.trans (by simpa using hid)
      have hchain := (hview.evolved s hs t ht (htid.trans hsid.symm)).isChain
      rw [hsame] at hchain
      exact hchain.of_cons

/-- Pictures of two sizes, neither of which is the one described, and a stream of AAC. -/
def clip : List Draft.Step :=
  [.video 1 ⟨0x52, 0x56, 0x34, 0x30⟩ 320 240 25,
    .audio5 2 ⟨0x72, 0x61, 0x61, 0x63⟩ 44100 2 [0, 0, 0, 3, 0, 0x12, 0x10],
    .packet 1 0 true [0x40, 0, 0, 0, 0, 0], .packet 2 0 true [0, 0x10, 0, 1, 7],
    .packet 1 40 true [0x40, 1, 0, 0, 0, 9]]

theorem sound_clip : Draft.Sound clip := by
  refine ⟨?_, by decide⟩
  intro s hs
  simp only [clip, List.mem_cons, List.not_mem_nil, or_false] at hs
  rcases hs with rfl | rfl | rfl | rfl | rfl
  · rintro m ⟨⟩
    exact Draft.fits_description (by decide) (by decide)
  · rintro m ⟨⟩
    exact Draft.fits_description (by decide) (by decide)
  all_goals rintro m ⟨⟩

/-- The headers are handed over twice, with packets read behind each time. -/
def viewing : List Request :=
  [.announce, .act .read, .act .read, .announce, .act .read, .act .finish]

/-- The AAC stream has its record when the headers are first handed over, and each size comes as a
change. -/
theorem sink_view_clip : ∃ d, (ofBytes {} (Draft.file clip)).1 = .ok d ∧
    let e := (d.serve viewing).1
    let cs := calls (d.serve viewing).2
    let held := (Inbox.receiveAll {} cs).headers
    ((changesOf 1 cs).map (·.pixelSize) = [some (160, 120), some (176, 132)] ∧
      d.streams[1]?.map (·.codecPrivate) = some [] ∧
      d.announce.1.streams[1]?.map (·.codecPrivate) = some [0x12, 0x10]) ∧
    (∃ hs, .headers hs ∈ cs) ∧
    (held.map (·.id)).Nodup ∧ held.Perm e.streams ∧
      e.streams.map (·.id) = d.streams.map (·.id) ∧
      (∀ h ∈ d.streams, ∀ k ∈ d.announce.1.streams, k.id = h.id → Readied h k) ∧
      (∀ h ∈ d.announce.1.streams, ∀ k ∈ e.streams, k.id = h.id → Resized h k) ∧
      ∀ id, (changesOf id cs).IsChain fun a b => a.pixelSize ≠ b.pixelSize := by
  obtain ⟨d, hd, -⟩ := opens_file sound_clip {}
  have hchanges : ((ofBytes {} (Draft.file clip)).1.toOption.map fun d =>
      ((changesOf 1 (calls (d.serve viewing).2)).map (·.pixelSize),
        d.streams[1]?.map (·.codecPrivate), d.announce.1.streams[1]?.map (·.codecPrivate))) =
      some ([some (160, 120), some (176, 132)], some [], some [0x12, 0x10]) := by
    decide +kernel
  rw [hd, Except.toOption, Option.map_some, Option.some.injEq, Prod.mk.injEq,
    Prod.mk.injEq] at hchanges
  have hheaders : ∃ hs, .headers hs ∈ calls (d.serve viewing).2 := ⟨_, List.mem_cons_self⟩
  exact ⟨d, hd, hchanges, hheaders, sink_view hd viewing hheaders⟩

end Demultiplexer

end RealMedia
