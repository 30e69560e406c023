import RealMedia.Proofs.ReadSteps
import RealMedia.Proofs.TrackOutputs

/-! A demultiplexer seen from one stream: what its track takes, and what it hands out. -/

namespace RealMedia

open Container

variable {o : Options} {t : Track} {id i : Nat} {h : PacketHeader} {out : Outputs}
  {d : Demultiplexer}

/-- The packets of one stream. -/
def ofStream (id : Nat) (out : Outputs) : List Packet := (packets out).filter (·.stream = id)

@[simp] theorem ofStream_append (a b : Outputs) :
    ofStream id (a ++ b) = ofStream id a ++ ofStream id b := by
  simp [ofStream]

@[simp] theorem ofStream_nil : ofStream id [] = [] := rfl

theorem mem_packets {p : Packet} : p ∈ packets out ↔ .packet p ∈ calls out := by
  rw [packets, List.mem_filterMap]
  constructor
  · rintro ⟨c, hc, hp⟩
    cases c with
    | packet q =>
      cases hp
      exact hc
    | headers | changed | flush => cases hp
  · intro hp
    exact ⟨_, hp, rfl⟩

theorem ofStream_self (hs : Speaks id out) : ofStream id out = packets out := by
  refine List.filter_eq_self.2 ?_
  intro p hp
  have : p.stream = id := hs _ (mem_packets.1 hp)
  simpa using this

theorem ofStream_other (hs : Speaks i out) (hi : i ≠ id) : ofStream id out = [] := by
  refine List.filter_eq_nil_iff.2 ?_
  intro p hp
  have : p.stream = i := hs _ (mem_packets.1 hp)
  simpa [this] using hi

namespace Track

/-- Take a packet, unless the stream is lost. -/
def take (o : Options) (t : Track) (h : PacketHeader) (payload : Bytes) : Track × Outputs :=
  if t.disabled then (t, [])
  else
    match t.push o payload h.time h.isKey with
    | (u, out, none) => (u, out)
    | (u, out, some _) => ({ u with disabled := true }, out)

/-- Hand out what is kept, unless the stream is lost. -/
def close (o : Options) (t : Track) : Track × Outputs := if t.disabled then (t, []) else t.drain o

theorem take_stream (o : Options) (t : Track) (h : PacketHeader) (b : Bytes) :
    (t.take o h b).1.id = t.id ∧ Speaks t.id (t.take o h b).2 := by
  have hpush := t.push_stream o b h.time h.isKey
  rw [take]
  split
  · exact ⟨rfl, speaks_nil⟩
  · split <;> rename_i hp <;> rw [hp] at hpush <;> exact hpush

theorem close_stream (o : Options) (t : Track) :
    (t.close o).1.id = t.id ∧ Speaks t.id (t.close o).2 := by
  rw [close]
  split
  · exact ⟨rfl, speaks_nil⟩
  · exact t.drain_stream o

theorem settled_close (hd : (t.close o).1.disabled = false) : (t.close o).1.Settled := by
  by_cases ht : t.disabled = true
  · rw [close, if_pos ht, ht] at hd
    cases hd
  · rw [close, if_neg ht]
    exact t.settled_drain o

end Track

theorem drainAll_cons (o : Options) (t : Track) (ts : List Track) :
    drainAll o (t :: ts) =
      ((t.close o).1 :: (drainAll o ts).1, (t.close o).2 ++ (drainAll o ts).2) := rfl

theorem ids_drainAll (o : Options) (ts : List Track) :
    (drainAll o ts).1.map (·.id) = ts.map (·.id) := by
  induction ts with
  | nil => rfl
  | cons t ts ih => rw [drainAll_cons, List.map_cons, List.map_cons, ih, (t.close_stream o).1]

/-- Each track has an id of its own. -/
def Distinct (ts : List Track) : Prop := (ts.map (·.id)).Nodup

theorem distinct_cons {ts : List Track} :
    Distinct (t :: ts) ↔ (∀ s ∈ ts, s.id ≠ t.id) ∧ Distinct ts := by
  simp [Distinct]

/-- An element is found by a key that no other has. -/
theorem find?_of_nodup {α : Type} (key : α → Nat) {l : List α} {a : α} (hn : (l.map key).Nodup)
    (ha : a ∈ l) : l.find? (key · = key a) = some a := by
  induction l with
  | nil => cases ha
  | cons b l ih =>
    rw [List.map_cons, List.nodup_cons] at hn
    rcases List.mem_cons.1 ha with rfl | ha
    · simp
    · have hne : key b ≠ key a := by
        intro he
        exact hn.1 (he ▸ List.mem_map_of_mem ha)
      rw [List.find?_cons_of_neg (by simpa using hne)]
      exact ih hn.2 ha

theorem find?_of_mem {ts : List Track} (hd : Distinct ts) (ht : t ∈ ts) :
    ts.find? (·.id = t.id) = some t := find?_of_nodup Track.id hd ht

/-- A track is found in a list by its id, whatever is done to all tracks that keeps their ids. -/
theorem find?_map_id {g : Track → Track} (hg : ∀ t, (g t).id = t.id) (ts : List Track) (id : Nat) :
    (ts.map g).find? (·.id = id) = (ts.find? (·.id = id)).map g := by
  have hid : ((fun t : Track => decide (t.id = id)) ∘ g) = fun t => decide (t.id = id) := by
    funext t
    simp only [Function.comp_apply, hg]
  rw [List.find?_map, hid]

theorem distinct_map {g : Track → Track} {ts : List Track} (hg : ∀ t, (g t).id = t.id) :
    Distinct (ts.map g) ↔ Distinct ts := by
  have hid : (fun t : Track => t.id) ∘ g = fun t => t.id := funext hg
  rw [Distinct, List.map_map, hid, Distinct]

/-- Seen from one stream, draining all tracks is draining its own. -/
theorem drainAll_view {ts : List Track} (hd : Distinct ts) (id : Nat) :
    (drainAll o ts).1.find? (·.id = id) =
        (ts.find? (·.id = id)).map (fun t => (t.close o).1) ∧
      ofStream id (drainAll o ts).2 =
        (ts.find? (·.id = id)).toList.flatMap fun t => packets (t.close o).2 := by
  induction ts with
  | nil => exact ⟨rfl, rfl⟩
  | cons t ts ih =>
    obtain ⟨hid, hspeaks⟩ := t.close_stream o
    obtain ⟨hs, hts⟩ := distinct_cons.1 hd
    obtain ⟨hfind, hout⟩ := ih hts
    rw [drainAll_cons, ofStream_append]
    by_cases ht : t.id = id
    · have hnone : ts.find? (·.id = id) = none := by
        refine List.find?_eq_none.2 ?_
        intro s hmem
        simpa [ht] using hs s hmem
      rw [hnone] at hout
      rw [List.find?_cons_of_pos (by simp [hid, ht]), List.find?_cons_of_pos (by simpa using ht),
        hout, ← ht, ofStream_self hspeaks]
      simp
    · rw [List.find?_cons_of_neg (by simp [hid, ht]), List.find?_cons_of_neg (by simpa using ht),
        ofStream_other hspeaks ht]
      exact ⟨hfind, hout⟩

namespace Demultiplexer

theorem id_of_track? (ht : d.track? id = some t) : t.id = id := by
  simpa using List.find?_some ht

/-- The track that an update puts in the place of another. -/
def updated (u t : Track) : Track := if t.id = u.id && !t.disabled then u else t

theorem id_updated (u t : Track) : (updated u t).id = t.id := by
  rw [updated]
  split
  · rename_i ht
    simp only [Bool.and_eq_true, decide_eq_true_eq] at ht
    exact ht.1.symm
  · rfl

theorem enabled_of_taker? (ht : d.taker? h = some t) :
    t.id = h.stream.toNat ∧ t.disabled = false := by
  simpa using List.find?_some ht

/-- Routing a packet is giving it to its track. -/
theorem route_take (d : Demultiplexer) (hen : t.disabled = false) (h : PacketHeader) (b : Bytes) :
    (d.route t h b).1 = d.update (t.take d.options h b).1 ∧
      calls (d.route t h b).2.1 = calls (t.take d.options h b).2 ∧
      (d.route t h b).2.2 = .ok .moreData := by
  have hseen : calls (if d.options.isVerbose 4 then
      [.note (.packetTime t.id h.timestamp.toNat)] else []) = [] := by
    split <;> rfl
  rw [route, Track.take, hen]
  rcases t.push d.options b h.time h.isKey with ⟨u, out, lost⟩
  cases lost with
  | none => exact ⟨rfl, by rw [calls_append, hseen]; rfl, rfl⟩
  | some e =>
    refine ⟨rfl, ?_, rfl⟩
    rw [calls_append, calls_append, hseen]
    exact List.append_nil _

theorem isDisabled_eq (hd : Distinct d.tracks) (id : Nat) :
    d.isDisabled id = (d.track? id).any (·.disabled) := by
  rw [isDisabled, Bool.eq_iff_iff, List.any_eq_true]
  constructor
  · rintro ⟨t, ht, htd⟩
    simp only [Bool.and_eq_true, decide_eq_true_eq] at htd
    rw [← htd.1, track?, find?_of_mem hd ht]
    exact htd.2
  · intro ht
    obtain ⟨t, hfind, htd⟩ := (Option.any_eq_true ..).1 ht
    exact ⟨t, List.mem_of_find?_eq_some hfind, by simp [id_of_track? hfind, htd]⟩

end Demultiplexer

end RealMedia
