import RealMedia.Proofs.DraftFile
import RealMedia.Proofs.StreamView

/-! Packets given to the tracks in turn, and what that comes to for each stream alone. -/

namespace RealMedia

open Container Container.Draft

variable {o : Options} {t : Track} {w : Written} {ws vs : List Written} {ts : List Track}
  {out more : Outputs} {id : Nat}

/-- The packets of one stream, among those of all streams. -/
def own (id : Nat) (ws : List Written) : List Written := ws.filter (·.stream.toNat = id)

theorem own_append (id : Nat) (ws vs : List Written) : own id (ws ++ vs) = own id ws ++ own id vs :=
  List.filter_append ..

theorem own_self (w : Written) : own w.stream.toNat [w] = [w] := by simp [own]

theorem own_other (hi : w.stream.toNat ≠ id) : own id [w] = [] := by simp [own, hi]

/-- Take the packets of the stream in turn. -/
def Track.takeAll (o : Options) (t : Track) : List Written → Track × Outputs
  | [] => (t, [])
  | w :: ws =>
    let (u, out) := t.take o w.header w.payload
    let (v, more) := u.takeAll o ws
    (v, out ++ more)

/-- Take all packets of the stream, and hand out what is kept in the end. -/
def Track.play (o : Options) (t : Track) (ws : List Written) : Track × Outputs :=
  let (u, out) := t.takeAll o ws
  let (v, more) := u.close o
  (v, out ++ more)

theorem Track.takeAll_append (o : Options) (t : Track) (ws vs : List Written) :
    t.takeAll o (ws ++ vs) =
      (((t.takeAll o ws).1.takeAll o vs).1,
        (t.takeAll o ws).2 ++ ((t.takeAll o ws).1.takeAll o vs).2) := by
  induction ws generalizing t with
  | nil => rfl
  | cons w ws ih => simp only [List.cons_append, takeAll, ih, List.append_assoc]

theorem Track.packets_play_nil (o : Options) (t : Track) :
    packets (t.play o []).2 = packets (t.close o).2 := by
  simp [play, takeAll]

theorem Track.packets_play_cons (o : Options) (t : Track) (w : Written) (ws : List Written) :
    packets (t.play o (w :: ws)).2 = packets (t.take o w.header w.payload).2 ++
      packets ((t.take o w.header w.payload).1.play o ws).2 := by
  simp [play, takeAll]

/-- Give a packet to the track that takes it, if there is one. -/
def give (o : Options) (ts : List Track) (w : Written) : List Track × Outputs :=
  match ts.find? fun t => t.id = w.stream.toNat && !t.disabled with
  | none => (ts, [])
  | some t =>
    let (u, out) := t.take o w.header w.payload
    (ts.map (Demultiplexer.updated u), out)

def giveAll (o : Options) (ts : List Track) : List Written → List Track × Outputs
  | [] => (ts, [])
  | w :: ws =>
    let (us, out) := give o ts w
    let (vs, more) := giveAll o us ws
    (vs, out ++ more)

/-- Give all packets to the tracks, hand out what these keep in the end, and end the input. -/
def playAll (o : Options) (ts : List Track) (ws : List Written) : List Track × Outputs :=
  let (us, out) := giveAll o ts ws
  let (vs, more) := drainAll o us
  (vs, out ++ more ++ [.call .flush])

theorem ids_give (o : Options) (ts : List Track) (w : Written) :
    (give o ts w).1.map (·.id) = ts.map (·.id) := by
  rw [give]
  split
  · rfl
  · rw [List.map_map]
    exact List.map_congr_left fun t _ => Demultiplexer.id_updated _ t

theorem ids_giveAll (o : Options) (ts : List Track) (ws : List Written) :
    (giveAll o ts ws).1.map (·.id) = ts.map (·.id) := by
  induction ws generalizing ts with
  | nil => rfl
  | cons w ws ih => exact (ih _).trans (ids_give o ts w)

theorem Distinct.of_ids {us : List Track} (hd : Distinct ts)
    (hi : us.map (·.id) = ts.map (·.id)) : Distinct us := by
  rw [Distinct, hi]
  exact hd

/-- Seen from one stream, giving a packet is giving it to its own track, if it is of the stream. -/
theorem give_view (hd : Distinct ts) (w : Written) (id : Nat) :
    (give o ts w).1.find? (·.id = id) =
        (ts.find? (·.id = id)).map (fun t => (t.takeAll o (own id [w])).1) ∧
      ofStream id (give o ts w).2 =
        (ts.find? (·.id = id)).toList.flatMap fun t => packets (t.takeAll o (own id [w])).2 := by
  by_cases hi : w.stream.toNat = id
  · subst hi
    rw [give, own_self]
    split
    · rename_i hnone
      have hlost : ∀ t, ts.find? (·.id = w.stream.toNat) = some t →
          t.takeAll o [w] = (t, []) := by
        intro t ht
        have hid : t.id = w.stream.toNat := by simpa using List.find?_some ht
        have htd : t.disabled = true := by
          simpa [hid] using List.find?_eq_none.1 hnone t (List.mem_of_find?_eq_some ht)
        rw [Track.takeAll, Track.take, if_pos htd]
        rfl
      cases hfind : ts.find? (·.id = w.stream.toNat) with
      | none => exact ⟨rfl, rfl⟩
      | some t => simp [hlost t hfind, packets]
    · rename_i t ht
      obtain ⟨hid, hen⟩ : t.id = w.stream.toNat ∧ t.disabled = false := by
        simpa using List.find?_some ht
      have hfind := find?_of_mem hd (List.mem_of_find?_eq_some ht)
      obtain ⟨hsame, hspeaks⟩ := t.take_stream o w.header w.payload
      rw [hid] at hfind hspeaks
      dsimp only
      rw [find?_map_id (Demultiplexer.id_updated _), hfind, ofStream_self hspeaks]
      simp [Track.takeAll, Demultiplexer.updated, hsame, hen]
  · have hkeep : ∀ t : Track, t.takeAll o (own id [w]) = (t, []) := by
      intro t
      rw [own_other hi]
      rfl
    have hwant : (ts.find? (·.id = id)).map (fun t => (t.takeAll o (own id [w])).1) =
        ts.find? (·.id = id) ∧
        ((ts.find? (·.id = id)).toList.flatMap fun t => packets (t.takeAll o (own id [w])).2) =
          [] := by
      cases ts.find? (·.id = id) <;> simp [hkeep, packets]
    rw [hwant.1, hwant.2, give]
    split
    · exact ⟨rfl, rfl⟩
    · rename_i t ht
      have hid : t.id = w.stream.toNat := by
        have := List.find?_some ht
        simp only [Bool.and_eq_true, decide_eq_true_eq] at this
        exact this.1
      obtain ⟨hsame, hspeaks⟩ := t.take_stream o w.header w.payload
      dsimp only
      refine ⟨?_, ofStream_other hspeaks (by rwa [hid])⟩
      rw [find?_map_id (Demultiplexer.id_updated _)]
      cases hfind : ts.find? (·.id = id) with
      | none => rfl
      | some s =>
        have hs : s.id = id := by simpa using List.find?_some hfind
        have hne : s.id ≠ t.id := by
          intro he
          exact hi (by rw [← hid, ← he, hs])
        simp [Demultiplexer.updated, hsame, hne]

theorem giveAll_view (hd : Distinct ts) (ws : List Written) (id : Nat) :
    (giveAll o ts ws).1.find? (·.id = id) =
        (ts.find? (·.id = id)).map (fun t => (t.takeAll o (own id ws)).1) ∧
      ofStream id (giveAll o ts ws).2 =
        (ts.find? (·.id = id)).toList.flatMap fun t => packets (t.takeAll o (own id ws)).2 := by
  induction ws generalizing ts with
  | nil =>
    cases hfind : ts.find? (·.id = id) <;> simp [giveAll, own, Track.takeAll, hfind, packets]
  | cons w ws ih =>
    obtain ⟨hfind, hout⟩ := give_view (o := o) hd w id
    obtain ⟨hlast, hrest⟩ := ih (hd.of_ids (ids_give o ts w))
    have hown : own id (w :: ws) = own id [w] ++ own id ws := own_append id [w] ws
    simp only [giveAll]
    rw [ofStream_append, hlast, hrest, hfind, hout, hown]
    cases ts.find? (·.id = id) with
    | none => exact ⟨rfl, rfl⟩
    | some t => simp [Track.takeAll_append]

theorem distinct_playAll (hd : Distinct ts) (ws : List Written) : Distinct (playAll o ts ws).1 :=
  hd.of_ids ((ids_drainAll o _).trans (ids_giveAll o ts ws))

/-- Seen from one stream, playing all packets to the tracks is playing it its own. -/
theorem playAll_view (hd : Distinct ts) (ws : List Written) (id : Nat) :
    (playAll o ts ws).1.find? (·.id = id) =
        (ts.find? (·.id = id)).map (fun t => (t.play o (own id ws)).1) ∧
      ofStream id (playAll o ts ws).2 =
        (ts.find? (·.id = id)).toList.flatMap fun t => packets (t.play o (own id ws)).2 := by
  obtain ⟨hfind, hout⟩ := giveAll_view (o := o) hd ws id
  obtain ⟨hlast, hrest⟩ := drainAll_view (o := o) (hd.of_ids (ids_giveAll o ts ws)) id
  have hflush : ofStream id [.call .flush] = [] := rfl
  simp only [playAll]
  rw [ofStream_append, ofStream_append, hflush, hlast, hrest, hfind, hout]
  cases ts.find? (·.id = id) with
  | none => exact ⟨rfl, rfl⟩
  | some t => simp [Track.play]

end RealMedia
