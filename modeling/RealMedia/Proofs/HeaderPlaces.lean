import Mathlib.Data.List.Basic
import Mathlib.Data.List.Induction
import RealMedia.Demux.Read

/-!
The places that headers are put in. As long as no two headers are of one stream, they are the first
mentions of an order, and then the headers that it does not name.
-/

namespace RealMedia

variable {hs : List StreamHeader} {order l places : List Nat} {id i j n : Nat}

theorem addPlace_of_mem (hi : i ∈ places) : addPlace places i = places := by
  rw [addPlace, if_pos (List.contains_iff_mem.2 hi)]

theorem addPlace_of_not_mem (hi : i ∉ places) : addPlace places i = places ++ [i] := by
  rw [addPlace, if_neg fun h => hi (List.contains_iff_mem.1 h)]

/-- Places that are put behind others one by one come there in their order. -/
theorem foldl_addPlace (hl : l.Nodup) :
    l.foldl addPlace places = places ++ l.filter (· ∉ places) := by
  induction l generalizing places with
  | nil => simp
  | cons i l ih =>
    obtain ⟨hi, hl⟩ := List.nodup_cons.1 hl
    rw [List.foldl_cons]
    by_cases hmem : i ∈ places
    · rw [addPlace_of_mem hmem, ih hl, List.filter_cons_of_neg (by simpa using hmem)]
    · have hrest : l.filter (· ∉ places ++ [i]) = l.filter (· ∉ places) := by
        apply List.filter_congr
        intro j hj
        have hne : j ≠ i := fun he => hi (he ▸ hj)
        simp [hne]
      rw [addPlace_of_not_mem hmem, ih hl, hrest, List.filter_cons_of_pos (by simpa using hmem),
        List.append_assoc, List.singleton_append]

theorem id_of_findIdx? (hf : hs.findIdx? (·.id = id) = some i) :
    ∃ h, hs[i]? = some h ∧ h.id = id := by
  obtain ⟨hlt, hid, -⟩ := List.findIdx?_eq_some_iff_getElem.1 hf
  exact ⟨hs[i], List.getElem?_eq_getElem hlt, by simpa using hid⟩

/-- A place is that of one stream. -/
theorem findIdx?_inj (hi : hs.findIdx? (·.id = i) = some n) (hj : hs.findIdx? (·.id = j) = some n) :
    i = j := by
  obtain ⟨h, hh, rfl⟩ := id_of_findIdx? hi
  obtain ⟨k, hk, rfl⟩ := id_of_findIdx? hj
  rw [hh] at hk
  cases hk
  rfl

theorem namedPlaces_concat (order : List Nat) (id : Nat) (hs : List StreamHeader) :
    namedPlaces (order ++ [id]) hs = match hs.findIdx? (·.id = id) with
      | some i => addPlace (namedPlaces order hs) i
      | none => namedPlaces order hs := by
  rw [namedPlaces, List.foldl_append, List.foldl_cons, List.foldl_nil]
  rfl

/-- Only the first mention of a stream counts. -/
theorem namedPlaces_eq (order : List Nat) (hs : List StreamHeader) :
    namedPlaces order hs = order.eraseDups.filterMap fun id => hs.findIdx? (·.id = id) := by
  induction order using List.reverseRecOn with
  | nil => rfl
  | append_singleton order id ih =>
    rw [namedPlaces_concat, List.eraseDups_append, List.filterMap_append, ih]
    by_cases hid : id ∈ order
    · have hnone : [id].removeAll order = [] := by simp [List.removeAll, hid]
      rw [hnone, List.eraseDups_nil, List.filterMap_nil, List.append_nil]
      cases hf : hs.findIdx? (·.id = id) with
      | none => rfl
      | some i => exact addPlace_of_mem (List.mem_filterMap.2 ⟨id, List.mem_eraseDups.2 hid, hf⟩)
    · have hone : ([id].removeAll order).eraseDups = [id] := by
        simp [List.removeAll, hid, List.eraseDups_cons]
      rw [hone, List.filterMap_cons]
      cases hf : hs.findIdx? (·.id = id) with
      | none => rw [List.filterMap_nil, List.append_nil]
      | some i =>
        refine addPlace_of_not_mem fun hi => hid ?_
        obtain ⟨j, hj, hfound⟩ := List.mem_filterMap.1 hi
        rw [findIdx?_inj hf hfound]
        exact List.mem_eraseDups.1 hj

/-- What is picked by its place is picked by what stands there. -/
theorem filterMap_range_filter {α : Type} (l : List α) {p : Nat → Bool} {q : α → Bool}
    (hpq : ∀ i a, l[i]? = some a → p i = q a) :
    ((List.range l.length).filter p).filterMap (l[·]?) = l.filter q := by
  induction l using List.reverseRecOn with
  | nil => rfl
  | append_singleton l a ih =>
    have hbefore (i : Nat) (b : α) (hb : l[i]? = some b) : (l ++ [a])[i]? = some b := by
      rw [List.getElem?_append_left (List.getElem?_eq_some_iff.1 hb).1, hb]
    have hfirst : ((List.range l.length).filter p).filterMap ((l ++ [a])[·]?) = l.filter q := by
      rw [← ih fun i b hb => hpq i b (hbefore i b hb)]
      apply List.filterMap_congr
      intro i hi
      have hlt : i < l.length := List.mem_range.1 (List.mem_filter.1 hi).1
      exact List.getElem?_append_left hlt
    have hlast : (l ++ [a])[l.length]? = some a := List.getElem?_concat_length
    rw [List.length_append, List.length_singleton, List.range_succ, List.filter_append,
      List.filterMap_append, hfirst, List.filter_append, List.filter_cons, List.filter_cons,
      hpq _ _ hlast]
    cases q a with
    | false => rfl
    | true => simp

/-- The place of a header is found by its stream. -/
theorem findIdx?_of_nodup (hn : (hs.map (·.id)).Nodup) {h : StreamHeader} (hi : hs[i]? = some h) :
    hs.findIdx? (·.id = h.id) = some i := by
  cases hf : hs.findIdx? (·.id = h.id) with
  | none =>
    have hnone := List.findIdx?_eq_none_iff.1 hf h (List.mem_of_getElem? hi)
    simp at hnone
  | some j =>
    obtain ⟨k, hk, hid⟩ := id_of_findIdx? hf
    have hlt : j < (hs.map (·.id)).length := by
      rw [List.length_map]
      exact (List.getElem?_eq_some_iff.1 hk).1
    have hsame : (hs.map (·.id))[j]? = (hs.map (·.id))[i]? := by
      rw [List.getElem?_map, List.getElem?_map, hk, hi, Option.map_some, Option.map_some, hid]
    rw [(List.getElem?_inj hlt hn).1 hsame]

/-- Headers of different streams come by the first mentions of an order, and then those that it
does not name. -/
theorem inOrder_eq (order : List Nat) (hn : (hs.map (·.id)).Nodup) :
    inOrder order hs = order.eraseDups.filterMap (fun id => hs.find? (·.id = id)) ++
      hs.filter (·.id ∉ order) := by
  have hnamed : (namedPlaces order hs).filterMap (hs[·]?) =
      order.eraseDups.filterMap fun id => hs.find? (·.id = id) := by
    simp only [namedPlaces_eq, List.filterMap_filterMap, List.find?_eq_bind_findIdx?_getElem?]
  have hothers : ((List.range hs.length).filter (· ∉ namedPlaces order hs)).filterMap (hs[·]?) =
      hs.filter (·.id ∉ order) := by
    refine filterMap_range_filter hs fun i h hi => ?_
    have hfound := findIdx?_of_nodup hn hi
    have hiff : i ∈ namedPlaces order hs ↔ h.id ∈ order := by
      rw [namedPlaces_eq, List.mem_filterMap]
      constructor
      · rintro ⟨id, hid, hf⟩
        rw [findIdx?_inj hfound hf]
        exact List.mem_eraseDups.1 hid
      · intro hid
        exact ⟨h.id, List.mem_eraseDups.2 hid, hfound⟩
    simp only [hiff]
  rw [inOrder, foldl_addPlace List.nodup_range, List.filterMap_append, hnamed, hothers]

end RealMedia
