import RealMedia.Container.Chain
import RealMedia.Proofs.DecoderForms

/-! The chain of objects in front of the first data object, found exactly where it stands. -/

namespace RealMedia

open Decoder

variable {s t u : Source} {b r : Bytes} {n : Nat}

namespace Source

theorem advance_advance (s : Source) (m n : Nat) : (s.advance m).advance n = s.advance (m + n) := by
  simp [advance, Nat.add_assoc]

/-- What is read stands at the read position, which moves behind it. -/
theorem read_iff {α : Type} {d : Decoder α} {form : α → Bytes} {a : α}
    (hy : ∀ a, Yields d (form a) a) (he : ∀ c a e, d c = .ok a e → c.rest = form a ++ e.rest) :
    s.read d = (some a, t) ↔
      ∃ r, s.rest = form a ++ r ∧ t = s.advance (form a).length := by
  constructor
  · intro h
    unfold read at h
    split at h
    · rename_i x c hok
      cases h
      have hrest : s.rest = form a ++ c.rest := he _ _ _ hok
      have hsame := hy a 0 c.rest
      rw [← hrest, hok, EStateM.Result.ok.injEq] at hsame
      have hpos : c.pos = 0 + (form a).length := congrArg Cursor.pos hsame.2
      exact ⟨_, hrest, by rw [hpos, Nat.zero_add]⟩
    · cases h
  · rintro ⟨r, hrest, rfl⟩
    exact read_of_yields (hy a) hrest

theorem read_take_iff :
    s.read (take n) = (some b, t) ↔
      b.length = n ∧ ∃ r, s.rest = b ++ r ∧ t = s.advance b.length := by
  constructor
  · intro h
    unfold read take at h
    cases hs : split? n s.rest with
    | none => simp [hs] at h
    | some p =>
      obtain ⟨a, r⟩ := p
      simp only [hs, Nat.zero_add, Prod.mk.injEq, Option.some.injEq] at h
      obtain ⟨rfl, rfl⟩ := h
      obtain ⟨hr, hl⟩ := split?_eq_some_iff.1 hs
      exact ⟨hl, r, hr, by rw [hl]⟩
  · rintro ⟨rfl, r, hrest, rfl⟩
    exact read_of_yields (yields_take b) hrest

/-- Nothing is read where less is left than a success takes. -/
theorem read_short {α : Type} {d : Decoder α} (hd : d.Consumes n) (hs : s.rest.length < n) :
    s.read d = (none, s.advance s.rest.length) := by
  unfold read
  split
  · rename_i a c hok
    obtain ⟨b, hb, -, hlen⟩ := hd _ _ _ hok
    have hb : s.rest = b ++ c.rest := hb
    rw [hb, List.length_append] at hs
    omega
  · rfl

end Source

namespace Container

theorem ObjectHeader.read_iff {h : ObjectHeader} :
    s.read decoder = (some h, t) ↔ ∃ r, s.rest = h.bytes ++ r ∧ t = s.advance h.bytes.length := by
  apply Source.read_iff yields_bytes
  intro c a e h
  obtain ⟨id, c₁, hid, h⟩ := bind_eq_ok.1 h
  obtain ⟨size, c₂, hsize, h⟩ := bind_eq_ok.1 h
  obtain ⟨version, c₃, hversion, h⟩ := bind_eq_ok.1 h
  cases h
  rw [fourCC_eq_ok hid, be32_eq_ok hsize, be16_eq_ok hversion]
  simp only [bytes, List.append_assoc]

@[simp] theorem ObjectHeader.length_bytes (h : ObjectHeader) :
    h.bytes.length = ObjectHeader.length := rfl

def DataHeader.bytes (h : DataHeader) : Bytes := bytes32 h.packets ++ bytes32 h.next

theorem DataHeader.read_iff {h : DataHeader} :
    s.read decoder = (some h, t) ↔ ∃ r, s.rest = h.bytes ++ r ∧ t = s.advance h.bytes.length := by
  apply Source.read_iff
  · intro h
    exact (yields_be32 _).bind ((yields_be32 _).return _)
  · intro c a e h
    obtain ⟨packets, c₁, hpackets, h⟩ := bind_eq_ok.1 h
    obtain ⟨next, c₂, hnext, h⟩ := bind_eq_ok.1 h
    cases h
    rw [be32_eq_ok hpackets, be32_eq_ok hnext]
    simp only [bytes, List.append_assoc]

@[simp] theorem DataHeader.length_bytes (h : DataHeader) : h.bytes.length = 8 := rfl

/-- Any eight bytes are a header. -/
theorem DataHeader.exists_bytes (hb : 8 ≤ b.length) : ∃ (h : DataHeader) (r : Bytes),
    b = h.bytes ++ r := by
  obtain ⟨u, v, rfl, hu⟩ := long_iff.2 hb
  obtain ⟨h, p, hd⟩ := DataHeader.accepts_decoder.takes 0 u v hu
  have hread : (Source.ofBytes (u ++ v)).read decoder =
      (some h, (Source.ofBytes (u ++ v)).advance p) := by
    rw [Source.read, Source.ofBytes, hd]
  obtain ⟨r, hr, -⟩ := DataHeader.read_iff.1 hread
  exact ⟨h, r, hr⟩

variable {x : Object} {xs : List Object} {h : ObjectHeader}

/-- An object as it stands in a file. -/
def Object.bytes (x : Object) : Bytes := x.header.bytes ++ x.payload

/-- The size of the object is that of its header and its payload. -/
def Object.Whole (x : Object) : Prop :=
  x.header.size.toNat = ObjectHeader.length + x.payload.length

theorem readPayload_iff :
    readPayload h s = (.ok b, t) ↔
      Object.Whole ⟨h, b⟩ ∧ ∃ r, s.rest = b ++ r ∧ t = s.advance b.length := by
  have hsize : Object.Whole ⟨h, b⟩ ↔ h.payload? = some b.length := by
    unfold Object.Whole ObjectHeader.payload?
    split <;> simp <;> omega
  rw [hsize]
  constructor
  · intro hp
    unfold readPayload at hp
    cases hn : h.payload? with
    | none => simp [hn] at hp
    | some n =>
      simp only [hn] at hp
      split at hp
      · rename_i hr
        cases hp
        obtain ⟨rfl, hrest⟩ := Source.read_take_iff.1 hr
        exact ⟨rfl, hrest⟩
      · cases hp
  · rintro ⟨hn, hrest⟩
    have hr := Source.read_take_iff.2 ⟨rfl, hrest⟩
    simp only [readPayload, hn, hr]

theorem readChain_object {t u : Source} (hl : atLeast ObjectHeader.length s.rest = true)
    (ho : s.read ObjectHeader.decoder = (some h, t)) (hi : h.id ≠ dataId)
    (hp : readPayload h t = (.ok b, u)) :
    readChain s = (⟨h, b⟩ :: (readChain u).1, (readChain u).2) := by
  rw [readChain, hl]
  split
  · contradiction
  split
  · rename_i hr
    rw [ho] at hr
    cases hr
  · rename_i hr
    rw [ho] at hr
    cases hr
    rw [if_neg hi]
    split
    · rename_i hr
      rw [hp] at hr
      cases hr
    · rename_i hr
      rw [hp] at hr
      cases hr
      rfl

theorem readChain_data {o : ObjectHeader} {h : DataHeader} {t u : Source}
    (hl : atLeast ObjectHeader.length s.rest = true)
    (ho : s.read ObjectHeader.decoder = (some o, t)) (hi : o.id = dataId)
    (hd : t.read DataHeader.decoder = (some h, u)) : readChain s = ([], .data h u) := by
  rw [readChain, hl]
  split
  · contradiction
  split
  · rename_i hr
    rw [ho] at hr
    cases hr
  · rename_i hr
    rw [ho] at hr
    cases hr
    rw [if_pos hi, hd]

/-- The bytes of a chain of objects and of the headers of the data object behind it. -/
def chainBytes (xs : List Object) (o : ObjectHeader) (d : DataHeader) : Bytes :=
  xs.flatMap Object.bytes ++ (o.bytes ++ d.bytes)

/-- Whole objects, none of them of data, up to the header of a data object. -/
structure Chained (xs : List Object) (o : ObjectHeader) : Prop where
  objects : ∀ x ∈ xs, x.header.id ≠ dataId ∧ x.Whole
  last : o.id = dataId

theorem atLeast_header (hs : s.rest = h.bytes ++ r) :
    atLeast ObjectHeader.length s.rest = true := by
  rw [atLeast_iff, hs, List.length_append, ObjectHeader.length_bytes]
  omega

theorem readChain_chained {o : ObjectHeader} {d : DataHeader} (hc : Chained xs o)
    (hs : s.rest = chainBytes xs o d ++ r) :
    readChain s = (xs, .data d (s.advance (chainBytes xs o d).length)) := by
  induction xs generalizing s with
  | nil =>
    have hs : s.rest = o.bytes ++ (d.bytes ++ r) := by
      rw [hs]
      simp only [chainBytes, List.flatMap_nil, List.nil_append, List.append_assoc]
    have ho := ObjectHeader.read_iff.2 ⟨_, hs, rfl⟩
    have hd := DataHeader.read_iff.2 ⟨r, Source.rest_advance hs, rfl⟩
    rw [readChain_data (atLeast_header hs) ho hc.last hd, Source.advance_advance]
    rfl
  | cons x xs ih =>
    obtain ⟨hid, hwhole⟩ := hc.objects x (by simp)
    have hs : s.rest = x.header.bytes ++ (x.payload ++ (chainBytes xs o d ++ r)) := by
      rw [hs]
      simp only [chainBytes, List.flatMap_cons, Object.bytes, List.append_assoc]
    have ho := ObjectHeader.read_iff.2 ⟨_, hs, rfl⟩
    have hrest := Source.rest_advance hs
    have hp := readPayload_iff.2 ⟨hwhole, _, hrest, rfl⟩
    have hmore := ih ⟨fun y hy => hc.objects y (by simp [hy]), hc.last⟩ (Source.rest_advance hrest)
    rw [readChain_object (atLeast_header hs) ho hid hp, hmore, Source.advance_advance,
      Source.advance_advance]
    simp only [chainBytes, List.flatMap_cons, Object.bytes, List.append_assoc, List.length_append]

/-- The chain comes to a data object exactly if it stands in front of one. -/
theorem readChain_iff {d : DataHeader} :
    readChain s = (xs, .data d t) ↔
      ∃ o r, Chained xs o ∧ s.rest = chainBytes xs o d ++ r ∧
        t = s.advance (chainBytes xs o d).length := by
  constructor
  · intro hr
    induction hlen : s.rest.length using Nat.strongRecOn generalizing s xs with
    | _ len ih =>
      subst hlen
      rw [readChain] at hr
      split at hr
      · cases hr
      split at hr
      · cases hr
      · rename_i h s₁ ho
        have h₁ := length_rest_read ObjectHeader.consumes_decoder ho
        obtain ⟨r₁, hs, rfl⟩ := ObjectHeader.read_iff.1 ho
        have hrest := Source.rest_advance hs
        by_cases hi : h.id = dataId
        · rw [if_pos hi] at hr
          split at hr
          · rename_i hd
            cases hr
            obtain ⟨r, hr, rfl⟩ := DataHeader.read_iff.1 hd
            rw [hrest] at hr
            refine ⟨h, r, ⟨by simp, hi⟩, ?_, ?_⟩
            · rw [hs, hr]
              simp only [chainBytes, List.flatMap_nil, List.nil_append, List.append_assoc]
            · rw [Source.advance_advance]
              rfl
          · cases hr
        · rw [if_neg hi] at hr
          split at hr
          · cases hr
          · rename_i payload s₂ hp
            have h₂ := length_rest_readPayload_le (h := h) (s := s.advance h.bytes.length)
            rw [hp] at h₂
            simp only [ObjectHeader.length] at h₁ h₂
            simp only [Prod.mk.injEq] at hr
            obtain ⟨rfl, hlast⟩ := hr
            obtain ⟨o, r, hc, hrest₂, ht⟩ :=
              ih s₂.rest.length (by omega) (Prod.ext rfl hlast) rfl
            obtain ⟨hwhole, r₂, hpay, rfl⟩ := readPayload_iff.1 hp
            rw [Source.rest_advance hpay] at hrest₂
            rw [hrest] at hpay
            refine ⟨o, r, ⟨?_, hc.last⟩, ?_, ?_⟩
            · intro x hx
              rcases List.mem_cons.1 hx with rfl | hx
              · exact ⟨hi, hwhole⟩
              · exact hc.objects x hx
            · rw [hs, hpay, hrest₂]
              simp only [chainBytes, List.flatMap_cons, Object.bytes, List.append_assoc]
            · rw [ht, Source.advance_advance, Source.advance_advance]
              simp only [chainBytes, List.flatMap_cons, Object.bytes, List.append_assoc,
                List.length_append]
  · rintro ⟨o, r, hc, hs, rfl⟩
    exact readChain_chained hc hs

end Container

end RealMedia
