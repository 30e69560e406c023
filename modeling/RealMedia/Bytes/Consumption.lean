import RealMedia.Bytes.Decoder

/-!
What a successful decoding step has consumed: the bytes between the cursor before and after it.
-/

namespace RealMedia.Decoder

variable {α β : Type} {d : Decoder α} {f : α → Decoder β} {k m n : Nat} {a : α}

/-- Every success takes at least `n` bytes off the front and counts them. -/
def Consumes (n : Nat) (d : Decoder α) : Prop :=
  ∀ c a c', d c = .ok a c' → ∃ r, c.rest = r ++ c'.rest ∧ c'.pos = c.pos + r.length ∧ n ≤ r.length

theorem Consumes.mono (h : Consumes n d) (hm : m ≤ n) : Consumes m d := fun c a c' hd =>
  let ⟨r, hr, hp, hn⟩ := h c a c' hd
  ⟨r, hr, hp, Nat.le_trans hm hn⟩

theorem consumes_pure : Consumes 0 (pure a : Decoder α) := by
  rintro c _ c' h
  cases h
  exact ⟨[], by simp⟩

theorem Consumes.bind (hd : Consumes m d) (hf : ∀ a, Consumes n (f a)) :
    Consumes (m + n) (d >>= f) := by
  intro c b c' h
  change EStateM.bind d f c = .ok b c' at h
  unfold EStateM.bind at h
  split at h
  · rename_i a c₁ h₁
    obtain ⟨r, hr, hp, hm⟩ := hd c a c₁ h₁
    obtain ⟨s, hs, hq, hn⟩ := hf a c₁ b c' h
    exact ⟨r ++ s, by simp [hr, hs], by simp [hp, hq, Nat.add_assoc], by simp; omega⟩
  · cases h

theorem consumes_take : Consumes n (take n) := by
  intro c a c' h
  unfold take at h
  split at h
  · rename_i r rest hs
    cases h
    obtain ⟨hr, hl⟩ := split?_eq_some_iff.1 hs
    exact ⟨a, hr, by simp [hl], by omega⟩
  · cases h

theorem consumes_skip : Consumes n (skip n) :=
  (consumes_take.bind fun _ => consumes_pure).mono (by omega)

theorem consumes_u8 : Consumes 1 u8 := by
  intro c a c' h
  unfold u8 at h
  split at h
  · rename_i b rest hr
    cases h
    exact ⟨[a], by simp [hr]⟩
  · cases h

theorem consumes_u16 (order : ByteOrder) : Consumes 2 (u16 order) := by
  intro c a c' h
  unfold u16 at h
  split at h
  · rename_i p q rest hr
    cases h
    exact ⟨[p, q], by simp [hr]⟩
  · cases h

theorem consumes_u32 (order : ByteOrder) : Consumes 4 (u32 order) := by
  intro c a c' h
  unfold u32 at h
  split at h
  · rename_i p q r s rest hr
    cases h
    exact ⟨[p, q, r, s], by simp [hr]⟩
  · cases h

theorem consumes_rest : Consumes 0 rest := by
  rintro c _ c' h
  cases h
  exact ⟨[], by simp⟩

end RealMedia.Decoder
