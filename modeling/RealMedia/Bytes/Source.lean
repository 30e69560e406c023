import RealMedia.Bytes.Decoder

/-! A byte source with a read position, which a seek may put anywhere, also past the end. -/

namespace RealMedia

/-- The bytes of a source, the read position, and the bytes at and after it. -/
structure Source where
  data : Bytes
  pos : Nat
  rest : Bytes
  rest_eq : rest = data.drop pos

namespace Source

variable {α : Type} {s t : Source} {d : Decoder α} {a : α} {n : Nat}

def ofBytes (data : Bytes) : Source := ⟨data, 0, data, rfl⟩

def size (s : Source) : Nat := s.data.length

def advance (s : Source) (n : Nat) : Source :=
  ⟨s.data, s.pos + n, s.rest.drop n, by rw [s.rest_eq, List.drop_drop]⟩

/-- The way forward need not start at the front. -/
def seek (s : Source) (pos : Nat) : Source :=
  if s.pos ≤ pos then s.advance (pos - s.pos) else ⟨s.data, pos, s.data.drop pos, rfl⟩

/-- Move the read position by an offset, unless that leads out of what 64 bits can number. -/
def move? (s : Source) (offset : Int) : Option Source :=
  let pos := s.pos + offset
  if 0 ≤ pos ∧ pos < 18446744073709551616 then some (s.seek pos.toNat) else none

/-- Skip bytes. The count is taken as an offset with a sign, so its upper half leads back. -/
def skip? (s : Source) (n : UInt64) : Option Source := s.move? n.toInt64.toInt

/-- Skip bytes that are there or not. No file has places that 64 bits cannot number, so from there on
nothing is read either. -/
def skip (s : Source) (n : Nat) : Source := (s.skip? (.ofNat n)).getD (s.advance n)

/-- Up to `n` bytes: fewer only at the end of the source. -/
def readUpTo (s : Source) (n : Nat) : Bytes × Source :=
  let got := s.rest.take n
  (got, s.advance got.length)

/-- Decode at the read position. A read that runs out of data consumes all that was left. -/
def read (s : Source) (d : Decoder α) : Option α × Source :=
  match d ⟨0, s.rest⟩ with
  | .ok a c => (some a, s.advance c.pos)
  | .error _ _ => (none, s.advance s.rest.length)

@[simp] theorem length_rest_advance : (s.advance n).rest.length = s.rest.length - n := by
  simp [advance]

theorem seek_eq (s : Source) (pos : Nat) : s.seek pos = ⟨s.data, pos, s.data.drop pos, rfl⟩ := by
  rw [seek]
  split
  · simp only [advance, s.rest_eq, List.drop_drop, Nat.add_sub_cancel' ‹_›]
  · rfl

/-- A seek leads back from wherever in the source it starts. -/
theorem seek_pos (h : t.data = s.data) : t.seek s.pos = s := by
  rcases s with ⟨data, pos, rest, hrest⟩
  subst hrest
  dsimp only at h
  subst h
  exact t.seek_eq pos

theorem seek_add : s.seek (s.pos + n) = s.advance n := by
  rw [seek, if_pos (Nat.le_add_right _ _), Nat.add_sub_cancel_left]

/-- A count below half of its range leads forward, as far as 64 bits number places. -/
theorem skip?_ofNat (hn : n < 9223372036854775808) :
    s.skip? (.ofNat n) = if s.pos + n < 18446744073709551616 then some (s.advance n) else none := by
  have hsame : (UInt64.ofNat n).toNat = n := by
    rw [UInt64.toNat_ofNat']
    omega
  have hoffset : (UInt64.ofNat n).toInt64.toInt = (UInt64.ofNat n).toNat :=
    BitVec.toInt_eq_toNat_of_lt (by change 2 * (UInt64.ofNat n).toNat < _; omega)
  rw [skip?, move?, hoffset, hsame, ← seek_add]
  by_cases hp : s.pos + n < 18446744073709551616
  · rw [if_pos hp, if_pos (by omega)]
    rfl
  · rw [if_neg hp, if_neg (by omega)]

theorem skip_eq_advance (hn : n < 9223372036854775808) : s.skip n = s.advance n := by
  rw [skip, skip?_ofNat hn]
  split <;> rfl

@[simp] theorem data_skip : (s.skip n).data = s.data := by
  rw [skip, skip?, move?]
  split
  · rw [seek_eq, Option.getD_some]
  · rfl

@[simp] theorem data_read (s : Source) (d : Decoder α) : (s.read d).2.data = s.data := by
  rw [read]
  split <;> rfl

theorem data_of_read {r : Option α} (hr : s.read d = (r, t)) : t.data = s.data := by
  rw [← s.data_read d, hr]

theorem length_rest_read_le : (s.read d).2.rest.length ≤ s.rest.length := by
  unfold read
  split <;> simp

end Source

end RealMedia
