/-! Byte strings, bounded length tests and the words stored in them. -/

namespace RealMedia

variable {α : Type} {n : Nat} {l a b : List α}

abbrev Bytes := List UInt8

/-- Whether a list has at least `n` elements, without walking past the `n`-th. -/
def atLeast : Nat → List α → Bool
  | 0, _ => true
  | _ + 1, [] => false
  | n + 1, _ :: l => atLeast n l

@[simp] theorem atLeast_iff : atLeast n l = true ↔ n ≤ l.length := by
  induction l generalizing n with
  | nil => cases n <;> simp [atLeast]
  | cons x l ih => cases n <;> simp [atLeast, ih]

@[simp] theorem atLeast_eq_false : atLeast n l = false ↔ l.length < n := by
  rw [← Bool.not_eq_true, atLeast_iff, Nat.not_le]

/-- The first `n` elements and what follows them, if there are that many. -/
def split? (n : Nat) (l : List α) : Option (List α × List α) :=
  if atLeast n l then some (l.splitAt n) else none

theorem split?_eq_some_iff : split? n l = some (a, b) ↔ l = a ++ b ∧ a.length = n := by
  unfold split?
  constructor
  · intro h
    split at h
    · rename_i hn
      simp only [List.splitAt_eq, Option.some.injEq, Prod.mk.injEq] at h
      obtain ⟨rfl, rfl⟩ := h
      exact ⟨(List.take_append_drop n l).symm, List.length_take_of_le (atLeast_iff.1 hn)⟩
    · simp at h
  · rintro ⟨rfl, rfl⟩
    simp [List.splitAt_eq]

theorem split?_eq_none_iff : split? n l = none ↔ l.length < n := by
  simp [split?]

@[simp] theorem split?_append (a b : List α) : split? a.length (a ++ b) = some (a, b) :=
  split?_eq_some_iff.2 ⟨rfl, rfl⟩

/-- The order in which the bytes of a word are stored. -/
inductive ByteOrder
  | big
  | little

def word16 (hi lo : UInt8) : UInt16 := .ofNat (hi.toNat * 256 + lo.toNat)

def word32 (a b c d : UInt8) : UInt32 :=
  .ofNat (((a.toNat * 256 + b.toNat) * 256 + c.toNat) * 256 + d.toNat)

@[simp] theorem toNat_word16 (hi lo : UInt8) :
    (word16 hi lo).toNat = hi.toNat * 256 + lo.toNat := by
  have := hi.toNat_lt
  have := lo.toNat_lt
  exact UInt16.toNat_ofNat_of_lt' (by simp only [UInt16.size]; omega)

@[simp] theorem toNat_word32 (a b c d : UInt8) :
    (word32 a b c d).toNat = ((a.toNat * 256 + b.toNat) * 256 + c.toNat) * 256 + d.toNat := by
  have := a.toNat_lt
  have := b.toNat_lt
  have := c.toNat_lt
  have := d.toNat_lt
  exact UInt32.toNat_ofNat_of_lt' (by simp only [UInt32.size]; omega)

/-- The two bytes of a word, most significant first. -/
def bytes16 (w : UInt16) : Bytes := [.ofNat (w.toNat / 256), .ofNat w.toNat]

/-- The four bytes of a word, most significant first. -/
def bytes32 (w : UInt32) : Bytes :=
  [.ofNat (w.toNat / 16777216), .ofNat (w.toNat / 65536), .ofNat (w.toNat / 256), .ofNat w.toNat]

theorem word16_bytes16 (w : UInt16) : word16 (.ofNat (w.toNat / 256)) (.ofNat w.toNat) = w := by
  have := w.toNat_lt
  apply UInt16.toNat_inj.1
  simp only [toNat_word16, UInt8.toNat_ofNat']
  omega

theorem word32_bytes32 (w : UInt32) :
    word32 (.ofNat (w.toNat / 16777216)) (.ofNat (w.toNat / 65536)) (.ofNat (w.toNat / 256))
      (.ofNat w.toNat) = w := by
  have := w.toNat_lt
  apply UInt32.toNat_inj.1
  simp only [toNat_word32, UInt8.toNat_ofNat']
  omega

theorem bytes16_word16 (hi lo : UInt8) : bytes16 (word16 hi lo) = [hi, lo] := by
  have := hi.toNat_lt
  have := lo.toNat_lt
  simp only [bytes16, toNat_word16, List.cons.injEq, and_true]
  constructor <;>
    · apply UInt8.toNat_inj.1
      rw [UInt8.toNat_ofNat']
      omega

theorem bytes32_word32 (a b c d : UInt8) : bytes32 (word32 a b c d) = [a, b, c, d] := by
  have := a.toNat_lt
  have := b.toNat_lt
  have := c.toNat_lt
  have := d.toNat_lt
  simp only [bytes32, toNat_word32, List.cons.injEq, and_true]
  refine ⟨?_, ?_, ?_, ?_⟩ <;>
    · apply UInt8.toNat_inj.1
      rw [UInt8.toNat_ofNat']
      omega

@[simp] theorem length_bytes16 (w : UInt16) : (bytes16 w).length = 2 := rfl

@[simp] theorem length_bytes32 (w : UInt32) : (bytes32 w).length = 4 := rfl

/-- A run of zero bytes. -/
def zeros (n : Nat) : Bytes := List.replicate n 0

/-- The bytes of an ASCII literal. -/
def ascii (s : String) : Bytes := s.toList.map fun c => c.toNat.toUInt8

end RealMedia
