import RealMedia.Bytes.Decoder

/-! Four character codes: object ids, codec names and format tags. -/

namespace RealMedia

structure FourCC where
  a : UInt8
  b : UInt8
  c : UInt8
  d : UInt8
deriving DecidableEq

namespace FourCC

def bytes (f : FourCC) : Bytes := [f.a, f.b, f.c, f.d]

/-- The code as text, with damaged UTF-8 replaced. -/
def text (f : FourCC) : String := Utf8.decode f.bytes

/-- Whether the bytes begin with the code `f`. -/
def begins (f : FourCC) : Bytes → Bool
  | a :: b :: c :: d :: _ => f = ⟨a, b, c, d⟩
  | _ => false

@[simp] theorem length_bytes (f : FourCC) : f.bytes.length = 4 := rfl

theorem begins_iff (f : FourCC) (l : Bytes) : f.begins l = true ↔ ∃ r, l = f.bytes ++ r := by
  unfold begins
  split
  · rename_i a b c d r
    simp only [bytes, decide_eq_true_eq]
    constructor
    · rintro rfl
      exact ⟨r, rfl⟩
    · rintro ⟨r, hr⟩
      cases hr
      rfl
  · rename_i hl
    simp only [Bool.false_eq_true, false_iff]
    rintro ⟨r, rfl⟩
    exact hl f.a f.b f.c f.d r rfl

end FourCC

def Decoder.fourCC : Decoder FourCC := fun c =>
  match c.rest with
  | p :: q :: r :: s :: rest => .ok ⟨p, q, r, s⟩ ⟨c.pos + 4, rest⟩
  | short => .error ⟨4, short.length⟩ c

end RealMedia
