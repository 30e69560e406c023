import RealMedia.Bits.Decoder

/-! The size of the picture, coded at the start of a RealVideo 4 frame. -/

namespace RealMedia.RealVideo

open BitDecoder

/-- Widths and heights that have a code. -/
def widths : List Nat := [160, 176, 240, 320, 352, 640, 704]

def heights : List Nat := [120, 132, 144, 240, 288, 480]

/-- Heights with one bit more. -/
def moreHeights : List Nat := [180, 360, 576]

/-- Units of four pixels, as a sum of bytes that goes on behind each byte of 255. The sum is kept in
32 bits. -/
def extendedFrom (pos : Nat) : Bits → EStateM.Result OutOfData BitCursor Nat
  | b₀ :: b₁ :: b₂ :: b₃ :: b₄ :: b₅ :: b₆ :: b₇ :: rest =>
    let code := Bits.toNat [b₀, b₁, b₂, b₃, b₄, b₅, b₆, b₇]
    if code = 255 then
      match extendedFrom (pos + 8) rest with
      | .ok n c => .ok ((4 * 255 + n) % 4294967296) c
      | .error e c => .error e c
    else .ok (4 * code) ⟨pos + 8, rest⟩
  | short => .error ⟨8, short.length⟩ ⟨pos, short⟩

def extended : BitDecoder Nat := fun c => extendedFrom c.pos c.rest

def width : BitDecoder Nat := do
  match widths[← field 3]? with
  | some w => return w
  | none => extended

def height : BitDecoder Nat := do
  let code ← field 3
  match heights[code]? with
  | some h => return h
  | none =>
    let bit ← field 1
    match moreHeights[2 * (code - 6) + bit]? with
    | some h => return h
    | none => extended

def pictureSize : BitDecoder (Nat × Nat) := do
  skip 26
  let w ← width
  let h ← height
  return (w, h)

/-- The picture size of a frame, if the frame goes on long enough to tell. -/
def pictureSize? (frame : Bytes) : Option (Nat × Nat) := pictureSize.decode? frame

end RealMedia.RealVideo
