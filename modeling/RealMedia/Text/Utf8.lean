import RealMedia.Bytes.Basic

/-!
UTF-8 text read from bytes that may be damaged. Every maximal run of bytes that starts like a
character but cannot be continued to one is shown as U+FFFD.
-/

namespace RealMedia.Utf8

/-- A character that has begun: its bits so far, how many bytes it still needs, and the range the
next of them must lie in. -/
structure Unfinished where
  bits : Nat
  missing : Nat
  low : UInt8
  high : UInt8

/-- What a byte between two characters starts. -/
inductive Lead
  | whole (c : Char)
  | begins (u : Unfinished)
  | never

def lead (b : UInt8) : Lead :=
  if b < 0x80 then .whole (.ofNat b.toNat)
  else if b < 0xc2 then .never
  else if b < 0xe0 then .begins ⟨b.toNat % 32, 1, 0x80, 0xbf⟩
  else if b < 0xf0 then
    .begins ⟨b.toNat % 16, 2, if b = 0xe0 then 0xa0 else 0x80, if b = 0xed then 0x9f else 0xbf⟩
  else if b < 0xf5 then
    .begins ⟨b.toNat % 8, 3, if b = 0xf0 then 0x90 else 0x80, if b = 0xf4 then 0x8f else 0xbf⟩
  else .never

def replacement : Char := '\ufffd'

/-- The characters found so far, last first, and the one that is being read. -/
structure Progress where
  found : List Char := []
  current : Option Unfinished := none

def Progress.fresh (found : List Char) (b : UInt8) : Progress :=
  match lead b with
  | .whole c => { found := c :: found }
  | .begins u => { found, current := some u }
  | .never => { found := replacement :: found }

def Progress.push (p : Progress) (b : UInt8) : Progress :=
  match p.current with
  | none => .fresh p.found b
  | some u =>
    if u.low ≤ b ∧ b ≤ u.high then
      let bits := u.bits * 64 + b.toNat % 64
      if u.missing = 1 then { found := .ofNat bits :: p.found }
      else { p with current := some ⟨bits, u.missing - 1, 0x80, 0xbf⟩ }
    else .fresh (replacement :: p.found) b

def Progress.chars (p : Progress) : List Char :=
  (if p.current.isSome then replacement :: p.found else p.found).reverse

def decode (b : Bytes) : String :=
  .ofList (b.foldl Progress.push {}).chars

def encode (s : String) : Bytes := s.toUTF8.toList

end RealMedia.Utf8
