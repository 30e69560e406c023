import RealMedia.Text.Hex
import RealMedia.Text.Visible

/-! Text in double quotes, with what would not show on a terminal escaped. -/

namespace RealMedia.Quoted

def char (c : Char) : List Char :=
  if c = '"' ∨ c = '\\' then ['\\', c]
  else if c = '\n' then ['\\', 'n']
  else if c = '\t' then ['\\', 't']
  else if c = '\r' then ['\\', 'r']
  else if c = '\x00' then ['\\', '0']
  else if isVisible c then [c]
  else ['\\', 'u', '\x7b'] ++ (Hex.lower 1 c.toNat).toList ++ ['\x7d']

def text (s : String) : String := .ofList ('"' :: s.toList.flatMap char ++ ['"'])

end RealMedia.Quoted
