import Lowering.Text.Printable

/-!
A text in quotes, as it is shown inside a larger text. Single quotes are used unless only double ones
save an escape.
-/
namespace Lowering.Text

private def hexDigits (width n : Nat) : String :=
  let digits := Nat.toDigits 16 n
  String.ofList (List.replicate (width - digits.length) '0' ++ digits)

def escape (quote c : Char) : String :=
  let n := c.toNat
  if c = quote || c = '\\' then String.ofList ['\\', c]
  else if c = '\t' then "\\t"
  else if c = '\n' then "\\n"
  else if c = '\r' then "\\r"
  else if isHidden c then
    if n < 0x100 then "\\x" ++ hexDigits 2 n
    else if n < 0x10000 then "\\u" ++ hexDigits 4 n
    else "\\U" ++ hexDigits 8 n
  else String.singleton c

def quoted (s : String) : String :=
  let cs := s.toList
  let quote := if cs.contains '\'' && !cs.contains '"' then '"' else '\''
  let q := String.singleton quote
  q ++ String.join (cs.map (escape quote)) ++ q

end Lowering.Text
