import MarkTidy.Text.Lowercase
import MarkTidy.Text.PrintTable

/-!
Text in quotes, as messages show it: in single quotes, unless it holds one and no double quote;
backslashes, the enclosing quote and unprintable characters are escaped.
-/

namespace MarkTidy.Text

def isPrintable (c : Char) : Bool := !inRanges unprintableRanges c

def escapeChar (quote c : Char) : Text :=
  if c = quote ∨ c = '\\' then ['\\', c]
  else if c = '\n' then ['\\', 'n']
  else if c = '\r' then ['\\', 'r']
  else if c = '\t' then ['\\', 't']
  else if isPrintable c then [c]
  else if c.toNat < 0x100 then ['\\', 'x'] ++ hexadecimal 2 c.toNat
  else if c.toNat < 0x10000 then ['\\', 'u'] ++ hexadecimal 4 c.toNat
  else ['\\', 'U'] ++ hexadecimal 8 c.toNat

def quoted (t : Text) : Text :=
  let quote := if t.contains '\'' && !t.contains '"' then '"' else '\''
  [quote] ++ t.flatMap (escapeChar quote) ++ [quote]

end MarkTidy.Text
