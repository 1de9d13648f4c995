/-
Text in quotes, as it is shown to a person who looks for faults.

Quotes and backslashes are written with a backslash, as are the end of a line, a
tab, a carriage return and NUL.  Any other character that cannot be seen for what
it is is written by its code point in braces.
-/
import Strands.Text.Printable

namespace Strands.Text

def hex (n : Nat) : String := String.ofList (Nat.toDigits 16 n)

def escape (c : Char) : String :=
  match c with
  | '"' => "\\\""
  | '\\' => "\\\\"
  | '\n' => "\\n"
  | '\t' => "\\t"
  | '\r' => "\\r"
  | '\x00' => "\\0"
  | c => if isPrintable c then c.toString else "\\u\x7b" ++ hex c.toNat ++ "\x7d"

def quote (s : String) : String :=
  "\"" ++ String.join (s.toList.map escape) ++ "\""

end Strands.Text
