import Provision.Text.GraphemeExtend
import Provision.Text.Printable

/-! Quoted text in messages.

Messages show a name between double quotes. The quote, the backslash and the
characters that would not be seen are written as escapes, so two different names
never look alike. A list of names stands between brackets. -/
namespace Provision.Text

/-- A number in lower-case hexadecimal digits. -/
def hex (n : Nat) : String := String.ofList (Nat.toDigits 16 n)

def escapeChar (c : Char) : String :=
  if c = '\x00' then "\\0"
  else if c = '\t' then "\\t"
  else if c = '\r' then "\\r"
  else if c = '\n' then "\\n"
  else if c = '"' then "\\\""
  else if c = '\\' then "\\\\"
  else if extendsGrapheme c || !isPrintable c then "\\u\x7b" ++ hex c.toNat ++ "\x7d"
  else c.toString

def quoted (s : String) : String := "\"" ++ String.join (s.toList.map escapeChar) ++ "\""

def quotedList (l : List String) : String := "[" ++ ", ".intercalate (l.map quoted) ++ "]"

end Provision.Text
