import DeskScript.Text.Printable

/-!
Texts in double quotes, with everything that cannot be shown escaped.
-/

namespace DeskScript

/-- Lower-case hexadecimal digits. -/
def hexDigits (n : Nat) : String := String.ofList (Nat.toDigits 16 n)

def escapeChar (c : Char) : String :=
  match c with
  | '\x00' => "\\0"
  | '\t' => "\\t"
  | '\r' => "\\r"
  | '\n' => "\\n"
  | '"' => "\\\""
  | '\\' => "\\\\"
  | c =>
    if isExtender c || !isPrintable c then "\\u\x7b" ++ hexDigits c.toNat ++ "\x7d" else c.toString

/-- The text in double quotes. -/
def quoteText (s : String) : String :=
  "\"" ++ s.toList.foldl (fun out c => out ++ escapeChar c) "" ++ "\""

end DeskScript
