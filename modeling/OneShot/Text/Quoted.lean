import OneShot.Text.Hidden

/-!
# Quoted text

A text between double quotes, on one line and with every character visible: quotes and backslashes
are escaped, line ends and tabs have escapes of their own, and a character that does not show is
written by its number.
-/

namespace OneShot.Text

/-- A character between double quotes. -/
def escape (c : Char) : List Char :=
  match c with
  | '"' => ['\\', '"']
  | '\\' => ['\\', '\\']
  | '\n' => ['\\', 'n']
  | '\r' => ['\\', 'r']
  | '\t' => ['\\', 't']
  | '\x00' => ['\\', '0']
  | c =>
    if isHidden c then '\\' :: 'u' :: '\x7b' :: (Nat.toDigits 16 c.toNat ++ ['\x7d']) else [c]

/-- A text between double quotes. -/
def quoted (s : String) : String := String.ofList ('"' :: (s.toList.flatMap escape ++ ['"']))

end OneShot.Text
