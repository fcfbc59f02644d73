import FilterQuery.Text.Hidden

/-!
# Quoted text

A text between double quotes, as messages show it: the quote and the
backslash are escaped, NUL, tab, line feed and carriage return have names of
their own, and a hidden character is written by its code point in hexadecimal.
The apostrophe stays as it is.
-/

namespace FilterQuery.Text

def escape (c : Char) : List Char :=
  match c with
  | '"' => ['\\', '"']
  | '\\' => ['\\', '\\']
  | '\x00' => ['\\', '0']
  | '\t' => ['\\', 't']
  | '\n' => ['\\', 'n']
  | '\r' => ['\\', 'r']
  | c => if isHidden c then "\\u\x7b".toList ++ Nat.toDigits 16 c.toNat ++ ['\x7d'] else [c]

def quote (text : String) : String :=
  String.ofList ('"' :: text.toList.flatMap escape ++ ['"'])

end FilterQuery.Text
