import TagTemplate.Text.Printable

/-!
# Quoted text

Messages show a name between double quotes, spelled so that every character can be seen.
-/

namespace TagTemplate

/-- The spelling of one character inside double quotes: a backslash and a letter for the common
controls, the code point in lower-case hexadecimal for the other unprintable characters. -/
def quotedChar (c : Char) : List Char :=
  match c with
  | '\x00' => ['\\', '0']
  | '\t' => ['\\', 't']
  | '\n' => ['\\', 'n']
  | '\r' => ['\\', 'r']
  | '"' => ['\\', '"']
  | '\\' => ['\\', '\\']
  | c => if isPrintable c then [c] else ['\\', 'u', '{'] ++ Nat.toDigits 16 c.toNat ++ ['}']

def quoted (s : String) : String := String.ofList ('"' :: s.toList.flatMap quotedChar ++ ['"'])

example : quoted "a\tb'\"" = "\"a\\tb'\\\"\"" := by decide

example : quotedChar '\u200b' = ['\\', 'u', '{', '2', '0', '0', 'b', '}'] := by decide +kernel

end TagTemplate
