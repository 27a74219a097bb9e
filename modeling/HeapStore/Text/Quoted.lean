import HeapStore.Text.Printable

/-!
# Quoted text

A text between double quotes in which each character stands for itself or is escaped, so that the
written form shows every character: a quote and a backslash by a backslash before them, the tab, the two
line breaks and the null character by a letter or digit of their own, all else that is not printable by
its code point in braces.
-/

namespace HeapStore.Text

/-- The hexadecimal digits of a number, in lower case and without leading zeros. -/
def hexText (n : Nat) : String := String.ofList (Nat.toDigits 16 n)

/-- The written form of one character inside quotes. -/
def escape (c : Char) : String :=
  if c = '\x00' then "\\0"
  else if c = '\t' then "\\t"
  else if c = '\r' then "\\r"
  else if c = '\n' then "\\n"
  else if c = '"' then "\\\""
  else if c = '\\' then "\\\\"
  else if isPrintable c then c.toString
  else "\\u\x7b" ++ hexText c.toNat ++ "\x7d"

/-- The text between double quotes, every character in its written form. -/
def quote (s : String) : String :=
  s.toList.foldl (fun written c => written ++ escape c) "\"" ++ "\""

example : quote "it's" = "\"it's\"" := by decide +kernel

example : quote "a\"\n" = "\"a\\\"\\n\"" := by decide +kernel

end HeapStore.Text
