import AccountCensus.Text.Unprintable

/-!
# Quoted texts

A text in messages stands between double quotes. A quote or a backslash in it follows a backslash,
the usual control characters have their short forms, and any other character without a form of
its own is written as its code point in braces.
-/

namespace AccountCensus.Text

def quoteChar (c : Char) : List Char :=
  if c = '"' then ['\\', '"']
  else if c = '\\' then ['\\', '\\']
  else if c = '\n' then ['\\', 'n']
  else if c = '\r' then ['\\', 'r']
  else if c = '\t' then ['\\', 't']
  else if c = '\x00' then ['\\', '0']
  else if isUnprintable c then ['\\', 'u', '\x7b'] ++ Nat.toDigits 16 c.toNat ++ ['\x7d']
  else [c]

def quoted (s : String) : String := String.ofList ('"' :: s.toList.flatMap quoteChar ++ ['"'])

end AccountCensus.Text
