import TraceLoad.Text.Printable

/-! # Quoted texts

A text is quoted in messages so that its extent and its invisible characters show: it stands in
double quotes, a quote or backslash in it is marked by a backslash, and a character that does not
show by itself is named by a letter or by its code point. Single quotes and printable characters
of any script stand for themselves.
-/

namespace TraceLoad.Text

/-- How one character is written between the quotes. -/
def quoteChar (c : Char) : List Char :=
  if c = '"' then ['\\', '"']
  else if c = '\\' then ['\\', '\\']
  else if c = '\n' then ['\\', 'n']
  else if c = '\r' then ['\\', 'r']
  else if c = '\t' then ['\\', 't']
  else if c.toNat = 0 then ['\\', '0']
  else if isPrintable c then [c]
  else ['\\', 'u', '\x7b'] ++ Nat.toDigits 16 c.toNat ++ ['\x7d']

def quote (text : String) : String :=
  String.ofList ('"' :: text.toList.flatMap quoteChar ++ ['"'])

/-- Quoted texts between brackets. -/
def quoteList (texts : List String) : String :=
  "[" ++ String.intercalate ", " (texts.map quote) ++ "]"

end TraceLoad.Text
