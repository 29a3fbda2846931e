import TaskRunner.Text.Unseen

/-!
# Quoted text

A text in double quotes, with the quote, the backslash and the common controls escaped by name and
every other unseen character by its code point. A single quote stands for itself.
-/
namespace TaskRunner.Text

/-- `\u` and the code point in lower case hexadecimal, in braces. -/
def codePoint (c : Char) : List Char :=
  '\\' :: 'u' :: '\x7b' :: Nat.toDigits 16 c.toNat ++ ['\x7d']

def quoteChar (c : Char) : List Char :=
  if c = '\x00' then ['\\', '0']
  else if c = '\t' then ['\\', 't']
  else if c = '\r' then ['\\', 'r']
  else if c = '\n' then ['\\', 'n']
  else if c = '"' then ['\\', '"']
  else if c = '\\' then ['\\', '\\']
  else if isUnseen c then codePoint c
  else [c]

def quote (s : List Char) : List Char := '"' :: s.flatMap quoteChar ++ ['"']

/-- `quote` on strings. -/
def quoted (s : String) : String := String.ofList (quote s.toList)

end TaskRunner.Text
