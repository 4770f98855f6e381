import Leveret.Text.Extending
import Leveret.Text.Ignorable
import Leveret.Text.Printable

/-!
# Quoted text

Text as error messages quote it: between double quotes, with the characters escaped that would
break the quotation or could not be seen.
-/

namespace Leveret.Text

def codePointEscape (c : Char) : List Char :=
  '\\' :: 'u' :: '\x7b' :: Nat.toDigits 16 c.toNat ++ ['\x7d']

/-- Whether a character by itself leaves nothing to be seen. -/
def isUnseen (c : Char) : Bool := isExtending c || isIgnorable c || !isPrintable c

def escape (c : Char) : List Char :=
  if c = '\x00' then ['\\', '0']
  else if c = '\t' then ['\\', 't']
  else if c = '\r' then ['\\', 'r']
  else if c = '\n' then ['\\', 'n']
  else if c = '"' then ['\\', '"']
  else if c = '\\' then ['\\', '\\']
  else if isUnseen c then codePointEscape c
  else [c]

def quote (text : String) : String :=
  String.ofList ('"' :: text.toList.flatMap escape ++ ['"'])

end Leveret.Text
