import Interchange.Text.Unprintable
import Interchange.Text.GraphemeExtend
/-!
Quoted text, as positions in messages and paths show a key: every character
that cannot be read off the page is escaped, so two keys never look alike. The
apostrophe is left alone.
-/
namespace Interchange.Text

/-- An escape by code point, in lower-case hexadecimal. -/
def codePointEscape (character : Char) : List Char :=
  '\\' :: 'u' :: '\x7b' :: (Nat.toDigits 16 character.toNat ++ ['\x7d'])

-- The halfwidth voicing marks extend a grapheme as well, but they have a width of their own.
def isVoicingMark (character : Char) : Bool := character = '\uff9e' || character = '\uff9f'

/-- A mark that would merge with the character before it, were it written out. -/
def isMerging (character : Char) : Bool := isGraphemeExtend character && !isVoicingMark character

def quoteChar (character : Char) : List Char :=
  if character = '"' then ['\\', '"']
  else if character = '\\' then ['\\', '\\']
  else if character = '\n' then ['\\', 'n']
  else if character = '\r' then ['\\', 'r']
  else if character = '\t' then ['\\', 't']
  else if character = '\x00' then ['\\', '0']
  else if isMerging character || isUnprintable character then codePointEscape character
  else [character]

def quoteChars (text : List Char) : List Char := '"' :: (text.flatMap quoteChar ++ ['"'])

def quote (text : String) : String := String.ofList (quoteChars text.toList)

end Interchange.Text
