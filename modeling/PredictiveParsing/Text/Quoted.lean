import PredictiveParsing.Text.Basic
import PredictiveParsing.Text.Printable

/-!
# Quoted texts

A quoted text stands between two delimiters. The delimiter, the backslash and the usual controls
have two-character escapes, and any other scalar that does not print as itself is written as its
code in hexadecimal digits between braces.
-/

namespace PredictiveParsing.Text

/-- The hexadecimal digits of a number, in lower case. -/
def hexDigits (n : Nat) : Text :=
  Nat.toDigits 16 n

/-- The written form of one scalar between the delimiters `delimiter`. -/
def escape (delimiter : Char) (c : Char) : Text :=
  if c = '\x00' then ['\\', '0']
  else if c = '\t' then ['\\', 't']
  else if c = '\r' then ['\\', 'r']
  else if c = '\n' then ['\\', 'n']
  else if c = '\\' then ['\\', '\\']
  else if c = delimiter then ['\\', delimiter]
  else if isPrintable c then [c]
  else '\\' :: 'u' :: '\x7b' :: (hexDigits c.toNat ++ ['\x7d'])

/-- A text between two delimiters. -/
def enclose (delimiter : Char) (text : Text) : Text :=
  delimiter :: (text.flatMap (escape delimiter) ++ [delimiter])

/-- A text between double quotes. -/
def quoted (text : Text) : String :=
  String.ofList (enclose '"' text)

/-- A scalar between single quotes. -/
def quotedChar (c : Char) : String :=
  String.ofList (enclose '\'' [c])

example : quoted "a\"'\n\u00a0".toList = "\"a\\\"'\\n\\u\x7ba0\x7d\"" := by decide +kernel

example : quotedChar '\'' = "'\\''" := by decide +kernel

end PredictiveParsing.Text

namespace PredictiveParsing

/-- A name between double quotes. -/
def quotedName (name : String) : String :=
  Text.quoted name.toList

/-- A list between two delimiters, its items separated by commas. -/
def commaSeparated (opening closing : String) (items : List String) : String :=
  opening ++ String.intercalate ", " items ++ closing

end PredictiveParsing
