import DepGraph.Text.Visible

/-!
# Quoted text in messages

Messages quote a string or a character so that every character in it can be told: what is not
visible on its own is written by its code point.
-/

namespace DepGraph

/-- Lowercase hexadecimal digits of a number, without leading zeros. -/
def Text.hexDigits (n : Nat) : List Char :=
  Nat.toDigits 16 n

/-- A character inside quotes `quote`. -/
def Text.escapeChar (quote c : Char) : List Char :=
  if c = '\x00' then ['\\', '0']
  else if c = '\t' then ['\\', 't']
  else if c = '\r' then ['\\', 'r']
  else if c = '\n' then ['\\', 'n']
  else if c = '\\' ∨ c = quote then ['\\', c]
  else if Text.isVisible c then [c]
  else ['\\', 'u', '\x7b'] ++ Text.hexDigits c.toNat ++ ['\x7d']

/-- A string in double quotes. -/
def Text.quoted (s : String) : String :=
  String.ofList ('"' :: s.toList.flatMap (Text.escapeChar '"') ++ ['"'])

/-- A character in single quotes. -/
def Text.quotedChar (c : Char) : String :=
  String.ofList ('\'' :: Text.escapeChar '\'' c ++ ['\''])

end DepGraph
