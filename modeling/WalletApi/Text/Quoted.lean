import WalletApi.Text.Printable

/-!
# Quoted text

A message that names a piece of text quotes it, so that the reader sees where it begins and ends and
which characters it holds. Strings stand between double quotes and single characters between single
quotes; a backslash starts an escape for the quote in use, for the backslash and for what cannot be
seen.
-/

namespace WalletApi.Text

/-- One character inside quotes of the given kind. -/
def escaped (quote c : Char) : List Char :=
  if c = quote || c = '\\' then ['\\', c]
  else if c = '\t' then ['\\', 't']
  else if c = '\n' then ['\\', 'n']
  else if c = '\r' then ['\\', 'r']
  else if c = '\x00' then ['\\', '0']
  else if isPrintable c then [c]
  else '\\' :: 'u' :: '\x7b' :: (Nat.toDigits 16 c.toNat ++ ['\x7d'])

/-- A text between double quotes. -/
def quote (s : String) : String :=
  String.ofList ('"' :: (s.toList.flatMap (escaped '"') ++ ['"']))

/-- A character between single quotes. -/
def quoteChar (c : Char) : String :=
  String.ofList ('\'' :: (escaped '\'' c ++ ['\'']))

end WalletApi.Text
