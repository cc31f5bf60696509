import WalletApi.Url.Percent

/-!
# Form encoding

A list of names with values written as the query of an address: a name and its value stand on both
sides of an equals sign, pairs between ampersands, a blank as a plus sign, and every byte that is no
letter, digit, star, hyphen, point or underscore in percent encoding.
-/

namespace WalletApi.Form

/-- The characters that stand for themselves. -/
def isPlain (c : Char) : Bool :=
  c.isAlphanum || c == '*' || c == '-' || c == '.' || c == '_'

/-- A character of a name or value. -/
def encodeChar (c : Char) : List Char :=
  if c = ' ' then ['+'] else Percent.encodeChar (fun c => !isPlain c) c

/-- A name or value. -/
def encodeText (cs : List Char) : List Char := cs.flatMap encodeChar

/-- A pair. -/
def encodePair (p : String × String) : List Char :=
  encodeText p.1.toList ++ '=' :: encodeText p.2.toList

/-- **A list of pairs.** -/
def encode : List (String × String) → List Char
  | [] => []
  | [p] => encodePair p
  | p :: rest => encodePair p ++ '&' :: encode rest

end WalletApi.Form
