import Stepflow.Text.Cased
import Stepflow.Text.CaseTable

/-!
# Stepflow.Text.LetterCase — lower, upper and title case of a text

The full mappings: one letter may become several.  A capital sigma in lower case is the final form
at the end of a word, where marks that case rules skip do not count.  In title case a letter that
follows a cased letter is put in lower case, every other letter in title case.
-/

namespace Stepflow.Text

/-- The characters of a list of code points. -/
def ofCodePoints (ns : List Nat) : List Char := ns.map Char.ofNat

/-- Greek capital sigma. -/
def capitalSigma : Char := Char.ofNat 0x3A3

/-- Whether the nearest character that case rules do not skip is cased. -/
def meetsCased (cs : List Char) : Bool :=
  match cs.dropWhile isCaseIgnorable with
  | c :: _ => isCased c
  | [] => false

/-- Whether a sigma between `before` (nearest first) and `after` ends a word. -/
def endsWord (before after : List Char) : Bool := meetsCased before && !meetsCased after

/-- Lower case of one character between `before` (nearest first) and `after`. -/
def lowerChar (before : List Char) (c : Char) (after : List Char) : List Char :=
  if c.toNat < 128 then [c.toLower]
  else if c = capitalSigma then
    [Char.ofNat (if endsWord before after then 0x3C2 else 0x3C3)]
  else ofCodePoints (mapped lowerWide lowerShifts c.toNat)

/-- Lower case of a list of characters that follows `before` (nearest first). -/
def lowerFrom (before : List Char) : List Char → List Char
  | [] => []
  | c :: after => lowerChar before c after ++ lowerFrom (c :: before) after

/-- Lower case. -/
def lower (cs : List Char) : List Char := lowerFrom [] cs

/-- Upper case of one character. -/
def upperChar (c : Char) : List Char :=
  if c.toNat < 128 then [c.toUpper] else ofCodePoints (mapped upperWide upperShifts c.toNat)

/-- Upper case. -/
def upper (cs : List Char) : List Char := cs.flatMap upperChar

/-- Title case of one character. -/
def titleChar (c : Char) : List Char :=
  if c.toNat < 128 then [c.toUpper] else ofCodePoints (mapped titleWide titleShifts c.toNat)

/-- Title case of a list of characters that follows `before` (nearest first). -/
def titleFrom (before : List Char) : List Char → List Char
  | [] => []
  | c :: after =>
    let afterCased := match before with
      | b :: _ => isCased b
      | [] => false
    (if afterCased then lowerChar before c after else titleChar c) ++ titleFrom (c :: before) after

/-- Title case. -/
def title (cs : List Char) : List Char := titleFrom [] cs

end Stepflow.Text
