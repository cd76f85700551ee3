/-!
Letters, digits and letter case of the ASCII range. Case folding never touches a character beyond it.
-/

namespace QueryContract.Text

def lowercase (text : List Char) : List Char := text.map Char.toLower

def uppercase (text : List Char) : List Char := text.map Char.toUpper

/-- Equality that disregards the case of ASCII letters. -/
def sameIgnoringCase (left right : List Char) : Bool := lowercase left == lowercase right

def isNameStart (c : Char) : Bool := c.isAlpha || c == '_'

def isNamePart (c : Char) : Bool := c.isAlphanum || c == '_'

def isName : List Char → Bool
  | [] => false
  | c :: rest => isNameStart c && rest.all isNamePart

theorem lowercase_append (left right : List Char) :
    lowercase (left ++ right) = lowercase left ++ lowercase right := by
  simp [lowercase]

end QueryContract.Text
