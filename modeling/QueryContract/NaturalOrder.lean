/-!
Natural order of texts: runs of digits compare by the number they write, all other characters by
their code point. Of two runs that write the same number the shorter one comes first.
-/

namespace QueryContract.NaturalOrder

/-- What is compared as one: a whole run of digits, or a character that is no digit. -/
inductive Piece where
  | digits (run : List Char)
  | other (c : Char)
  deriving DecidableEq, Repr

def addDigit (c : Char) : List Piece → List Piece
  | .digits run :: rest => .digits (c :: run) :: rest
  | pieces => .digits [c] :: pieces

def pieces : List Char → List Piece
  | [] => []
  | c :: rest => if c.isDigit then addDigit c (pieces rest) else .other c :: pieces rest

def significant (run : List Char) : List Char := run.dropWhile (· == '0')

/-- Without leading zeros the longer run writes the greater number. -/
def compareRuns (left right : List Char) : Ordering :=
  (compare (significant left).length (significant right).length).then <|
    (compare (significant left) (significant right)).then (compare left.length right.length)

/-- A run stands among the other characters where the digits stand. -/
def Piece.compare : Piece → Piece → Ordering
  | digits left, digits right => compareRuns left right
  | digits _, other c => Ord.compare '0' c
  | other c, digits _ => Ord.compare c '0'
  | other c, other d => Ord.compare c d

end NaturalOrder

def naturalOrder (left right : String) : Ordering :=
  List.compareLex NaturalOrder.Piece.compare (NaturalOrder.pieces left.toList)
    (NaturalOrder.pieces right.toList)

end QueryContract
