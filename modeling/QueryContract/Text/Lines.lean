/-!
Lines of a text: each line ends at a line feed, and a carriage return right before that line feed
belongs to the line end. The last line needs no line feed.
-/

namespace QueryContract.Text

/-- The line that a line feed ends, without a carriage return that stands last. -/
def dropCarriageReturn (line : List Char) : List Char :=
  if line.getLast? = some '\r' then line.dropLast else line

def lines (text : List Char) : List (List Char) :=
  match text.splitOn '\n' with
  | [] => []
  | first :: rest => terminated first rest
where
  /-- All pieces but the last are ended by a line feed; an empty last piece is no line. -/
  terminated (piece : List Char) : List (List Char) → List (List Char)
    | [] => if piece.isEmpty then [] else [piece]
    | next :: rest => dropCarriageReturn piece :: terminated next rest

end QueryContract.Text
