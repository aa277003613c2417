/-!
# Line ends

The three ways to end a line: a line feed, a carriage return, or both in that order.
-/

namespace TemplateLisp.Text

/-- The characters with every line end turned into a line feed. -/
def lineFeeds : List Char → List Char
  | [] => []
  | '\r' :: '\n' :: rest => '\n' :: lineFeeds rest
  | '\r' :: rest => '\n' :: lineFeeds rest
  | c :: rest => c :: lineFeeds rest

/-- The text of a file, with every line end turned into a line feed. -/
def withLineFeeds (s : String) : String := String.ofList (lineFeeds s.toList)

end TemplateLisp.Text
