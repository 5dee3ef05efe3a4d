import Runbook.Text.Basic

/-!
# What a file holds

Files are read as UTF-8, and every kind of line ending becomes a line feed.
-/

namespace Runbook.File

/-- A text with a line feed for each carriage return, one that follows it included. -/
def withLineFeeds : List Char → List Char
  | [] => []
  | '\r' :: '\n' :: rest => '\n' :: withLineFeeds rest
  | c :: rest => (if c = '\r' then '\n' else c) :: withLineFeeds rest

/-- The text of bytes, if they are one. -/
def textOf? (data : ByteArray) : Option (List Char) :=
  (String.fromUTF8? data).map fun s => withLineFeeds s.toList

end Runbook.File
