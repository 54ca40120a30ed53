/-!
# Lines

A line ends at a line feed, and a carriage return directly before the line feed belongs to the end.
Text after the last line feed is a line of its own unless it is empty.
-/
namespace Phrasebook.Text

def withoutReturn (line : List Char) : List Char :=
  if line.getLast? = some '\r' then line.dropLast else line

def lines (s : List Char) : List (List Char) :=
  go [] s
where
  go (before : List Char) : List Char → List (List Char)
    | [] => if before.isEmpty then [] else [before.reverse]
    | c :: rest =>
      if c = '\n' then withoutReturn before.reverse :: go [] rest else go (c :: before) rest

end Phrasebook.Text
