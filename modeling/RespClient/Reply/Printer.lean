import RespClient.Reply.Basic

/-!
# Replies in print

The text a terminal user sees.  Strings stand in quotes, verbatim; an array has one
numbered line per element, and a nested array continues inside its element's line.
-/

namespace RespClient

mutual
def Data.print : Data → String
  | .nil => "(nil)"
  | .text s => "\"" ++ s ++ "\""
  | .integer i => "(integer) " ++ toString i.toInt
  | .array [] => "(empty array)"
  | .array (x :: xs) => "1) " ++ Data.print x ++ Data.printFrom 2 xs

/-- The elements of an array from number `n` on, each on a line of its own. -/
def Data.printFrom : Nat → List Data → String
  | _, [] => ""
  | n, x :: xs => "\n" ++ toString n ++ ") " ++ Data.print x ++ Data.printFrom (n + 1) xs
end

/-- The reply in print; an error line's text stands without quotes. -/
def Reply.print : Reply → String
  | .success data => data.print
  | .fail (.text s) => "(error) " ++ s
  | .fail data => "(error) " ++ data.print
  | .error message (some code) => "(client error " ++ toString code ++ ") " ++ message
  | .error message none => "(client error) " ++ message

def Reply.Status.name : Reply.Status → String
  | .success => "success"
  | .fail => "fail"
  | .error => "error"

end RespClient
