import RespClient.Prompt
import RespClient.SettingsFile
import RespClient.Text.Utf8

/-!
# The prompt in a terminal

A run of the program: bytes in, text out.  Without settings there is no prompt; a line
that is no text ends the prompt, after everything before it has been answered.
-/

namespace RespClient.Terminal

/-! ## §1  Input -/

/-- The lines of an input, each with its `LF`; `line` is what is read of the first one,
last byte first. -/
def linesFrom (line : List UInt8) : List UInt8 → List (List UInt8)
  | [] => if line.isEmpty then [] else [line.reverse]
  | b :: rest =>
    if b = 0x0A then (b :: line).reverse :: linesFrom [] rest else linesFrom (b :: line) rest

/-- A line without its end, which is `LF` or `CR LF`. -/
def withoutEnd (line : List UInt8) : List UInt8 :=
  match line.reverse with
  | 0x0A :: 0x0D :: rest | 0x0A :: rest => rest.reverse
  | _ => line

/-- The lines up to the first that is no text, and its fault.  A line's end is not part of
its text, so a character that the end cuts off is incomplete. -/
def readLines : List (List UInt8) → List String × Option Utf8.Fault
  | [] => ([], none)
  | line :: rest =>
    match Utf8.decode (withoutEnd line) with
    | .error fault => ([], some fault)
    | .ok text =>
      let (lines, fault) := readLines rest
      (text :: lines, fault)

/-! ## §2  Output -/

structure Exit where
  stdout : String := ""
  stderr : String := ""
  code : Nat := 0
  deriving DecidableEq, Repr

/-- The text with four blanks before each line. -/
def indent (text : String) : String :=
  "    " ++ String.ofList (text.toList.flatMap fun c => if c = '\n' then "\n    ".toList else [c])

def settingsReport (e : SettingsError) : String :=
  "Error: invalid configuration\n\nCaused by:\n" ++ indent e.message ++ "\n"

/-- How a line that is no text is reported. -/
def inputReport (fault : Utf8.Fault) : String := "Error: " ++ fault.message ++ "\n"

/-- A run of the program, given the replies to its requests. -/
def run (settings : Except SettingsError Settings) (input : List UInt8) (replies : Nat → Reply) :
    Exit :=
  match settings with
  | .error e => { stderr := settingsReport e, code := 1 }
  | .ok _ =>
    let (lines, fault) := readLines (linesFrom [] input)
    let printed := (({} : Prompt).converse replies lines).printed
    let stdout := String.join (printed.map (· ++ "\n"))
    match fault with
    | some fault => { stdout, stderr := inputReport fault, code := 1 }
    | none => { stdout }

/-- The replies when no server can be reached: each submission fails during the retry
delay. -/
def unreachable : Nat → Reply := fun _ => .socketClosed

end RespClient.Terminal
