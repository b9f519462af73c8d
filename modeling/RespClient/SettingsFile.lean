import RespClient.Settings.Basic

/-!
# Settings files

This module belongs to the outer layer, beside the program itself: it stands for a TOML
library.  Nothing is proved about it, and nothing depends on how it reads a file, since
`Settings.ofArguments` takes whatever loads a file as an argument.

Six keys may stand in a settings file, each at most once, with a string or an integer as
its value; tables, arrays, dates, floats and other keys have no place there.  So a file
is a run of lines, blank or `key = value`, with comments, and the reader knows just these
parts of the language: bare and quoted keys, the four kinds of string, and integers in
four bases.

Readers take characters from the front and return what they read with the characters
after it.
-/

namespace RespClient.SettingsFile

/-! ## §1  Characters -/

def isSpace (c : Char) : Bool := c = ' ' || c = '\t'

/-- May the character stand in a comment or a string?  Control characters other than the
tab may not. -/
def isPlain (c : Char) : Bool := c = '\t' || (0x20 ≤ c.toNat && c.toNat ≠ 0x7F)

/-- May the character stand in a key without quotes? -/
def isBare (c : Char) : Bool := c.isAlphanum || c = '_' || c = '-'

def skipSpaces (cs : List Char) : List Char := cs.dropWhile isSpace

/-- The end of a line, or of the file. -/
def readLineEnd : List Char → Option (List Char)
  | [] => some []
  | '\n' :: rest => some rest
  | '\r' :: '\n' :: rest => some rest
  | _ => none

/-- What may stand after a value: blanks and a comment, up to the end of the line. -/
def readTrailer (cs : List Char) : Option (List Char) :=
  match skipSpaces cs with
  | '#' :: rest => readLineEnd (rest.dropWhile isPlain)
  | rest => readLineEnd rest

/-! ## §2  Strings -/

def digit? (base : Nat) (c : Char) : Option Nat :=
  let value :=
    if '0' ≤ c ∧ c ≤ '9' then some (c.toNat - '0'.toNat)
    else if 'a' ≤ c ∧ c ≤ 'f' then some (c.toNat - 'a'.toNat + 10)
    else if 'A' ≤ c ∧ c ≤ 'F' then some (c.toNat - 'A'.toNat + 10)
    else none
  value.filter (· < base)

/-- The character with this code in hexadecimal; surrogates and codes beyond the last
character are none. -/
def unicode? (digits : List Char) : Option Char := do
  let values ← digits.mapM (digit? 16)
  let code := values.foldl (16 * · + ·) 0
  if code.isValidChar then some (Char.ofNat code) else none

def escape? : Char → Option Char
  | 'b' => some '\x08'
  | 't' => some '\t'
  | 'n' => some '\n'
  | 'f' => some '\x0C'
  | 'r' => some '\r'
  | '"' => some '"'
  | '\\' => some '\\'
  | _ => none

/-- A string in double quotes, after the opening quote; `read` is what was read, last
first. -/
def readBasic (read : List Char) : List Char → Option (String × List Char)
  | '"' :: rest => some (String.ofList read.reverse, rest)
  | '\\' :: 'u' :: a :: b :: c :: d :: rest =>
    match unicode? [a, b, c, d] with
    | some x => readBasic (x :: read) rest
    | none => none
  | '\\' :: 'U' :: a :: b :: c :: d :: e :: f :: g :: h :: rest =>
    match unicode? [a, b, c, d, e, f, g, h] with
    | some x => readBasic (x :: read) rest
    | none => none
  | '\\' :: x :: rest =>
    match escape? x with
    | some x => readBasic (x :: read) rest
    | none => none
  | x :: rest => if isPlain x then readBasic (x :: read) rest else none
  | [] => none

/-- A string in single quotes, after the opening quote. -/
def readLiteral (read : List Char) : List Char → Option (String × List Char)
  | '\'' :: rest => some (String.ofList read.reverse, rest)
  | x :: rest => if isPlain x then readLiteral (x :: read) rest else none
  | [] => none

/-- Where a reader of several lines in double quotes stands. -/
inductive Fold
  | text
  /-- After a backslash that takes the line break away, which is still to come. -/
  | lineBreak
  /-- After that line break: blanks and line breaks are taken away too. -/
  | blanks
  deriving DecidableEq

/-- A string of several lines in three double quotes, after the opening ones.  Up to two
quotes may stand before the closing ones. -/
def readLongBasic (fold : Fold) (read : List Char) : List Char → Option (String × List Char)
  | [] => none
  | '\r' :: '\n' :: rest =>
    match fold with
    | .text => readLongBasic .text ('\n' :: read) rest
    | _ => readLongBasic .blanks read rest
  | '\n' :: rest =>
    match fold with
    | .text => readLongBasic .text ('\n' :: read) rest
    | _ => readLongBasic .blanks read rest
  | '"' :: '"' :: '"' :: '"' :: '"' :: rest =>
    if fold = .lineBreak then none else some (String.ofList ('"' :: '"' :: read).reverse, rest)
  | '"' :: '"' :: '"' :: '"' :: rest =>
    if fold = .lineBreak then none else some (String.ofList ('"' :: read).reverse, rest)
  | '"' :: '"' :: '"' :: rest =>
    if fold = .lineBreak then none else some (String.ofList read.reverse, rest)
  | '\\' :: 'u' :: a :: b :: c :: d :: rest =>
    match fold, unicode? [a, b, c, d] with
    | .lineBreak, _ | _, none => none
    | _, some x => readLongBasic .text (x :: read) rest
  | '\\' :: 'U' :: a :: b :: c :: d :: e :: f :: g :: h :: rest =>
    match fold, unicode? [a, b, c, d, e, f, g, h] with
    | .lineBreak, _ | _, none => none
    | _, some x => readLongBasic .text (x :: read) rest
  | '\\' :: x :: rest =>
    if fold = .lineBreak then none
    else if isSpace x then readLongBasic .lineBreak read rest
    else if x = '\n' then readLongBasic .blanks read rest
    else if x = '\r' then
      match rest with
      | '\n' :: rest => readLongBasic .blanks read rest
      | _ => none
    else
      match escape? x with
      | some x => readLongBasic .text (x :: read) rest
      | none => none
  | x :: rest =>
    if fold ≠ .text ∧ isSpace x then readLongBasic fold read rest
    else if fold ≠ .lineBreak ∧ isPlain x then readLongBasic .text (x :: read) rest
    else none

/-- A string of several lines in three single quotes, after the opening ones. -/
def readLongLiteral (read : List Char) : List Char → Option (String × List Char)
  | [] => none
  | '\r' :: '\n' :: rest => readLongLiteral ('\n' :: read) rest
  | '\'' :: '\'' :: '\'' :: '\'' :: '\'' :: rest =>
    some (String.ofList ('\'' :: '\'' :: read).reverse, rest)
  | '\'' :: '\'' :: '\'' :: '\'' :: rest => some (String.ofList ('\'' :: read).reverse, rest)
  | '\'' :: '\'' :: '\'' :: rest => some (String.ofList read.reverse, rest)
  | x :: rest =>
    if x = '\n' ∨ isPlain x then readLongLiteral (x :: read) rest else none

/-- A line break right after the opening of a long string does not count. -/
def skipFirstBreak : List Char → List Char
  | '\n' :: rest => rest
  | '\r' :: '\n' :: rest => rest
  | cs => cs

/-! ## §3  Integers -/

/-- The value of digits in a base, with single underscores between them; `afterDigit` says
whether an underscore or the end may come next. -/
def digitsFrom (base value : Nat) (afterDigit : Bool) : List Char → Option Nat
  | [] => if afterDigit then some value else none
  | '_' :: rest => if afterDigit then digitsFrom base value false rest else none
  | c :: rest =>
    match digit? base c with
    | some d => digitsFrom base (value * base + d) true rest
    | none => none

def decimal? : List Char → Option Nat
  | ['0'] => some 0
  | '0' :: _ => none
  | cs => digitsFrom 10 0 false cs

def integer? : List Char → Option Int
  | '0' :: 'x' :: rest => (digitsFrom 16 0 false rest).map fun n => (n : Int)
  | '0' :: 'o' :: rest => (digitsFrom 8 0 false rest).map fun n => (n : Int)
  | '0' :: 'b' :: rest => (digitsFrom 2 0 false rest).map fun n => (n : Int)
  | '+' :: rest => (decimal? rest).map fun n => (n : Int)
  | '-' :: rest => (decimal? rest).map fun n => -(n : Int)
  | cs => (decimal? cs).map fun n => (n : Int)

/-! ## §4  Entries -/

inductive Value
  | text (s : String)
  | integer (i : Int)
  deriving DecidableEq, Repr

/-- A value.  Integers have 64 bits. -/
def readValue : List Char → Option (Value × List Char)
  | '"' :: '"' :: '"' :: rest =>
    (readLongBasic .text [] (skipFirstBreak rest)).map fun (s, rest) => (.text s, rest)
  | '"' :: rest => (readBasic [] rest).map fun (s, rest) => (.text s, rest)
  | '\'' :: '\'' :: '\'' :: rest =>
    (readLongLiteral [] (skipFirstBreak rest)).map fun (s, rest) => (.text s, rest)
  | '\'' :: rest => (readLiteral [] rest).map fun (s, rest) => (.text s, rest)
  | cs =>
    let isPart (c : Char) : Bool := isBare c || c = '+'
    match integer? (cs.takeWhile isPart) with
    | some i =>
      if -0x8000000000000000 ≤ i ∧ i < 0x8000000000000000 then
        some (.integer i, cs.dropWhile isPart)
      else none
    | none => none

def readKey : List Char → Option (String × List Char)
  | '"' :: rest => readBasic [] rest
  | '\'' :: rest => readLiteral [] rest
  | cs => some (String.ofList (cs.takeWhile isBare), cs.dropWhile isBare)

/-- A line `key = value` with its end. -/
def readEntry (cs : List Char) : Option ((String × Value) × List Char) := do
  let (key, rest) ← readKey cs
  match skipSpaces rest with
  | '=' :: rest =>
    let (value, rest) ← readValue (skipSpaces rest)
    let rest ← readTrailer rest
    some ((key, value), rest)
  | _ => none

/-- The entries of the lines from here on; every line takes at least one character. -/
def readEntries (cs : List Char) : Option (List (String × Value)) :=
  if cs.isEmpty then some []
  else
    match readTrailer cs with
    | some rest => if _h : rest.length < cs.length then readEntries rest else none
    | none =>
      match readEntry (skipSpaces cs) with
      | some (entry, rest) =>
        if _h : rest.length < cs.length then (readEntries rest).map (entry :: ·) else none
      | none => none
  termination_by cs.length

/-! ## §5  The layer -/

def Value.below? (limit : Nat) : Value → Option Nat
  | .integer i => if 0 ≤ i ∧ i < limit then some i.toNat else none
  | .text _ => none

def Value.text? : Value → Option String
  | .text s => some s
  | .integer _ => none

/-- A value for a key that has none yet. -/
def fill {α : Type} (old new : Option α) : Option (Option α) :=
  match old, new with
  | none, some v => some (some v)
  | _, _ => none

/-- The layer with one more entry; none if the key is unknown or already set, or the
value does not fit. -/
def set (l : Layer) : String × Value → Option Layer
  | ("host", v) => (fill l.host v.text?).map fun host => { l with host }
  | ("port", v) => (fill l.port (v.below? (Nat.pow 2 32))).map fun port => { l with port }
  | ("retry_interval_ms", v) =>
    (fill l.retryInterval (v.below? (Nat.pow 2 64))).map fun retryInterval =>
      { l with retryInterval }
  | ("max_retry_delay_ms", v) =>
    (fill l.maxRetryDelay (v.below? (Nat.pow 2 64))).map fun maxRetryDelay =>
      { l with maxRetryDelay }
  | ("reply_timeout_ms", v) =>
    (fill l.replyTimeout (v.below? (Nat.pow 2 64))).map fun replyTimeout =>
      { l with replyTimeout }
  | ("log_level", v) => (fill l.logLevel v.text?).map fun logLevel => { l with logLevel }
  | _ => none

/-- The layer of a file's text; a byte order mark before it does not count. -/
def ofText? (text : String) : Option Layer :=
  let cs := match text.toList with
    | '\uFEFF' :: rest => rest
    | cs => cs
  (readEntries cs).bind fun entries => entries.foldlM set {}

/-- The layer of a file, or why it has none; `contents` is what reading it came to. -/
def load (path : String) (contents : Except String (List UInt8)) :
    Except SettingsError Layer :=
  match contents with
  | .error reason => .error (.fileRead path reason)
  | .ok bytes =>
    match Utf8.decode bytes with
    | .error _ => .error (.fileRead path "stream did not contain valid UTF-8")
    | .ok text =>
      match ofText? text with
      | some layer => .ok layer
      | none => .error (.fileParse path "not a settings file")

/-- What reading a missing file comes to. -/
def notFound : String := "No such file or directory (os error 2)"

end RespClient.SettingsFile
