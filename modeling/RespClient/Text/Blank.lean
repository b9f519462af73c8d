/-!
# Blank characters

Blank are the characters with the Unicode property `White_Space`.  Three readers use
the property: `trim` takes the blanks off both ends, `words` cuts a line at them, and
`isBlankText` asks whether nothing else is there.
-/

namespace RespClient.Blank

/-- The ranges of the property `White_Space`, both ends included. -/
def ranges : List (Nat × Nat) :=
  [(0x09, 0x0D), (0x20, 0x20), (0x85, 0x85), (0xA0, 0xA0), (0x1680, 0x1680), (0x2000, 0x200A),
   (0x2028, 0x2029), (0x202F, 0x202F), (0x205F, 0x205F), (0x3000, 0x3000)]

def isBlank (c : Char) : Bool :=
  ranges.any fun (low, high) => low ≤ c.toNat && c.toNat ≤ high

/-- The characters without the blanks before and after them. -/
def trimChars (cs : List Char) : List Char :=
  ((cs.dropWhile isBlank).reverse.dropWhile isBlank).reverse

def trim (text : String) : String := String.ofList (trimChars text.toList)

def isBlankText (text : String) : Bool := text.toList.all isBlank

/-- The words of `cs`, when the characters of `word` (last first) are already read. -/
def wordsFrom (word : List Char) : List Char → List (List Char)
  | [] => if word.isEmpty then [] else [word.reverse]
  | c :: rest =>
    if isBlank c then
      if word.isEmpty then wordsFrom [] rest else word.reverse :: wordsFrom [] rest
    else wordsFrom (c :: word) rest

/-- The words of a line: what stands between blanks. -/
def words (line : String) : List String := (wordsFrom [] line.toList).map String.ofList

end RespClient.Blank
