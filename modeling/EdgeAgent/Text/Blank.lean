/-! # Blank characters

The characters of the White_Space property, trimming them off a text, and
splitting a text into words and lines. -/

namespace EdgeAgent.Text

def blankRanges : List (Nat × Nat) :=
  [(0x9, 0xd), (0x20, 0x20), (0x85, 0x85), (0xa0, 0xa0), (0x1680, 0x1680), (0x2000, 0x200a),
   (0x2028, 0x2029), (0x202f, 0x202f), (0x205f, 0x205f), (0x3000, 0x3000)]

def isBlank (c : Char) : Bool :=
  blankRanges.any fun r => r.1 ≤ c.toNat && c.toNat ≤ r.2

def trimStart (cs : List Char) : List Char := cs.dropWhile isBlank

def trimChars (cs : List Char) : List Char :=
  (trimStart (trimStart cs).reverse).reverse

def trim (s : String) : String := String.ofList (trimChars s.toList)

def isBlankText (s : String) : Bool := s.toList.all isBlank

/-! ## Splitting -/

/-- Splits at every separator; one more piece than there are separators. -/
def splitChars (sep : Char → Bool) : List Char → List (List Char)
  | [] => [[]]
  | c :: rest =>
    match splitChars sep rest with
    | [] => [[c]]
    | piece :: more => if sep c then [] :: piece :: more else (c :: piece) :: more

def words (s : String) : List String :=
  ((splitChars isBlank s.toList).filter (!·.isEmpty)).map String.ofList

/-- A line feed ends a line, and takes a carriage return before it along. An
empty rest after the last line feed is no line. -/
def lines (s : String) : List String :=
  let pieces := splitChars (· == '\n') s.toList
  let ended := pieces.dropLast.map fun p =>
    String.ofList (if p.getLast? = some '\r' then p.dropLast else p)
  match pieces.getLast? with
  | none | some [] => ended
  | some rest => ended ++ [String.ofList rest]

end EdgeAgent.Text
