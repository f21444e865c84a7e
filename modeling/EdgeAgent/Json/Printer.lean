import EdgeAgent.Json.Value
import EdgeAgent.Number.Shortest

/-! # Writing JSON

A value as text, on one line or indented by two blanks. Only the quote, the
backslash and controls are escaped. -/

namespace EdgeAgent.Json

/-- Doubles from `10 ^ -5` to below `10 ^ 16` are written without an exponent. -/
def doubleLayout : Shortest.Layout := ⟨-5, 15, "e+", "e-"⟩

namespace Printer

def hexDigit (n : Nat) : Char :=
  if n < 10 then Char.ofNat ('0'.toNat + n) else Char.ofNat ('a'.toNat + (n - 10))

def escape (c : Char) : List Char :=
  match c with
  | '"' => ['\\', '"']
  | '\\' => ['\\', '\\']
  | '\n' => ['\\', 'n']
  | '\r' => ['\\', 'r']
  | '\t' => ['\\', 't']
  | '\x08' => ['\\', 'b']
  | '\x0c' => ['\\', 'f']
  | c =>
    if c.toNat < 0x20 then
      ['\\', 'u', '0', '0', hexDigit (c.toNat / 16), hexDigit (c.toNat % 16)]
    else [c]

def text (s : String) : List Char := '"' :: s.toList.flatMap escape ++ ['"']

def scalar : Json → List Char
  | .null => "null".toList
  | .bool true => "true".toList
  | .bool false => "false".toList
  | .int n => (toString n).toList
  | .double x => (doubleLayout.double x).toList
  | .str s => text s
  | .arr _ => []
  | .obj _ => []

def separate (sep : List Char) : List (List Char) → List Char
  | [] => []
  | [p] => p
  | p :: rest => p ++ sep ++ separate sep rest

mutual
def compact : Json → List Char
  | .arr items => '[' :: separate [','] (compactItems items) ++ [']']
  | .obj members => '\x7b' :: separate [','] (compactMembers members) ++ ['\x7d']
  | v => scalar v

def compactItems : List Json → List (List Char)
  | [] => []
  | v :: rest => compact v :: compactItems rest

def compactMembers : List (String × Json) → List (List Char)
  | [] => []
  | (n, v) :: rest => (text n ++ ':' :: compact v) :: compactMembers rest
end

def newline (level : Nat) : List Char := '\n' :: List.replicate (2 * level) ' '

mutual
def pretty (level : Nat) : Json → List Char
  | .arr [] => ['[', ']']
  | .arr (v :: rest) =>
    '[' :: newline (level + 1) ++
      separate (',' :: newline (level + 1)) (prettyItems (level + 1) (v :: rest)) ++
      newline level ++ [']']
  | .obj [] => ['\x7b', '\x7d']
  | .obj (m :: rest) =>
    '\x7b' :: newline (level + 1) ++
      separate (',' :: newline (level + 1)) (prettyMembers (level + 1) (m :: rest)) ++
      newline level ++ ['\x7d']
  | v => scalar v

def prettyItems (level : Nat) : List Json → List (List Char)
  | [] => []
  | v :: rest => pretty level v :: prettyItems level rest

def prettyMembers (level : Nat) : List (String × Json) → List (List Char)
  | [] => []
  | (n, v) :: rest => (text n ++ ':' :: ' ' :: pretty level v) :: prettyMembers level rest
end

end Printer

def compress (v : Json) : String := String.ofList (Printer.compact v)

def prettyText (v : Json) : String := String.ofList (Printer.pretty 0 v)

end EdgeAgent.Json
