/-!
# Problems in JSON text

What is wrong with a text that is not JSON, and where: the position counts
characters from zero, lines and columns count from one.
-/

namespace TagTree.Json

inductive Problem where
  | value
  | propertyName
  | colon
  | comma
  | unterminatedString
  | controlCharacter
  | escape
  | unicodeEscape
  | extraData
  | byteOrderMark
  deriving DecidableEq, Repr

def Problem.message : Problem → String
  | value => "Expecting value"
  | propertyName => "Expecting property name enclosed in double quotes"
  | colon => "Expecting ':' delimiter"
  | comma => "Expecting ',' delimiter"
  | unterminatedString => "Unterminated string starting at"
  | controlCharacter => "Invalid control character at"
  | escape => "Invalid \\escape"
  | unicodeEscape => "Invalid \\uXXXX escape"
  | extraData => "Extra data"
  | byteOrderMark => "Unexpected UTF-8 BOM (decode using utf-8-sig)"

structure Located where
  problem : Problem
  line : Nat
  column : Nat
  position : Nat
  deriving DecidableEq, Repr

namespace Located

def after (problem : Problem) (before : List Char) : Located where
  problem := problem
  line := before.count '\n' + 1
  column := (before.reverse.takeWhile (· != '\n')).length + 1
  position := before.length

def message (p : Located) : String :=
  p.problem.message ++ ": line " ++ Nat.repr p.line ++ " column " ++ Nat.repr p.column
    ++ " (char " ++ Nat.repr p.position ++ ")"

end Located

end TagTree.Json
