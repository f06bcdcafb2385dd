import TagTree.Text.Quoted

/-!
# Codecs

The encodings of text as bytes, and why bytes are no text in one of them: the place of
the first bytes that do not fit, and what is wrong with them.
-/

namespace TagTree.Text

/-- An encoding of text. Wider units stand with their most or their least significant
byte first. -/
inductive Codec where
  | utf8
  | utf16 (bigEndian : Bool)
  | utf32 (bigEndian : Bool)
  deriving DecidableEq, Repr

def Codec.name : Codec → String
  | utf8 => "utf-8"
  | utf16 false => "utf-16-le"
  | utf16 true => "utf-16-be"
  | utf32 false => "utf-32-le"
  | utf32 true => "utf-32-be"

inductive Misfit where
  | start
  | continuation
  | ending
  | truncated
  | range
  deriving DecidableEq, Repr

def Misfit.message : Misfit → String
  | start => "invalid start byte"
  | continuation => "invalid continuation byte"
  | ending => "unexpected end of data"
  | truncated => "truncated data"
  | range => "code point not in range(0x110000)"

/-- Why bytes are no text: the positions of the first and the last byte that do not fit,
and the first of these bytes. -/
structure Undecodable where
  codec : Codec
  misfit : Misfit
  first : Nat
  last : Nat
  byte : Nat
  deriving DecidableEq, Repr

def Undecodable.message (p : Undecodable) : String :=
  "'" ++ p.codec.name ++ "' codec can't decode "
    ++ (if p.first = p.last then
        "byte 0x" ++ String.ofList (hexDigits 2 p.byte) ++ " in position " ++ Nat.repr p.first
      else "bytes in position " ++ Nat.repr p.first ++ "-" ++ Nat.repr p.last)
    ++ ": " ++ p.misfit.message

/-! ### Code units -/

def isHighSurrogate (n : Nat) : Bool := 0xd800 ≤ n && n ≤ 0xdbff

def isLowSurrogate (n : Nat) : Bool := 0xdc00 ≤ n && n ≤ 0xdfff

def pairChar (high low : Nat) : Char :=
  Char.ofNat (0x10000 + (high - 0xd800) * 0x400 + (low - 0xdc00))

def unitChar (n : Nat) : Char :=
  if 0xd800 ≤ n ∧ n ≤ 0xdfff then '\ufffd' else Char.ofNat n

def joinUnits : List Nat → List Char
  | [] => []
  | [n] => [unitChar n]
  | n :: m :: rest =>
    if isHighSurrogate n && isLowSurrogate m then pairChar n m :: joinUnits rest
    else unitChar n :: joinUnits (m :: rest)

end TagTree.Text
