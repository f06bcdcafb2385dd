import TagTree.Text.Utf8
import TagTree.Text.Wide

/-!
# Sources of JSON text

Bytes that hold JSON text tell their encoding by a byte order mark or, since a text
begins with ASCII characters, by where its first bytes are zero.
-/

namespace TagTree.Json

def encodingOf (bytes : List Nat) : Text.Codec × Nat :=
  match bytes with
  | 0 :: 0 :: 0xfe :: 0xff :: _ => (.utf32 true, 4)
  | 0xff :: 0xfe :: 0 :: 0 :: _ => (.utf32 false, 4)
  | 0xfe :: 0xff :: _ => (.utf16 true, 2)
  | 0xff :: 0xfe :: _ => (.utf16 false, 2)
  | 0xef :: 0xbb :: 0xbf :: _ => (.utf8, 3)
  | 0 :: b :: _ :: _ :: _ => if b = 0 then (.utf32 true, 0) else (.utf16 true, 0)
  | _ :: 0 :: c :: d :: _ => if c = 0 ∧ d = 0 then (.utf32 false, 0) else (.utf16 false, 0)
  | [0, _] => (.utf16 true, 0)
  | [_, 0] => (.utf16 false, 0)
  | _ => (.utf8, 0)

def decode (bytes : List UInt8) : Except Text.Undecodable (List Char) :=
  let bytes := bytes.map UInt8.toNat
  match encodingOf bytes with
  | (.utf8, mark) => Text.decodeUtf8 (bytes.drop mark)
  | (.utf16 bigEndian, mark) => Text.decodeUtf16 bigEndian mark (bytes.drop mark)
  | (.utf32 bigEndian, mark) => Text.decodeUtf32 bigEndian mark (bytes.drop mark)

end TagTree.Json
