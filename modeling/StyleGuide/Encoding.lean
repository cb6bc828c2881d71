import StyleGuide.Text

/-! # Encodings

A file holds UTF-8 or, if its bytes are no UTF-8, Latin-1, in which each byte is a character.
-/

namespace StyleGuide

/-- How the text of a file is written in bytes. -/
inductive Encoding where
  | utf8
  | latin1
  deriving Repr, DecidableEq, BEq

namespace Encoding

/-- The encoding of some bytes and their text. -/
def decode (bytes : ByteArray) : Encoding × Text :=
  match String.fromUTF8? bytes with
  | some text => (.utf8, text.toList)
  | none => (.latin1, bytes.data.toList.map fun byte => Char.ofNat byte.toNat)

/-- The byte of a character in Latin-1, or the character if it has none. -/
def latin1Byte (c : Char) : Except Char UInt8 :=
  if c.toNat < 256 then .ok (UInt8.ofNat c.toNat) else .error c

/-- The bytes of a text, or a character that the encoding does not have. -/
def encode : Encoding → Text → Except Char ByteArray
  | .utf8, text => .ok (String.ofList text).toUTF8
  | .latin1, text => (text.mapM latin1Byte).map fun bytes => ⟨bytes.toArray⟩

end Encoding

end StyleGuide
