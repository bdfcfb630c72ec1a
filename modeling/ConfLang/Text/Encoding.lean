/-!
# Decoding bytes

`Text.decode` reads as many characters as a sequence of bytes starts with, and
tells where the first invalid byte is.
-/

namespace ConfLang.Text

/-- The text that a sequence of bytes starts with. -/
structure Decoded where
  characters : List Char
  /-- The offset of the first byte that does not belong to a valid encoding. -/
  invalidAt : Option Nat
  deriving DecidableEq, Repr

/-- The characters encoded from an offset on, up to the first invalid byte. -/
def decodeFrom (bytes : ByteArray) (offset : Nat) : Decoded :=
  if offset < bytes.size then
    match bytes.utf8DecodeChar? offset with
    | some character =>
      let decoded := decodeFrom bytes (offset + character.utf8Size)
      { decoded with characters := character :: decoded.characters }
    | none => ⟨[], some offset⟩
  else
    ⟨[], none⟩
termination_by bytes.size - offset
decreasing_by
  have := character.utf8Size_pos
  omega

/-- The characters of the longest valid start of a sequence of bytes. -/
def decode (bytes : ByteArray) : Decoded :=
  decodeFrom bytes 0

end ConfLang.Text
