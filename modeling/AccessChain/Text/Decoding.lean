import AccessChain.Text.Basic

/-! Reading bytes as UTF-8. At each position the character whose encoding starts there is read; where
there is none, one byte is kept as a stray byte and reading goes on behind it. -/
namespace AccessChain.Text

/-- The code point that the payload bits of a sequence spell, whether or not it is well formed. -/
def spelled : List UInt8 → Nat
  | [a] => a.toNat
  | [a, b] => (a.toNat - 0xC0) * 0x40 + (b.toNat - 0x80)
  | [a, b, c] => (a.toNat - 0xE0) * 0x1000 + (b.toNat - 0x80) * 0x40 + (c.toNat - 0x80)
  | [a, b, c, d] =>
    (a.toNat - 0xF0) * 0x40000 + (b.toNat - 0x80) * 0x1000 + (c.toNat - 0x80) * 0x40 + (d.toNat - 0x80)
  | _ => 0

/-- The character whose encoding is exactly these bytes. Overlong forms, surrogates and values above
U+10FFFF are no character's encoding. -/
def charOf? (piece : List UInt8) : Option Char :=
  let value := Char.ofNat (spelled piece)
  if String.utf8EncodeChar value = piece then some value else none

def multibyte? (bytes : List UInt8) : Option Char :=
  [2, 3, 4].findSome? fun size => charOf? (bytes.take size)

def decode : List UInt8 → Text
  | [] => []
  | byte :: rest =>
    if low : byte < 0x80 then .char (Char.ofNat byte.toNat) :: decode rest
    else
      match multibyte? (byte :: rest) with
      | some value => .char value :: decode (rest.drop (value.utf8Size - 1))
      | none => .stray byte (UInt8.not_lt.mp low) :: decode rest
termination_by bytes => bytes.length

def decodeStrict? (bytes : List UInt8) : Option Text :=
  let text := decode bytes
  if text.all (·.satisfies fun _ => true) then some text else none

end AccessChain.Text
