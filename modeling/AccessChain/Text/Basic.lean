/-! Decoded texts. A text is a list of symbols: Unicode scalar values and stray bytes, the bytes that
belong to no well-formed UTF-8 sequence. Every offset in bytes refers to `Text.encode`, which gives
a stray byte back as itself. -/
namespace AccessChain

inductive Sym where
  | char (value : Char)
  | stray (byte : UInt8) (high : 0x80 ≤ byte)
deriving DecidableEq

abbrev Text := List Sym

namespace Sym

def bytes : Sym → List UInt8
  | .char value => String.utf8EncodeChar value
  | .stray byte _ => [byte]

def width (symbol : Sym) : Nat := symbol.bytes.length

/-- The test that a class of characters extends to symbols: no stray byte is in any class. -/
def satisfies (test : Char → Bool) : Sym → Bool
  | .char value => test value
  | .stray _ _ => false

def isAscii (symbol : Sym) : Bool := symbol.satisfies fun value => value.toNat < 0x80

theorem width_pos (symbol : Sym) : 0 < symbol.width := by
  cases symbol with
  | char value => simp [width, bytes]; exact Char.utf8Size_pos value
  | stray byte high => simp [width, bytes]

end Sym

/-- What holds of all characters of a list is decided along the list, not along all the characters there are. -/
instance decidableAllChars (characters : List Char) (property : Char → Prop) [DecidablePred property] :
    Decidable (∀ character ∈ characters, property character) := List.decidableBAll property characters

namespace Text

/-- What holds of the first 128 code points holds of the characters of ASCII. -/
theorem forall_ascii (property : Char → Prop) (all : ∀ point < 0x80, property (Char.ofNat point)) (value : Char)
    (ascii : value.toNat < 0x80) : property value := by
  have here := all value.toNat ascii
  rwa [Char.ofNat_toNat] at here

def ofChars (characters : List Char) : Text := characters.map Sym.char

def ofString (string : String) : Text := ofChars string.toList

def chars? (text : Text) : Option (List Char) :=
  text.mapM fun
    | .char value => some value
    | .stray _ _ => none

def encode (text : Text) : List UInt8 := text.flatMap Sym.bytes

def byteLength (text : Text) : Nat := (encode text).length

def startsWith (characters : List Char) (text : Text) : Bool := (ofChars characters).isPrefixOf text

def countWhile (test : Sym → Bool) (text : Text) : Nat := (text.takeWhile test).length

def trim (test : Sym → Bool) (text : Text) : Text :=
  ((text.dropWhile test).reverse.dropWhile test).reverse

@[simp] theorem encode_nil : encode [] = [] := rfl

@[simp] theorem encode_cons (symbol : Sym) (text : Text) :
    encode (symbol :: text) = symbol.bytes ++ encode text := rfl

@[simp] theorem encode_append (left right : Text) :
    encode (left ++ right) = encode left ++ encode right := by
  simp [encode]

@[simp] theorem byteLength_nil : byteLength [] = 0 := rfl

@[simp] theorem byteLength_cons (symbol : Sym) (text : Text) :
    byteLength (symbol :: text) = symbol.width + byteLength text := by
  simp [byteLength, Sym.width]

@[simp] theorem byteLength_append (left right : Text) :
    byteLength (left ++ right) = byteLength left + byteLength right := by
  simp [byteLength]

end Text
end AccessChain
