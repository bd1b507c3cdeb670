import AccessChain.Text.Basic
import AccessChain.Text.Printable

/-! Two written forms of a text: quoted as in diagnostics, where printable characters of all scripts show
as they are, and quoted as in JSON, in ASCII alone. In both a stray byte is written as a code point of the
surrogate range that no character has. -/
namespace AccessChain.Text

def hexDigits : Nat → Nat → List Char
  | 0, _ => []
  | width + 1, value => hexDigits width (value / 16) ++ [(value % 16).digitChar]

def strayPoint (byte : UInt8) : Nat := 0xDC00 + byte.toNat

def numericEscape (point : Nat) : List Char :=
  if point < 0x100 then '\\' :: 'x' :: hexDigits 2 point
  else if point < 0x10000 then '\\' :: 'u' :: hexDigits 4 point
  else '\\' :: 'U' :: hexDigits 8 point

def quotedSymbol (quote : Char) : Sym → List Char
  | .stray byte _ => numericEscape (strayPoint byte)
  | .char value =>
    if value == quote || value == '\\' then ['\\', value]
    else if value == '\n' then ['\\', 'n']
    else if value == '\r' then ['\\', 'r']
    else if value == '\t' then ['\\', 't']
    else if isPrintable value then [value]
    else numericEscape value.toNat

/-- Single quotes, unless the text has single quotes and no double ones. -/
def quoteFor (text : Text) : Char :=
  if text.contains (.char '\'') && !text.contains (.char '"') then '"' else '\''

def quoted (text : Text) : String :=
  let quote := quoteFor text
  String.ofList (quote :: text.flatMap (quotedSymbol quote) ++ [quote])

def unitEscape (unit : Nat) : List Char := '\\' :: 'u' :: hexDigits 4 unit

/-- Code points above U+FFFF take two escapes, those of their UTF-16 units. -/
def pointEscape (point : Nat) : List Char :=
  if point < 0x10000 then unitEscape point
  else
    let offset := point - 0x10000
    unitEscape (0xD800 + offset / 0x400) ++ unitEscape (0xDC00 + offset % 0x400)

def jsonSymbol : Sym → List Char
  | .stray byte _ => pointEscape (strayPoint byte)
  | .char value =>
    if value == '"' || value == '\\' then ['\\', value]
    else if value == '\n' then ['\\', 'n']
    else if value == '\r' then ['\\', 'r']
    else if value == '\t' then ['\\', 't']
    else if value == '\x08' then ['\\', 'b']
    else if value == '\x0c' then ['\\', 'f']
    else if ' ' ≤ value && value ≤ '~' then [value]
    else pointEscape value.toNat

def jsonString (text : Text) : String := String.ofList ('"' :: text.flatMap jsonSymbol ++ ['"'])

end AccessChain.Text
