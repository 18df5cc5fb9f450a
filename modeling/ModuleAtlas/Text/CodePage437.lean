import ModuleAtlas.Text.Utf8

/-! # Code page 437

The character set of archive entry names that are not marked as UTF-8.  The lower half is
ASCII; the upper half is a table.
-/
namespace ModuleAtlas.CodePage437

/-- The characters of the octets 80 to FF. -/
def upperHalf : List Char :=
  ("ÇüéâäàåçêëèïîìÄÅÉæÆôöòûùÿÖÜ¢£¥₧ƒ" ++
   "áíóúñÑªº¿⌐¬½¼¡«»░▒▓│┤╡╢╖╕╣║╗╝╜╛┐" ++
   "└┴┬├─┼╞╟╚╔╩╦╠═╬╧╨╤╥╙╘╒╓╫╪┘┌█▄▌▐▀" ++
   "αßΓπΣσµτΦΘΩδ∞φε∩≡±≥≤⌠⌡÷≈°∙·√ⁿ²■\u00a0").toList

/-- The character of one octet. -/
def decodeOctet (b : UInt8) : Char :=
  if b.toNat < 0x80 then Char.ofNat b.toNat
  else (upperHalf[b.toNat - 0x80]?).getD '\uFFFD'

/-- The text of an octet sequence; every octet is a character. -/
def decode (bytes : Bytes) : String :=
  String.ofList (bytes.map decodeOctet)

end ModuleAtlas.CodePage437
