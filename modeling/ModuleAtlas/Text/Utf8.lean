/-! # UTF-8

A byte sequence is read as a list of pieces: characters, spans that no character can start
with, and a character cut off by the end of the input.  The strict reader refuses at the first
piece that is no character and says where; the lenient reader puts U+FFFD in its place.

The reader is a machine over single octets: between characters, or inside a character of which
some octets are still owed and whose next octet must lie in a range.
-/
namespace ModuleAtlas

/-- A sequence of octets. -/
abbrev Bytes := List UInt8

namespace Utf8

/-- A character whose first octets have been read. -/
structure Pending where
  /-- Octets still to come, at least one. -/
  owed : Nat
  /-- Least value of the next octet. -/
  low : Nat
  /-- Greatest value of the next octet. -/
  high : Nat
  /-- The code point bits read so far. -/
  value : Nat
  /-- Octets read so far. -/
  taken : Nat

/-- What one octet means between characters. -/
inductive Lead where
  /-- A character of its own. -/
  | whole (c : Char)
  /-- The first octet of a longer character. -/
  | opens (p : Pending)
  /-- No character starts so. -/
  | stray

/-- Reads an octet between characters.  The second octet's range keeps out overlong forms,
surrogates and code points above U+10FFFF. -/
def lead (b : UInt8) : Lead :=
  let n := b.toNat
  if n < 0x80 then .whole (Char.ofNat n)
  else if n < 0xC2 then .stray
  else if n < 0xE0 then .opens ⟨1, 0x80, 0xBF, n - 0xC0, 1⟩
  else if n = 0xE0 then .opens ⟨2, 0xA0, 0xBF, 0, 1⟩
  else if n = 0xED then .opens ⟨2, 0x80, 0x9F, n - 0xE0, 1⟩
  else if n < 0xF0 then .opens ⟨2, 0x80, 0xBF, n - 0xE0, 1⟩
  else if n = 0xF0 then .opens ⟨3, 0x90, 0xBF, 0, 1⟩
  else if n < 0xF4 then .opens ⟨3, 0x80, 0xBF, n - 0xF0, 1⟩
  else if n = 0xF4 then .opens ⟨3, 0x80, 0x8F, n - 0xF0, 1⟩
  else .stray

/-- What a byte sequence consists of. -/
inductive Piece where
  /-- A whole character. -/
  | char (c : Char)
  /-- That many octets which start no character. -/
  | invalid (length : Nat)
  /-- A character that the end of the input cuts off. -/
  | cut
deriving DecidableEq, Repr

/-- The pieces of a byte sequence, read from between characters (`none`) or from inside one.
An octet that cannot continue a character is read again as a first octet. -/
def pieces : Option Pending → Bytes → List Piece
  | none, [] => []
  | some _, [] => [.cut]
  | none, b :: bs =>
    match lead b with
    | .whole c => .char c :: pieces none bs
    | .opens p => pieces (some p) bs
    | .stray => .invalid 1 :: pieces none bs
  | some p, b :: bs =>
    if p.low ≤ b.toNat ∧ b.toNat ≤ p.high then
      let value := p.value * 64 + (b.toNat - 0x80)
      if p.owed ≤ 1 then .char (Char.ofNat value) :: pieces none bs
      else pieces (some ⟨p.owed - 1, 0x80, 0xBF, value, p.taken + 1⟩) bs
    else
      .invalid p.taken ::
        match lead b with
        | .whole c => .char c :: pieces none bs
        | .opens q => pieces (some q) bs
        | .stray => .invalid 1 :: pieces none bs

/-- Why and where a byte sequence is not UTF-8. -/
structure Malformed where
  /-- The octets before this position are well formed. -/
  position : Nat
  /-- The length of the span that is no character, or `none` when the input ends too early. -/
  length : Option Nat
deriving DecidableEq, Repr

/-- The wording of a decoding failure. -/
def Malformed.message (m : Malformed) : String :=
  match m.length with
  | some n => s!"invalid utf-8 sequence of {n} bytes from index {m.position}"
  | none => s!"incomplete utf-8 byte sequence from index {m.position}"

/-- The characters of a list of pieces that starts at `position`, or the first piece that is no
character. -/
def collect (position : Nat) : List Piece → Except Malformed (List Char)
  | [] => .ok []
  | .char c :: rest => (collect (position + c.utf8Size) rest).map (c :: ·)
  | .invalid n :: _ => .error ⟨position, some n⟩
  | .cut :: _ => .error ⟨position, none⟩

/-- Reads UTF-8 and refuses everything else. -/
def decode (bytes : Bytes) : Except Malformed String :=
  (collect 0 (pieces none bytes)).map String.ofList

/-- The character that stands for a piece in lenient reading. -/
def Piece.lenient : Piece → Char
  | .char c => c
  | .invalid _ => '\uFFFD'
  | .cut => '\uFFFD'

/-- Reads UTF-8, with U+FFFD for every piece that is no character. -/
def decodeLenient (bytes : Bytes) : String :=
  String.ofList ((pieces none bytes).map Piece.lenient)

/-- The UTF-8 octets of a text. -/
def encode (s : String) : Bytes :=
  s.toList.flatMap String.utf8EncodeChar

end Utf8
end ModuleAtlas
