import DealerPay.Text.Point

/-!
# Encodings

Bytes that come without a word about how they spell characters.

* `Encoding` is a way of spelling: by the units of 8 bits in which a text is kept, or by wider units
  of 16 or 32 bits, whose bytes come in either `ByteOrder`.
* `Encoding.ofBytes` tells it from the first four bytes. The text is taken to start with characters
  of ASCII, so that a zero among these bytes is the empty half of a wider unit.
* `Text.reread?` reads the bytes of a text again in the encoding that they show. A byte order mark in
  front settles for units of 8 bits and is dropped.

Two units of 16 bits can be the halves of one character. A half that stands alone is kept as such, and
so are the bytes that would spell one.
-/

namespace DealerPay.Text

/-! ## Halves of characters -/

/-- The character of a pair of code units. -/
def pairChar (high low : Nat) : Char :=
  Char.ofNat (0x10000 + (high - 0xD800) * 0x400 + (low - 0xDC00))

/-- The points of units of 16 bits. -/
def pointsOfUnits : List Nat → List Point
  | [] => []
  | [u] => [.ofUnit u]
  | high :: low :: rest =>
    if isHighHalf high && isLowHalf low then .char (pairChar high low) :: pointsOfUnits rest
    else .ofUnit high :: pointsOfUnits (low :: rest)

/-- The largest number of a character. -/
def lastChar : Nat := 0x10FFFF

/-- The points of units of 32 bits, if none is beyond the last character. -/
def pointsOfNumbers? (us : List Nat) : Option (List Point) :=
  us.mapM fun u => if u ≤ lastChar then some (.ofUnit u) else none

/-! ## Units -/

/-- The order of the bytes of a unit. -/
inductive ByteOrder where
  /-- The byte that counts most comes first. -/
  | highFirst
  /-- The byte that counts least comes first. -/
  | lowFirst
deriving DecidableEq, Repr

/-- The unit of two parts, of which the lower one is below `base`. -/
def ByteOrder.join (o : ByteOrder) (base first second : Nat) : Nat :=
  match o with
  | highFirst => base * first + second
  | lowFirst => base * second + first

/-- Neighbours joined two by two; there is no unit of one that is left over. -/
def ByteOrder.joinPairs? (o : ByteOrder) (base : Nat) : List Nat → Option (List Nat)
  | [] => some []
  | [_] => none
  | first :: second :: rest => (o.joinPairs? base rest).map (o.join base first second :: ·)

/-- The units of 16 bits that bytes make. -/
def ByteOrder.units16? (o : ByteOrder) (bytes : List Nat) : Option (List Nat) :=
  o.joinPairs? 0x100 bytes

/-- The units of 32 bits that bytes make. -/
def ByteOrder.units32? (o : ByteOrder) (bytes : List Nat) : Option (List Nat) :=
  (o.units16? bytes).bind (o.joinPairs? 0x10000)

/-! ## Encodings -/

/-- A way of spelling characters in bytes. -/
inductive Encoding where
  /-- In units of 8 bits, as a text is kept. -/
  | narrow
  /-- In units of 16 bits, one or two for a character. -/
  | wide (o : ByteOrder)
  /-- In units of 32 bits, one for a character. -/
  | full (o : ByteOrder)
deriving DecidableEq, Repr

/-- The encoding that the first bytes show, where these spell characters of ASCII. -/
def Encoding.ofBytes : List Nat → Encoding
  | 0 :: 0 :: _ :: _ :: _ => full .highFirst
  | 0 :: _ :: _ :: _ :: _ => wide .highFirst
  | _ :: 0 :: 0 :: 0 :: _ => full .lowFirst
  | _ :: 0 :: _ :: _ :: _ => wide .lowFirst
  | [0, _] => wide .highFirst
  | [_, 0] => wide .lowFirst
  | _ => narrow

/-- The bytes in which a point is kept: a half like a character of its number. -/
def Point.bytes : Point → List Nat
  | char c => (String.utf8EncodeChar c).map UInt8.toNat
  | half h => [0xE0 + h.unit / 0x1000, 0x80 + h.unit / 0x40 % 0x40, 0x80 + h.unit % 0x40]

/-- The bytes in which points are kept. -/
def bytesOf (ps : List Point) : List Nat := ps.flatMap Point.bytes

/-- The points that the bytes of a text spell in an encoding, if they spell any. -/
def Encoding.reread? (e : Encoding) (ps : List Point) : Option (List Point) :=
  match e with
  | narrow => some ps
  | wide o => (o.units16? (bytesOf ps)).map pointsOfUnits
  | full o => (o.units32? (bytesOf ps)).bind pointsOfNumbers?

/-- The mark that a text may start with to show how it is spelled. -/
def byteOrderMark : Char := Char.ofNat 0xFEFF

/-- The points that the bytes of a text spell in the encoding that they show. -/
def reread? : List Point → Option (List Point)
  | [] => some []
  | p :: rest =>
    if p = .char byteOrderMark then some rest
    else (Encoding.ofBytes (bytesOf (p :: rest))).reread? (p :: rest)

end DealerPay.Text
