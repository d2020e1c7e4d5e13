/-!
# Texts as bytes

Files and streams hold bytes, which spell a text in UTF-8 or spell none. Decoding stops at the
first sequence of bytes that is no character, or puts a replacement character in place of every
such sequence.
-/

namespace Fettle.Text

/-- A sequence of bytes. -/
abbrev Octets := List UInt8

/-- The bytes of a text. -/
def encode (s : String) : Octets := s.toUTF8.toList

/-- What stands at the front of some bytes. -/
inductive Front where
  /-- A character, and the number of its bytes. -/
  | char (c : Char) (size : Nat)
  /-- The beginning of a character that the end of the bytes cuts off. -/
  | incomplete
  /-- Bytes that begin no character; `size` of them belong together. -/
  | invalid (size : Nat)
deriving DecidableEq, Inhabited, Repr

/-- A byte that continues a character lies between two bounds. -/
def continues (low high : UInt8) (b : UInt8) : Bool := low ≤ b && b ≤ high

/-- The payload of a byte that continues a character. -/
def payload (b : UInt8) : Nat := b.toNat % 64

/-- The bounds of the second byte of a character, and the number of its bytes, by its first. -/
def leadBounds (b : UInt8) : Option (UInt8 × UInt8 × Nat) :=
  if 0xC2 ≤ b ∧ b ≤ 0xDF then some (0x80, 0xBF, 2)
  else if b = 0xE0 then some (0xA0, 0xBF, 3)
  else if b = 0xED then some (0x80, 0x9F, 3)
  else if 0xE1 ≤ b ∧ b ≤ 0xEF then some (0x80, 0xBF, 3)
  else if b = 0xF0 then some (0x90, 0xBF, 4)
  else if 0xF1 ≤ b ∧ b ≤ 0xF3 then some (0x80, 0xBF, 4)
  else if b = 0xF4 then some (0x80, 0x8F, 4)
  else none

/-- What stands at the front of a byte and the bytes after it. -/
def front (b : UInt8) (rest : Octets) : Front :=
  if b < 0x80 then .char (Char.ofNat b.toNat) 1
  else match leadBounds b with
    | none => .invalid 1
    | some (low, high, size) =>
      match rest with
      | [] => .incomplete
      | c :: rest =>
        if !continues low high c then .invalid 1
        else if size = 2 then .char (Char.ofNat (b.toNat % 32 * 64 + payload c)) 2
        else match rest with
          | [] => .incomplete
          | d :: rest =>
            if !continues 0x80 0xBF d then .invalid 2
            else if size = 3 then
              .char (Char.ofNat ((b.toNat % 16 * 64 + payload c) * 64 + payload d)) 3
            else match rest with
              | [] => .incomplete
              | e :: _ =>
                if !continues 0x80 0xBF e then .invalid 3
                else .char (Char.ofNat
                  (((b.toNat % 8 * 64 + payload c) * 64 + payload d) * 64 + payload e)) 4

/-- Why bytes spell no text: the index of the first byte that belongs to no character, and the
number of bytes that belong together there, unless the end cuts them off. -/
structure BadOctets where
  /-- The number of bytes before. -/
  index : Nat
  /-- The number of bytes that belong together. -/
  size : Option Nat
deriving DecidableEq, Inhabited, Repr

/-- The message for bytes that spell no text. -/
def BadOctets.message (e : BadOctets) : String :=
  match e.size with
  | some n => s!"invalid utf-8 sequence of {n} bytes from index {e.index}"
  | none => s!"incomplete utf-8 byte sequence from index {e.index}"

/-- Decode bytes from an index on; the characters before come last first. `skip` bytes belong to
the character decoded last. -/
def decodeFrom : List Char → Nat → Nat → Octets → Except BadOctets (List Char)
  | before, _, _, [] => .ok before.reverse
  | before, index, skip + 1, _ :: bs => decodeFrom before (index + 1) skip bs
  | before, index, 0, b :: bs =>
    match front b bs with
    | .char c size => decodeFrom (c :: before) (index + 1) (size - 1) bs
    | .incomplete => .error ⟨index, none⟩
    | .invalid size => .error ⟨index, some size⟩

/-- The text that bytes spell. -/
def decode (bs : Octets) : Except BadOctets String :=
  (decodeFrom [] 0 0 bs).map String.ofList

/-- Decode bytes with a replacement character for every sequence that is no character. -/
def decodeLossyFrom : List Char → Nat → Octets → List Char
  | before, _, [] => before.reverse
  | before, skip + 1, _ :: bs => decodeLossyFrom before skip bs
  | before, 0, b :: bs =>
    match front b bs with
    | .char c size => decodeLossyFrom (c :: before) (size - 1) bs
    | .incomplete => decodeLossyFrom ('\uFFFD' :: before) bs.length bs
    | .invalid size => decodeLossyFrom ('\uFFFD' :: before) (size - 1) bs

/-- The text that bytes spell, with a replacement character for every sequence that is none. -/
def decodeLossy (bs : Octets) : String := String.ofList (decodeLossyFrom [] 0 bs)

end Fettle.Text
