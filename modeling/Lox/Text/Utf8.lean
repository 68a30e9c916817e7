/-!
# UTF-8

`Utf8.decode` reads bytes as text or says where they stop being UTF-8. A character is a lead byte
and as many continuation bytes as the lead byte asks for; the first continuation byte may be
restricted further, which rules out overlong forms, surrogates and numbers above `10FFFF`.
-/

namespace Lox.Utf8

/-- Why bytes are no text. -/
inductive Malformed where
  /-- At `index` stand `length` bytes that begin no character together with the byte after them. -/
  | invalid (length index : Nat)
  /-- The bytes end inside the character at `index`. -/
  | incomplete (index : Nat)
  deriving DecidableEq, Repr

def Malformed.message : Malformed → String
  | .invalid length index => s!"invalid utf-8 sequence of {length} bytes from index {index}"
  | .incomplete index => s!"incomplete utf-8 byte sequence from index {index}"

/-- A character of which some bytes have been read. The next byte has to lie between `lo` and `hi`,
and `missing` further ones are continuation bytes. -/
structure Partial where
  start : Nat
  seen : Nat
  missing : Nat
  lo : Nat
  hi : Nat
  value : Nat
  deriving DecidableEq, Repr

/-- The character that a byte above `7F` begins at `index`, if it begins one. -/
def Partial.ofLead? (index byte : Nat) : Option Partial :=
  if byte < 0xC2 ∨ 0xF4 < byte then none
  else if byte < 0xE0 then some ⟨index, 1, 0, 0x80, 0xBF, byte % 0x20⟩
  else if byte < 0xF0 then
    let lo := if byte = 0xE0 then 0xA0 else 0x80
    let hi := if byte = 0xED then 0x9F else 0xBF
    some ⟨index, 1, 1, lo, hi, byte % 0x10⟩
  else
    let lo := if byte = 0xF0 then 0x90 else 0x80
    let hi := if byte = 0xF4 then 0x8F else 0xBF
    some ⟨index, 1, 2, lo, hi, byte % 0x08⟩

/-- What has been read: the characters, last one first, and the bytes of an unfinished one. -/
structure Reading where
  index : Nat
  chars : List Char
  pending : Option Partial

/-- Reads one more byte. -/
def Reading.next (r : Reading) (byte : Nat) : Except Malformed Reading :=
  match r.pending with
  | none =>
    if byte < 0x80 then .ok ⟨r.index + 1, Char.ofNat byte :: r.chars, none⟩
    else match Partial.ofLead? r.index byte with
      | some p => .ok ⟨r.index + 1, r.chars, some p⟩
      | none => .error (.invalid 1 r.index)
  | some p =>
    if p.lo ≤ byte ∧ byte ≤ p.hi then
      let value := p.value * 0x40 + byte % 0x40
      match p.missing with
      | 0 => .ok ⟨r.index + 1, Char.ofNat value :: r.chars, none⟩
      | n + 1 => .ok ⟨r.index + 1, r.chars, some ⟨p.start, p.seen + 1, n, 0x80, 0xBF, value⟩⟩
    else .error (.invalid p.seen p.start)

/-- Reads all bytes as text. -/
def decode (bytes : List UInt8) : Except Malformed String :=
  match bytes.foldlM (fun r b => r.next b.toNat) (⟨0, [], none⟩ : Reading) with
  | .error e => .error e
  | .ok ⟨_, _, some p⟩ => .error (.incomplete p.start)
  | .ok ⟨_, chars, none⟩ => .ok (String.ofList chars.reverse)

end Lox.Utf8
