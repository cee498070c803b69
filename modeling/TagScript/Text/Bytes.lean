/-!
# Raw Bytes and Their Characters

A script is kept as raw bytes, because a diagnostic quotes its lines byte for byte, while the
scanner works on characters. This module decodes UTF-8 (`Bytes.decode`), encodes characters
(`Bytes.ofString`) and splits a text into lines (`Bytes.lines`).

Decoding never fails: a byte that does not start a well-formed sequence stands for one
replacement character and decoding resumes right after that byte. Surrogates, overlong forms and
code points above U+10FFFF are not well formed.
-/

namespace TagScript

/-- Raw bytes, for instance the contents of a script. -/
abbrev Bytes := List UInt8

namespace Bytes

/-- The UTF-8 bytes of a list of characters. -/
def ofChars (cs : List Char) : Bytes :=
  cs.flatMap String.utf8EncodeChar

/-- The UTF-8 bytes of a text. -/
def ofString (s : String) : Bytes :=
  ofChars s.toList

/-- The character that stands for a byte outside every well-formed sequence. -/
def replacement : Char := '\uFFFD'

/-- Whether `b` lies between `lo` and `hi`, both included. -/
def within (lo hi b : UInt8) : Bool :=
  lo ≤ b && b ≤ hi

/-- Whether `b` continues a sequence. -/
def isTail (b : UInt8) : Bool :=
  within 0x80 0xBF b

/-- The bytes allowed after the leading byte `b` of a sequence of three or four bytes. The
narrower ranges keep out overlong forms, surrogates and code points above U+10FFFF. -/
def secondRange (b : UInt8) : UInt8 × UInt8 :=
  if b = 0xE0 then (0xA0, 0xBF)
  else if b = 0xED then (0x80, 0x9F)
  else if b = 0xF0 then (0x90, 0xBF)
  else if b = 0xF4 then (0x80, 0x8F)
  else (0x80, 0xBF)

/-- The six payload bits of a continuation byte. -/
def payload (b : UInt8) : Nat :=
  b.toNat % 64

/-- The well-formed sequence that starts with `b` and goes on in `rest`: its character and the
number of bytes it takes from `rest`. -/
def sequence? (b : UInt8) (rest : Bytes) : Option (Char × Nat) :=
  if b < 0x80 then some (Char.ofNat b.toNat, 0)
  else if within 0xC2 0xDF b then
    match rest with
    | b₁ :: _ =>
      if isTail b₁ then some (Char.ofNat (b.toNat % 32 * 64 + payload b₁), 1) else none
    | [] => none
  else if within 0xE0 0xEF b then
    match rest with
    | b₁ :: b₂ :: _ =>
      if within (secondRange b).1 (secondRange b).2 b₁ && isTail b₂ then
        some (Char.ofNat ((b.toNat % 16 * 64 + payload b₁) * 64 + payload b₂), 2)
      else none
    | _ => none
  else if within 0xF0 0xF4 b then
    match rest with
    | b₁ :: b₂ :: b₃ :: _ =>
      if within (secondRange b).1 (secondRange b).2 b₁ && isTail b₂ && isTail b₃ then
        some (Char.ofNat
          (((b.toNat % 8 * 64 + payload b₁) * 64 + payload b₂) * 64 + payload b₃), 3)
      else none
    | _ => none
  else none

/-- The characters of `bs`, with one replacement character for each byte that belongs to no
well-formed sequence. -/
def decode : Bytes → List Char
  | [] => []
  | b :: rest =>
    match sequence? b rest with
    | some (c, n) => c :: decode (rest.drop n)
    | none => replacement :: decode rest
termination_by bs => bs.length
decreasing_by
  · simp only [List.length_cons, List.length_drop]
    omega
  · simp

/-- The lines of `bs`, at least one. Each of LF, CR LF and a CR on its own ends a line. -/
def splitLines : Bytes → List Bytes
  | [] => [[]]
  | 0x0D :: 0x0A :: rest => [] :: splitLines rest
  | b :: rest =>
    if b = 0x0A ∨ b = 0x0D then [] :: splitLines rest
    else
      match splitLines rest with
      | line :: lines => (b :: line) :: lines
      | [] => [[b]]

/-- The lines of a text; the empty text has none. -/
def lines (bs : Bytes) : List Bytes :=
  if bs.isEmpty then [] else splitLines bs

end Bytes

end TagScript
