/-!
# Words Regardless of Case

Type names and setting values are matched against fixed ASCII words regardless of case.
`Text.folded` lower-cases a character as far as such a comparison can tell: besides A to Z, the
only characters whose lower-case form is ASCII are U+0130 (capital i with dot) and U+212A (the
kelvin sign). Every other character has no ASCII lower-case form, so it is left alone: whether
it is folded or not, the text differs from each ASCII word.
-/

namespace TagScript.Text

/-- The lower-case form of `c` if that form is ASCII, and `c` itself otherwise. -/
def folded (c : Char) : Char :=
  if 'A' ≤ c ∧ c ≤ 'Z' then Char.ofNat (c.toNat + 32)
  else if c = '\u0130' then 'i'
  else if c = '\u212A' then 'k'
  else c

/-- `s` with each character folded. -/
def fold (s : String) : String :=
  s.map folded

end TagScript.Text
