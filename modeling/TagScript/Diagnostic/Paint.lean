import TagScript.Text.Bytes

/-!
# Coloured Output

Diagnostics and the interactive console write some texts in a style. Whether they do is a setting;
left to itself, it follows the terminal.

A styled line ends its style before the line feed, with the codes that undo its own. A styled text
inside a line is followed by a full reset only on a terminal, also where colour is forced.
-/

namespace TagScript

/-- When styles are written. -/
inductive ColourMode where
  /-- On a terminal. -/
  | auto
  | always
  | never
  deriving DecidableEq, Repr

/-- The name of a colour mode. -/
def ColourMode.name : ColourMode → String
  | .auto => "auto"
  | .always => "always"
  | .never => "never"

/-- The styles. -/
inductive Style where
  /-- Headlines of errors: red and bold. -/
  | alarm
  /-- Details of errors: faint. -/
  | detail
  /-- Echoed values: cyan. -/
  | echo
  /-- The banner: bold. -/
  | banner
  deriving DecidableEq, Repr

/-- The codes that start a style. -/
def Style.codes : Style → String
  | .alarm => "31;1"
  | .detail => "2"
  | .echo => "36"
  | .banner => "1"

/-- The codes that undo a style. -/
def Style.undoCodes : Style → String
  | .alarm => "0;22"
  | .detail => "22"
  | .echo => "0"
  | .banner => "22"

/-- How styles are written. -/
structure Paint where
  /-- The setting. -/
  mode : ColourMode
  /-- Whether the output is a terminal that shows colours. -/
  terminal : Bool

namespace Paint

/-- Whether styles are written at all. -/
def enabled (p : Paint) : Bool :=
  match p.mode with
  | .always => true
  | .never => false
  | .auto => p.terminal

/-- The escape sequence with these codes. -/
def sequence (codes : String) : Bytes :=
  Bytes.ofString ("\x1b[" ++ codes ++ "m")

/-- A styled line. -/
def line (p : Paint) (style : Style) (text : Bytes) : Bytes :=
  (if p.enabled then sequence style.codes ++ text ++ sequence style.undoCodes else text) ++ [0x0A]

/-- A styled text inside a line. -/
def inside (p : Paint) (style : Style) (text : Bytes) : Bytes :=
  if p.enabled then
    sequence style.codes ++ text ++ (if p.terminal then sequence "0" else [])
  else text

end Paint

/-- A writer of styled texts. What it adds to a text is its own business; `Paint.painter` is the one
that writes escape sequences. -/
structure Painter where
  /-- Writes a styled line. -/
  line : Style → Bytes → Bytes
  /-- Writes a styled text inside a line. -/
  inside : Style → Bytes → Bytes

/-- The writer that writes escape sequences. -/
def Paint.painter (p : Paint) : Painter :=
  ⟨p.line, p.inside⟩

/-- The writer that adds nothing to a text but the line feed of a line. -/
def Painter.plain : Painter :=
  ⟨fun _ text => text ++ [0x0A], fun _ text => text⟩

end TagScript
