set_option autoImplicit false

/-!
# Positions in a source text

Offsets count the bytes of the source in UTF-8; lines and columns count from one, and a column is
one character wide whatever its bytes.

## Main definitions

* `Retarget.Span` — a range of byte offsets, its end excluded.
* `Retarget.Position.locate` — the line and column of a byte offset.
-/

namespace Retarget

/-- A range of byte offsets in a source text, its end excluded. -/
structure Span where
  start : Nat
  stop : Nat
deriving DecidableEq, Repr, Inhabited

/-- A place in a source text: its byte offset, and its line and column counted from one. -/
structure Position where
  offset : Nat
  line : Nat
  column : Nat
deriving DecidableEq, Repr, Inhabited

namespace Position

/-- The start of every text. -/
def origin : Position := ⟨0, 1, 1⟩

/-- The position behind one more character: a newline opens the next line, any other character
takes one column. -/
def advance (p : Position) (c : Char) : Position :=
  if c = '\n' then ⟨p.offset + c.utf8Size, p.line + 1, 1⟩
  else ⟨p.offset + c.utf8Size, p.line, p.column + 1⟩

/-- Walk over characters until the byte offset `target` is reached or passed. -/
def seek (target : Nat) (p : Position) : List Char → Position
  | [] => p
  | c :: cs => if target ≤ p.offset then p else (p.advance c).seek target cs

/-- The position of a byte offset in `source`. An offset past the end is that of the end, and one
inside a character has the line and column behind that character. -/
def locate (source : String) (offset : Nat) : Position :=
  let target := min offset source.utf8ByteSize
  { origin.seek target source.toList with offset := target }

/-- The form in which messages show a position: `line:column`. -/
def text (p : Position) : String := s!"{p.line}:{p.column}"

end Position

end Retarget
