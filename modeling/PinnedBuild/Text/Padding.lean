/-!
Text in a column: cut to a precision, then filled up to a width.
-/

namespace PinnedBuild.Text

inductive Alignment where
  | left
  | centre
  | right
  deriving DecidableEq, Repr

/-- How a text is set in a column. A fill character belongs to an alignment. -/
structure Padding where
  width : Option Nat := none
  precision : Option Nat := none
  align : Option (Alignment × Char) := none
  deriving DecidableEq, Repr

namespace Padding

/-- The first characters, as many as the precision admits. -/
def cut (p : Padding) (s : List Char) : List Char :=
  match p.precision with
  | none => s
  | some n => s.take n

/-- How much of the room on both sides stands on the left. -/
def leftShare : Alignment → Nat → Nat
  | .left, _ => 0
  | .centre, room => room / 2
  | .right, room => room

def spread (align : Alignment) (fill : Char) (room : Nat) (s : List Char) : List Char :=
  let before := leftShare align room
  List.replicate before fill ++ s ++ List.replicate (room - before) fill

/-- Without an alignment the text stands on the left and spaces follow it. -/
def apply (p : Padding) (s : String) : String :=
  let body := p.cut s.toList
  let side := p.align.getD (.left, ' ')
  String.ofList (spread side.1 side.2 (p.width.getD 0 - body.length) body)

end Padding

end PinnedBuild.Text
