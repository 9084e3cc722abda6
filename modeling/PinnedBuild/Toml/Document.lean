import PinnedBuild.Toml.Reader

/-!
A document: its lines, put together into one table.

The lines fall into sections. The first belongs to the document itself, and each header begins
another; a section is put in its place when the next begins or the document ends.
-/

namespace PinnedBuild.Toml

/-- Where a section belongs. -/
inductive Place where
  | root
  | table (path : List String) (key : String)
  | arrayTable (path : List String) (key : String)
  deriving DecidableEq, Repr

/-- The sections that are closed, and the one that is open. -/
structure Draft where
  closed : Entries
  place : Place
  body : Entries

namespace Draft

def empty : Draft := ⟨[], .root, []⟩

/-- Changes the table that a header's path leads to. -/
def along {α : Type} (path : List String) (f : Entries → Option (α × Entries)) (es : Entries) :
    Option (α × Entries) :=
  alter .passage (fun _ => f) path .header es

/-- The document with the open section put in its place. -/
def close (d : Draft) : Option Entries :=
  match d.place with
  | .root => some d.body
  | .table path key => (along path (putBack key d.body) d.closed).map Prod.snd
  | .arrayTable path key => (along path (pushTable key d.body) d.closed).map Prod.snd

def step (d : Draft) : Line → Option Draft
  | .blank => some d
  | .assign path key v =>
    (insertDotted .header path key v d.body).map fun body => { d with body := body }
  | .header path key => do
    let (body, closed) ← along path (takeOut key) (← d.close)
    return ⟨closed, .table path key, body⟩
  | .arrayHeader path key => do
    let (_, closed) ← along path (openArray key) (← d.close)
    return ⟨closed, .arrayTable path key, []⟩

end Draft

def assemble? (lines : List Line) : Option Entries :=
  (lines.foldlM Draft.step .empty).bind Draft.close

/-- A byte order mark may stand in front. -/
def skipMark : List Char → List Char
  | '\uFEFF' :: r => r
  | s => s

/-- The table that a text spells, if it is a document. -/
def document? (s : String) : Option Entries := (lines? (skipMark s.toList)).bind assemble?

end PinnedBuild.Toml
