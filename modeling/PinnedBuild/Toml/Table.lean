import PinnedBuild.Toml.Value

/-!
Adding to tables: along the path of a header, along a dotted key, and as the next table of an array
of tables. Nothing is ever defined twice.
-/

namespace PinnedBuild.Toml

/-- The value takes the place of the old one, or the last place. -/
def put (k : String) (v : Value) (es : Entries) : Entries :=
  if (es.lookup k).isSome then es.map fun e => if e.1 = k then (k, v) else e
  else es ++ [(k, v)]

/-- Whether a path may lead on through a table. Headers lead through all that stand open; dotted
keys only through those that no header has opened. -/
def leadsOn (way origin : Origin) : Bool :=
  match way, origin with
  | _, .inline => false
  | .dotted, .header => false
  | _, _ => true

/-- Changes the table at the end of a path. Tables missing on the way are made, marked as `way`;
an array of tables is entered at its newest table. -/
def alter {α : Type} (way : Origin) (f : Origin → Entries → Option (α × Entries)) :
    List String → Origin → Entries → Option (α × Entries)
  | [], origin, es => f origin es
  | k :: path, _, es =>
    match es.lookup k with
    | none => (alter way f path way []).map fun (a, t) => (a, es ++ [(k, .table way t)])
    | some (.table o t) =>
      if leadsOn way o then (alter way f path o t).map fun (a, t') => (a, put k (.table o t') es)
      else none
    | some (.array true ts) =>
      match ts.getLast? with
      | some (.table o t) => (alter way f path o t).map fun (a, t') =>
          (a, put k (.array true (ts.dropLast ++ [.table o t'])) es)
      | _ => none
    | some _ => none

/-- A key without a path belongs to a table of its own; one with a path, to a table that dotted
keys have made. -/
def insertHere (path : List String) (key : String) (v : Value) (origin : Origin) (es : Entries) :
    Option (Unit × Entries) :=
  if (origin == .dotted) = path.isEmpty then none
  else if (es.lookup key).isSome then none
  else some ((), es ++ [(key, v)])

def insertDotted (origin : Origin) (path : List String) (key : String) (v : Value)
    (es : Entries) : Option Entries :=
  (alter .dotted (insertHere path key v) path origin es).map Prod.snd

/-- What a header opens: a new table, or one that so far only stood on the way to others. -/
def takeOut (key : String) (es : Entries) : Option (Entries × Entries) :=
  match es.lookup key with
  | none => some ([], es)
  | some (.table .passage t) => some (t, es.filter fun e => e.1 ≠ key)
  | some _ => none

/-- A finished table is put under its header at the end. -/
def putBack (key : String) (body es : Entries) : Option (Unit × Entries) :=
  if (es.lookup key).isSome then none else some ((), es ++ [(key, .table .header body)])

/-- What a double header opens: the next table of an array that only double headers fill. -/
def openArray (key : String) (es : Entries) : Option (Unit × Entries) :=
  match es.lookup key with
  | none => some ((), es ++ [(key, .array true [])])
  | some (.array true _) => some ((), es)
  | some _ => none

def pushTable (key : String) (body es : Entries) : Option (Unit × Entries) :=
  match es.lookup key with
  | some (.array true ts) => some ((), put key (.array true (ts ++ [.table .header body])) es)
  | _ => none

end PinnedBuild.Toml
