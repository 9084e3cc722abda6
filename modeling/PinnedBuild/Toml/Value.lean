import PinnedBuild.Decimal.Binary64

/-!
The values of a TOML document. Tables keep the order in which their keys were written.
-/

namespace PinnedBuild.Toml

/-- How a table came to be, which decides what may still be added to it. -/
inductive Origin where
  /-- Between braces: complete. -/
  | inline
  /-- Under its own header. -/
  | header
  /-- On the way to a table under a header. -/
  | passage
  /-- On the way of a dotted key. -/
  | dotted
  deriving DecidableEq, Repr

inductive Value where
  | string (s : String)
  | integer (n : Int)
  | float (x : Binary64)
  | boolean (b : Bool)
  /-- A date, a time or both, as written. -/
  | datetime (text : String)
  /-- A growing array is one of tables under double headers. -/
  | array (growing : Bool) (elements : List Value)
  | table (origin : Origin) (entries : List (String × Value))
  deriving Repr

abbrev Entries := List (String × Value)

end PinnedBuild.Toml
