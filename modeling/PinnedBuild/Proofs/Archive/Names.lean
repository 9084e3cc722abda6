import Mathlib
import PinnedBuild.Archive.Extract

/-!
The names on a member's path. Slashes at the front, dots and empty pieces are left out of them, and
a path that goes upwards anywhere has none.
-/

namespace PinnedBuild

open Files

def Path.Component.name? : Path.Component → Option Name
  | .name n => some n
  | _ => none

namespace Archive

/-- The names on a member's path, as if none of its parts led upwards. -/
def Member.names (m : Member) : List Name := (Path.components m.path).filterMap Path.Component.name?

/-- Some part of the path leads upwards. -/
def Member.LeadsUp (m : Member) : Prop := .up ∈ Path.components m.path

instance (m : Member) : Decidable m.LeadsUp := inferInstanceAs (Decidable (_ ∈ _))

namespace Unpacking

lemma foldlM_names (cs : List Path.Component) (names : List Name) :
    cs.foldlM (fun names c => match c with
      | .up => none
      | .name n => some (names ++ [n])
      | .root | .here => some names) names =
      if .up ∈ cs then none else some (names ++ cs.filterMap Path.Component.name?) := by
  induction cs generalizing names with
  | nil => simp
  | cons c cs ih =>
    rw [List.foldlM_cons]
    rcases c with _ | _ | _ | n
    · simpa [List.filterMap_cons, Path.Component.name?] using ih names
    · simpa [List.filterMap_cons, Path.Component.name?] using ih names
    · simp
    · simpa [List.filterMap_cons, Path.Component.name?] using ih (names ++ [n])

lemma names?_eq (m : Member) : names? m.path = if m.LeadsUp then none else some m.names :=
  (foldlM_names _ []).trans (by rw [List.nil_append]; rfl)

lemma names?_of_leadsUp {m : Member} (h : m.LeadsUp) : names? m.path = none := by
  rw [names?_eq, if_pos h]

lemma names?_of_not_leadsUp {m : Member} (h : ¬ m.LeadsUp) : names? m.path = some m.names := by
  rw [names?_eq, if_neg h]

end Unpacking

end Archive

end PinnedBuild
