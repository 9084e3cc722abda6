import Mathlib
import PinnedBuild.Proofs.Download.Fetch

/-!
How far a download follows redirects. Each request but the first is one that the answer before it
asked for, so that there is at most one more than redirects may be followed, whatever the servers
answer. An answer that is within reach is the only one whose body is kept.
-/

namespace PinnedBuild

namespace Download

open Files FileTree

variable {servers : String → Option Server} {u v x : Url} {k room : Nat} {ans : Response}
  {disk : Disk} {h : Handle} {t : FileTree} {w : World}

/-- A server gives this answer at an address. -/
def Answers (servers : String → Option Server) (u : Url) (ans : Response) : Prop :=
  u.scheme = "http" ∧ ∃ server, servers u.authority = some server ∧ server u.target = .ok ans

/-- The answer at the first address leads to the second. -/
def Redirects (servers : String → Option Server) (u v : Url) : Prop :=
  ∃ ans l, Answers servers u ans ∧ ans.leadsTo? = some l ∧ u.resolve? l = some v

namespace Transfer

end Transfer

section

variable {url : String} {options : FetchOptions}

/-- The addresses that are asked at on the way from one. -/
structure Asked (servers : String → Option Server) (url : String) (max : Nat) (us : List Url) :
    Prop where
  first : ∀ u ∈ us.head?, Url.parse? url = some u
  each : us.IsChain (Redirects servers)
  few : us.length ≤ max + 1

end

/-! ### What is stored -/

/-- How a download ends whose last answer is `ans`, and how much of it is stored: all that is
delivered, unless the storage refuses to take it. -/
inductive Kept (disk : Disk) (url : String) (dest : Path) (h : Handle) (t : FileTree)
    (ans : Response) : Except FetchError Nat → Bytes → Prop
  | whole : 200 ≤ ans.status → ans.status < 300 → ans.isShort = false →
      Kept disk url dest h t ans (.ok ans.delivered.length) ans.delivered
  | status : ¬ (200 ≤ ans.status ∧ ans.status < 300) → ans.isShort = false →
      Kept disk url dest h t ans (.error (.status url ans.status)) ans.delivered
  | short : ans.isShort = true →
      Kept disk url dest h t ans (.error (.transfer .partialBody)) ans.delivered
  | refused {e : FileError} {bytes : Bytes} :
      (disk.writes h [ans.delivered] t).1 = .error e → bytes <+: ans.delivered →
      Kept disk url dest h t ans (.error (.storage dest e)) bytes

section

variable {url : String} {dest : Path}

end

end Download

end PinnedBuild
