/-!
The pinned source snapshot: its commit, where its archive is and what the archive unpacks to.
-/

namespace PinnedBuild.Snapshot

/-- The commit that is fetched unless another one is configured. -/
def defaultCommit : String := "3d51010a3350660160981c6b8e624dcc87c208a3"

/-- The digest recorded for the archive of `defaultCommit`. -/
def defaultArchiveSha256 : String :=
  "efbca707a6eb1c714b849de120309070eef282660c0f4be5b68efef62cc95cf5"

def archiveUrl (commit : String) : String :=
  "https://github.com/llvm/llvm-project/archive/" ++ commit ++ ".tar.gz"

/-- The directory that the archive of a commit unpacks to. -/
def sourceDirName (commit : String) : String := "llvm-project-" ++ commit

end PinnedBuild.Snapshot
