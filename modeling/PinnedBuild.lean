import PinnedBuild.Config.Render
import PinnedBuild.Digest.Reader
import PinnedBuild.Main
import PinnedBuild.Proofs.Archive.Extract
import PinnedBuild.Proofs.Build.Run
import PinnedBuild.Proofs.Config.RoundTrip
import PinnedBuild.Proofs.Digest.Streaming
import PinnedBuild.Tool.Recorder
import PinnedBuild.Proofs.Archive.Gzip
import PinnedBuild.Proofs.Archive.Members
import PinnedBuild.Proofs.Archive.Integrity
import PinnedBuild.Proofs.Download.Fetch
import PinnedBuild.Proofs.Toml.Distinct
import PinnedBuild.Proofs.Config.Decode
import PinnedBuild.Proofs.Archive.Apart
import PinnedBuild.Proofs.Archive.Truncation
import PinnedBuild.Proofs.CommandLine.Arguments
import PinnedBuild.Proofs.Config.Store
import PinnedBuild.Proofs.LogIndependence
import PinnedBuild.Proofs.Tool.Spawn
import PinnedBuild.Proofs.Build.Digest
import PinnedBuild.Proofs.CommandLine.Commands
import PinnedBuild.Proofs.CommandLine.Ending
import PinnedBuild.Proofs.Files.Growth
import PinnedBuild.Proofs.CommandLine.Traces
import PinnedBuild.Proofs.CommandLine.Foretelling
import PinnedBuild.Proofs.CommandLine.Footprint
import PinnedBuild.Proofs.CommandLine.ParallelRuns
import PinnedBuild.Proofs.CommandLine.Logging
import PinnedBuild.Proofs.Archive.Names
import PinnedBuild.Proofs.Archive.Layout
import PinnedBuild.Proofs.Archive.Written
import PinnedBuild.Proofs.Archive.Production
import PinnedBuild.Proofs.Archive.TopNames
import PinnedBuild.Proofs.Archive.Skipping
import PinnedBuild.Proofs.Build.Verdict
import PinnedBuild.Proofs.Tool.Start
import PinnedBuild.Proofs.Text.Utf8
import PinnedBuild.Proofs.Build.Turns
import PinnedBuild.Proofs.Build.ToolDirectory
import PinnedBuild.Proofs.Files.WalkComposition
import PinnedBuild.Proofs.Build.SourceArgument
import PinnedBuild.Proofs.Archive.FirstMember
import PinnedBuild.Proofs.Download.Redirects
import PinnedBuild.Proofs.Archive.FailedExtraction
import PinnedBuild.Proofs.Archive.Globals
import PinnedBuild.Proofs.Archive.Again
import PinnedBuild.Proofs.Config.Overrides
import PinnedBuild.Proofs.Config.Listed
import PinnedBuild.Proofs.Config.Faults
import PinnedBuild.Proofs.Toml.Numbers
import PinnedBuild.Proofs.Build.Jobs
import PinnedBuild.Proofs.Digest.Reads
import PinnedBuild.Proofs.Files.Making
import PinnedBuild.Proofs.Text.Padding
import PinnedBuild.Proofs.Tool.Configure
import PinnedBuild.Proofs.Build.Entering
