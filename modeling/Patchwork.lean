import Patchwork.Json.Float
import Patchwork.Main
import Patchwork.Proofs.Archive.Exchanged
import Patchwork.Proofs.Assets.Buckets
import Patchwork.Proofs.Assets.Check
import Patchwork.Proofs.Assets.Store
import Patchwork.Proofs.Build.Filled
import Patchwork.Proofs.Build.Fresh
import Patchwork.Proofs.Build.Launched
import Patchwork.Proofs.Build.Provided
import Patchwork.Proofs.Build.Rerun
import Patchwork.Proofs.Build.Spared
import Patchwork.Proofs.Build.Stages
import Patchwork.Proofs.Command.Refused
import Patchwork.Proofs.Digest.Checksum
import Patchwork.Proofs.Disk.Alike
import Patchwork.Proofs.Disk.Behind
import Patchwork.Proofs.Disk.Cleared
import Patchwork.Proofs.Disk.Copy
import Patchwork.Proofs.Disk.Planted
import Patchwork.Proofs.Disk.Trees
import Patchwork.Proofs.Download.Atomic
import Patchwork.Proofs.Download.Kept
import Patchwork.Proofs.Download.Landed
import Patchwork.Proofs.Download.Twins
import Patchwork.Proofs.Patch.Bounded
import Patchwork.Proofs.Patch.Compared
import Patchwork.Proofs.Patch.Drift
import Patchwork.Proofs.Patch.Emptied
import Patchwork.Proofs.Patch.Joined
import Patchwork.Proofs.Patch.MostSimilar
import Patchwork.Proofs.Patch.Recorded
import Patchwork.Proofs.Patch.Refined
import Patchwork.Proofs.Patch.Reloaded
import Patchwork.Proofs.Patch.Tolerances
import Patchwork.Proofs.Patch.Trees
import Patchwork.Proofs.Release.Newest
import Patchwork.Proofs.Steady
import Patchwork.Proofs.Toml.Entered
import Patchwork.Proofs.Toml.Laid
import Patchwork.Proofs.Toolchain.Described
import Patchwork.Proofs.Toolchain.Follow
import Patchwork.Proofs.Workspace.Carried
import Patchwork.Proofs.Workspace.Ignored
import Patchwork.Proofs.Workspace.Opened
import Patchwork.Proofs.Workspace.Progress
import Patchwork.Proofs.Workspace.Reopened
import Patchwork.Proofs.Workspace.Tracked
