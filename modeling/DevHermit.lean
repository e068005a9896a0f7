import DevHermit.ConflictGraph.Holds
import DevHermit.Finalize.Isolation
import DevHermit.Finalize.Once
import DevHermit.GreenTime.Timeline
import DevHermit.Landing.BoxRefusal
import DevHermit.Landing.Exclusion
import DevHermit.Landing.Recovery
import DevHermit.Ledger.AppendOnly
import DevHermit.Ledger.Replay
import DevHermit.Ledger.Retention
import DevHermit.Multisect.Rounds
import DevHermit.Receipt.EvidenceFrame
import DevHermit.Shmem.Admission.Stale
import DevHermit.Shmem.Audit
import DevHermit.Shmem.Csnzi.Entry
import DevHermit.Shmem.Csnzi.Linear
import DevHermit.Shmem.Format.BootstrapContext
import DevHermit.Shmem.Format.ImageCanonical
import DevHermit.Shmem.Format.Numerals
import DevHermit.Shmem.Mapping.Safety
import DevHermit.Shmem.Migration.Corruption
import DevHermit.Shmem.Migration.OneShot
import DevHermit.Shmem.Reloc
import DevHermit.Shmem.Snzi.Presence
import DevHermit.Shmem.Sync.FutexSafety
import DevHermit.TestSelection.Emit
import DevHermit.Validate.RawLog
import DevHermit.Validate.Truthful
import DevHermit.Worktree.Finish
import DevHermit.Worktree.Ownership
