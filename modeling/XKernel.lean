import XKernel.Mm.BuddyComplete
import XKernel.Mm.KallocRuns
import XKernel.Mm.VmaSearch
import XKernel.Fs.LocksRuns
import XKernel.Fs.Namei
import XKernel.Fs.PipeRuns
import XKernel.Sched.Admission
import XKernel.Sched.FairPick
import XKernel.Ext4.JournalReplayed
import XKernel.Ext4.JournalCrash
import XKernel.Ext4.JournalCredits
import XKernel.Ext4.JournalLifecycle
import XKernel.Seccomp.Strict
import XKernel.Virtio.Mmio
import XKernel.Futex.Runs
import XKernel.Tee.Htree
import XKernel.Timer.Runs
import XKernel.Rcu.CallbackRuns
import XKernel.Fd.EpollRuns
import XKernel.Process.Threads
import XKernel.Process.Groups
import XKernel.Signal.Suspend
import XKernel.Net.Stream
import XKernel.Xconfig.Depends
