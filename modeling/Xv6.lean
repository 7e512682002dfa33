import Xv6.Proofs.UserAccess
import Xv6.Proofs.KilledFlag
import Xv6.Proofs.Reaping
import Xv6.Proofs.LostWakeups
import Xv6.Proofs.Pipes
import Xv6.Proofs.InodeCache
import Xv6.Proofs.ImageReads
import Xv6.Proofs.ZombieWakeups
import Xv6.Proofs.CpuHandoff
import Xv6.Proofs.OpenFileCalls
import Xv6.Proofs.ConsoleLines
import Xv6.Proofs.ShellParser
import Xv6.Proofs.HeapRuns
import Xv6.Proofs.DiskErrors
import Xv6.Proofs.CliNesting
import Xv6.Proofs.BufferUse
import Xv6.Proofs.WriteResults
import Xv6.Proofs.RandomPeriod
import Xv6.Proofs.FailedDescriptors
import Xv6.Proofs.RandomValues
import Xv6.Proofs.GrepMatch
import Xv6.Proofs.SpaceCopy
import Xv6.Proofs.GrepLines
import Xv6.Proofs.MpEntries
import Xv6.Proofs.OwnTransactions
import Xv6.Proofs.FreePages
