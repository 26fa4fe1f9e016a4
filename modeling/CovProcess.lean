import CovProcess.Lib.Msvcrt
import CovProcess.Lib.CmdExe
import CovProcess.Lib.FdTable
import CovProcess.Lib.EnvBlock
import CovProcess.Startup
import CovProcess.Builder
import CovProcess.Win32.CommandLine
import CovProcess.Win32.Environ
import CovProcess.Unix.Environ
import CovProcess.Unix.Execvpe
import CovProcess.Shell
import CovProcess.Unix.Spawn
import CovProcess.Unix.CloseAll
import CovProcess.Unix.Rollback
import CovProcess.Unix.Plumbing
import CovProcess.Lib.Runs
import CovProcess.Lib.FifoPool
import CovProcess.Unix.Handshake
import CovProcess.Unix.Targets
import CovProcess.Unix.HandshakeProofs
import CovProcess.Stream.FdInBuf
import CovProcess.Stream.Communicate
import CovProcess.Handle.Model
import CovProcess.Handle.ExitCode
import CovProcess.Handle.Signals
import CovProcess.Handle.Deadlock
import CovProcess.Handle.ExitCheck
import CovProcess.Handle.WaitTimeout
import CovProcess.Handle.Destroy
import CovProcess.Handle.Completion
import CovProcess.Lib.Ranges
import CovProcess.Lib.Content
import CovProcess.File.Model
import CovProcess.File.Positions
import CovProcess.File.Descriptors
import CovProcess.File.Redirect
import CovProcess.File.Solo
import CovProcess.File.View
import CovProcess.File.Reads
import CovProcess.File.Writes
import CovProcess.File.RoundTrip
import CovProcess.Lib.FilePointer
import CovProcess.File.Pointers
import CovProcess.File.Append
import CovProcess.File.Writers
import CovProcess.Lib.StackWalk
import CovProcess.Win32.Processes
import CovProcess.Win32.KillTree
import CovProcess.Win32.TreeWalk
import CovProcess.Stream.FdOutBuf
import CovProcess.Stream.Putback
import CovProcess.Handle.SleepBudget
import CovProcess.Lib.SteadyClock
import CovProcess.Handle.WaitPoll
import CovProcess.Win32.FileHandle
import CovProcess.Win32.BlockSize
import CovProcess.Lib.NulString
import CovProcess.Unix.StartTime
import CovProcess.File.Drain
import CovProcess.Handle.PipeEnds
import CovProcess.Lib.Confined
import CovProcess.Handle.Holders
import CovProcess.Unix.Children
import CovProcess.Win32.Spawn
import CovProcess.Win32.Inherit
import CovProcess.Win32.Children
import CovProcess.Handle.Traffic
import CovProcess.Handle.Conversation
import CovProcess.Win32.Waits
import CovProcess.Unix.Groups
import CovProcess.Unix.DevFd
import CovProcess.Unix.Launch
