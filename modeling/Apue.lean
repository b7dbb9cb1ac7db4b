import Apue.Base.Text
import Apue.Base.Program
import Apue.Base.RecordLock
import Apue.Base.Files
import Apue.Base.Interleaving
import Apue.Base.Typestate
import Apue.Base.Tiling
import Apue.Base.Linked
import Apue.Base.RelyGuarantee
import Apue.Base.Linearizable
import Apue.Base.Machine
import Apue.Base.DoublyLinked
import Apue.Base.Chain
import Apue.Db.Model
import Apue.Db.System
import Apue.Db.Locks
import Apue.Db.Format
import Apue.Db.Image
import Apue.Db.State
import Apue.Db.Transform
import Apue.Db.Acquire
import Apue.Db.Rules
import Apue.Db.Walk
import Apue.Db.Scan
import Apue.Db.Lists
import Apue.Db.Edit
import Apue.Db.Write
import Apue.Db.Delete
import Apue.Db.Store
import Apue.Db.Deadlock
import Apue.Db.Layout
import Apue.Db.Concurrent
import Apue.Db.Solo
import Apue.Db.Opening
import Apue.Db.Session
import Apue.Db.Invariant
import Apue.Db.Cursor
import Apue.Db.Readback
import Apue.Db.Fetching
import Apue.Db.Reopen
import Apue.Db.Rejected
import Apue.Printer.Workers
import Apue.Printer.Jobs
import Apue.Printer.Spool
import Apue.Printer.JobNumbers
import Apue.Printer.Ownership
import Apue.Printer.Finished
import Apue.Printer.Recovery
import Apue.Printer.Network
import Apue.Printer.Receive
import Apue.Printer.Status
import Apue.Base.Tokens
import Apue.Opend.Loop
import Apue.Opend.Protocol
import Apue.Opend.Request
import Apue.Opend.Select
import Apue.OpenServer.Conversation
import Apue.OpenServer.Request
import Apue.Lib.Descriptors
import Apue.Lib.Credentials
import Apue.Lib.TellWait
import Apue.Exercises.Semaphores
import Apue.Advio.Rot13
import Apue.Threads.RefCount
import Apue.Threads.RefInvariant
import Apue.Threads.RefSafety
import Apue.Threads.Queue
import Apue.Threads.QueueInvariant
import Apue.Threads.QueueSteps
import Apue.Threads.QueueJobs
import Apue.Threads.Wakeup
import Apue.Ipc1.TellWait
import Apue.Lib.Popen
import Apue.Lib.PopenChild
import Apue.Lib.PopenStreams
import Apue.Base.Semaphores
import Apue.Lib.Semaph
import Apue.Lib.SemaphLock
import Apue.Lib.SemaphCount
import Apue.Base.Scan
import Apue.Printer.Parsing
import Apue.Printer.Termination
import Apue.Printer.Accounting
import Apue.Printer.Decision
import Apue.Printer.PrintRequest
import Apue.Base.Buffer
import Apue.Db.Damaged
import Apue.Db.Bounds
import Apue.Db.Listing
import Apue.Db.Roundtrip
import Apue.Base.LinkedLists
import Apue.Db.Places
import Apue.Db.Freelist
import Apue.Db.Reached
import Apue.Db.Reuse
import Apue.Printer.HeaderBuffer
import Apue.Printer.DocumentType
import Apue.Printer.Submission
import Apue.Base.Packed
import Apue.Opend.Poll
import Apue.Base.InPlace
import Apue.Opend.Arguments
import Apue.OpenServer.Arguments
import Apue.Base.BoundedFile
import Apue.Exercises.MemStream
import Apue.Exercises.MemStreamEffects
import Apue.Threads.Barrier
import Apue.Filedir.Ftw
import Apue.Termios.Ttyname
import Apue.Lib.TtyModes
import Apue.Printer.Client
import Apue.Exercises.Ruptimed
import Apue.Base.Stopping
import Apue.Db.Overrun
import Apue.Base.Transfer
import Apue.Lib.ReadnWriten
import Apue.Base.Crash
import Apue.Db.Crash
import Apue.Base.Cut
import Apue.Db.Killed
import Apue.Printer.Delivery
import Apue.Base.Upheld
import Apue.Daemons.Single
import Apue.Base.Condition
import Apue.Threads.WorkQueue
import Apue.Base.Signals
import Apue.Lib.Sleep
import Apue.Signals.Abort
import Apue.Signals.System
import Apue.Base.Relay
import Apue.OpenServer.Clients
import Apue.Pty.Loop
