import PerfVerif.Lib.System
import PerfVerif.Lib.Memory
import PerfVerif.Lib.Words
import PerfVerif.Lib.RecordRing
import PerfVerif.Pipe.LocklessPipe
import PerfVerif.Pipe.Layout
import PerfVerif.Pipe.Machine
import PerfVerif.Pipe.Steps
import PerfVerif.Pipe.Gate
import PerfVerif.Pipe.Invariant
import PerfVerif.Pipe.Admission
import PerfVerif.Pipe.Representation
import PerfVerif.Pipe.Validation
import PerfVerif.Pipe.Fifo
import PerfVerif.Pipe.Accounting
import PerfVerif.Pipe.Pointers
import PerfVerif.Pipe.Schedules
import PerfVerif.Pipe.Fullness
import PerfVerif.Pipe.Overflow
import PerfVerif.Pipe.Interrupt
import PerfVerif.Pipe.Footprint
import PerfVerif.Pipe.Pop
import PerfVerif.Aio.AioWriteTest
import PerfVerif.Aio.Invariant
import PerfVerif.Aio.Schedules
import PerfVerif.Aio.Barrier
import PerfVerif.Aio.Completion
import PerfVerif.Aio.Submission
import PerfVerif.Lio.LioListioTest
import PerfVerif.Lio.Invariant
import PerfVerif.Lio.Schedules
import PerfVerif.Lio.Release
import PerfVerif.Lio.Completion
import PerfVerif.Lio.Submission
import PerfVerif.Pwrite.PwriteTest
import PerfVerif.Writes.SameWork
import PerfVerif.Pwrite.Tiling
import PerfVerif.Lib.CommandLine
import PerfVerif.Buffers
import PerfVerif.Options
import PerfVerif.Exceptions.StreamingException
import PerfVerif.Shm.ShmCopy
import PerfVerif.Exceptions.Messages
import PerfVerif.Lib.Sampling
import PerfVerif.RandomAtMost
import PerfVerif.Lib.BitArray
import PerfVerif.Utility.Bits
import PerfVerif.Wait.Deadline
import PerfVerif.Lib.StoreBuffer
import PerfVerif.Pipe.StoreOrder
import PerfVerif.Pipe.Publication
import PerfVerif.Lib.Queue
import PerfVerif.Lib.Refinement
import PerfVerif.Pipe.Peek
import PerfVerif.Pipe.Queue
import PerfVerif.Wait.Shared
import PerfVerif.Pipe.Occupancy
import PerfVerif.Aio.Refusals
import PerfVerif.Suspend
import PerfVerif.Lib.File
import PerfVerif.ListioTest
import PerfVerif.Contents
import PerfVerif.Lio.Results
import PerfVerif.Lio.Stop
import PerfVerif.Shm.Contents
import PerfVerif.Renamed
import PerfVerif.Lib.Rounding
import PerfVerif.Utility.Rounding
