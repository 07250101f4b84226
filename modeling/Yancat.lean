import Yancat.Transition
import Yancat.RingWindow
import Yancat.WordArithmetic
import Yancat.Handover
import Yancat.Crc
import Yancat.Buffer
import Yancat.BufferLaws
import Yancat.BufferData
import Yancat.Setup
import Yancat.Construction
import Yancat.Shared
import Yancat.FailureFlags
import Yancat.ByteStream
import Yancat.StreamMoves
import Yancat.BufferRuns
import Yancat.Blocks
import Yancat.Requests
import Yancat.Epilogue
import Yancat.TwoTask
import Yancat.TwoTaskSteps
import Yancat.TwoTaskFlags
import Yancat.TwoTaskHands
import Yancat.TwoTaskStalls
import Yancat.TwoTaskProgress
import Yancat.TwoTaskStream
import Yancat.TwoTaskDelivery
import Yancat.SingleTask
import Yancat.SingleTaskStream
import Yancat.SingleTaskIdentity
import Yancat.SingleTaskFlags
import Yancat.ExitStatus
import Yancat.Checksums
import Yancat.Reblocking
import Yancat.ReadError
import Yancat.SingleTaskProgress
import Yancat.Hysteresis
import Yancat.ResumePoints
import Yancat.BouncePath
import Yancat.ShiftRegister
import Yancat.Cksum
import Yancat.Strings
import Yancat.Common
import Yancat.Parse
import Yancat.ParseMeaning
import Yancat.Options
import Yancat.SpecGrammar
import Yancat.OptionRuns
import Yancat.Fdpack
import Yancat.Endpoints
import Yancat.Closing
import Yancat.SingleTaskClosing
import Yancat.TwoTaskClosing
import Yancat.FlushStatus
import Yancat.ExactSizes
import Yancat.KeptNumbers
import Yancat.MoveCounts
import Yancat.TwoTaskEnds
import Yancat.Arbiter
import Yancat.ArbiterEnds
import Yancat.AddressSpace
import Yancat.Resources
import Yancat.Kernel
import Yancat.Wrappers
import Yancat.Environment
import Yancat.Mapped
import Yancat.Descriptors
import Yancat.Program
import Yancat.Decimal
import Yancat.Report
import Yancat.Readback
import Yancat.Sections
import Yancat.Statements
import Yancat.Atomicity
import Yancat.StatementRuns
