import Beemu.Sm83.Opcode
import Beemu.Sm83.State
import Beemu.Sm83.Exec
import Beemu.Sm83.Stack
import Beemu.Sm83.Word
import Beemu.Sm83.Jump
import Beemu.Sm83.Bits
import Beemu.Sm83.Step
import Beemu.Sm83.Stores
import Beemu.Primitives
import Beemu.Registers
import Beemu.Lib.History
import Beemu.Flags
import Beemu.Lib.Turning
import Beemu.Utility
import Beemu.Lib.Block
import Beemu.Memory
import Beemu.Buffer
import Beemu.Logs
import Beemu.Token
import Beemu.Tokenizer.Common
import Beemu.Tokenizer.Load
import Beemu.Tokenizer.Arithmatic
import Beemu.Tokenizer.Cbxx
import Beemu.Tokenizer.Jump
import Beemu.Tokenizer.Tokenizer
import Beemu.Tokenizer.Recode
import Beemu.Command
import Beemu.Lib.Segment
import Beemu.Queue.CommandQueue
import Beemu.Queue.Chain
import Beemu.Queue.Fifo
import Beemu.Queue.Accounting
import Beemu.Queue.Drain
import Beemu.Lib.Channels
import Beemu.Queue.Many
import Beemu.Machine
import Beemu.Places
import Beemu.Parser.Common
import Beemu.Parser.Explode
import Beemu.Parser.Load
import Beemu.Parser.Arithmatic
import Beemu.Parser.Bitwise
import Beemu.Parser.Parser
import Beemu.Parser.Fetch
import Beemu.Parser.Timing
import Beemu.Effect.Run
import Beemu.Effect.Load
import Beemu.Effect.Arithmatic
import Beemu.Effect.Accumulator
import Beemu.Effect.Stack
import Beemu.Effect.WordStore
import Beemu.Effect.WordAdd
import Beemu.Effect.SpOffset
import Beemu.Effect.Bitwise
import Beemu.Effect.Step
import Beemu.Lib.Trace
import Beemu.Lib.Sharing
import Beemu.Lib.Dependence
import Beemu.Effect.Agreement
import Beemu.Effect.Order
import Beemu.Effect.Shape
import Beemu.Effect.Stores
import Beemu.Effect.Invariants
import Beemu.Effect.Footprint
import Beemu.Effect.Saving
import Beemu.Effect.Boot
import Beemu.Executor.Executor
import Beemu.Lib.Nesting
import Beemu.Executor.Load
import Beemu.Executor.Jump
import Beemu.Executor.Refinement
import Beemu.Executor.Arithmatic
import Beemu.Executor.Boot
import Beemu.Executor.Calls
import Beemu.Executor.SharedStack
import Beemu.Executor.Restart
