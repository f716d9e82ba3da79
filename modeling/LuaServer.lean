import LuaServer.Library.Accounts
import LuaServer.Library.Traces
import LuaServer.Library.Bracket
import LuaServer.Library.Chains
import LuaServer.Library.Channel
import LuaServer.Library.Effects
import LuaServer.Library.Marking
import LuaServer.Library.Runs
import LuaServer.Library.Tricolor
import LuaServer.Platform.Scalars
import LuaServer.Platform.InetPton
import LuaServer.Lua.Value
import LuaServer.Lua.State
import LuaServer.Lua.Collector
import LuaServer.Socket.World
import LuaServer.Socket.Layer
import LuaServer.Socklib.Functions
import LuaServer.Socklib.Evaluation
import LuaServer.Socklib.Outcomes
import LuaServer.Socklib.Effects
import LuaServer.Socklib.Events
import LuaServer.Interpreter.Script
import LuaServer.Interpreter.Step
import LuaServer.Interpreter.Invocation
import LuaServer.Interpreter.Ownership
import LuaServer.Interpreter.Confinement
import LuaServer.Interpreter.Registration
import LuaServer.Interpreter.Confined
import LuaServer.Interpreter.Suspended
import LuaServer.Interpreter.Connection
import LuaServer.Interpreter.Issues
import LuaServer.Interpreter.Metatable
import LuaServer.Interpreter.Lookups
import LuaServer.Interpreter.SocketMetatable
import LuaServer.Standalone.Errors
import LuaServer.Standalone.Dofile
import LuaServer.Standalone.DofileRuns
import LuaServer.Standalone.Hooks
import LuaServer.Standalone.Threads
import LuaServer.Standalone.HookSteps
import LuaServer.Tables.Layout
import LuaServer.Tables.Lookup
import LuaServer.Tables.Insertion
import LuaServer.Tables.Contents
import LuaServer.Tables.ArraySize
import LuaServer.Tables.Rehash
import LuaServer.Tables.Resize
import LuaServer.Tables.Counting
import LuaServer.Tables.Operations
import LuaServer.Tables.Runs
import LuaServer.Tables.Traversal
import LuaServer.Tables.Border
import LuaServer.Properties.AcceptedSockets
import LuaServer.Properties.BindContract
import LuaServer.Properties.Bracket
import LuaServer.Properties.BufferBounds
import LuaServer.Properties.ClosedSockets
import LuaServer.Properties.Discipline
import LuaServer.Properties.FailureAtomicity
import LuaServer.Properties.Guard
import LuaServer.Properties.Interrupts
import LuaServer.Properties.Isolation
import LuaServer.Properties.LifeCycle
import LuaServer.Properties.NoLeak
import LuaServer.Properties.Reports
import LuaServer.Properties.SocketLookups
import LuaServer.Properties.StreamIntegrity
import LuaServer.Properties.TemporaryBlocks
import LuaServer.Gc.Heap
import LuaServer.Gc.Marking
import LuaServer.Gc.Upvalues
import LuaServer.Gc.Strings
import LuaServer.Gc.Sweep
import LuaServer.Gc.Program
import LuaServer.Gc.Marks
import LuaServer.Gc.Traversal
import LuaServer.Gc.Invariant
import LuaServer.Gc.Propagation
import LuaServer.Gc.Finishing
import LuaServer.Gc.Atomic
import LuaServer.Gc.Separation
import LuaServer.Gc.Clearing
import LuaServer.Gc.Links
import LuaServer.Gc.Closing
import LuaServer.Gc.Sweeping
import LuaServer.Gc.Stores
import LuaServer.Gc.Mutation
import LuaServer.Gc.Creation
import LuaServer.Gc.Allocation
import LuaServer.Gc.Capturing
import LuaServer.Gc.Cycle
import LuaServer.Gc.Runs
import LuaServer.Gc.Safety
import LuaServer.Gc.Untouched
import LuaServer.Gc.Interning
import LuaServer.Gc.Progress
