import ParallelGdb.Library.Transition
import ParallelGdb.Library.CString
import ParallelGdb.Library.Digits
import ParallelGdb.Library.RankLoop
import ParallelGdb.Library.Overwrite
import ParallelGdb.Library.CellGrid
import ParallelGdb.Library.Tabulate
import ParallelGdb.Library.Positions
import ParallelGdb.Library.FirstOccurrence
import ParallelGdb.Library.Utf8
import ParallelGdb.Library.Getline
import ParallelGdb.Library.Words
import ParallelGdb.Library.Slots
import ParallelGdb.Mi.Records
import ParallelGdb.Mi.Parser
import ParallelGdb.Mi.Extent
import ParallelGdb.Mi.Ends
import ParallelGdb.Mi.Automaton
import ParallelGdb.Mi.Opening
import ParallelGdb.Mi.Grammar
import ParallelGdb.Mi.Encoding
import ParallelGdb.Mi.Lines
import ParallelGdb.Mi.Reports
import ParallelGdb.Mi.Command
import ParallelGdb.Window.Tracker
import ParallelGdb.Breakpoint.Class
import ParallelGdb.Breakpoint.Loops
import ParallelGdb.Breakpoint.Attempts
import ParallelGdb.Breakpoint.Location
import ParallelGdb.Window.Parse
import ParallelGdb.Window.Frame
import ParallelGdb.Window.References
import ParallelGdb.Window.Status
import ParallelGdb.Window.OneByOne
import ParallelGdb.Tabs.Window
import ParallelGdb.Tabs.Shows
import ParallelGdb.Tabs.Redraw
import ParallelGdb.Tabs.Append
import ParallelGdb.Tabs.Close
import ParallelGdb.Tabs.InStep
import ParallelGdb.Tabs.Paint
import ParallelGdb.Tabs.Colors
import ParallelGdb.Tabs.Handlers
import ParallelGdb.Tabs.Scroll
import ParallelGdb.Tabs.Unused
import ParallelGdb.Tabs.Texts
import ParallelGdb.Tabs.Labels
import ParallelGdb.Tabs.Overview
import ParallelGdb.Window.Chunk
import ParallelGdb.Window.Bounds
import ParallelGdb.Window.Cuts
import ParallelGdb.Window.Execution
import ParallelGdb.Window.SourcePosition
import ParallelGdb.Window.ExitCode
import ParallelGdb.Session.System
import ParallelGdb.Session.Steps
import ParallelGdb.Session.Dangling
import ParallelGdb.Session.StopAll
import ParallelGdb.Session.Interrupts
import ParallelGdb.Marks.Editor
import ParallelGdb.Marks.Correspondence
import ParallelGdb.Target.Output
import ParallelGdb.Startup.Values
import ParallelGdb.Startup.Ports
import ParallelGdb.Startup.Base64
import ParallelGdb.Startup.Config
import ParallelGdb.Startup.Import
import ParallelGdb.Startup.Command
import ParallelGdb.Slave.Arguments
import ParallelGdb.Slave.Children
import ParallelGdb.Slave.Cleanup
import ParallelGdb.Startup.Launch
import ParallelGdb.Exchange.System
import ParallelGdb.Exchange.Steps
import ParallelGdb.Exchange.Numbers
import ParallelGdb.Exchange.Ledger
import ParallelGdb.Exchange.Agreement
import ParallelGdb.Library.Interleaving
import ParallelGdb.Master.Threads
import ParallelGdb.Master.Connections
import ParallelGdb.Window.Alone
import ParallelGdb.Master.Delivery
import ParallelGdb.Master.Refinement
import ParallelGdb.Slave.Identity
import ParallelGdb.Master.Handshake
import ParallelGdb.Slave.Termination
import ParallelGdb.Library.Ownership
import ParallelGdb.Mi.Account
import ParallelGdb.Mi.Ledger
import ParallelGdb.Window.Memory
import ParallelGdb.Controls.BreakpointDialog
import ParallelGdb.Controls.FollowDialog
import ParallelGdb.Controls.Panel
import ParallelGdb.Marks.Sessions
import ParallelGdb.Startup.Dialog
import ParallelGdb.Library.Typestate
import ParallelGdb.Master.Startup
