import NgLog.Async.Capacity
import NgLog.Async.Delivery
import NgLog.Async.LogThread
import NgLog.Cleaner.Deletion
import NgLog.Cleaner.Filenames
import NgLog.Cleaner.LogCleaner
import NgLog.Cleaner.TimePid
import NgLog.Demangle.Closure
import NgLog.Demangle.Counters
import NgLog.Demangle.Grammar
import NgLog.Demangle.InitialContent
import NgLog.Demangle.Kept
import NgLog.Demangle.NestedNames
import NgLog.Demangle.Numbers
import NgLog.Demangle.Output
import NgLog.Demangle.Progress
import NgLog.Demangle.Restoring
import NgLog.Demangle.Safety
import NgLog.Demangle.Scanning
import NgLog.Demangle.Separators
import NgLog.Demangle.Silence
import NgLog.Demangle.State
import NgLog.Demangle.Stranding
import NgLog.Email.Command
import NgLog.Ensure.Near
import NgLog.Experimental.Context
import NgLog.Experimental.Dispatch
import NgLog.Experimental.Order
import NgLog.Experimental.Scopes
import NgLog.Experimental.Targets
import NgLog.Files.Accounting
import NgLog.Files.BackOff
import NgLog.Files.Fanout
import NgLog.Files.LogFile
import NgLog.Files.PageDrops
import NgLog.Files.Truncation
import NgLog.Flags.CommandLine
import NgLog.Flags.Consistency
import NgLog.Flags.Objects
import NgLog.Flags.ProcessRegistry
import NgLog.Flags.Registry
import NgLog.Flags.Reparsing
import NgLog.Flags.SavedTexts
import NgLog.Flags.ScopedPairs
import NgLog.Flags.Scopes
import NgLog.Flags.SharedAnchor
import NgLog.Flags.Suggestions
import NgLog.Flags.Traits
import NgLog.Flags.Values
import NgLog.Help.Wrapping
import NgLog.Message.Colored
import NgLog.Message.Flush
import NgLog.Message.Prefix
import NgLog.Message.Storage
import NgLog.Message.Stream
import NgLog.Paths.Resolution
import NgLog.SignalSafe.FloatSpec
import NgLog.SignalSafe.FloatText
import NgLog.SignalSafe.WideMessage
import NgLog.Signals.Displayed
import NgLog.Signals.FailureProgress
import NgLog.Sinks.Dispatch
import NgLog.Sinks.Removal
import NgLog.Sites.Agreement
import NgLog.Sites.Lookups
import NgLog.Sites.Registry
import NgLog.Sites.States
import NgLog.SourceLocation.DisplayPath
import NgLog.SourceLocation.FileLine
import NgLog.SourceLocation.FileUri
import NgLog.SourceLocation.NetworkPaths
import NgLog.SourceLocation.SymbolizedFrame
import NgLog.Stacktrace.Frames
import NgLog.Style.History
import NgLog.Style.Recorder
import NgLog.Style.Storage
import NgLog.Style.Writer
import NgLog.Subprocess.Arguments
import NgLog.Subprocess.Lifecycle
import NgLog.Subprocess.PathSearch
import NgLog.Subprocess.Process
import NgLog.Subprocess.System
import NgLog.Support.Backtracking
import NgLog.Support.Buffers
import NgLog.Support.Bytes
import NgLog.Support.CStrings
import NgLog.Support.Commuting
import NgLog.Support.CompareExchange
import NgLog.Support.Delimiters
import NgLog.Support.EditDistance
import NgLog.Support.Interference
import NgLog.Support.LinkedList
import NgLog.Support.PartialMaps
import NgLog.Support.PercentEncoding
import NgLog.Support.Programs
import NgLog.Support.Regex
import NgLog.Support.Restoration
import NgLog.Support.Simulation
import NgLog.Support.Spans
import NgLog.Support.Transition
import NgLog.Support.Unicode
import NgLog.Support.Utf16
import NgLog.Support.Utf8Syntax
import NgLog.Support.Wrapping
import NgLog.Symbolize.Elf
import NgLog.Symbolize.GnuHash
import NgLog.Symbolize.LineReader
import NgLog.Symbolize.ObjectFile
import NgLog.Symbolize.SafeStrings
import NgLog.Symbolize.Sections
import NgLog.Symbolize.Segments
import NgLog.Symbolize.Symbols
import NgLog.Throttle.Counting
import NgLog.Throttle.Durations
import NgLog.Throttle.Periods
import NgLog.Unicode.Analysis
import NgLog.Unicode.Encoder
import NgLog.Unicode.WideChunks
import NgLog.Unicode.WidePieces
import NgLog.Unicode.WideSpan
import NgLog.Unicode.WideWriter
import NgLog.VLog.Overrides
import NgLog.VLog.Patterns
import NgLog.VLog.Segments
import NgLog.VLog.Sites
