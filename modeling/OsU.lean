import OsU.Cospy.Expr
import OsU.Cospy.Run
import OsU.Cospy.Scanner
import OsU.Cospy.Stmt
import OsU.Cospy.Token
import OsU.Fs.Access
import OsU.Fs.Dir
import OsU.Fs.Entry
import OsU.Fs.Fat
import OsU.Fs.File
import OsU.Fs.Layout
import OsU.Fs.Name
import OsU.Fs.State
import OsU.Kernel.Context
import OsU.Kernel.Disk
import OsU.Kernel.Editor
import OsU.Kernel.Entry
import OsU.Kernel.Fat32
import OsU.Kernel.Gfxcon
import OsU.Kernel.Gui
import OsU.Kernel.Keyboard
import OsU.Kernel.Lang
import OsU.Kernel.Memory
import OsU.Kernel.Mouse
import OsU.Kernel.Process
import OsU.Kernel.Readline
import OsU.Kernel.Sched
import OsU.Kernel.Script
import OsU.Kernel.Shell
import OsU.Kernel.Timer
import OsU.Kernel.V86
import OsU.Kernel.Vesa
import OsU.Kernel.Vfs
import OsU.Kernel.Vga
import OsU.Lib.Assigns
import OsU.Lib.Bresenham
import OsU.Lib.ByteMem
import OsU.Lib.CString
import OsU.Lib.Cells
import OsU.Lib.Cyclic
import OsU.Lib.FileTree
import OsU.Lib.Leads
import OsU.Lib.LineColumn
import OsU.Lib.LineCut
import OsU.Lib.Painting
import OsU.Lib.PathName
import OsU.Lib.PathTree
import OsU.Lib.Recursion
import OsU.Lib.Ring
import OsU.Lib.Rounds
import OsU.Lib.Rpn
import OsU.Lib.Runs
import OsU.Lib.Scan
import OsU.Lib.Sheet
import OsU.Lib.SuccGraph
import OsU.Lib.TextBuffer
import OsU.Lib.TextCursor
import OsU.Lib.TextGrid
import OsU.Lib.WordMem
import OsU.Proof.Absolute
import OsU.Proof.Acknowledge
import OsU.Proof.Append
import OsU.Proof.Assignment
import OsU.Proof.BackBuffer
import OsU.Proof.Branches
import OsU.Proof.CallGraph
import OsU.Proof.Calls
import OsU.Proof.ChainWalk
import OsU.Proof.ClusterBuffer
import OsU.Proof.Coherence
import OsU.Proof.Commit
import OsU.Proof.Console
import OsU.Proof.Containment
import OsU.Proof.Contexts
import OsU.Proof.Current
import OsU.Proof.DeskRound
import OsU.Proof.Desktop
import OsU.Proof.DesktopRun
import OsU.Proof.DirWalk
import OsU.Proof.Directories
import OsU.Proof.Division
import OsU.Proof.DoubleBuffer
import OsU.Proof.DrawCursor
import OsU.Proof.Drivers
import OsU.Proof.Editing
import OsU.Proof.Edits
import OsU.Proof.EmptyDir
import OsU.Proof.FailedCd
import OsU.Proof.FailedMkdir
import OsU.Proof.FailedWrite
import OsU.Proof.Fat32Errors
import OsU.Proof.Fat32File
import OsU.Proof.FindListed
import OsU.Proof.Format
import OsU.Proof.Forth
import OsU.Proof.ForthStack
import OsU.Proof.Gfxcon
import OsU.Proof.GpfFrame
import OsU.Proof.Heap
import OsU.Proof.IntIret
import OsU.Proof.KeyQueue
import OsU.Proof.Leaks
import OsU.Proof.Lexing
import OsU.Proof.LineDraw
import OsU.Proof.LineMotion
import OsU.Proof.Links
import OsU.Proof.Listing
import OsU.Proof.Lookup
import OsU.Proof.Loops
import OsU.Proof.Mirror
import OsU.Proof.Names
import OsU.Proof.NoInput
import OsU.Proof.Numerals
import OsU.Proof.OpenSave
import OsU.Proof.Ops
import OsU.Proof.Ownership
import OsU.Proof.Parsing
import OsU.Proof.PathFrame
import OsU.Proof.Paths
import OsU.Proof.Picture
import OsU.Proof.Pieces
import OsU.Proof.Pixels
import OsU.Proof.Pointer
import OsU.Proof.Precedence
import OsU.Proof.ProcTable
import OsU.Proof.Read
import OsU.Proof.ReadCache
import OsU.Proof.Reaped
import OsU.Proof.Rendering
import OsU.Proof.Resume
import OsU.Proof.Returning
import OsU.Proof.Room
import OsU.Proof.RoundRobin
import OsU.Proof.RoundTrip
import OsU.Proof.Saving
import OsU.Proof.Scanning
import OsU.Proof.Sched
import OsU.Proof.ScriptRun
import OsU.Proof.Scrolling
import OsU.Proof.ShellLine
import OsU.Proof.Shift
import OsU.Proof.Sleep
import OsU.Proof.Spacing
import OsU.Proof.Spawn
import OsU.Proof.Statements
import OsU.Proof.Steps
import OsU.Proof.Switch
import OsU.Proof.SyntaxTree
import OsU.Proof.SysYield
import OsU.Proof.Tasks
import OsU.Proof.Terminal
import OsU.Proof.TreeOps
import OsU.Proof.TreeRun
import OsU.Proof.TreeSteps
import OsU.Proof.TypedLine
import OsU.Proof.Typing
import OsU.Proof.Undo
import OsU.Proof.Variables
import OsU.Proof.Window
import OsU.Proof.WriteChain
import OsU.Volume.Chain
import OsU.Volume.Content
import OsU.Volume.Edit
import OsU.Volume.Leak
import OsU.Volume.Partition
import OsU.Volume.Tree
