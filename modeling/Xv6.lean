import Xv6.Framework.Prog
import Xv6.Framework.Logic
import Xv6.Framework.Alone
import Xv6.Framework.Bytes
import Xv6.Framework.Crash
import Xv6.Framework.Ends
import Xv6.Framework.Fallible
import Xv6.Framework.Judgement
import Xv6.Framework.Ledger
import Xv6.Framework.Radix
import Xv6.Framework.Ring
import Xv6.Framework.Section
import Xv6.Param
import Xv6.Log.Basic
import Xv6.Proc.Sleep
import Xv6.Log.Sync
import Xv6.Proc.Monitor
import Xv6.Log.SyncInvariant
import Xv6.Log.GroupCommit
import Xv6.Log.Recovery
import Xv6.Bio.Cache
import Xv6.Bio.CacheInvariant
import Xv6.Bio.CacheSteps
import Xv6.Bio.Flat
import Xv6.Bio.Ring
import Xv6.Bio.RingInvariant
import Xv6.Fs.Layout
import Xv6.Fs.Inode
import Xv6.Fs.Path
import Xv6.Fs.Calls
import Xv6.Fs.Blocks
import Xv6.Fs.Contents
import Xv6.Fs.Dirs
import Xv6.Fs.FileBytes
import Xv6.Fs.Holes
import Xv6.Fs.LogSets
import Xv6.Fs.Tree
import Xv6.Fs.Slots
import Xv6.Fs.Changes
import Xv6.Fs.Rest
import Xv6.Fs.Walk
import Xv6.Fs.Effects
import Xv6.Fs.Closing
import Xv6.Fs.Failures
import Xv6.Fs.Balance
import Xv6.Fs.Bitmap
import Xv6.Fs.Footprint
import Xv6.Fs.DirMap
import Xv6.Fs.LogRoom
import Xv6.Fs.ShortWrite
import Xv6.Mkfs.Program
import Xv6.Mkfs.Append
import Xv6.Mkfs.Files
import Xv6.Mkfs.Image
import Xv6.Mkfs.Main
import Xv6.Proc.Table
import Xv6.Proc.Family
import Xv6.Proc.FamilyCalls
import Xv6.Proc.ExitWait
import Xv6.Proc.Switch
import Xv6.Proc.SwitchInvariant
import Xv6.Proc.HandOff
import Xv6.Proc.Spinlock
import Xv6.Pipe.Basic
import Xv6.Pipe.Ring
import Xv6.Pipe.Calls
import Xv6.Pipe.Delivery
import Xv6.Pipe.Stream
import Xv6.File.Table
import Xv6.File.Refs
import Xv6.File.Calls
import Xv6.Vm.Memory
import Xv6.Vm.Uvm
import Xv6.Vm.Exec
import Xv6.Vm.Tree
import Xv6.Vm.Space
import Xv6.Vm.Loading
import Xv6.Vm.Owners
import Xv6.Vm.Calls
import Xv6.Vm.AddressSpace
import Xv6.Vm.Alone
import Xv6.Vm.Copies
import Xv6.Vm.Stack
import Xv6.Vm.Arguments
import Xv6.Vm.Fork
import Xv6.Vm.Physical
import Xv6.Vm.Sbrk
import Xv6.Umalloc.Heap
import Xv6.Umalloc.FreeList
import Xv6.Umalloc.Runs
import Xv6.Sh.Parser
import Xv6.Sh.Tokens
import Xv6.Sh.Grammar
import Xv6.Sh.Accepts
import Xv6.Console.Basic
import Xv6.Console.Discipline
import Xv6.Grep.Match
import Xv6.Grep.Lines
import Xv6.Lib.Memmove
import Xv6.Lib.Printf
import Xv6.Utils.Find
import Xv6.Utils.Xargs
