import CompE.Caches.Hierarchy
import CompE.Caches.ArbiterProtocol
import CompE.Prefetch.Fetching
import CompE.Mp3.Squash
import CompE.Mp3.Forwarding
import CompE.Mp3.Latency
import CompE.Mp3.Instructions
import CompE.Mp1.Refinement
import CompE.Mp2.CacheRuns
import CompE.Kernel.ExecuteFailure
import CompE.Kernel.InterruptWindows
import CompE.Kernel.Directory
import CompE.Kernel.Resources
import CompE.Kernel.Parenthood
import CompE.Kernel.Noninterference
import CompE.Kernel.DescriptorBounds
import CompE.Kernel.ReadSafety
import CompE.Kernel.Lookup
import CompE.Kernel.CommandLine
import CompE.Kernel.UserPointers
import CompE.KernelLib.FormatBounds
import CompE.KernelLib.NumberFormatting
import CompE.KernelLib.MemoryBlocks
import CompE.KernelLib.Putc
import CompE.Vterm.Mirror
import CompE.Vterm.Isolation
import CompE.Vterm.LineInput
import CompE.Vterm.ReadLine
import CompE.Vterm.LineEcho
import CompE.Vterm.Copies
import CompE.Vterm.Refinement
import CompE.Tux.Backlog
import CompE.Tux.Transmit
import CompE.Mp0.Fifo
import CompE.Mp0.Cam
import CompE.Adventure.Getting
import CompE.Adventure.StatusBar
import CompE.Adventure.Window
import CompE.Caches.CachelineAdaptor
import CompE.Caches.ModifiedLines
import CompE.Prefetch.Prefetching
import CompE.Kernel.DirectoryBuffer
import CompE.Kernel.PageIsolation
import CompE.Kernel.RoundRobin
import CompE.Kernel.Rtc
import CompE.Mp0.CachelineAdaptor
import CompE.Mp0.Multiplier
import CompE.Vterm.Modifiers
import CompE.Vterm.Processless
import CompE.Fish.Display
import CompE.Userland.GrepFiles
import CompE.Mp3.Architecture
import CompE.Mp3.Processor
import CompE.Adventure.StatusThread
import CompE.Adventure.PhotoFile
import CompE.Adventure.Input
