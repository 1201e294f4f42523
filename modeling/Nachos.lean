import Nachos.Library.StepSystem
import Nachos.Library.SemaphorePool
import Nachos.Library.Ledger
import Nachos.ProcessSemaphores
import Nachos.ProcessSemaphores
import Nachos.JoinExit
import Nachos.JoinStatus
import Nachos.ExitHandshake
import Nachos.ProcessTree
import Nachos.SlotReuse
import Nachos.JoinAll
import Nachos.NoDeadlock
import Nachos.Library.Ownership
import Nachos.Machine
import Nachos.AddressSpace
import Nachos.FrameOwnership
import Nachos.FileSystem
import Nachos.Loader
import Nachos.LoadFailure
import Nachos.SystemCalls
import Nachos.ReadCall
import Nachos.WriteCall
import Nachos.SystemCallEffects
import Nachos.ReturnProtocol
import Nachos.DescriptorKinds
import Nachos.FileNames
import Nachos.CopyRoundTrip
import Nachos.DescriptorTable
import Nachos.FileContents
import Nachos.SemaphoreTable
import Nachos.SemaphoreRuns
import Nachos.SemaphoreBounds
import Nachos.SemaphoreNames
import Nachos.ArgumentBlock
import Nachos.LoaderBounds
import Nachos.ArgumentPassing
import Nachos.ArgumentLayout
import Nachos.Translators
import Nachos.Library.Overlay
import Nachos.LoadedImage
import Nachos.MemoryAccess
import Nachos.MemoryIsolation
import Nachos.Mipssim
import Nachos.Multiplication
import Nachos.IntegerInstructions
import Nachos.PreciseExceptions
import Nachos.Interrupt
import Nachos.SimulatedTime
import Nachos.Library.Placement
import Nachos.Scheduling
import Nachos.ThreadShape
import Nachos.ThreadPlaces
import Nachos.ThreadLife
import Nachos.SemaphoreAccounting
import Nachos.ContextSwitch
import Nachos.ContextIsolation
import Nachos.Conditions
import Nachos.SynchList
import Nachos.SynchListFifo
import Nachos.Devices
import Nachos.DeviceRequests
import Nachos.SynchListItems
import Nachos.MonitorRuns
import Nachos.Mail
import Nachos.MailTransit
import Nachos.MailBoxes
import Nachos.MailDelivery
import Nachos.CpuState
import Nachos.ConsoleInput
import Nachos.Closing
import Nachos.Opening
import Nachos.ExecSlots
import Nachos.NegativeLengths
import Nachos.ReadBounds
import Nachos.SeekFailure
import Nachos.OpenNames
import Nachos.DiskFiles
import Nachos.DiskAllocation
import Nachos.DiskDirectory
import Nachos.DiskFileSystem
import Nachos.DiskConsistency
import Nachos.ReadonlyImage
import Nachos.JoinArguments
import Nachos.ExecCalls
import Nachos.SocketCalls
import Nachos.BitmapRuns
import Nachos.DirectoryMap
import Nachos.HeaderCapacity
import Nachos.DiskByteArray
import Nachos.Library.Chains
import Nachos.Library.StableSort
import Nachos.LinkedLists
import Nachos.LinkedChains
import Nachos.ListRuns
import Nachos.HashTableMap
import Nachos.HashTableRuns
import Nachos.Coff
import Nachos.UnalignedAccess
import Nachos.Library.Arcs
import Nachos.CoffSections
import Nachos.CoffBss
import Nachos.Library.Refinement
import Nachos.Library.Splice
import Nachos.Library.WhileLoop
import Nachos.Library.Rotation
import Nachos.FileStore
import Nachos.DiskContents
import Nachos.DiskChanges
import Nachos.FileSessions
import Nachos.FilesStored
import Nachos.FileHistory
import Nachos.FileCopy
import Nachos.DiskTiming
import Nachos.DiskLatency
import Nachos.Hardware
import Nachos.HardwareInterrupts
import Nachos.HardwareRuns
import Nachos.Processor
import Nachos.TimeSlices
import Nachos.Library.Outcomes
import Nachos.TwinMachines
import Nachos.ProgramMemory
import Nachos.Multiprogramming
import Nachos.Library.Components
import Nachos.ProgramsAlone
import Nachos.MipsArchitecture
import Nachos.MipsDecoding
import Nachos.MipsView
import Nachos.MipsInstructions
import Nachos.MipsAccesses
import Nachos.MipsRuns
import Nachos.LoadedProgram
import Nachos.LinkedPrograms
