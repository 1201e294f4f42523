import Nachos.ContextIsolation
import Nachos.FrameOwnership
import Nachos.LoadedImage
import Nachos.ProgramMemory

/-!
# User programs on one machine

The kernel's threads load programs and run them; the machine has one set of
registers, one memory and one page table at a time.  The whole is compared
with machines on which a program is alone, in pages that are not mapped
anywhere else.
-/

namespace Nachos

open Library

/-! ## What is done to the machine for a program -/

/-- The program runs an instruction, an interrupt is due, or the kernel looks
at the memory and the registers of the program and writes them. -/
inductive UserAction
  | instruction
  | interrupt
  | readMem (addr : BitVec 32) (size : ℕ)
  | writeMem (addr : BitVec 32) (size : ℕ) (value : BitVec 32)
  | readRegister (num : ℕ)
  | writeRegister (num : ℕ) (value : BitVec 32)

/-- The instruction has ended, or the handler of an exception has been entered;
and what the kernel has seen. -/
inductive UserEvent
  | instruction
  | raised (which : Exception) (badVAddr : BitVec 32)
  | interrupt
  | readMem (addr : BitVec 32) (size : ℕ) (value : BitVec 32)
  | writeMem (addr : BitVec 32) (size : ℕ) (value : BitVec 32)
  | readRegister (num : ℕ) (value : BitVec 32)
  | writeRegister (num : ℕ) (value : BitVec 32)
  deriving DecidableEq

/-- `Machine::OneInstruction`, the `DelayedLoad` of `CheckIfDue`, `ReadMem`,
`WriteMem`, `ReadRegister` and `WriteRegister`. -/
def Machine.perform (m : Machine) :
    UserAction → Except Fault (Machine × UserEvent)
  | .instruction =>
      match m.oneInstruction with
      | .ok m => .ok (m, .instruction)
      | .error (.raised which badVAddr m) => .ok (m, .raised which badVAddr)
      | .error (.fault fault) => .error fault
  | .interrupt => .ok (m.delayedLoad 0 0, .interrupt)
  | .readMem addr size => do
      let (value, m) ← m.readMem addr size
      return (m, .readMem addr size value)
  | .writeMem addr size value => do
      let m ← m.writeMem addr size value
      return (m, .writeMem addr size value)
  | .readRegister num => do
      assert (num < numTotalRegs)
      return (m, .readRegister num (m.readRegister num))
  | .writeRegister num value => do
      assert (num < numTotalRegs)
      return (m.writeRegister num value, .writeRegister num value)

def TablePointer.entries : TablePointer → Option (List TranslationEntry)
  | .table entries => some entries
  | _ => none

/-! ## Programs -/

/-- An executable file with the header that `Load` has read of it, and the
arguments. -/
structure Program where
  file : List (BitVec 8)
  noffH : NoffHeader
  argv : List CString
  deriving DecidableEq

namespace Program

/-- The program that `Load` finds. -/
def inFile (rdata : Bool) (fileSystem : FileSystem) (host : Host)
    (garbage : LoadGarbage) (fileName : CString) (argv : List CString) :
    Option Program :=
  match host.directory fileName,
      fileSystem.openNamed host fileName garbage.openType with
  | some inode, (some executable, _, host') =>
      match AddrSpace.readHeaderIn rdata executable host' garbage with
      | .ok (noffH, _) => some ⟨host.contents inode, noffH, argv⟩
      | .error _ => none
  | _, _ => none

/-- Each page in the frame of its own number. -/
def entries (program : Program) : List TranslationEntry :=
  (List.range program.noffH.numPages).map fun i =>
    AddrSpace.newEntry i i

/-- The address space of the program when it is alone. -/
def space (program : Program) : AddrSpace :=
  AddrSpace.withArguments
    ⟨0, 0, 0, .table program.entries, program.noffH.numPages⟩ program.argv

end Program

namespace Scheduling

/-- An address space as the threads know it. -/
def Space.ofObject (p : ℕ) (space : AddrSpace) : Space :=
  ⟨p, space.numPages, space.stackptr, space.argc, space.argv⟩

end Scheduling

/-- A machine with the image of the program in its memory, and the registers
of `InitRegisters`. -/
def Program.machine (program : Program) : Machine where
  registers := Scheduling.initialRegisters (.ofObject 0 program.space)
  mainMemory := program.space.argumentImage program.argv
    (AddrSpace.programImage program.file program.noffH)
  pageTableMap := Frames.startMachine.pageTableMap
  pageTable := some program.entries
  pageTableSize := program.noffH.numPages

/-! ## A program that is alone -/

namespace Alone

inductive Action
  | start (program : Program)
  | user (action : UserAction)

inductive Event
  | started (program : Program)
  | user (event : UserEvent)

/-- `none` as long as no program has been started. -/
def step (v : Option Machine) : Action → Except Fault (Option Machine × Event)
  | .start program => .ok (some program.machine, .started program)
  | .user action =>
      match v with
      | none => .error .undefinedBehaviour
      | some m => do
          let (m, event) ← m.perform action
          return (some m, .user event)

def system : StepSystem (Option Machine) Action Event Fault where
  start := none
  step := step

end Alone

/-! ## All programs on one machine -/

namespace Scheduling

/-- The threads with the registers of the machine, its memory, and the address
spaces where they have been allocated.  A page table has the address of its
space. -/
structure Multiprogramming where
  threads : Threads
  memory : ℕ → BitVec 8
  pageTableMap : Bitmap
  spaces : ℕ → Option AddrSpace

namespace Multiprogramming

def entriesAt (s : Multiprogramming) (p : ℕ) : Option (List TranslationEntry) :=
  (s.spaces p).bind fun space => space.pageTable.entries

/-- The simulated machine. -/
def machine (s : Multiprogramming) : Machine where
  registers := s.threads.machine.registers
  mainMemory := s.memory
  pageTableMap := s.pageTableMap
  pageTable := s.threads.machine.pageTable.bind s.entriesAt
  pageTableSize := s.threads.machine.pageTableSize

/-- The page table at a pointer has been written to. -/
def setTable (s : Multiprogramming) (pointer : Option ℕ)
    (table : Option (List TranslationEntry)) : ℕ → Option AddrSpace :=
  match pointer, table with
  | some p, some entries => Function.update s.spaces p
      ((s.spaces p).map fun space =>
        { space with pageTable := .table entries })
  | _, _ => s.spaces

/-- The machine has changed. -/
def withMachine (s : Multiprogramming) (m : Machine) : Multiprogramming where
  threads := { s.threads with machine := { s.threads.machine with
    registers := m.registers } }
  memory := m.mainMemory
  pageTableMap := m.pageTableMap
  spaces := s.setTable s.threads.machine.pageTable m.pageTable

/-- The address space of the program that the current thread runs; a thread
whose `Load` has failed runs none. -/
def currentProgram (s : Multiprogramming) : Option ℕ :=
  s.threads.currentSpace.bind fun space =>
    (s.entriesAt space.pageTable).map fun _ => space.pageTable

/-- Interrupts come to the idle machine as well. -/
def enabled (control : Control) : UserAction → Bool
  | .interrupt => control ≠ .switched
  | _ => control = .running

/-- What the scheduler and the semaphores do; what is done for the program of
the current thread; `RunProcess`, or the end of `main`, with the place of the
new object and the files as they are then. -/
inductive Action
  | kernel (action : Scheduling.Action)
  | user (action : UserAction)
  | start (inRunProcess : Bool) (p : ℕ) (garbage : AddrSpace.Garbage)
      (loadGarbage : LoadGarbage) (fileSystem : FileSystem) (host : Host)
      (fileName : CString) (argv : List CString)

inductive Event
  | kernel (event : Scheduling.Event)
  | user (p : ℕ) (event : UserEvent)
  | started (p : ℕ) (program : Option Program)
  | quiet

/-- The space of the thread that is deleted in `CheckToBeDestroyed`. -/
def deleted (s : Multiprogramming) : Scheduling.Event → Option Space
  | .resumed _ (some t) _ => (s.threads.threads t).bind Thread.space
  | _ => none

/-- `delete space`. -/
def deleteSpace (s : Multiprogramming) (p : ℕ) :
    Except Fault Multiprogramming :=
  match s.spaces p with
  | none => .error .undefinedBehaviour
  | some space => do
      let m ← space.destroy s.machine
      return { s with
        pageTableMap := m.pageTableMap
        spaces := Function.update s.spaces p none }

/-- `Thread::~Thread`, for the thread that an event destroys. -/
def deleteThread (s : Multiprogramming) (event : Scheduling.Event) :
    Except StepError Multiprogramming :=
  match s.deleted event with
  | none => .ok s
  | some space => Threads.simulate (s.deleteSpace space.pageTable)

/-- The threads take a step. -/
def kernelStep (s : Multiprogramming) (action : Scheduling.Action) :
    Except StepError (Multiprogramming × Event) := do
  let (k, event) ← Threads.step s.threads action
  let s ← s.deleteThread event
  return ({ s with threads := k }, .kernel event)

/-- `new AddrSpace`, `Load`, and `Execute` up to `Machine::Run`.  `RunProcess`
hands the space to its thread before it loads it. -/
def startStep (rdata : Bool) (s : Multiprogramming) (inRunProcess : Bool)
    (p : ℕ) (garbage : AddrSpace.Garbage) (loadGarbage : LoadGarbage)
    (fileSystem : FileSystem) (host : Host) (fileName : CString)
    (argv : List CString) : Except StepError (Multiprogramming × Event) := do
  let (success, space, k) ← Threads.simulate
    ((AddrSpace.new garbage).loadIn rdata
      ⟨s.machine, fileSystem, host, [], []⟩ loadGarbage fileName
      argv.length argv)
  let s' := { s with
    memory := k.machine.mainMemory
    pageTableMap := k.machine.pageTableMap
    spaces := Function.update s.spaces p (some space) }
  if success then
    let threads ← Threads.simulate
      (s.threads.execute (.ofObject p space))
    return ({ s' with threads := threads }, .started p
      (Program.inFile rdata fileSystem host loadGarbage fileName argv))
  else if inRunProcess then
    let threads ← Threads.simulate (s.threads.attach (.ofObject p space))
    return ({ s' with threads := threads }, .quiet)
  else return (s', .quiet)

def step (rdata : Bool) (s : Multiprogramming) :
    Action → Except StepError (Multiprogramming × Event)
  | .kernel action => s.kernelStep action
  | .user action =>
      if enabled s.threads.control action then
        match s.currentProgram, action with
        | some p, action => do
            let (m, event) ← Threads.simulate (s.machine.perform action)
            return (s.withMachine m, .user p event)
        | none, .interrupt =>
            .ok (s.withMachine (s.machine.delayedLoad 0 0), .quiet)
        | none, _ => .error .disabled
      else .error .disabled
  | .start inRunProcess p garbage loadGarbage fileSystem host fileName argv =>
      if s.threads.control = .running ∧ s.threads.currentSpace = none ∧
          s.spaces p = none then
        startStep rdata s inRunProcess p garbage loadGarbage fileSystem host
          fileName argv
      else .error .disabled

/-- Before the first program. -/
def start (garbage : ℕ → BitVec 32) (machine : UserState)
    (initial : SemaphoreId → BitVec 32) : Multiprogramming where
  threads := Threads.start garbage machine initial
  memory := Frames.startMachine.mainMemory
  pageTableMap := Frames.startMachine.pageTableMap
  spaces := fun _ => none

def system (rdata : Bool) (garbage : ℕ → BitVec 32) (machine : UserState)
    (initial : SemaphoreId → BitVec 32) :
    StepSystem Multiprogramming Action Event StepError where
  start := start garbage machine initial
  step := step rdata

/-- What an event is for the program in an address space. -/
def Event.for (p : ℕ) : Event → Option Alone.Event
  | .user q event => if q = p then some (.user event) else none
  | .started q program =>
      if q = p then program.map .started else none
  | .kernel _ => none
  | .quiet => none

end Multiprogramming

end Scheduling

end Nachos
