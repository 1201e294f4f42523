import Nachos.AddressSpace
import Nachos.Library.Ownership
import Nachos.Library.StepSystem

/-!
# Who owns the physical frames

Address spaces are created and destroyed in any order while the programs in
them write to memory.  The frames in the page tables of the live spaces are
then exactly the marked ones, and no frame is in two places.
-/

namespace Nachos

open Library

/-- `Machine::Machine`. -/
def Machine.init : Except Fault Machine := do
  let pageTableMap ← Bitmap.init numPhysPages
  return {
    registers := fun _ => 0
    mainMemory := fun _ => 0
    pageTableMap := pageTableMap
    pageTable := none
    pageTableSize := 0 }

/-- The machine with the address spaces that have been created: a destroyed
one is `none`. -/
structure Frames where
  machine : Machine
  spaces : List (Option AddrSpace)

namespace Frames

/-- A space is created in memory that holds anything; `write` stands for the
stores of the programs. -/
inductive Action
  | create (garbage : AddrSpace.Garbage) (numPages : ℕ)
  | destroy (space : ℕ)
  | write (paddr : ℕ) (byte : BitVec 8)

inductive Event
  | created (numPages : ℕ)
  | destroyed (space : ℕ)
  | written (paddr : ℕ)
  deriving DecidableEq

inductive StepError
  | disabled
  | fault (fault : Fault)
  deriving DecidableEq

def orFault {Result : Type} : Except Fault Result → Except StepError Result
  | .ok result => .ok result
  | .error fault => .error (.fault fault)

def step (s : Frames) : Action → Except StepError (Frames × Event)
  | .create garbage numPages => do
      let free ← orFault s.machine.pageTableMap.numClear
      if numPages ≤ free then
        let (space, machine) ←
          orFault ((AddrSpace.new garbage).allocateMemory s.machine numPages)
        return (⟨machine, s.spaces ++ [some space]⟩, .created numPages)
      else .error .disabled
  | .destroy i =>
      match s.spaces[i]? with
      | some (some space) => do
          let machine ← orFault (space.destroy s.machine)
          return (⟨machine, s.spaces.set i none⟩, .destroyed i)
      | _ => .error .disabled
  | .write paddr byte =>
      if paddr < memorySize then do
        let machine ← orFault (s.machine.store paddr byte)
        return ({ s with machine := machine }, .written paddr)
      else .error .disabled

/-- The machine `Machine::Machine` constructs. -/
def startMachine : Machine where
  registers := fun _ => 0
  mainMemory := fun _ => 0
  pageTableMap := ⟨numPhysPages, [0, 0, 0, 0], rfl⟩
  pageTable := none
  pageTableSize := 0

theorem init_startMachine : Machine.init = .ok startMachine := rfl

def start : Frames := ⟨startMachine, []⟩

end Frames

/-- All sequences of creations, destructions and stores. -/
def frameSystem :
    StepSystem Frames Frames.Action Frames.Event Frames.StepError where
  start := Frames.start
  step := Frames.step

namespace Frames

/-! ## Frames and their owners -/

def pagesOf : Option AddrSpace → List ℤ
  | some space => space.physicalPages
  | none => []

/-- The frames in the page tables of the live spaces. -/
def frames (s : Frames) : List ℤ :=
  (s.spaces.map pagesOf).flatten

/-- The page tables are valid, no frame occurs twice, and the bits that are
set are those of the frames that occur. -/
structure FramesOwned (s : Frames) : Prop where
  valid : ∀ space, some space ∈ s.spaces →
    ∃ entries, space.pageTable = .table entries ∧
      entries.length = space.numPages ∧
      ∀ entry ∈ entries, entry.valid = true ∧
        0 ≤ entry.physicalPage ∧ entry.physicalPage < numPhysPages
  nodup : s.frames.Nodup
  bits : ∀ f < numPhysPages,
    s.machine.pageTableMap.bit f = true ↔ (f : ℤ) ∈ s.frames

/-- The bytes of the frames `pages` are zero, and all others are as before. -/
def ZeroedOnly (m m' : Machine) (pages : List ℤ) : Prop :=
  ∀ f < numPhysPages, ∀ j < pageSize,
    m'.mainMemory (f * pageSize + j) =
      if (f : ℤ) ∈ pages then 0 else m.mainMemory (f * pageSize + j)

/-- The invariant of the runs. -/
structure Invariant (s : Frames) : Prop where
  numBits : s.machine.pageTableMap.numBits = numPhysPages
  valid : ∀ space, some space ∈ s.spaces →
    ∃ entries, space.pageTable = .table entries ∧
      entries.length = space.numPages ∧
      ∀ entry ∈ entries, entry.valid = true ∧
        0 ≤ entry.physicalPage ∧ entry.physicalPage < numPhysPages
  owned : Owned s.machine.pageTableMap.Holds (s.spaces.map pagesOf)

section Steps

variable {s : Frames}

theorem invariant_start : Invariant start := by
  constructor
  · rfl
  · simp [start]
  · constructor
    · simp [start]
    · intro x
      simp only [start, List.map_nil, List.flatten_nil, List.not_mem_nil,
        iff_false]
      rintro ⟨hrange, hbit⟩
      have hlt : x.toNat < numPhysPages := by
        have hbelow : x < numPhysPages := hrange.2
        unfold numPhysPages at *
        omega
      revert hbit
      generalize x.toNat = i at hlt
      revert i
      decide

theorem Invariant.framesOwned (hinv : Invariant s) : FramesOwned s := by
  constructor
  · exact hinv.valid
  · exact hinv.owned.nodup
  · intro f hf
    rw [← hinv.numBits] at hf
    rw [← Bitmap.holds_natCast hf, hinv.owned.taken_iff]
    rfl

/-- A creation, from what `AllocateMemory` does. -/
theorem create_step
    (hinv : Invariant s) (garbage : AddrSpace.Garbage) {numPages : ℕ}
    (hfree : numPages ≤
      s.machine.pageTableMap.numBits - s.machine.pageTableMap.marked.card) :
    ∃ s' space, s.step (.create garbage numPages) =
        .ok (s', .created numPages) ∧
      Invariant s' ∧ s'.spaces = s.spaces ++ [some space] ∧
      space.numPages = numPages ∧
      ZeroedOnly s.machine s'.machine space.physicalPages := by
  have hle := s.machine.pageTableMap.card_marked_le
  have hbits := hinv.numBits
  have hroom : s.machine.pageTableMap.marked.card + numPages ≤
      numPhysPages := by omega
  rcases AddrSpace.allocateMemory_spec (.new garbage) hbits hroom with
    ⟨bm, entries, hlength, hgranted, hallocate⟩
  let space : AddrSpace := { AddrSpace.new garbage with
    numPages := numPages, pageTable := .table entries }
  let machine : Machine := { s.machine with
    pageTableMap := bm
    mainMemory := AddrSpace.zeroed space.physicalPages s.machine.mainMemory }
  refine ⟨⟨machine, s.spaces ++ [some space]⟩, space, ?_, ?_, rfl, rfl, ?_⟩
  · simp only [step, Bitmap.numClear_eq, orFault, bind, Except.bind,
      if_pos hfree, hallocate, pure, Except.pure]
    rfl
  · constructor
    · exact hgranted.numBits.trans hbits
    · intro space hmem
      rcases List.mem_append.mp hmem with hold | hnew
      · exact hinv.valid space hold
      · obtain rfl : space = _ := by simpa using hnew
        refine ⟨entries, rfl, hlength, fun entry hentry => ?_⟩
        have hrange := hgranted.inRange entry hentry
        rw [Bitmap.InRange, hbits] at hrange
        exact ⟨hgranted.valid entry hentry, hrange⟩
    · rw [List.map_append, List.map_singleton]
      apply hinv.owned.grant hgranted.nodup
      · intro x hx
        rcases List.mem_map.mp hx with ⟨entry, hentry, rfl⟩
        exact hgranted.free entry hentry
      · exact hgranted.taken
  · intro f hf j hj
    have hframe : (f * pageSize + j) / pageSize = f := by
      unfold pageSize at *
      omega
    simp only [machine, AddrSpace.zeroed, hframe]

/-- A destruction, from what the destructor does. -/
theorem destroy_step
    (hinv : Invariant s) {i : ℕ} {space : AddrSpace}
    (hget : s.spaces[i]? = some (some space)) :
    ∃ s', s.step (.destroy i) = .ok (s', .destroyed i) ∧ Invariant s' := by
  have hmem : some space ∈ s.spaces := List.mem_of_getElem? hget
  rcases hinv.valid space hmem with ⟨entries, htable, hlength, hentries⟩
  have hrange : ∀ entry ∈ entries,
      s.machine.pageTableMap.InRange entry.physicalPage := by
    intro entry hentry
    rw [Bitmap.InRange, hinv.numBits]
    exact (hentries entry hentry).2
  rcases AddrSpace.destroy_spec htable hlength hrange with
    ⟨bm, hdestroy, hbits, hholds⟩
  refine ⟨⟨{ s.machine with pageTableMap := bm }, s.spaces.set i none⟩,
    ?_, ?_⟩
  · simp only [step, hget, hdestroy, orFault, bind, Except.bind, pure,
      Except.pure]
  constructor
  · exact hbits.trans hinv.numBits
  · intro other hother
    rcases List.mem_or_eq_of_mem_set hother with hold | heq
    · exact hinv.valid other hold
    · simp at heq
  · rw [List.map_set]
    have hpages : (s.spaces.map pagesOf)[i]? = some space.physicalPages := by
      simp [hget, pagesOf]
    apply hinv.owned.release hpages
    intro x
    rw [hholds]
    simp [AddrSpace.physicalPages, htable]

theorem write_step
    (hinv : Invariant s) {paddr : ℕ} (hlt : paddr < memorySize)
    (byte : BitVec 8) :
    ∃ s', s.step (.write paddr byte) = .ok (s', .written paddr) ∧
      Invariant s' := by
  refine ⟨{ s with machine := { s.machine with
    mainMemory := Function.update s.machine.mainMemory paddr byte } }, ?_, ?_⟩
  · rw [step, if_pos hlt, Machine.store_eq hlt]
    rfl
  · exact ⟨hinv.numBits, hinv.valid, hinv.owned⟩

/-- Every step is one of these three, or it is not enabled. -/
theorem Invariant.step
    (hinv : Invariant s) (action : Action) :
    s.step action = .error .disabled ∨
      ∃ s' event, s.step action = .ok (s', event) ∧ Invariant s' := by
  cases action with
  | create garbage numPages =>
      by_cases hfree : numPages ≤
          s.machine.pageTableMap.numBits - s.machine.pageTableMap.marked.card
      · rcases create_step hinv garbage hfree with
          ⟨s', space, hstep, hinv', -⟩
        exact .inr ⟨s', _, hstep, hinv'⟩
      · left
        simp only [Frames.step, Bitmap.numClear_eq, orFault, bind,
          Except.bind, if_neg hfree]
  | destroy i =>
      cases hget : s.spaces[i]? with
      | none => exact .inl (by simp only [Frames.step, hget])
      | some slot =>
          cases slot with
          | none => exact .inl (by simp only [Frames.step, hget])
          | some space =>
              rcases destroy_step hinv hget with ⟨s', hstep, hinv'⟩
              exact .inr ⟨s', _, hstep, hinv'⟩
  | write paddr byte =>
      by_cases hlt : paddr < memorySize
      · rcases write_step hinv hlt byte with ⟨s', hstep, hinv'⟩
        exact .inr ⟨s', _, hstep, hinv'⟩
      · exact .inl (by simp only [Frames.step, if_neg hlt])

end Steps

section Runs

variable {trace : List Event} {s : Frames}

theorem invariant_of_reaches
    (hreaches : frameSystem.Reaches trace s) : Invariant s := by
  apply hreaches.invariant (fun _ s => Invariant s)
  · exact invariant_start
  · intro trace s s' action event _ hinv _ hstep
    rcases hinv.step action with hdisabled | ⟨after, _, hafter, hinv'⟩
    · cases hdisabled.symm.trans hstep
    · cases hafter.symm.trans hstep
      exact hinv'

/-- The frames are owned in every reachable state, no creation or destruction
fails, and each creation zeroes the frames it takes and no other byte. -/
theorem frames_owned
    (hreaches : frameSystem.Reaches trace s) :
    FramesOwned s ∧
      (∀ action fault, s.step action ≠ .error (.fault fault)) ∧
      ∀ garbage numPages s' event,
        s.step (.create garbage numPages) = .ok (s', event) →
          ∃ space, s'.spaces = s.spaces ++ [some space] ∧
            space.numPages = numPages ∧
            ZeroedOnly s.machine s'.machine space.physicalPages := by
  have hinv := invariant_of_reaches hreaches
  refine ⟨hinv.framesOwned, ?_, ?_⟩
  · intro action fault hfault
    rcases hinv.step action with hdisabled | ⟨after, _, hafter, -⟩
    · cases hdisabled.symm.trans hfault
    · cases hafter.symm.trans hfault
  · intro garbage numPages s' event hstep
    by_cases hfree : numPages ≤
        s.machine.pageTableMap.numBits - s.machine.pageTableMap.marked.card
    · rcases create_step hinv garbage hfree with
        ⟨after, space, hafter, -, hspaces, hpages, hzeroed⟩
      cases hafter.symm.trans hstep
      exact ⟨space, hspaces, hpages, hzeroed⟩
    · simp only [Frames.step, Bitmap.numClear_eq, orFault, bind, Except.bind,
        if_neg hfree] at hstep
      cases hstep

/-- The frames 0 and 1 are used by a second space when the first one is
gone. -/
theorem frames_owned_reused :
    ∃ trace s, frameSystem.Reaches trace s ∧
      trace = [.created 2, .created 1, .destroyed 0, .created 3] ∧
      s.frames = [2, 0, 1, 3] ∧ FramesOwned s := by
  let garbage : AddrSpace.Garbage := ⟨0, 0, 0, 5, 7⟩
  have hreplays : frameSystem.Replays StepSystem.anyStep
      [.create garbage 2, .create garbage 1, .destroy 0, .create garbage 3]
      (fun trace s => decide
        (trace = [.created 2, .created 1, .destroyed 0, .created 3]) &&
        decide (s.frames = [2, 0, 1, 3])) = true := by
    decide +kernel
  rcases StepSystem.exists_run_of_replays hreplays with
    ⟨trace, s, hrun, hcheck⟩
  simp only [Bool.and_eq_true, decide_eq_true_eq] at hcheck
  exact ⟨trace, s, hrun, hcheck.1, hcheck.2, (frames_owned hrun).1⟩

end Runs

end Frames

end Nachos
