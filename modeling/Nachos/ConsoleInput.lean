import Nachos.Library.StepSystem
import Nachos.Locks

/-!
# The keyboard: `ConsoleInput` and `SynchConsoleInput`

The console polls the host for a character with one interrupt at a time.  The
next poll is scheduled when there was nothing to read, and otherwise when the
kernel takes the character.  `incoming` is a `char`, in which `EOF` and the
byte 255 are the same.
-/

namespace Nachos.Scheduling

open Library

/-- `EOF`, as a `char`. -/
def eof : BitVec 8 := -1

/-! ## The console -/

/-- `class ConsoleInput`, with the bytes that the host has still to deliver,
whether these are the last ones, and the interrupts that have been scheduled
and have not occurred. -/
structure ConsoleInput where
  unread : List (BitVec 8)
  ended : Bool
  incoming : BitVec 8
  scheduled : ℕ

namespace ConsoleInput

/-- `ConsoleInput::ConsoleInput`. -/
def new : ConsoleInput :=
  ⟨[], false, eof, 1⟩

/-- `ConsoleInput::CallBack`; with `true` it has called
`SynchConsoleInput::CallBack`. -/
def callBack (console : ConsoleInput) : Except Fault (ConsoleInput × Bool) := do
  assert (console.incoming = eof)
  match console.unread with
  | ch :: unread =>
      return ({ console with unread := unread, incoming := ch }, true)
  | [] =>
      -- at the end of the file there is something to read, of no length
      if console.ended then return (console, true)
      else return ({ console with scheduled := console.scheduled + 1 }, false)

/-- `ConsoleInput::GetChar`. -/
def getChar (console : ConsoleInput) : BitVec 8 × ConsoleInput :=
  let scheduled :=
    if console.incoming ≠ eof then console.scheduled + 1 else console.scheduled
  (console.incoming, { console with scheduled := scheduled, incoming := eof })

end ConsoleInput

/-! ## The kernel's interface to it -/

namespace SynchConsoleInput

/-- The statement of `SynchConsoleInput::GetChar` that a thread is about to
execute. -/
inductive Point
  | outside
  -- `Acquire`
  | acquiring
  | acquired
  -- `P`
  | waiting
  | taking
  -- `Release`
  | releasing (ch : BitVec 8)
  | released (ch : BitVec 8)
  | returning (ch : BitVec 8)

end SynchConsoleInput

structure SynchConsoleInput where
  consoleInput : ConsoleInput
  lock : Lock
  waitFor : Semaphore
  point : ThreadId → SynchConsoleInput.Point

namespace SynchConsoleInput

/-- A byte is typed, or the input ends; the interrupt of the console occurs; a
thread calls `GetChar` or takes a step in it. -/
inductive Action
  | typed (ch : BitVec 8)
  | ends
  | interrupt
  | call (t : ThreadId)
  | go (t : ThreadId)
  deriving DecidableEq

inductive Event
  | silent
  | typed (ch : BitVec 8)
  | taken (t : ThreadId) (ch : BitVec 8)
  | returned (t : ThreadId) (ch : BitVec 8)
  deriving DecidableEq

def setPoint (s : SynchConsoleInput) (t : ThreadId) (point : Point) :
    SynchConsoleInput :=
  { s with point := Function.update s.point t point }

/-- The next statement of a thread, if it is not asleep. -/
def go (s : SynchConsoleInput) (t : ThreadId) :
    Except StepError (SynchConsoleInput × Event) :=
  match s.point t with
  | .outside => .error .disabled
  | .acquiring =>
      if t ∈ s.lock.semaphore.queue then .error .disabled
      else
        let (lock, passes) := s.lock.test t
        let s := { s with lock := lock }
        if passes then .ok (s.setPoint t .acquired, .silent)
        else .ok (s, .silent)
  | .acquired =>
      .ok ({ s with lock := s.lock.hold t }.setPoint t .waiting, .silent)
  | .waiting =>
      if t ∈ s.waitFor.queue then .error .disabled
      else
        let (waitFor, passes) := s.waitFor.test t
        let s := { s with waitFor := waitFor }
        if passes then .ok (s.setPoint t .taking, .silent)
        else .ok (s, .silent)
  | .taking =>
      let (ch, consoleInput) := s.consoleInput.getChar
      .ok ({ s with consoleInput := consoleInput }.setPoint t (.releasing ch),
        .taken t ch)
  | .releasing ch => do
      let lock ← Threads.simulate (s.lock.drop t)
      return ({ s with lock := lock }.setPoint t (.released ch), .silent)
  | .released ch =>
      .ok ({ s with lock := s.lock.give }.setPoint t (.returning ch), .silent)
  | .returning ch => .ok (s.setPoint t .outside, .returned t ch)

def step (s : SynchConsoleInput) (action : Action) :
    Except StepError (SynchConsoleInput × Event) :=
  match action with
  | .typed ch =>
      if s.consoleInput.ended then .error .disabled
      else .ok ({ s with consoleInput := { s.consoleInput with
        unread := s.consoleInput.unread ++ [ch] } }, .typed ch)
  | .ends =>
      .ok ({ s with consoleInput := { s.consoleInput with ended := true } },
        .silent)
  | .interrupt =>
      if s.consoleInput.scheduled = 0 then .error .disabled
      else do
        let (consoleInput, called) ← Threads.simulate
          { s.consoleInput with
            scheduled := s.consoleInput.scheduled - 1 }.callBack
        let waitFor := if called then s.waitFor.give else s.waitFor
        return ({ s with consoleInput := consoleInput, waitFor := waitFor },
          .silent)
  | .call t =>
      match s.point t with
      | .outside => .ok (s.setPoint t .acquiring, .silent)
      | _ => .error .disabled
  | .go t => s.go t

/-- `SynchConsoleInput::SynchConsoleInput`. -/
def start : SynchConsoleInput where
  consoleInput := .new
  lock := .new
  waitFor := ⟨0, []⟩
  point _ := .outside

def system : StepSystem SynchConsoleInput Action Event StepError where
  start := start
  step := step

/-! ## What is to be shown -/

/-- The input. -/
def typed (trace : List Event) : List (BitVec 8) :=
  trace.filterMap fun
    | .typed ch => some ch
    | _ => none

/-- What the threads have got from the console. -/
def taken (trace : List Event) : List (BitVec 8) :=
  trace.filterMap fun
    | .taken _ ch => some ch
    | _ => none

def takenBy (t : ThreadId) (trace : List Event) : List (BitVec 8) :=
  trace.filterMap fun
    | .taken u ch => if u = t then some ch else none
    | _ => none

def returnedTo (t : ThreadId) (trace : List Event) : List (BitVec 8) :=
  trace.filterMap fun
    | .returned u ch => if u = t then some ch else none
    | _ => none

/-- The character that has arrived and has not been taken. -/
def arrived (s : SynchConsoleInput) : List (BitVec 8) :=
  if s.consoleInput.incoming = eof then [] else [s.consoleInput.incoming]

/-- The characters of the calls that a thread is in. -/
def Point.underway : Point → List (BitVec 8)
  | .releasing ch | .released ch | .returning ch => [ch]
  | _ => []

/-- The console delivers the input.  Behind its last byte, a call finds
`EOF`. -/
structure Delivers (trace : List Event) (s : SynchConsoleInput) : Prop where
  inOrder : taken trace ++ s.arrived ++ s.consoleInput.unread = typed trace ∨
    s.consoleInput.ended = true ∧ taken trace = typed trace ++ [eof] ∧
      s.consoleInput.unread = []
  returns : ∀ t, takenBy t trace = returnedTo t trace ++ (s.point t).underway
  asserts : ∀ action fault, step s action ≠ .error (.fault fault)
  awake : s.consoleInput.unread ≠ [] → s.consoleInput.scheduled = 1 ∨
    s.arrived ≠ [] ∧ (s.waitFor.value = 1 ∨ ∃ t, s.point t = .taking)

/-- The interrupt does not read the byte that is `EOF` as a `char`. -/
def ReadsNoEof (_ : List Event) (s : SynchConsoleInput) (action : Action) :
    Prop :=
  action = .interrupt → s.consoleInput.unread.head? ≠ some eof

instance (trace : List Event) (s : SynchConsoleInput) (action : Action) :
    Decidable (ReadsNoEof trace s action) :=
  inferInstanceAs (Decidable (_ → _))

/-! ## The steps -/

/-- Where a thread is with respect to the lock. -/
def Point.stage : Point → Lock.Stage
  | .outside => .outside
  | .acquiring => .outside
  | .acquired => .entered
  | .waiting => .holding
  | .taking => .holding
  | .releasing _ => .holding
  | .released _ => .leaving
  | .returning _ => .outside

/-- What a step does. -/
inductive Move (s : SynchConsoleInput) :
    Action → Event → SynchConsoleInput → Prop
  | types {ch : BitVec 8} : s.consoleInput.ended = false →
      Move s (.typed ch) (.typed ch) { s with consoleInput := { s.consoleInput with
        unread := s.consoleInput.unread ++ [ch] } }
  | ends : Move s .ends .silent
      { s with consoleInput := { s.consoleInput with ended := true } }
  | polls : s.consoleInput.scheduled = 1 → s.consoleInput.unread = [] →
      s.consoleInput.ended = false → Move s .interrupt .silent s
  | reads {ch : BitVec 8} {unread : List (BitVec 8)} :
      s.consoleInput.scheduled = 1 → s.consoleInput.unread = ch :: unread →
      Move s .interrupt .silent { s with
        consoleInput := ⟨unread, s.consoleInput.ended, ch, 0⟩
        waitFor := s.waitFor.give }
  | readsEnd : s.consoleInput.scheduled = 1 → s.consoleInput.unread = [] →
      s.consoleInput.ended = true → Move s .interrupt .silent { s with
        consoleInput := ⟨[], true, eof, 0⟩
        waitFor := s.waitFor.give }
  | calls {t : ThreadId} : s.point t = .outside →
      Move s (.call t) .silent (s.setPoint t .acquiring)
  | blocks {t : ThreadId} : s.point t = .acquiring →
      s.lock.semaphore.value = 0 →
      Move s (.go t) .silent { s with lock := (s.lock.test t).1 }
  | acquires {t : ThreadId} : s.point t = .acquiring →
      s.lock.semaphore.value ≠ 0 →
      Move s (.go t) .silent
        ({ s with lock := (s.lock.test t).1 }.setPoint t .acquired)
  | holds {t : ThreadId} : s.point t = .acquired →
      Move s (.go t) .silent
        ({ s with lock := s.lock.hold t }.setPoint t .waiting)
  | sleeps {t : ThreadId} : s.point t = .waiting → t ∉ s.waitFor.queue →
      s.waitFor.value = 0 →
      Move s (.go t) .silent { s with waitFor := (s.waitFor.test t).1 }
  | passes {t : ThreadId} : s.point t = .waiting → s.waitFor.value ≠ 0 →
      Move s (.go t) .silent
        ({ s with waitFor := (s.waitFor.test t).1 }.setPoint t .taking)
  | takes {t : ThreadId} : s.point t = .taking →
      Move s (.go t) (.taken t s.consoleInput.incoming)
        ({ s with consoleInput := s.consoleInput.getChar.2 }.setPoint t
          (.releasing s.consoleInput.incoming))
  | releases {t : ThreadId} {ch : BitVec 8} : s.point t = .releasing ch →
      Move s (.go t) .silent ({ s with
        lock := { s.lock with lockHolder := none } }.setPoint t (.released ch))
  | gives {t : ThreadId} {ch : BitVec 8} : s.point t = .released ch →
      Move s (.go t) .silent
        ({ s with lock := s.lock.give }.setPoint t (.returning ch))
  | returns {t : ThreadId} {ch : BitVec 8} : s.point t = .returning ch →
      Move s (.go t) (.returned t ch) (s.setPoint t .outside)

variable {s s' : SynchConsoleInput} {action : Action} {event : Event}
variable {trace : List Event} {t u : ThreadId}

theorem setPoint_self (s : SynchConsoleInput) (t : ThreadId) (p : Point) :
    (s.setPoint t p).point t = p :=
  Function.update_self ..

theorem setPoint_of_ne (s : SynchConsoleInput) (p : Point) (hu : u ≠ t) :
    (s.setPoint t p).point u = s.point u :=
  Function.update_of_ne hu ..

theorem stage_setPoint (s : SynchConsoleInput) (t : ThreadId) (p : Point) :
    (fun u => ((s.setPoint t p).point u).stage) =
      Function.update (fun u => (s.point u).stage) t p.stage :=
  Function.comp_update Point.stage s.point t p

theorem Move.guards
    (hmove : Move s action event s')
    (h : s.lock.Guards fun u => (s.point u).stage) :
    s'.lock.Guards fun u => (s'.point u).stage := by
  cases hmove with
  | types => exact h
  | ends => exact h
  | polls => exact h
  | reads => exact h
  | readsEnd => exact h
  | calls hp => exact h.stays hp rfl
  | blocks hp hvalue => exact h.sleeps hvalue
  | acquires hp hvalue =>
      rw [stage_setPoint]
      exact h.enters hvalue
  | holds hp =>
      rw [stage_setPoint]
      exact h.moves (Lock.inside_of_point hp (by simp [Point.stage]))
        (by simp [Point.stage]) fun _ => rfl
  | sleeps hp => exact h
  | passes hp => exact h.stays hp rfl
  | takes hp => exact h.stays hp rfl
  | releases hp =>
      rw [stage_setPoint]
      exact h.moves (Lock.inside_of_point hp (by simp [Point.stage]))
        (by simp [Point.stage]) (by simp [Point.stage])
  | gives hp =>
      rw [stage_setPoint]
      exact h.leaves (Lock.inside_of_point hp (by simp [Point.stage]))
  | returns hp => exact h.stays hp rfl

/-! ## Whose turn it is -/

/-- Nobody has the unit of the semaphore, and the thread that holds the lock
may be asleep. -/
structure Idle (s : SynchConsoleInput) : Prop where
  value : s.waitFor.value = 0
  queue : s.waitFor.queue = [] ∨
    ∃ t, s.waitFor.queue = [t] ∧ s.point t = .waiting
  nobody : ∀ t, s.point t ≠ .taking

/-- There is a character to be taken, or the end of the input. -/
def Ready (console : ConsoleInput) : Prop :=
  console.incoming ≠ eof ∨ console.ended = true ∧ console.unread = []

/-- The console polls; or it has told of a character, which is in the
semaphore, or in the hands of a thread that is about to take it; or a thread
has found the end of the input. -/
inductive Turn (trace : List Event) (s : SynchConsoleInput) : Prop
  | polling : s.consoleInput.scheduled = 1 → s.consoleInput.incoming = eof →
      taken trace ++ s.consoleInput.unread = typed trace → Idle s →
      Turn trace s
  | ready : s.consoleInput.scheduled = 0 → Ready s.consoleInput →
      taken trace ++ s.arrived ++ s.consoleInput.unread = typed trace →
      s.waitFor = ⟨1, []⟩ → (∀ t, s.point t ≠ .taking) → Turn trace s
  | taking {t : ThreadId} : s.consoleInput.scheduled = 0 →
      Ready s.consoleInput →
      taken trace ++ s.arrived ++ s.consoleInput.unread = typed trace →
      s.waitFor = ⟨0, []⟩ → s.point t = .taking → Turn trace s
  | atEnd : s.consoleInput.scheduled = 0 → s.consoleInput.incoming = eof →
      s.consoleInput.ended = true → s.consoleInput.unread = [] →
      taken trace = typed trace ++ [eof] → Idle s → Turn trace s

theorem turn_start : Turn [] start :=
  .polling rfl rfl rfl ⟨rfl, .inl rfl, nofun⟩

theorem taken_append (trace : List Event) (event : Event) :
    taken (trace ++ [event]) = taken trace ++ taken [event] :=
  List.filterMap_append

theorem typed_append (trace : List Event) (event : Event) :
    typed (trace ++ [event]) = typed trace ++ typed [event] :=
  List.filterMap_append

/-- A thread that neither waits for the console nor takes a character goes
on without doing so. -/
theorem Idle.keep
    {s₁ : SynchConsoleInput} {p : Point} (h : Idle s)
    (hpoint : s₁.point = s.point) (hwaitFor : s₁.waitFor = s.waitFor)
    (ht : s.point t ≠ .waiting) (hp : p ≠ .taking) :
    Idle (s₁.setPoint t p) := by
  constructor
  · show s₁.waitFor.value = 0
    rw [hwaitFor]
    exact h.value
  · cases h.queue with
    | inl hempty =>
        exact .inl ((congrArg Semaphore.queue hwaitFor).trans hempty)
    | inr hasleep =>
        obtain ⟨u, hqueue, hu⟩ := hasleep
        have hne : u ≠ t := by
          intro hsame
          exact ht (hsame ▸ hu)
        have hstill : (s₁.setPoint t p).point u = .waiting := by
          rw [setPoint_of_ne _ _ hne, hpoint]
          exact hu
        exact .inr ⟨u, (congrArg Semaphore.queue hwaitFor).trans hqueue, hstill⟩
  · intro u
    by_cases hu : u = t
    · rw [hu, setPoint_self]
      exact hp
    · rw [setPoint_of_ne _ _ hu, hpoint]
      exact h.nobody u

theorem Turn.keep
    {s₁ : SynchConsoleInput} {p : Point} (h : Turn trace s)
    (hconsole : s₁.consoleInput = s.consoleInput)
    (hpoint : s₁.point = s.point) (hwaitFor : s₁.waitFor = s.waitFor)
    (ht : s.point t ≠ .waiting ∧ s.point t ≠ .taking) (hp : p ≠ .taking)
    (htaken : taken [event] = []) (htyped : typed [event] = []) :
    Turn (trace ++ [event]) (s₁.setPoint t p) := by
  have htaken' : taken (trace ++ [event]) = taken trace := by
    rw [taken_append, htaken, List.append_nil]
  have htyped' : typed (trace ++ [event]) = typed trace := by
    rw [typed_append, htyped, List.append_nil]
  have hsame : (s₁.setPoint t p).consoleInput = s.consoleInput := hconsole
  have harrived : (s₁.setPoint t p).arrived = s.arrived := by
    unfold arrived
    rw [hsame]
  have hsem : (s₁.setPoint t p).waitFor = s.waitFor := hwaitFor
  have hnobody : (∀ u, s.point u ≠ .taking) →
      ∀ u, (s₁.setPoint t p).point u ≠ .taking := by
    intro hnone u
    by_cases hu : u = t
    · rw [hu, setPoint_self]
      exact hp
    · rw [setPoint_of_ne _ _ hu, hpoint]
      exact hnone u
  cases h with
  | polling hone heof horder hidle =>
      refine .polling ?_ ?_ ?_ (hidle.keep hpoint hwaitFor ht.1 hp)
      · rw [hsame, hone]
      · rw [hsame, heof]
      · rw [htaken', htyped', hsame, horder]
  | ready hzero hready horder hunit hnone =>
      refine .ready ?_ ?_ ?_ ?_ (hnobody hnone)
      · rw [hsame, hzero]
      · rw [hsame]
        exact hready
      · rw [htaken', htyped', hsame, harrived, horder]
      · rw [hsem, hunit]
  | @taking u hzero hready horder hunit hu =>
      have hne : u ≠ t := by
        intro heq
        exact ht.2 (heq ▸ hu)
      refine .taking (t := u) ?_ ?_ ?_ ?_ ?_
      · rw [hsame, hzero]
      · rw [hsame]
        exact hready
      · rw [htaken', htyped', hsame, harrived, horder]
      · rw [hsem, hunit]
      · rw [setPoint_of_ne _ _ hne, hpoint]
        exact hu
  | atEnd hzero heof hended hempty horder hidle =>
      refine .atEnd ?_ ?_ ?_ ?_ ?_ (hidle.keep hpoint hwaitFor ht.1 hp)
      · rw [hsame, hzero]
      · rw [hsame, heof]
      · rw [hsame, hended]
      · rw [hsame, hempty]
      · rw [htaken', htyped', horder]

/-- A thread that is asleep is woken, and does not have the unit yet. -/
theorem Idle.told (h : Idle s) : s.waitFor.give = ⟨1, []⟩ := by
  rw [Semaphore.give, h.value]
  cases h.queue with
  | inl hempty =>
      rw [hempty]
      rfl
  | inr hasleep =>
      obtain ⟨u, hqueue, -⟩ := hasleep
      rw [hqueue]
      rfl

/-- The thread that waits for the console is the only one. -/
theorem Idle.sleeps
    (h : Idle s) (hguards : s.lock.Guards fun u => (s.point u).stage)
    (ht : s.point t = .waiting) (hawake : t ∉ s.waitFor.queue) :
    Idle { s with waitFor := (s.waitFor.test t).1 } := by
  rw [Semaphore.test_of_zero h.value]
  refine ⟨h.value, ?_, h.nobody⟩
  cases h.queue with
  | inl hempty => exact .inr ⟨t, by simp [hempty], ht⟩
  | inr hasleep =>
      obtain ⟨u, hqueue, hu⟩ := hasleep
      have hsame : u = t := hguards.unique (by simp [hu, Point.stage])
        (by simp [ht, Point.stage])
      rw [hqueue, hsame] at hawake
      exact (hawake (List.mem_singleton_self t)).elim

/-- Nobody has taken or typed anything. -/
theorem Turn.silent
    {s₁ : SynchConsoleInput} (h : Turn trace s₁) (htaken : taken [event] = [])
    (htyped : typed [event] = []) : Turn (trace ++ [event]) s₁ := by
  have htaken' : taken (trace ++ [event]) = taken trace := by
    rw [taken_append, htaken, List.append_nil]
  have htyped' : typed (trace ++ [event]) = typed trace := by
    rw [typed_append, htyped, List.append_nil]
  cases h with
  | polling hone heof horder hidle =>
      exact .polling hone heof (by rw [htaken', htyped', horder]) hidle
  | ready hzero hready horder hunit hnone =>
      exact .ready hzero hready (by rw [htaken', htyped', horder]) hunit hnone
  | taking hzero hready horder hunit hu =>
      exact .taking hzero hready (by rw [htaken', htyped', horder]) hunit hu
  | atEnd hzero heof hended hempty horder hidle =>
      exact .atEnd hzero heof hended hempty (by rw [htaken', htyped', horder])
        hidle

theorem Turn.types
    {ch : BitVec 8} (h : Turn trace s) (hopen : s.consoleInput.ended = false) :
    Turn (trace ++ [.typed ch]) { s with consoleInput := { s.consoleInput with
      unread := s.consoleInput.unread ++ [ch] } } := by
  have htaken : taken (trace ++ [.typed ch]) = taken trace := by
    rw [taken_append]
    exact List.append_nil _
  have htyped : typed (trace ++ [.typed ch]) = typed trace ++ [ch] :=
    typed_append trace _
  have hready : Ready s.consoleInput → s.consoleInput.incoming ≠ eof := by
    intro hready
    cases hready with
    | inl hcharacter => exact hcharacter
    | inr hend =>
        rw [hopen] at hend
        cases hend.1
  cases h with
  | polling hone heof horder hidle =>
      refine .polling hone heof ?_ ⟨hidle.value, hidle.queue, hidle.nobody⟩
      rw [htaken, htyped, ← horder]
      exact (List.append_assoc ..).symm
  | ready hzero hcharacter horder hunit hnone =>
      refine .ready hzero (.inl (hready hcharacter)) ?_ hunit hnone
      rw [htaken, htyped, ← horder]
      exact (List.append_assoc ..).symm
  | taking hzero hcharacter horder hunit hu =>
      refine .taking hzero (.inl (hready hcharacter)) ?_ hunit hu
      rw [htaken, htyped, ← horder]
      exact (List.append_assoc ..).symm
  | atEnd hzero heof hended =>
      rw [hopen] at hended
      cases hended

theorem Turn.ends (h : Turn trace s) : Turn trace
    { s with consoleInput := { s.consoleInput with ended := true } } := by
  have hready : Ready s.consoleInput →
      Ready { s.consoleInput with ended := true } := by
    intro hready
    exact hready.imp_right fun hend => ⟨rfl, hend.2⟩
  cases h with
  | polling hone heof horder hidle =>
      exact .polling hone heof horder ⟨hidle.value, hidle.queue, hidle.nobody⟩
  | ready hzero hcharacter horder hunit hnone =>
      exact .ready hzero (hready hcharacter) horder hunit hnone
  | taking hzero hcharacter horder hunit hu =>
      exact .taking hzero (hready hcharacter) horder hunit hu
  | atEnd hzero heof hended hempty horder hidle =>
      exact .atEnd hzero heof rfl hempty horder
        ⟨hidle.value, hidle.queue, hidle.nobody⟩

/-- When an interrupt is pending, the console polls. -/
theorem Turn.polls
    (h : Turn trace s) (hone : s.consoleInput.scheduled = 1) :
    s.consoleInput.incoming = eof ∧
      taken trace ++ s.consoleInput.unread = typed trace ∧ Idle s := by
  cases h with
  | polling _ heof horder hidle => exact ⟨heof, horder, hidle⟩
  | ready hzero => cases hzero.symm.trans hone
  | taking hzero => cases hzero.symm.trans hone
  | atEnd hzero => cases hzero.symm.trans hone

theorem Turn.reads
    {ch : BitVec 8} {unread : List (BitVec 8)} (h : Turn trace s)
    (hone : s.consoleInput.scheduled = 1)
    (hunread : s.consoleInput.unread = ch :: unread) (hch : ch ≠ eof) :
    Turn trace { s with
      consoleInput := ⟨unread, s.consoleInput.ended, ch, 0⟩
      waitFor := s.waitFor.give } := by
  obtain ⟨-, horder, hidle⟩ := h.polls hone
  refine .ready rfl (.inl hch) ?_ hidle.told hidle.nobody
  rw [← horder, hunread, arrived, if_neg hch, List.append_assoc]
  rfl

theorem Turn.readsEnd
    (h : Turn trace s) (hone : s.consoleInput.scheduled = 1)
    (hempty : s.consoleInput.unread = []) :
    Turn trace { s with
      consoleInput := ⟨[], true, eof, 0⟩
      waitFor := s.waitFor.give } := by
  obtain ⟨-, horder, hidle⟩ := h.polls hone
  refine .ready rfl (.inr ⟨rfl, rfl⟩) ?_ hidle.told hidle.nobody
  rw [← horder, hempty, arrived, if_pos rfl, List.append_nil]

/-- The unit of the semaphore goes to a thread that takes the character. -/
theorem Turn.passes
    (h : Turn trace s) (hvalue : s.waitFor.value ≠ 0) :
    Turn trace ({ s with waitFor := (s.waitFor.test t).1 }.setPoint t
      .taking) := by
  cases h with
  | polling _ _ _ hidle => exact (hvalue hidle.value).elim
  | ready hzero hready horder hunit hnone =>
      refine .taking (t := t) hzero hready horder ?_ (setPoint_self ..)
      show (s.waitFor.test t).1 = ⟨0, []⟩
      rw [hunit]
      rfl
  | taking _ _ _ hunit =>
      rw [hunit] at hvalue
      exact (hvalue rfl).elim
  | atEnd _ _ _ _ _ hidle => exact (hvalue hidle.value).elim

theorem Turn.takes
    (h : Turn trace s) (hguards : s.lock.Guards fun u => (s.point u).stage)
    (ht : s.point t = .taking) :
    Turn (trace ++ [.taken t s.consoleInput.incoming])
      ({ s with consoleInput := s.consoleInput.getChar.2 }.setPoint t
        (.releasing s.consoleInput.incoming)) := by
  have htyped : typed (trace ++ [.taken t s.consoleInput.incoming]) =
      typed trace := by
    rw [typed_append]
    exact List.append_nil _
  have htaken : taken (trace ++ [.taken t s.consoleInput.incoming]) =
      taken trace ++ [s.consoleInput.incoming] :=
    taken_append trace _
  have hnobody : ∀ u, (({ s with
      consoleInput := s.consoleInput.getChar.2 } : SynchConsoleInput).setPoint t
        (.releasing s.consoleInput.incoming)).point u ≠ .taking := by
    intro u
    by_cases hu : u = t
    · rw [hu, setPoint_self]
      exact nofun
    · rw [setPoint_of_ne _ _ hu]
      intro htaking
      exact hu (hguards.unique (by simp [show s.point u = .taking from htaking,
        Point.stage]) (by simp [ht, Point.stage]))
  cases h with
  | polling _ _ _ hidle => exact (hidle.nobody t ht).elim
  | ready _ _ _ _ hnone => exact (hnone t ht).elim
  | atEnd _ _ _ _ _ hidle => exact (hidle.nobody t ht).elim
  | taking hzero hready horder hunit =>
      have hidle : Idle (({ s with
          consoleInput := s.consoleInput.getChar.2 } :
            SynchConsoleInput).setPoint t
              (.releasing s.consoleInput.incoming)) :=
        ⟨congrArg Semaphore.value hunit, .inl (congrArg Semaphore.queue hunit),
          hnobody⟩
      by_cases heof : s.consoleInput.incoming = eof
      · obtain hcharacter | ⟨hended, hempty⟩ := hready
        · exact (hcharacter heof).elim
        · refine .atEnd ?_ rfl hended hempty ?_ hidle
          · show (if _ then _ else _) = 0
            rw [if_neg (not_not_intro heof), hzero]
          · rw [htaken, htyped, ← horder, arrived, if_pos heof, hempty, heof]
            simp
      · refine .polling ?_ rfl ?_ hidle
        · show (if _ then _ else _) = 1
          rw [if_pos heof, hzero]
        · rw [htaken, htyped, ← horder, arrived, if_neg heof]
          rfl

theorem Move.turn
    (hmove : Move s action event s') (hguard : ReadsNoEof trace s action)
    (hguards : s.lock.Guards fun u => (s.point u).stage) (h : Turn trace s) :
    Turn (trace ++ [event]) s' := by
  have haway : ∀ {t : ThreadId} {p : Point}, s.point t = p →
      p ≠ .waiting ∧ p ≠ .taking →
      s.point t ≠ .waiting ∧ s.point t ≠ .taking := by
    intro t p hp hne
    rw [hp]
    exact hne
  cases hmove with
  | types hopen => exact h.types hopen
  | ends => exact h.ends.silent rfl rfl
  | polls hone hempty hopen => exact h.silent rfl rfl
  | @reads ch unread hone hunread =>
      have hch : ch ≠ eof := by
        have hhead := hguard rfl
        rw [hunread] at hhead
        exact fun heq => hhead (congrArg some heq)
      exact (h.reads hone hunread hch).silent rfl rfl
  | readsEnd hone hempty hended =>
      exact (h.readsEnd hone hempty).silent rfl rfl
  | calls hp => exact h.keep rfl rfl rfl (haway hp (by simp)) nofun rfl rfl
  | @blocks t hp =>
      have hkept : Turn (trace ++ [.silent]) (setPoint
          { s with lock := (s.lock.test t).1 } t .acquiring) :=
        h.keep rfl rfl rfl (haway hp (by simp)) nofun rfl rfl
      rwa [setPoint, ← hp, Function.update_eq_self] at hkept
  | acquires hp =>
      exact h.keep rfl rfl rfl (haway hp (by simp)) nofun rfl rfl
  | holds hp => exact h.keep rfl rfl rfl (haway hp (by simp)) nofun rfl rfl
  | @sleeps t hp hawake hvalue =>
      refine Turn.silent ?_ rfl rfl
      cases h with
      | polling hone heof horder hidle =>
          exact .polling hone heof horder (hidle.sleeps hguards hp hawake)
      | ready _ _ _ hunit =>
          rw [hunit] at hvalue
          cases hvalue
      | @taking u _ _ _ _ hu =>
          have hsame : t = u := hguards.unique (by simp [hp, Point.stage])
            (by simp [hu, Point.stage])
          rw [hsame, hu] at hp
          cases hp
      | atEnd hzero heof hended hempty horder hidle =>
          exact .atEnd hzero heof hended hempty horder
            (hidle.sleeps hguards hp hawake)
  | passes hp hvalue => exact (h.passes hvalue).silent rfl rfl
  | takes hp => exact h.takes hguards hp
  | releases hp => exact h.keep rfl rfl rfl (haway hp (by simp)) nofun rfl rfl
  | gives hp => exact h.keep rfl rfl rfl (haway hp (by simp)) nofun rfl rfl
  | returns hp => exact h.keep rfl rfl rfl (haway hp (by simp)) nofun rfl rfl

/-! ## All steps -/

theorem takenBy_append (t : ThreadId) (trace : List Event) (event : Event) :
    takenBy t (trace ++ [event]) = takenBy t trace ++ takenBy t [event] :=
  List.filterMap_append

theorem returnedTo_append (t : ThreadId) (trace : List Event) (event : Event) :
    returnedTo t (trace ++ [event]) =
      returnedTo t trace ++ returnedTo t [event] :=
  List.filterMap_append

/-- A call returns the character that its thread has taken. -/
theorem Move.hands (hmove : Move s action event s') (u : ThreadId) :
    (s.point u).underway ++ takenBy u [event] =
      returnedTo u [event] ++ (s'.point u).underway := by
  have hkeep : ∀ {t : ThreadId} {p q : Point} {s₁ : SynchConsoleInput},
      s.point t = p → s₁.point = s.point → q.underway = p.underway →
      (s.point u).underway ++ [] = [] ++ ((s₁.setPoint t q).point u).underway := by
    intro t p q s₁ hp hpoint hsame
    rw [List.append_nil, List.nil_append]
    by_cases hu : u = t
    · rw [hu, setPoint_self, hsame, hp]
    · rw [setPoint_of_ne _ _ hu, hpoint]
  cases hmove with
  | types => exact List.append_nil _
  | ends => exact List.append_nil _
  | polls => exact List.append_nil _
  | reads => exact List.append_nil _
  | readsEnd => exact List.append_nil _
  | calls hp => exact hkeep hp rfl rfl
  | blocks hp => exact List.append_nil _
  | acquires hp => exact hkeep hp rfl rfl
  | holds hp => exact hkeep hp rfl rfl
  | sleeps hp => exact List.append_nil _
  | passes hp => exact hkeep hp rfl rfl
  | @takes t hp =>
      by_cases hu : u = t
      · subst hu
        simp [setPoint_self, hp, Point.underway, takenBy, returnedTo]
      · simp [setPoint_of_ne _ _ hu, takenBy, returnedTo, Ne.symm hu]
  | releases hp => exact hkeep hp rfl rfl
  | gives hp => exact hkeep hp rfl rfl
  | @returns t ch hp =>
      by_cases hu : u = t
      · subst hu
        simp [setPoint_self, hp, Point.underway, takenBy, returnedTo]
      · simp [setPoint_of_ne _ _ hu, takenBy, returnedTo, Ne.symm hu]

/-- The invariant of the console. -/
structure Sound (trace : List Event) (s : SynchConsoleInput) : Prop where
  guards : s.lock.Guards fun u => (s.point u).stage
  turn : Turn trace s
  hands : ∀ u, takenBy u trace = returnedTo u trace ++ (s.point u).underway

theorem sound_start : Sound [] start :=
  ⟨Lock.guards_new, turn_start, fun _ => rfl⟩

theorem Sound.move
    (h : Sound trace s) (hguard : ReadsNoEof trace s action)
    (hmove : Move s action event s') : Sound (trace ++ [event]) s' where
  guards := hmove.guards h.guards
  turn := hmove.turn hguard h.guards h.turn
  hands u := by
    rw [takenBy_append, returnedTo_append, h.hands, List.append_assoc,
      hmove.hands, List.append_assoc]

/-- A thread that is asleep, or in no call, does nothing. -/
theorem go_moves (h : Sound trace s) (t : ThreadId) :
    s.go t = .error .disabled ∨
      ∃ s' event, s.go t = .ok (s', event) ∧ Move s (.go t) event s' := by
  cases hp : s.point t with
  | outside => exact .inl (by simp only [go, hp])
  | acquiring =>
      by_cases hasleep : t ∈ s.lock.semaphore.queue
      · exact .inl (by simp only [go, hp, if_pos hasleep])
      · by_cases hvalue : s.lock.semaphore.value = 0
        · have htest : (s.lock.test t).2 = false := by
            simp [Lock.test, Semaphore.test_of_zero hvalue]
          refine .inr ⟨_, _, ?_, .blocks hp hvalue⟩
          simp [go, hp, hasleep, htest]
        · have htest : (s.lock.test t).2 = true := by
            simp [Lock.test, Semaphore.test_of_ne_zero hvalue]
          refine .inr ⟨_, _, ?_, .acquires hp hvalue⟩
          simp [go, hp, hasleep, htest]
  | acquired => exact .inr ⟨_, _, by simp only [go, hp], .holds hp⟩
  | waiting =>
      by_cases hasleep : t ∈ s.waitFor.queue
      · exact .inl (by simp only [go, hp, if_pos hasleep])
      · by_cases hvalue : s.waitFor.value = 0
        · refine .inr ⟨_, _, ?_, .sleeps hp hasleep hvalue⟩
          simp [go, hp, hasleep, Semaphore.test_of_zero hvalue]
        · refine .inr ⟨_, _, ?_, .passes hp hvalue⟩
          simp [go, hp, hasleep, Semaphore.test_of_ne_zero hvalue]
  | taking => exact .inr ⟨_, _, by simp only [go, hp]; rfl, .takes hp⟩
  | releasing ch =>
      have hdrop : s.lock.drop t = .ok { s.lock with lockHolder := none } :=
        h.guards.drop_ok (by rw [hp]; rfl)
      refine .inr ⟨_, _, ?_, .releases hp⟩
      simp only [go, hp, hdrop]
      rfl
  | released ch => exact .inr ⟨_, _, by simp only [go, hp], .gives hp⟩
  | returning ch => exact .inr ⟨_, _, by simp only [go, hp], .returns hp⟩

theorem Turn.scheduled_le_one (h : Turn trace s) :
    s.consoleInput.scheduled = 0 ∨ s.consoleInput.scheduled = 1 := by
  cases h with
  | polling hone => exact .inr hone
  | ready hzero => exact .inl hzero
  | taking hzero => exact .inl hzero
  | atEnd hzero => exact .inl hzero

theorem interrupt_moves (h : Sound trace s) :
    step s .interrupt = .error .disabled ∨
      ∃ s' event, step s .interrupt = .ok (s', event) ∧
        Move s .interrupt event s' := by
  obtain hzero | hone := h.turn.scheduled_le_one
  · exact .inl (by simp only [step, if_pos hzero])
  · right
    obtain ⟨heof, -, -⟩ := h.turn.polls hone
    obtain ⟨⟨unread, ended, incoming, scheduled⟩, lock, waitFor, point⟩ := s
    cases hone
    cases heof
    cases unread with
    | cons ch unread => exact ⟨_, _, rfl, .reads rfl rfl⟩
    | nil =>
        cases ended with
        | true => exact ⟨_, _, rfl, .readsEnd rfl rfl rfl⟩
        | false => exact ⟨_, _, rfl, .polls rfl rfl rfl⟩

/-- Nothing fails. -/
theorem step_moves (h : Sound trace s) (action : Action) :
    step s action = .error .disabled ∨
      ∃ s' event, step s action = .ok (s', event) ∧
        Move s action event s' := by
  cases action with
  | typed ch =>
      cases hended : s.consoleInput.ended with
      | true => exact .inl (by simp only [step, hended, if_true])
      | false =>
          refine .inr ⟨_, _, ?_, .types hended⟩
          simp [step, hended]
  | ends => exact .inr ⟨_, _, rfl, .ends⟩
  | interrupt => exact interrupt_moves h
  | call t =>
      cases hp : s.point t with
      | outside => exact .inr ⟨_, _, by simp only [step, hp], .calls hp⟩
      | _ => exact .inl (by simp only [step, hp])
  | go t => exact go_moves h t

theorem run_sound (hrun : system.Run ReadsNoEof trace s) : Sound trace s := by
  refine hrun.invariant Sound sound_start ?_
  intro trace s s' action event _ hsound hguard hstep
  obtain hdisabled | ⟨after, happened, htaken, hmove⟩ :=
    step_moves hsound action
  · exact nomatch hstep.symm.trans hdisabled
  · obtain ⟨rfl, rfl⟩ : after = s' ∧ happened = event := by
      have hsame := htaken.symm.trans hstep
      cases hsame
      exact ⟨rfl, rfl⟩
    exact hsound.move hguard hmove

theorem arrived_ne_nil (h : s.consoleInput.incoming ≠ eof) : s.arrived ≠ [] := by
  rw [arrived, if_neg h]
  exact List.cons_ne_nil _ _

/-- The console delivers the input as long as the byte 255 is not read. -/
theorem console_delivers (hrun : system.Run ReadsNoEof trace s) :
    Delivers trace s := by
  have hsound := run_sound hrun
  refine ⟨?_, hsound.hands, ?_, ?_⟩
  · cases hsound.turn with
    | polling hone heof horder =>
        left
        rw [arrived, if_pos heof, List.append_nil, horder]
    | ready hzero hready horder => exact .inl horder
    | taking hzero hready horder => exact .inl horder
    | atEnd hzero heof hended hempty horder =>
        exact .inr ⟨hended, horder, hempty⟩
  · intro action fault hfault
    obtain hdisabled | ⟨after, happened, htaken, -⟩ := step_moves hsound action
    · exact nomatch hfault.symm.trans hdisabled
    · exact nomatch hfault.symm.trans htaken
  · intro hunread
    cases hsound.turn with
    | polling hone => exact .inl hone
    | ready hzero hready horder hunit =>
        obtain hcharacter | ⟨-, hempty⟩ := hready
        · exact .inr ⟨arrived_ne_nil hcharacter, .inl (by rw [hunit])⟩
        · exact (hunread hempty).elim
    | taking hzero hready horder hunit ht =>
        obtain hcharacter | ⟨-, hempty⟩ := hready
        · exact .inr ⟨arrived_ne_nil hcharacter, .inr ⟨_, ht⟩⟩
        · exact (hunread hempty).elim
    | atEnd _ _ _ hempty => exact (hunread hempty).elim

/-- A thread waits for a byte and gets it. -/
def readsByte (ch : BitVec 8) : List Action :=
  [.call 1, .go 1, .go 1, .go 1, .typed ch, .typed 65, .interrupt, .go 1, .go 1]

/-- The byte 104, and another one behind it. -/
theorem console_delivers_byte :
    ∃ trace s, system.Reaches trace s ∧ taken trace = [104] ∧
      Delivers trace s := by
  have hreplay : system.Replays ReadsNoEof (readsByte 104)
      (fun trace _ => taken trace = [104]) = true := by
    decide
  obtain ⟨trace, s, hrun, hcheck⟩ := StepSystem.exists_run_of_replays hreplay
  exact ⟨trace, s, hrun.reaches, of_decide_eq_true hcheck,
    console_delivers hrun⟩

/-- Behind the byte 255 the console does not poll any more. -/
theorem console_wedged :
    ∃ trace s, system.Reaches trace s ∧ typed trace = [255, 65] ∧
      ¬Delivers trace s := by
  have hreplay : system.Replays StepSystem.anyStep (readsByte 255)
      (fun trace s => typed trace = [255, 65] ∧
        s.consoleInput.unread = [65] ∧ s.consoleInput.scheduled = 0 ∧
          s.arrived = []) = true := by
    decide
  obtain ⟨trace, s, hrun, hcheck⟩ := StepSystem.exists_run_of_replays hreplay
  obtain ⟨htyped, hunread, hzero, hnone⟩ := of_decide_eq_true hcheck
  refine ⟨trace, s, hrun, htyped, ?_⟩
  intro hdelivers
  obtain hone | ⟨hsome, -⟩ := hdelivers.awake (by simp [hunread])
  · exact nomatch hzero.symm.trans hone
  · exact hsome hnone

end SynchConsoleInput

end Nachos.Scheduling
