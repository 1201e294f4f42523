import Nachos.FilesStored

/-!
# What is read is what was written last

A byte of a file stays what it was written to until it is written again or the
file is removed, whatever is done to other files or to other parts of it, by
whichever handles, and also when the machine is started again.
-/

namespace Nachos.Filesys

open Library
open Scheduling (Disk)

namespace FileStore

/-- What an event tells about the files before and after it. -/
def Effect (files files' : Files) : FileEvent → Prop
  | .created name _ true =>
      name ∉ files ∧ ∃ bytes, files' = files.insert name bytes
  | .removed name result =>
      files' = files.erase name ∧ result = decide (name ∈ files)
  | .wrote _ name position new result =>
      ∃ bytes, files.lookup name = some bytes ∧
        files' = files.insert name
          (splice bytes position (fitting bytes new position)) ∧
        result = (fitting bytes new position).length
  | .read _ name position numBytes data =>
      ∃ bytes, files.lookup name = some bytes ∧ files' = files ∧
        data = readable bytes numBytes position
  | _ => files' = files

variable {s s' : FileStore} {event : FileEvent} {trace : List FileEvent}

theorem file_spec
    {handle : ℕ} {h : Handle} {bytes : List (BitVec 8)}
    (hfile : s.file handle = .ok (h, bytes)) :
    s.files.lookup h.name = some bytes := by
  unfold file at hfile
  split at hfile
  next h' _ =>
    split at hfile
    next bytes' hlookup =>
      cases hfile
      exact hlookup
    next => cases hfile
  next => cases hfile

theorem step_effect :
    ∀ {call : Call}, s.step call = .ok (s', event) →
      Effect s.files s'.files event
  | .create name bytes, hstep => by
      rw [step] at hstep
      split at hstep
      next hcan =>
        cases hstep
        exact ⟨hcan.1, bytes, rfl⟩
      next =>
        cases hstep
        exact rfl
  | .remove name, hstep => by
      cases hstep
      exact ⟨rfl, rfl⟩
  | .open name, hstep => by
      rw [step] at hstep
      split at hstep
      all_goals
        cases hstep
        exact rfl
  | .close handle, hstep | .length handle, hstep => by
      obtain ⟨_, -, hstep⟩ := ok_of_bind hstep
      cases hstep
      exact rfl
  | .seek handle position, hstep => by
      obtain ⟨_, -, hstep⟩ := ok_of_bind hstep
      cases hstep
      exact rfl
  | .read handle numBytes, hstep => by
      obtain ⟨_, hfile, hstep⟩ := ok_of_bind hstep
      cases hstep
      exact ⟨_, file_spec hfile, rfl, rfl⟩
  | .readAt handle numBytes position, hstep => by
      obtain ⟨_, hfile, hstep⟩ := ok_of_bind hstep
      cases hstep
      exact ⟨_, file_spec hfile, rfl, rfl⟩
  | .write handle new, hstep => by
      obtain ⟨_, hfile, hstep⟩ := ok_of_bind hstep
      cases hstep
      exact ⟨_, file_spec hfile, rfl, rfl⟩
  | .writeAt handle new position, hstep => by
      obtain ⟨_, hfile, hstep⟩ := ok_of_bind hstep
      cases hstep
      exact ⟨_, file_spec hfile, rfl, rfl⟩
  | .restart, hstep => by
      cases hstep
      exact rfl

end FileStore

/-! ## What a trace tells about a byte -/

/-- A write that puts the value into a byte of the file. -/
def FileEvent.Puts (name : CString) (a : ℕ) (value : BitVec 8) :
    FileEvent → Prop
  | .wrote _ other position bytes result =>
      other = name ∧ position ≤ a ∧ (a : ℤ) < position + result ∧
        bytes[a - position]? = some value
  | _ => False

/-- A write to a byte of the file, or the removal of the file. -/
def FileEvent.Touches (name : CString) (a : ℕ) : FileEvent → Prop
  | .wrote _ other position _ result =>
      other = name ∧ position ≤ a ∧ (a : ℤ) < position + result
  | .removed other result => other = name ∧ result = true
  | _ => False

/-- The byte has been put into the file, and has not been touched since. -/
def HasByte (trace : List FileEvent) (name : CString) (a : ℕ)
    (value : BitVec 8) : Prop :=
  StepSystem.Since (FileEvent.Puts name a value) (FileEvent.Touches name a)
    trace

namespace FileStore

variable {files files' : Files} {event : FileEvent} {name : CString} {a : ℕ}
variable {value : BitVec 8}

/-- The file has the value in a byte. -/
def Holds (files : Files) (name : CString) (a : ℕ) (value : BitVec 8) : Prop :=
  ∃ bytes, files.lookup name = some bytes ∧ bytes[a]? = some value

theorem length_fitting_le (bytes new : List (BitVec 8)) (position : ℕ) :
    (fitting bytes new position).length ≤ bytes.length - position := by
  rw [length_fitting]
  exact Nat.min_le_left _ _

theorem Effect.puts
    (heffect : Effect files files' event) (hputs : event.Puts name a value) :
    Holds files' name a value := by
  unfold FileEvent.Puts at hputs
  split at hputs
  next handle other position new result =>
    obtain ⟨rfl, hle, hlt, hvalue⟩ := hputs
    obtain ⟨bytes, hlookup, rfl, rfl⟩ := heffect
    refine ⟨_, Finmap.lookup_insert _, ?_⟩
    have hroom := length_fitting_le bytes new position
    obtain ⟨i, rfl⟩ := Nat.exists_eq_add_of_le hle
    rw [Nat.add_sub_cancel_left] at hvalue
    rw [getElem?_splice_inside (by omega) (by omega), fitting,
      List.getElem?_take, if_pos (by omega), hvalue]
  next => exact hputs.elim

theorem Effect.keeps
    (heffect : Effect files files' event)
    (htouches : ¬event.Touches name a) (hholds : Holds files name a value) :
    Holds files' name a value := by
  obtain ⟨bytes, hlookup, hvalue⟩ := hholds
  cases event with
  | created other initialSize result =>
      cases result with
      | false =>
          obtain rfl : files' = files := heffect
          exact ⟨bytes, hlookup, hvalue⟩
      | true =>
          obtain ⟨habsent, new, rfl⟩ := heffect
          have hne : name ≠ other := by
            rintro rfl
            exact habsent (Finmap.mem_iff.mpr ⟨bytes, hlookup⟩)
          refine ⟨bytes, ?_, hvalue⟩
          rwa [Finmap.lookup_insert_of_ne _ hne]
  | removed other result =>
      obtain ⟨rfl, rfl⟩ := heffect
      have hne : name ≠ other := by
        rintro rfl
        apply htouches
        exact ⟨rfl, decide_eq_true (Finmap.mem_iff.mpr ⟨bytes, hlookup⟩)⟩
      refine ⟨bytes, ?_, hvalue⟩
      rwa [Finmap.lookup_erase_ne hne]
  | wrote handle other position new result =>
      obtain ⟨bytes', hlookup', rfl, rfl⟩ := heffect
      by_cases heq : name = other
      · subst heq
        cases hlookup.symm.trans hlookup'
        refine ⟨_, Finmap.lookup_insert _, ?_⟩
        have hroom := length_fitting_le bytes new position
        have hlt : a < bytes.length :=
          (List.getElem?_eq_some_iff.mp hvalue).1
        by_cases hsome : (fitting bytes new position).length = 0
        · rwa [List.length_eq_zero_iff.mp hsome, splice_nil]
        · have hout : ¬(position ≤ a ∧ (a : ℤ) <
              position + (fitting bytes new position).length) :=
            fun hin => htouches ⟨rfl, hin⟩
          rwa [getElem?_splice_outside (by omega) (by omega)]
      · refine ⟨bytes, ?_, hvalue⟩
        rwa [Finmap.lookup_insert_of_ne _ heq]
  | read handle other position numBytes data =>
      obtain ⟨-, -, rfl, -⟩ := heffect
      exact ⟨bytes, hlookup, hvalue⟩
  | _ =>
      obtain rfl : files' = files := heffect
      exact ⟨bytes, hlookup, hvalue⟩

/-- The bytes that a trace tells of are in the files. -/
theorem holds_of_hasByte
    {trace : List FileEvent} {s : FileStore}
    (hreaches : FileStore.system.Reaches trace s)
    (hbyte : HasByte trace name a value) : Holds s.files name a value := by
  refine hreaches.invariant
    (fun trace s => HasByte trace name a value → Holds s.files name a value)
    (fun hnil => (StepSystem.not_since_nil hnil).elim) ?_ hbyte
  intro trace s s' call event _ ih _ hstep hbyte
  have heffect := step_effect hstep
  obtain hputs | ⟨hbefore, htouches⟩ := StepSystem.since_append.mp hbyte
  · exact heffect.puts hputs
  · exact heffect.keeps htouches (ih hbefore)

end FileStore

/-! ## Sessions -/

end Nachos.Filesys
