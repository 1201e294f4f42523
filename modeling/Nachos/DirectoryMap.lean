import Mathlib.Data.Finmap
import Nachos.Library.StepSystem
import Nachos.DiskDirectory

/-!
# A directory as a bounded finite map

Whatever files are added and removed, the directory in memory stands for the
map from the names that are in it to the sectors they were added with.
-/

namespace Nachos.Filesys

open Library

abbrev FileMap := Finmap fun _ : CString => BitVec 32

/-- A call on a directory in memory. -/
inductive DirectoryCall
  | add (name : CString) (newSector : BitVec 32)
  | remove (name : CString)
  | find (name : CString)
  deriving DecidableEq

/-- A call that has returned, with its result. -/
inductive DirectoryEvent
  | added (name : CString) (newSector : BitVec 32) (result : Bool)
  | removed (name : CString) (result : Bool)
  | found (name : CString) (result : ℤ)
  deriving DecidableEq

def DirectoryCall.name : DirectoryCall → CString
  | .add name _ | .remove name | .find name => name

/-- What an event makes of the map. -/
def DirectoryEvent.apply (files : FileMap) : DirectoryEvent → FileMap
  | .added name newSector true => files.insert name newSector
  | .removed name true => files.erase name
  | .added _ _ false | .removed _ false | .found _ _ => files

/-- The map after the events of a run that began with the empty one. -/
def filesAfter (trace : List DirectoryEvent) : FileMap :=
  trace.foldl DirectoryEvent.apply ∅

@[simp] theorem filesAfter_nil : filesAfter [] = ∅ := rfl

@[simp] theorem filesAfter_append
    (trace : List DirectoryEvent) (event : DirectoryEvent) :
    filesAfter (trace ++ [event]) = event.apply (filesAfter trace) := by
  simp [filesAfter]

namespace Directory

def step (directory : Directory) :
    DirectoryCall → Except Fault (Directory × DirectoryEvent)
  | .add name newSector =>
      let (result, after) := directory.add name newSector.toInt
      return (after, .added name newSector result)
  | .remove name =>
      let (result, after) := directory.remove name
      return (after, .removed name result)
  | .find name => return (directory, .found name (directory.find name))

/-- The directory as a system that takes one call at a time. -/
def system (directory : Directory) :
    StepSystem Directory DirectoryCall DirectoryEvent Fault where
  start := directory
  step := step

/-- The entries in use are those of the map, each once. -/
structure Represents (directory : Directory) (size : ℕ) (files : FileMap) :
    Prop where
  size : directory.table.length = size
  nodup : directory.names.Nodup
  lookup : ∀ name sector, files.lookup name = some sector ↔
    ∃ e ∈ directory.files, e.fileName = name ∧ e.sector = sector

variable {directory : Directory} {size : ℕ} {files : FileMap}
variable {name other : CString}

theorem new_represents (fresh : ℕ → DirectoryEntry) (size : ℕ) :
    (new fresh size).Represents size ∅ := by
  have hnone : (new fresh size).files = [] := by
    apply List.filter_eq_nil_iff.mpr
    intro e he
    obtain ⟨i, -, rfl⟩ := List.mem_map.mp he
    simp [DirectoryEntry.release]
  constructor
  · simp [new]
  · simp [names, hnone]
  · simp [hnone]

theorem Represents.mem_names (hrep : directory.Represents size files) :
    name ∈ directory.names ↔ name ∈ files := by
  rw [Finmap.mem_iff, names, List.mem_map]
  constructor
  · rintro ⟨e, he, hname⟩
    exact ⟨e.sector, (hrep.lookup name e.sector).mpr ⟨e, he, hname, rfl⟩⟩
  · rintro ⟨sector, hlookup⟩
    obtain ⟨e, he, hname, -⟩ := (hrep.lookup name sector).mp hlookup
    exact ⟨e, he, hname⟩

/-- There are as many entries in use as names in the map. -/
theorem Represents.card (hrep : directory.Represents size files) :
    directory.files.length = files.keys.card := by
  have hkeys : directory.names.toFinset = files.keys := by
    ext name
    rw [List.mem_toFinset, Finmap.mem_keys, hrep.mem_names]
  rw [← hkeys, List.toFinset_card_of_nodup hrep.nodup, names,
    List.length_map]

theorem Represents.free_iff (hrep : directory.Represents size files) :
    (∃ e ∈ directory.table, e.inUse = false) ↔ files.keys.card < size := by
  rw [← hrep.card, ← hrep.size, Directory.files,
    List.length_filter_lt_length_iff_exists]
  simp

theorem Represents.find
    (hrep : directory.Represents size files) (hname : IsName name) :
    directory.find name = ((files.lookup name).map BitVec.toInt).getD (-1) := by
  by_cases hmem : name ∈ directory.names
  · obtain ⟨e, directory', hsame, hfind, -, -, hperm⟩ := remove_spec hname hmem
    have he := hperm.mem_iff.mpr List.mem_cons_self
    have hlookup := (hrep.lookup name e.sector).mpr ⟨e, he, hsame, rfl⟩
    rw [hfind, hlookup]
    rfl
  · have hlookup := Finmap.lookup_eq_none.mpr (hrep.mem_names.not.mp hmem)
    rw [find_absent hname hmem, hlookup]
    rfl

theorem Represents.add_insert
    (hrep : directory.Represents size files) (hname : IsName name)
    (habsent : name ∉ files)
    (hfree : ∃ e ∈ directory.table, e.inUse = false) (sector : BitVec 32) :
    ∃ directory', directory.add name sector.toInt = (true, directory') ∧
      directory'.Represents size (files.insert name sector) := by
  have hnotin : name ∉ directory.names := hrep.mem_names.not.mpr habsent
  obtain ⟨e, directory', hadd, hlength, hperm⟩ :=
    add_spec hname hnotin sector.toInt hfree
  have hfilled := DirectoryEntry.fileName_fill e hname sector.toInt
  have hsector : (e.fill name sector.toInt).sector = sector := by
    simp [DirectoryEntry.fill]
  refine ⟨directory', hadd, hlength.trans hrep.size, ?_, ?_⟩
  · have hnames := hperm.map DirectoryEntry.fileName
    rw [List.map_cons, hfilled] at hnames
    exact hnames.nodup_iff.mpr (List.nodup_cons.mpr ⟨hnotin, hrep.nodup⟩)
  · intro other sector'
    have hmem : (∃ e' ∈ directory'.files,
        e'.fileName = other ∧ e'.sector = sector') ↔
          name = other ∧ sector = sector' ∨
            ∃ e' ∈ directory.files,
              e'.fileName = other ∧ e'.sector = sector' := by
      simp only [hperm.mem_iff, List.mem_cons, or_and_right, exists_or,
        exists_eq_left, hfilled, hsector]
    rw [hmem, ← hrep.lookup other sector']
    by_cases heq : name = other
    · subst heq
      rw [Finmap.lookup_insert, Finmap.lookup_eq_none.mpr habsent]
      simp
    · rw [Finmap.lookup_insert_of_ne _ (Ne.symm heq)]
      simp [heq]

theorem Represents.remove_erase
    (hrep : directory.Represents size files) (hname : IsName name)
    (hpresent : name ∈ files) :
    ∃ directory', directory.remove name = (true, directory') ∧
      directory'.Represents size (files.erase name) := by
  obtain ⟨e, directory', hsame, -, hremove, hlength, hperm⟩ :=
    remove_spec hname (hrep.mem_names.mpr hpresent)
  have hnames := hperm.map DirectoryEntry.fileName
  rw [List.map_cons, hsame] at hnames
  obtain ⟨hnotin, hnodup⟩ :=
    List.nodup_cons.mp (hnames.nodup_iff.mp hrep.nodup)
  refine ⟨directory', hremove, hlength.trans hrep.size, hnodup, ?_⟩
  intro other sector
  by_cases heq : other = name
  · subst heq
    rw [Finmap.lookup_erase]
    constructor
    · intro hnone
      cases hnone
    · rintro ⟨e', he', hname', -⟩
      exact absurd (List.mem_map.mpr ⟨e', he', hname'⟩) hnotin
  · rw [Finmap.lookup_erase_ne heq, hrep.lookup other sector]
    simp only [hperm.mem_iff, List.mem_cons, or_and_right, exists_or,
      exists_eq_left, hsame, Ne.symm heq, false_and, false_or]

/-- What `Add` does, in the three cases it tells apart. -/
theorem Represents.add
    (hrep : directory.Represents size files) (hname : IsName name)
    (sector : BitVec 32) :
    ∃ result directory',
      directory.add name sector.toInt = (result, directory') ∧
      (result = true ↔ name ∉ files ∧ files.keys.card < size) ∧
      directory'.Represents size
        (DirectoryEvent.apply files (.added name sector result)) := by
  by_cases hpresent : name ∈ files
  · obtain ⟨i, hi, hfound, -⟩ :=
      findIndex_present hname (hrep.mem_names.mpr hpresent)
    refine ⟨false, directory, ?_, by simp [hpresent], hrep⟩
    rw [Directory.add, hfound]
    rfl
  · by_cases hfree : files.keys.card < size
    · obtain ⟨directory', hadd, hrep'⟩ :=
        hrep.add_insert hname hpresent (hrep.free_iff.mpr hfree) sector
      exact ⟨true, directory', hadd, by simp [hpresent, hfree], hrep'⟩
    · have hfull : ∀ e ∈ directory.table, e.inUse = true := by
        intro e he
        by_contra hunused
        have hunused' : e.inUse = false := by simpa using hunused
        exact hfree (hrep.free_iff.mp ⟨e, he, hunused'⟩)
      have hadd := add_full hname (hrep.mem_names.not.mpr hpresent)
        sector.toInt hfull
      exact ⟨false, directory, hadd, by simp [hfree], hrep⟩

theorem Represents.remove
    (hrep : directory.Represents size files) (hname : IsName name) :
    ∃ result directory', directory.remove name = (result, directory') ∧
      (result = true ↔ name ∈ files) ∧
      directory'.Represents size
        (DirectoryEvent.apply files (.removed name result)) := by
  by_cases hpresent : name ∈ files
  · obtain ⟨directory', hremove, hrep'⟩ := hrep.remove_erase hname hpresent
    exact ⟨true, directory', hremove, by simp [hpresent], hrep'⟩
  · have hnone := findIndex_absent hname (hrep.mem_names.not.mpr hpresent)
    refine ⟨false, directory, ?_, by simp [hpresent], hrep⟩
    rw [Directory.remove, hnone]

/-! ## Runs -/

theorem Represents.step
    (hrep : directory.Represents size files) {call : DirectoryCall}
    (hname : IsName call.name) :
    ∃ directory' event, directory.step call = .ok (directory', event) ∧
      directory'.Represents size (event.apply files) := by
  cases call with
  | add name sector =>
      change IsName name at hname
      obtain ⟨result, directory', hadd, -, hrep'⟩ := hrep.add hname sector
      refine ⟨directory', .added name sector result, ?_, hrep'⟩
      rw [Directory.step, hadd]
      rfl
  | remove name =>
      change IsName name at hname
      obtain ⟨result, directory', hremove, -, hrep'⟩ := hrep.remove hname
      refine ⟨directory', .removed name result, ?_, hrep'⟩
      rw [Directory.step, hremove]
      rfl
  | find name => exact ⟨directory, .found name _, rfl, hrep⟩

/-- A change to the map at one name shows at no other. -/
theorem Represents.find_congr
    (hrep : directory.Represents size files) {files' : FileMap}
    {directory' : Directory} (hrep' : directory'.Represents size files')
    (hname : IsName name) (hsame : files'.lookup name = files.lookup name) :
    directory'.find name = directory.find name := by
  rw [hrep.find hname, hrep'.find hname, hsame]

theorem lookup_apply_added
    (hne : other ≠ name) (sector : BitVec 32) (result : Bool) :
    (DirectoryEvent.apply files (.added name sector result)).lookup other =
      files.lookup other := by
  cases result with
  | false => rfl
  | true => exact Finmap.lookup_insert_of_ne _ hne

theorem lookup_apply_removed (hne : other ≠ name) (result : Bool) :
    (DirectoryEvent.apply files (.removed name result)).lookup other =
      files.lookup other := by
  cases result with
  | false => rfl
  | true => exact Finmap.lookup_erase_ne hne

theorem Represents.runActions
    (hrep : directory.Represents size ∅) {calls : List DirectoryCall}
    (hcalls : ∀ call ∈ calls, IsName call.name) :
    ∃ trace last,
      directory.system.runActions StepSystem.anyStep calls [] directory =
        some (trace, last) ∧
      last.Represents size (filesAfter trace) := by
  refine StepSystem.exists_runActions
    (fun trace (last : Directory) => last.Represents size (filesAfter trace))
    (fun call : DirectoryCall => IsName call.name) ?_ hrep hcalls
  intro trace before call hbefore hname
  obtain ⟨after, event, hstep, hafter⟩ := hbefore.step hname
  refine ⟨trivial, after, event, hstep, ?_⟩
  rw [filesAfter_append]
  exact hafter

theorem directory_is_map
    (fresh : ℕ → DirectoryEntry) (size : ℕ) (calls : List DirectoryCall)
    (hcalls : ∀ call ∈ calls, IsName call.name) :
    ∃ trace last,
      (new fresh size).system.runActions StepSystem.anyStep calls []
          (new fresh size) = some (trace, last) ∧
      ∀ name, IsName name →
        last.find name =
            (((filesAfter trace).lookup name).map BitVec.toInt).getD (-1) ∧
        (∀ sector : BitVec 32, (last.add name sector.toInt).1 = true ↔
          name ∉ filesAfter trace ∧ ∃ e ∈ last.table, e.inUse = false) ∧
        ((∃ e ∈ last.table, e.inUse = false) ↔
          (filesAfter trace).keys.card < size) ∧
        ((last.remove name).1 = true ↔ name ∈ filesAfter trace) ∧
        ∀ other, IsName other → other ≠ name →
          (∀ sector : BitVec 32,
            (last.add name sector.toInt).2.find other = last.find other) ∧
          (last.remove name).2.find other = last.find other := by
  obtain ⟨trace, last, hrun, hlast⟩ :=
    (new_represents fresh size).runActions hcalls
  refine ⟨trace, last, hrun, fun name hname =>
    ⟨hlast.find hname, fun sector => ?_, hlast.free_iff, ?_, ?_⟩⟩
  · obtain ⟨result, after, hadd, hresult, -⟩ := hlast.add hname sector
    rw [hadd, hresult, hlast.free_iff]
  · obtain ⟨result, after, hremove, hresult, -⟩ := hlast.remove hname
    rw [hremove, hresult]
  · intro other hother hne
    constructor
    · intro sector
      obtain ⟨result, after, hadd, -, hafter⟩ := hlast.add hname sector
      rw [hadd]
      exact hlast.find_congr hafter hother
        (lookup_apply_added hne sector result)
    · obtain ⟨result, after, hremove, -, hafter⟩ := hlast.remove hname
      rw [hremove]
      exact hlast.find_congr hafter hother (lookup_apply_removed hne result)

/-- A name of full length, and its first eight characters. -/
theorem directory_is_map_of_prefixes :
    ∃ trace last,
      (new (fun _ => ⟨true, ⟨[1, 1, 1], rfl⟩, 7, ⟨List.replicate 10 65, rfl⟩,
          ⟨[1, 1], rfl⟩⟩) 2).system.runActions StepSystem.anyStep
        [.add (List.replicate 9 65) 5, .add (List.replicate 8 65) 6,
          .remove (List.replicate 9 65)] []
        (new (fun _ => ⟨true, ⟨[1, 1, 1], rfl⟩, 7,
          ⟨List.replicate 10 65, rfl⟩, ⟨[1, 1], rfl⟩⟩) 2) =
          some (trace, last) ∧
      last.find (List.replicate 8 65) =
        (((filesAfter trace).lookup (List.replicate 8 65)).map
          BitVec.toInt).getD (-1) := by
  have hname : ∀ n ≤ 9, IsName (List.replicate n 65) := by
    intro n hn
    refine ⟨by simpa [fileNameMaxLen] using hn, fun hzero => ?_⟩
    cases List.eq_of_mem_replicate hzero
  obtain ⟨trace, last, hrun, hlast⟩ := directory_is_map
    (fun _ => ⟨true, ⟨[1, 1, 1], rfl⟩, 7, ⟨List.replicate 10 65, rfl⟩,
      ⟨[1, 1], rfl⟩⟩) 2
    [.add (List.replicate 9 65) 5, .add (List.replicate 8 65) 6,
      .remove (List.replicate 9 65)] (by
        simp only [List.forall_mem_cons, DirectoryCall.name]
        exact ⟨hname 9 (by decide), hname 8 (by decide),
          hname 9 (by decide), by simp⟩)
  exact ⟨trace, last, hrun, (hlast _ (hname 8 (by decide))).1⟩

end Directory

end Nachos.Filesys
