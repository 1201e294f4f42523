import Nachos.Multiprogramming

/-!
# What `Load` leaves of a program

A program that has been loaded finds, in whatever frames it was given, what it
finds on a machine of its own; nothing else in the memory has changed.
-/

namespace Nachos

open Library

namespace AddrSpace

/-- The new space, and the machine before and after `Load`. -/
structure ProgramLoaded (program : Program) (space : AddrSpace)
    (m : Machine) (entries : List TranslationEntry) (space' : AddrSpace)
    (m' : Machine) : Prop where
  fields : space' = withArguments { space with
    numPages := program.noffH.numPages, pageTable := .table entries }
      program.argv
  mapped : Mapped space' entries
  granted : Granted m.pageTableMap m'.pageTableMap entries
  fits : ArgumentsFit program.noffH.numPages program.argv
  shows : space'.Shows entries m' (space'.argumentImage program.argv
    (programImage program.file program.noffH))
  outside : ∀ paddr : ℕ, ((paddr / pageSize : ℕ) : ℤ) ∉
    entries.map TranslationEntry.physicalPage →
      m'.mainMemory paddr = m.mainMemory paddr

section Loading

variable {space space' : AddrSpace} {f : OpenFile} {noffH : NoffHeader}
variable {k k' : Kernel} {argv : List CString} {file : List (BitVec 8)}
variable {success : Bool}

theorem Mapped.withArguments
    {entries : List TranslationEntry} (hmap : space.Mapped entries)
    (argv : List CString) : (space.withArguments argv).Mapped entries :=
  ⟨hmap.table, hmap.length, hmap.small, hmap.allows, hmap.nodup⟩

/-- `Load` of an image, when it has succeeded. -/
theorem programLoaded_of_loadImage
    (hmagic : noffH.noffMagic = noffMagicNumber)
    (hbits : k.machine.pageTableMap.numBits = numPhysPages)
    (hexec : Executable k f) (hfile : ReadsFile k.host f file)
    (hload : space.loadImage f noffH k argv.length argv =
      .ok (success, space', k')) :
    success = true ∧ ∃ entries, ProgramLoaded ⟨file, noffH, argv⟩ space
      k.machine entries space' k'.machine := by
  obtain ⟨hinside, hread, hargs⟩ := loadImage_fits hmagic hbits hexec hload
  have hfree : noffH.numPages ≤
      numPhysPages - k.machine.pageTableMap.marked.card := by
    by_contra hfew
    rw [loadImage_tooFew hmagic hbits hfew] at hload
    cases hload
  have hle := k.machine.pageTableMap.card_marked_le
  have hroom : k.machine.pageTableMap.marked.card + noffH.numPages ≤
      numPhysPages := by omega
  obtain ⟨bm, entries, hgranted, hmap, hallocate⟩ :=
    space.allocateMemory_mapped k.machine hbits hroom
  rw [loadImage_of_allocated hmagic hallocate (by omega)] at hload
  set mapped : AddrSpace := { space with
    numPages := noffH.numPages, pageTable := .table entries }
  set k₀ : Kernel := { k with machine := { k.machine with
    pageTableMap := bm
    mainMemory := zeroed (entries.map TranslationEntry.physicalPage)
      k.machine.mainMemory } }
  have hzero : mapped.Shows entries k₀.machine fun _ => 0 :=
    hmap.shows_zero rfl
  obtain ⟨k₁, hcopy, hshown⟩ :=
    hmap.copySegments_shows (k := k₀) hfile hzero hinside hread
  obtain ⟨m₁, m', harguments, hstrings, harray⟩ :=
    hmap.storeArguments k₁.machine hargs
  rw [hcopy, ok_bind, harguments, ok_bind] at hload
  obtain ⟨closed, -, hdone⟩ := ok_of_bind hload
  simp only [pure, Except.pure, Except.ok.injEq, Prod.mk.injEq] at hdone
  obtain ⟨hsuccess, hspace, hk⟩ := hdone
  have hmachine : k'.machine = m' := by rw [← hk]
  have hwrites : mapped.Writes k₀.machine m' :=
    hshown.writes.trans (hstrings.writes.trans harray.writes)
  have hblock := toNat_stringsAt_of_fits hmap.small hargs
  have hbelow := toNat_arrayAt hmap.small hargs
  refine ⟨hsuccess.symm, entries, ?_⟩
  rw [hmachine, ← hspace]
  constructor
  case fields => rfl
  case mapped => exact hmap.withArguments argv
  case granted =>
    rw [hwrites.frame]
    exact hgranted
  case fits => exact hargs
  case shows =>
    rw [shows_withArguments, argumentImage, arrayAt_withArguments,
      stringsAt_withArguments]
    apply harray.shows hmap (by rw [length_pointerArray]; omega)
    exact hstrings.shows hmap (by omega) hshown.shows
  case outside =>
    intro paddr hout
    by_contra hne
    have hchanged := changed_inside hgranted hmap.table hwrites paddr hne
    simp only [physicalPages, hmap.table] at hchanged
    exact hout hchanged.1

theorem directory_of_openNamed
    {fs fs' : FileSystem} {h h' : Host} {fileName : CString}
    {garbageType : ℤ}
    (hopen : fs.openNamed h fileName garbageType = (some f, fs', h')) :
    ∃ inode, h.directory fileName = some inode := by
  unfold FileSystem.openNamed Host.openForReadWrite at hopen
  cases hinode : h.directory fileName with
  | some inode => exact ⟨inode, rfl⟩
  | none =>
      rw [hinode] at hopen
      simp at hopen

/-- `Load`: no file has been opened, or the program is in memory. -/
theorem loadIn_cases
    {rdata : Bool} {garbage : LoadGarbage} {fileName : CString}
    (hbits : k.machine.pageTableMap.numBits = numPhysPages)
    (hload : space.loadIn rdata k garbage fileName argv.length argv =
      .ok (success, space', k')) :
    (success = false ∧ space' = space ∧ k'.machine = k.machine) ∨
    success = true ∧ ∃ program entries,
      Program.inFile rdata k.fileSystem k.host garbage fileName argv =
        some program ∧
      ProgramLoaded program space k.machine entries space' k'.machine := by
  unfold loadIn at hload
  split at hload
  next fs h hopen =>
    cases hload
    exact .inl ⟨rfl, rfl, rfl⟩
  next executable fs h hopen =>
    obtain ⟨⟨noffH, h'⟩, hheader, hload⟩ := ok_of_bind hload
    obtain ⟨_, hassert, -⟩ := ok_of_bind hload
    have hmagic : noffH.noffMagic = noffMagicNumber := by
      by_contra hne
      rw [assert_of_false hne] at hassert
      cases hassert
    obtain ⟨inode, hinode⟩ := directory_of_openNamed hopen
    have hfile := readsFile_of_readHeader
      (readsFile_of_openNamed hinode hopen) hheader
    obtain ⟨rfl, entries, hloaded⟩ := programLoaded_of_loadImage
      (k := { k with fileSystem := fs, host := h' }) hmagic hbits
      ((executable_of_openNamed hopen).readHeader hheader) hfile hload
    refine .inr ⟨rfl, _, entries, ?_, hloaded⟩
    simp only [Program.inFile, hinode, hopen, hheader]

end Loading

end AddrSpace

end Nachos
