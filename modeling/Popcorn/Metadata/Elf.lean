/-
  Popcorn.Metadata.Elf — an ELF file as the tool and the runtime see it through libelf
  (lib/libelf/lib/{cook,getdata,strptr,nextscn,x.elfext}.c; `get_section` of
  lib/stack_transformation/src/util.c and `get_section_by_name` of
  tool/stack_metadata/src/util.c, which are the same function).

  A descriptor holds the decoded headers and, for each section, what `elf_getdata` answers
  for it; a section is named by its index in the header table. Sections that hold plain
  bytes are used as they stand in the file; `Translate` is libelf's translation of the
  others into memory, by section type.
-/

import Mathlib.Tactic.Common
import Popcorn.Lib.Bytes

namespace Popcorn.Metadata

/-- The bytes of a C string, without the terminating zero. -/
abbrev Name := List UInt8

def cstr (s : String) : Name := s.toUTF8.data.toList

/-- `Elf64_Shdr`, the fields that are read. -/
structure Shdr where
  shName : UInt32
  shType : UInt32
  shOffset : UInt64
  shSize : UInt64
  shLink : UInt32
  shEntsize : UInt64
  deriving DecidableEq, Repr

def shtNull : UInt32 := 0
def shtProgbits : UInt32 := 1
def shtStrtab : UInt32 := 3
def shtNobits : UInt32 := 8

/-- `Elf_Data`: the buffer, where there is one; `d_size` is its length. -/
abbrev ElfData := Option (List UInt8)

/-- `Elf_Scn`: the header and what `elf_getdata(scn, NULL)` answers, `none` for NULL. -/
structure Scn where
  shdr : Shdr
  data : Option ElfData
  deriving DecidableEq, Repr

/-- `Elf64_Ehdr`, the fields that are read. -/
structure Ehdr where
  eiClass : UInt8
  eMachine : UInt16
  eShoff : UInt64
  eShstrndx : UInt16
  deriving DecidableEq, Repr

def elfclass64 : UInt8 := 2

/-- `Elf`. There is no header where the file is no ELF file or does not decode. -/
structure Elf where
  ehdr : Option Ehdr
  scns : List Scn
  deriving DecidableEq, Repr

def elf64Getehdr (e : Elf) : Option Ehdr := e.ehdr.filter (·.eiClass = elfclass64)

/-! ## Reading sections -/

/-- `_elf_xlatetom` on a section of the given type. -/
abbrev Translate := UInt32 → List UInt8 → Option (List UInt8)

/-- `elf_getdata` on a section of the file `image`. The end of the section is computed in 64
    bits. -/
def elfGetdata (translate : Translate) (image : List UInt8) (s : Shdr) : Option ElfData :=
  let size := UInt64.ofNat image.length
  if s.shType = shtNull then none
  else if size < s.shOffset then none
  else if s.shType = shtNobits ∨ s.shSize = 0 then some none
  else if size < s.shOffset + s.shSize then none
  else (translate s.shType ((image.drop s.shOffset.toNat).take s.shSize.toNat)).map some

/-- `_elf_cook_shdr`: the sections of the headers that the file's table decodes to. -/
def cookScns (translate : Translate) (image : List UInt8) (shdrs : List Shdr) : List Scn :=
  shdrs.map fun s => ⟨s, elfGetdata translate image s⟩

/-! ## Section names -/

/-- `SHN_XINDEX`: the index of the section-name table stands in the first header. -/
def shnXindex : UInt16 := 0xffff

def elfGetshdrstrndx (e : Elf) : Option Nat := do
  let ehdr ← e.ehdr
  if ehdr.eShstrndx ≠ shnXindex then some ehdr.eShstrndx.toNat
  else e.scns.head?.map fun scn => scn.shdr.shLink.toNat

/-- The string at an offset of a table; one that is not terminated is none. -/
def stringAt (tab : List UInt8) (offset : Nat) : Option Name :=
  if 0 ∈ tab.drop offset then some ((tab.drop offset).takeWhile (· ≠ 0)) else none

/-- `elf_strptr`. -/
def elfStrptr (e : Elf) (sec : Nat) (offset : UInt32) : Option Name :=
  match e.scns[sec]? with
  | none => none
  | some scn =>
    if sec = 0 ∨ scn.shdr.shType ≠ shtStrtab then none
    else
      match scn.data with
      | some (some tab) => stringAt tab offset.toNat
      | _ => none

/-- The loop of `get_section` over the sections from index `i` on. -/
def getSectionLoop (e : Elf) (shdrstrndx : Nat) (sec : Name) : Nat → List Scn → Option Nat
  | _, [] => none
  | i, scn :: rest =>
    if elfStrptr e shdrstrndx scn.shdr.shName = some sec then some i
    else getSectionLoop e shdrstrndx sec (i + 1) rest

/-- `get_section`: the index of the first section named `sec`. -/
def getSection (e : Elf) (sec : Name) : Option Nat :=
  match elfGetshdrstrndx e with
  | none => none
  | some shdrstrndx => getSectionLoop e shdrstrndx sec 1 e.scns.tail

theorem getSectionLoop_lt {e : Elf} {strndx : Nat} {sec : Name} {i j : Nat} {scns : List Scn}
    (h : getSectionLoop e strndx sec i scns = some j) : i ≤ j ∧ j < i + scns.length := by
  induction scns generalizing i with
  | nil => simp [getSectionLoop] at h
  | cons scn rest ih =>
    rw [getSectionLoop] at h
    split at h
    · obtain rfl := Option.some.inj h
      simp
    · have := ih h
      simp only [List.length_cons]
      omega

/-- What is found is a section other than the first. -/
theorem getSection_lt {e : Elf} {sec : Name} {j : Nat} (h : getSection e sec = some j) : 0 < j ∧ j < e.scns.length := by
  unfold getSection at h
  split at h
  · simp at h
  · have := getSectionLoop_lt h
    rw [List.length_tail] at this
    omega

/-! ## The metadata sections -/

/-- `SECTION_PREFIX` and the postfixes of het_bin.h. -/
def sectionPrefix : Name := cstr ".stack_transform"
def sectionUnwind : Name := cstr "unwind"
def sectionUnwindAddr : Name := cstr "unwind_arange"
def sectionId : Name := cstr "id"
def sectionAddr : Name := cstr "addr"
def sectionLive : Name := cstr "live"
def sectionArch : Name := cstr "arch_const"

/-- `"%s.%s"`. -/
def dotted (sec post : Name) : Name := sec ++ cstr "." ++ post

/-- `sizeof` of the packed records the sections hold. -/
def sizeofUnwindAddr : Nat := 16
def sizeofUnwindLoc : Nat := 4
def sizeofCallSite : Nat := 52

end Popcorn.Metadata
