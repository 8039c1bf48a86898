import RpiBoot.Vfs

/-!
# ELF files (`elf.h`, `elf.c`)

The headers are read into buffers of their own, which lie beside the memory that the file is loaded
to; `fresh` is what is in a buffer before it is filled.

* `ehdrAt`, `phdrAt`, `shdrAt`: the structures at an address.
* `elf32ReadEhdr`, `elf32ReadShdrs`, `elf32ReadPhdrs`: the headers.
* `elf32LoadSection`, `elf32LoadSegment`: contents, to the address in the header.
-/

namespace RpiBoot

open Store

variable {σ : Type}

def elfOk : ℤ := 0
def elfNotElf : ℤ := -1
def elfNot32Bit : ℤ := -2
def elfNotLittleEndian : ℤ := -3
def elfNotExec : ℤ := -4
def elfNotArm : ℤ := -5
def elfFileLoadError : ℤ := -6
def elfNoOffset : ℤ := -7

/-- The fields of `Elf32_Ehdr` that are read; of `e_ident`, the first six bytes. -/
structure Ehdr where
  eIdent : List UInt8
  eType : ℕ
  eMachine : ℕ
  eEntry : ℕ
  ePhoff : ℕ
  eShoff : ℕ
  ePhentsize : ℕ
  ePhnum : ℕ
  eShentsize : ℕ
  eShnum : ℕ
  eShstrndx : ℕ

/-- The fields of `Elf32_Phdr` that are read. -/
structure Phdr where
  pType : ℕ
  pOffset : ℕ
  pVaddr : ℕ
  pPaddr : ℕ
  pFilesz : ℕ
  pMemsz : ℕ

/-- The fields of `Elf32_Shdr` that are read. -/
structure Shdr where
  shType : ℕ
  shFlags : ℕ
  shAddr : ℕ
  shOffset : ℕ
  shSize : ℕ

def ptLoad : ℕ := 1
def shtNobits : ℕ := 8
def shfAlloc : ℕ := 2

def ehdrAt (mem : Mem) (a : ℕ) : Ehdr where
  eIdent := slice mem a 6
  eType := le16 mem (a + 16)
  eMachine := le16 mem (a + 18)
  eEntry := le32 mem (a + 24)
  ePhoff := le32 mem (a + 28)
  eShoff := le32 mem (a + 32)
  ePhentsize := le16 mem (a + 42)
  ePhnum := le16 mem (a + 44)
  eShentsize := le16 mem (a + 46)
  eShnum := le16 mem (a + 48)
  eShstrndx := le16 mem (a + 50)

def phdrAt (mem : Mem) (a : ℕ) : Phdr where
  pType := le32 mem a
  pOffset := le32 mem (a + 4)
  pVaddr := le32 mem (a + 8)
  pPaddr := le32 mem (a + 12)
  pFilesz := le32 mem (a + 16)
  pMemsz := le32 mem (a + 20)

def shdrAt (mem : Mem) (a : ℕ) : Shdr where
  shType := le32 mem (a + 4)
  shFlags := le32 mem (a + 8)
  shAddr := le32 mem (a + 12)
  shOffset := le32 mem (a + 16)
  shSize := le32 mem (a + 20)

/-! ## Headers -/

/-- `fread(buf, 1, n, fp)` into a new buffer: the number of bytes read, the buffer and the rest. -/
def freadNew (fsRead : FsTransfer σ) (fresh : Mem) (n : ℕ) (io : FileIo σ) : ℕ × Mem × FileIo σ :=
  let r := fread fsRead 0 1 n { io with mem := fresh }
  (r.1, r.2.mem, { r.2 with mem := io.mem })

/-- `fseek(fp, (long)offset, SEEK_SET)`. -/
def FileIo.seek (io : FileIo σ) (offset : ℕ) : FileIo σ :=
  { io with file := (fseek io.file (i32 offset) .set).2 }

/-- The checks of `elf32_read_ehdr`. -/
def checkEhdr (ehdr : Ehdr) : ℤ :=
  if ehdr.eIdent.take 4 ≠ [0x7f, 0x45, 0x4c, 0x46] then elfNotElf
  else if ehdr.eIdent.getD 4 0 ≠ 1 then elfNot32Bit
  else if ehdr.eIdent.getD 5 0 ≠ 1 then elfNotLittleEndian
  else if ehdr.eType ≠ 2 then elfNotExec
  else if ehdr.eMachine ≠ 40 then elfNotArm
  else elfOk

/-- `elf32_read_ehdr(fp, &ehdr)`. -/
def elf32ReadEhdr (fsRead : FsTransfer σ) (fresh : Mem) (io : FileIo σ) : ℤ × Ehdr × FileIo σ :=
  let r := freadNew fsRead fresh 52 (io.seek 0)
  let ehdr := ehdrAt r.2.1 0
  (if r.1 ≠ 52 then elfFileLoadError else checkEhdr ehdr, ehdr, r.2.2)

/-- A header table of `num` entries of `entsize` bytes, from an offset of the file on. -/
def readTable (fsRead : FsTransfer σ) (fresh : Mem) (offset entsize num : ℕ) (io : FileIo σ) :
    ℤ × Mem × FileIo σ :=
  let bytesToLoad := u32 (entsize * num)
  let r := freadNew fsRead fresh bytesToLoad (io.seek offset)
  (if r.1 ≠ bytesToLoad then elfFileLoadError else elfOk, r.2)

/-- `elf32_read_shdrs(fp, ehdr, &shdrs)`. -/
def elf32ReadShdrs (fsRead : FsTransfer σ) (fresh : Mem) (ehdr : Ehdr) (io : FileIo σ) :
    ℤ × Mem × FileIo σ :=
  readTable fsRead fresh ehdr.eShoff ehdr.eShentsize ehdr.eShnum io

/-- `elf32_read_phdrs(fp, ehdr, &phdrs)`. -/
def elf32ReadPhdrs (fsRead : FsTransfer σ) (fresh : Mem) (ehdr : Ehdr) (io : FileIo σ) :
    ℤ × Mem × FileIo σ :=
  readTable fsRead fresh ehdr.ePhoff ehdr.ePhentsize ehdr.ePhnum io

/-! ## Contents -/

/-- `elf32_load_section(fp, shdr)`. -/
def elf32LoadSection (fsRead : FsTransfer σ) (shdr : Shdr) (io : FileIo σ) : ℤ × FileIo σ :=
  if shdr.shType = shtNobits then (elfOk, { io with mem := clearMem shdr.shAddr shdr.shSize io.mem })
  else if shdr.shOffset = 0 then (elfNoOffset, io)
  else
    let r := fread fsRead shdr.shAddr 1 shdr.shSize (io.seek shdr.shOffset)
    (if r.1 ≠ shdr.shSize then elfFileLoadError else elfOk, r.2)

/-- The file image of a segment: the bytes that are in the file. -/
def loadImage (fsRead : FsTransfer σ) (phdr : Phdr) (io : FileIo σ) : ℤ × FileIo σ :=
  if phdr.pFilesz = 0 then (elfOk, io)
  else
    let r := fread fsRead phdr.pPaddr 1 phdr.pFilesz (io.seek phdr.pOffset)
    (if r.1 ≠ phdr.pFilesz then elfFileLoadError else elfOk, r.2)

/-- `elf32_load_segment(fp, phdr)`. -/
def elf32LoadSegment (fsRead : FsTransfer σ) (phdr : Phdr) (io : FileIo σ) : ℤ × FileIo σ :=
  let r := loadImage fsRead phdr io
  if r.1 ≠ elfOk then r
  else
    -- the difference of the two sizes is taken modulo `2 ^ 32`
    let rest := sub32 phdr.pMemsz phdr.pFilesz
    (elfOk, { r.2 with mem := clearMem (u32 (phdr.pPaddr + phdr.pFilesz)) rest r.2.mem })

end RpiBoot
