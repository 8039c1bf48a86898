import RpiBoot.Config.Model
import RpiBoot.Elf
import RpiBoot.Lib.Bytes
import RpiBoot.Memchunk.Model

/-!
# The boot commands (`multiboot.h`, `multiboot.c`)

A command acts on memory, the devices, the allocator and the globals of `multiboot.c`. The rest of the
loader is a parameter (`BootEnv`), and so is what a new buffer holds; `Loading` is the state while a
file is open. A command that never returns (`none`) searches for memory without end.

* `methodMultiboot`: `openMultiboot` finds the header, `loadAout` or `loadElf` loads the file.
* `methodKernel`, `methodModule`, `methodEntryAddr`, `methodBinaryLoadAddr`, `methodBoot`: the others.
* `loadSegments`: the loop over the program headers, in both places where it stands.
* `bootStep`: one command of a configuration that goes on.
-/

namespace RpiBoot

open Store Bytes

/-! ## State -/

/-- An entry of the module table: `struct module`. -/
structure ModuleEntry where
  modStart : ℕ
  modEnd : ℕ
  string : List UInt8
  reserved : ℕ

/-- `elf_section_header_table_t`, with the buffer that its address leads to. -/
structure ElfSec where
  num : ℕ
  size : ℕ
  addr : Mem
  shndx : ℕ

/-- `struct multiboot_info`, without the fields that stay zero and the framebuffer; addresses are what
they lead to, and `none` is what `memset` leaves. -/
structure MultibootInfo where
  flags : ℕ
  memUpper : ℕ
  bootDevice : Option (List UInt8)
  cmdline : Option (List UInt8)
  modsCount : ℕ
  mods : List ModuleEntry
  elfSec : Option ElfSec
  mmapLength : ℕ
  mmap : Option Mem
  bootLoaderName : Option (List UInt8)

/-- The structure that `memset` has cleared. -/
def MultibootInfo.clear : MultibootInfo := ⟨0, 0, none, none, 0, [], none, 0, none, none⟩

/-- `struct _module`, without its link. -/
structure Module where
  start : ℕ
  stop : ℕ
  name : List UInt8

/-- What the kernel gets: where control goes, and the boot information of a Multiboot boot. -/
structure Handoff where
  entry : ℕ
  info : Option MultibootInfo

/-- Memory, the devices, the allocator, the globals of `multiboot.c` and, once control has been
transferred, what was handed over. -/
structure Boot (σ : Type) where
  ram : Mem
  dev : σ
  chunks : Chunks
  entryAddr : ℕ
  binaryLoadAddr : ℕ
  mbinfo : Option MultibootInfo
  modules : List Module
  modCount : ℕ
  handoff : Option Handoff

/-- Before the first command. -/
def Boot.init {σ : Type} (ram : Mem) (dev : σ) (chunks : Chunks) : Boot σ :=
  ⟨ram, dev, chunks, 0, 0, none, [], 0, none⟩

/-- An open file: how it is read, its structure, and the device it is on. -/
structure OpenFile (σ : Type) where
  fsRead : FsTransfer σ
  file : Stream
  device : List UInt8

/-- The rest of the loader. -/
structure BootEnv (σ : Type) where
  /-- `fopen(path, "r")`. -/
  fopen : List UInt8 → σ → Option (OpenFile σ) × σ
  fclose : σ → σ
  vfsSetDefault : List UInt8 → σ → σ
  methodConsoleLog : List UInt8 → σ → ℤ × σ
  /-- The value of an argument that `strtol` accepts in full, as `uint32_t`. -/
  parseAddr : List UInt8 → Option ℕ
  /-- The regions that `parse_atag_or_dtb` reports. -/
  regions : List Chunk
  /-- What a new buffer holds. -/
  fresh : σ → Mem
  rpiBootName : List UInt8

variable {σ : Type}

def Boot.mapInfo (g : MultibootInfo → MultibootInfo) (b : Boot σ) : Boot σ :=
  { b with mbinfo := b.mbinfo.map g }

/-- The state while a file is open. -/
structure Loading (σ : Type) where
  boot : Boot σ
  file : Stream

def Loading.io (l : Loading σ) : FileIo σ := ⟨l.boot.ram, l.boot.dev, l.file⟩

def Loading.withIo (io : FileIo σ) (l : Loading σ) : Loading σ :=
  ⟨{ l.boot with ram := io.mem, dev := io.dev }, io.file⟩

def Loading.withChunks (chunks : Chunks) (l : Loading σ) : Loading σ :=
  { l with boot := { l.boot with chunks := chunks } }

def Loading.withEntry (entryAddr : ℕ) (l : Loading σ) : Loading σ :=
  { l with boot := { l.boot with entryAddr := entryAddr } }

/-- `fclose(fp)`: the state behind it. -/
def Loading.close (env : BootEnv σ) (l : Loading σ) : Boot σ :=
  { l.boot with dev := env.fclose l.boot.dev }

/-! ## Loading a file -/

section Elf

variable (fsRead : FsTransfer σ)

/-- The loop over the program headers: the value with which the function returns in it, if it does.
`onLoad` is what happens to `entry_addr` for a segment that has been loaded. -/
def loadSegments (onLoad : Phdr → ℕ → ℕ) : List Phdr → (retno : ℤ) → Loading σ → Option ℤ × Loading σ
  | [], _, l => (none, l)
  | phdr :: phdrs, retno, l =>
    if phdr.pType ≠ ptLoad then loadSegments onLoad phdrs retno l
    else
      let g := chunkGetChunk l.boot.chunks phdr.pPaddr phdr.pMemsz
      if g.1 = 0 then (some retno, l.withChunks g.2)
      else
        let r := elf32LoadSegment fsRead phdr (l.withChunks g.2).io
        let l := (l.withChunks g.2).withIo r.2
        if r.1 ≠ elfOk then (some r.1, l)
        else loadSegments onLoad phdrs r.1 (l.withEntry (onLoad phdr l.boot.entryAddr))

/-- The loop over the section headers in the buffer `shBuf`, from header `i` on. -/
def loadSections (shentsize : ℕ) : ℕ → ℕ → Mem → Loading σ → Option (Option ℤ × Mem × Loading σ)
  | 0, _, shBuf, l => some (none, shBuf, l)
  | k + 1, i, shBuf, l =>
    let shdr := shdrAt shBuf (i * shentsize)
    if shdr.shFlags &&& shfAlloc ≠ 0 then loadSections shentsize k (i + 1) shBuf l
    else if shdr.shSize = 0 then loadSections shentsize k (i + 1) shBuf l
    else
      (chunkGetAnyChunk l.boot.chunks shdr.shSize).bind fun g =>
        if g.1 = 0 then some (some (-1), shBuf, l.withChunks g.2)
        else
          let shBuf := patch shBuf (i * shentsize + 12) (toBytes 4 g.1)
          let r := elf32LoadSection fsRead { shdr with shAddr := g.1 } (l.withChunks g.2).io
          let l := (l.withChunks g.2).withIo r.2
          if r.1 ≠ elfOk then some (some r.1, shBuf, l)
          else loadSections shentsize k (i + 1) shBuf l

/-- The program headers in the buffer that has been filled. -/
def phdrsAt (phBuf : Mem) (ehdr : Ehdr) : List Phdr :=
  (List.range ehdr.ePhnum).map fun i => phdrAt phBuf (i * ehdr.ePhentsize)

end Elf

/-! ## `multiboot` -/

/-- The fields of `struct multiboot_header` that are used after the search. -/
structure MbHeader where
  flags : ℕ
  headerAddr : ℕ
  loadAddr : ℕ
  loadEndAddr : ℕ
  bssEndAddr : ℕ
  entryAddr : ℕ

def mbHeaderAt (mem : Mem) (a : ℕ) : MbHeader where
  flags := le32 mem (a + 4)
  headerAddr := le32 mem (a + 12)
  loadAddr := le32 mem (a + 16)
  loadEndAddr := le32 mem (a + 20)
  bssEndAddr := le32 mem (a + 24)
  entryAddr := le32 mem (a + 28)

def multibootHeaderMagic : ℕ := 0x1badb002

/-- The search for the header: its offset. -/
def findHeader (first8k : Mem) : ℕ → ℕ → Option ℕ
  | 0, _ => none
  | k + 1, i =>
    let a := 4 * i
    if le32 first8k a = multibootHeaderMagic ∧
        u32 (le32 first8k a + le32 first8k (a + 4) + le32 first8k (a + 8)) = 0 then some a
    else findHeader first8k k (i + 1)

/-- `mem_cb(start, size)`. -/
def MultibootInfo.memCb (info : MultibootInfo) (region : Chunk) : MultibootInfo :=
  let stop := u32 (region.start + region.length)
  { info with
    memUpper := if region.start < 0x100000 ∧ stop > 0x100000 then stop / 1024 else info.memUpper
    mmapLength := u32 (info.mmapLength + 24) }

/-- The words that `mem_cb2(start, size)` stores. -/
def mmapEntry (region : Chunk) : List UInt8 :=
  [20, region.start, 0, region.length, 0, 1].flatMap (toBytes 4)

/-- `mem_cb2(start, size)`, on the buffer and `mmap_ptr`. -/
def memCb2 (m : Mem × ℕ) (region : Chunk) : Mem × ℕ := (patch m.1 m.2 (mmapEntry region), m.2 + 24)

/-- The memory information. -/
def memInfo (regions : List Chunk) (fresh : Mem) (info : MultibootInfo) : MultibootInfo :=
  let info := regions.foldl MultibootInfo.memCb info
  let mmap := (regions.foldl memCb2 (fresh, 0)).1
  { info with mmap := some mmap, flags := info.flags ||| 1 <<< 0 ||| 1 <<< 6 }

/-- A file with a Multiboot header: the file, the header and its offset, and the state. -/
structure MbKernel (σ : Type) where
  opened : OpenFile σ
  header : MbHeader
  headerOffset : ℕ
  state : Loading σ

variable (env : BootEnv σ)

/-- The first part of `method_multiboot`: the search for the header and the new boot information. -/
def openMultiboot (args : List UInt8) (b : Boot σ) : Except (ℤ × Boot σ) (MbKernel σ) :=
  match env.fopen (methodName 0x20 args) b.dev with
  | (none, dev) => .error (-1, { b with dev := dev })
  | (some f, dev) =>
    let r := freadNew f.fsRead (env.fresh dev) 8192 ⟨b.ram, dev, f.file⟩
    let l : Loading σ := Loading.withIo r.2.2 ⟨b, f.file⟩
    match findHeader r.2.1 (u32 r.1 / 4) 0 with
    | none => .error (-1, l.boot)
    | some headerOffset =>
      let header := mbHeaderAt r.2.1 headerOffset
      let info := if header.flags &&& 1 <<< 1 ≠ 0 then
          memInfo env.regions (env.fresh l.boot.dev) MultibootInfo.clear
        else MultibootInfo.clear
      .ok ⟨f, header, headerOffset, { l with boot := { l.boot with mbinfo := some info } }⟩

/-- The part of `method_multiboot` for an a.out file. -/
def loadAout (k : MbKernel σ) : ℤ × Loading σ :=
  let mboot := k.header
  if mboot.loadAddr < 0x100000 then (-1, k.state)
  else
    let fileOffset := u32 (sub32 k.headerOffset mboot.headerAddr + mboot.loadAddr)
    let len := if mboot.loadEndAddr ≠ 0 then sub32 mboot.loadEndAddr mboot.loadAddr
      else sub32 (toU32 k.state.file.len) fileOffset
    let bssLen := if mboot.bssEndAddr > mboot.loadEndAddr then
      sub32 mboot.bssEndAddr mboot.loadEndAddr else 0
    let l := k.state.withEntry mboot.entryAddr
    let g := chunkGetChunk l.boot.chunks mboot.loadAddr (u32 (len + bssLen))
    let l := l.withChunks g.2
    if g.1 = 0 then (-1, l)
    else
      let r := fread k.opened.fsRead mboot.loadAddr 1 len (l.io.seek fileOffset)
      let l := l.withIo r.2
      if r.1 ≠ len then (-1, l)
      else (0, l.withIo { l.io with mem := clearMem mboot.loadEndAddr bssLen l.io.mem })

/-- The ELF header, the buffer of the section headers, the program headers, and the state. -/
structure ElfHeaders (σ : Type) where
  ehdr : Ehdr
  shBuf : Mem
  phdrs : List Phdr
  state : Loading σ

/-- The part of `method_multiboot` that reads the headers of an ELF file. -/
def elfHeaders (k : MbKernel σ) : Except (ℤ × Boot σ) (ElfHeaders σ) :=
  let fsRead := k.opened.fsRead
  let l := k.state
  let r := elf32ReadEhdr fsRead (env.fresh l.boot.dev) l.io
  let ehdr := r.2.1
  let l := l.withIo r.2.2
  if r.1 ≠ elfOk then .error (r.1, l.boot)
  else if ehdr.eShoff = 0 ∨ ehdr.eShnum = 0 then .error (-1, l.boot)
  else
    let s := elf32ReadShdrs fsRead (env.fresh l.boot.dev) ehdr l.io
    let l := l.withIo s.2.2
    if s.1 ≠ elfOk then .error (s.1, l.close env)
    else
      let p := elf32ReadPhdrs fsRead (env.fresh l.boot.dev) ehdr l.io
      let l := l.withIo p.2.2
      if p.1 ≠ elfOk then .error (p.1, l.close env)
      else .ok ⟨ehdr, s.2.1, phdrsAt p.2.1 ehdr, l.withEntry ehdr.eEntry⟩

/-- An entry address in a segment becomes a physical address. -/
def translateEntry (phdr : Phdr) (entryAddr : ℕ) : ℕ :=
  if entryAddr ≥ phdr.pVaddr ∧ entryAddr < u32 (phdr.pVaddr + phdr.pMemsz) then
    u32 (sub32 entryAddr phdr.pVaddr + phdr.pPaddr)
  else entryAddr

/-- The section table of the boot information. -/
def setElfSec (ehdr : Ehdr) (shBuf : Mem) (info : MultibootInfo) : MultibootInfo :=
  { info with
    elfSec := some ⟨ehdr.eShnum, ehdr.eShentsize, shBuf, ehdr.eShstrndx⟩
    flags := info.flags ||| 1 <<< 6 }

/-- The part of `method_multiboot` for an ELF file: what it returns, if it does, or the state to go on
with. -/
def loadElf (k : MbKernel σ) : Option (Except (ℤ × Boot σ) (Loading σ)) :=
  match elfHeaders env k with
  | .error r => some (.error r)
  | .ok h =>
    -- `retno` is what the last read of headers has returned
    match loadSegments k.opened.fsRead translateEntry h.phdrs elfOk h.state with
    | (some retno, l) => some (.error (retno, l.close env))
    | (none, l) =>
      (loadSections k.opened.fsRead h.ehdr.eShentsize h.ehdr.eShnum 0 h.shBuf l).map fun s =>
        match s with
        | (some retno, _, l) => .error (retno, l.boot)
        | (none, shBuf, l) => .ok { l with boot := l.boot.mapInfo (setElfSec h.ehdr shBuf) }

/-- The last part of `method_multiboot`. -/
def setKernelInfo (cmdline device : List UInt8) (info : MultibootInfo) : MultibootInfo :=
  { info with
    cmdline := some cmdline
    bootDevice := some device
    bootLoaderName := some env.rpiBootName
    flags := info.flags ||| 1 <<< 2 ||| 1 <<< 1 ||| 1 <<< 9 ||| 1 <<< 11 }

def finishMultiboot (args : List UInt8) (k : MbKernel σ) (l : Loading σ) : ℤ × Boot σ :=
  -- `split_string` has ended the string at `args` behind the name of the file
  let cmdline := args.takeWhile (· == 0x20) ++ methodName 0x20 args
  let b := l.boot.mapInfo (setKernelInfo env cmdline k.opened.device)
  (0, { b with dev := env.fclose (env.vfsSetDefault k.opened.device b.dev) })

/-- `method_multiboot(args)`. -/
def methodMultiboot (args : List UInt8) (b : Boot σ) : Option (ℤ × Boot σ) :=
  match openMultiboot env args b with
  | .error r => some r
  | .ok k =>
    if k.header.flags &&& 1 <<< 16 ≠ 0 then
      let r := loadAout k
      if r.1 ≠ 0 then some (r.1, r.2.boot) else some (finishMultiboot env args k r.2)
    else
      (loadElf env k).map fun r =>
        match r with
        | .error r => r
        | .ok l => finishMultiboot env args k l

/-! ## `module` and `boot` -/

/-- `module_add(start, end, name)`. -/
def moduleAdd (start stop : ℕ) (name : List UInt8) (b : Boot σ) : Boot σ :=
  { b with modules := ⟨start, stop, name⟩ :: b.modules, modCount := b.modCount + 1 }

/-- The name of a module: the given one, or that of the file. -/
def moduleName (args : List UInt8) : List UInt8 :=
  if argString 0x20 args = [] then methodName 0x20 args else argString 0x20 args

/-- `method_module(args)`. -/
def methodModule (args : List UInt8) (b : Boot σ) : Option (ℤ × Boot σ) :=
  match env.fopen (methodName 0x20 args) b.dev with
  | (none, dev) => some (-1, { b with dev := dev })
  | (some f, dev) =>
    (chunkGetAnyChunk b.chunks (toU32 f.file.len)).map fun g =>
      let l : Loading σ := ⟨{ b with dev := dev, chunks := g.2 }, f.file⟩
      if g.1 = 0 then (-1, l.boot)
      else
        let r := fread f.fsRead g.1 1 (toU32 f.file.len) l.io
        let b := (l.withIo r.2).close env
        if toU32 f.file.len ≠ r.1 then (-1, b)
        else (0, moduleAdd g.1 (u32 (g.1 + r.1)) (moduleName args) b)

/-- The loop of `add_multiboot_modules`. -/
def fillMods : ℕ → List Module → MultibootInfo → MultibootInfo
  | k + 1, m :: curMod, info =>
    fillMods k curMod { info with
      mods := info.mods ++ [⟨m.start, m.stop, m.name, 0⟩]
      flags := info.flags ||| 1 <<< 3 }
  | _, _, info => info

/-- `add_multiboot_modules()`. -/
def addMultibootModules (modules : List Module) (modCount : ℕ) (info : MultibootInfo) : MultibootInfo :=
  fillMods modCount modules { info with modsCount := modCount, mods := [] }

/-- `method_boot(args)`, up to the transfer of control. -/
def methodBoot (b : Boot σ) : ℤ × Boot σ :=
  if b.entryAddr = 0 then (-1, b)
  else
    let b := b.mapInfo (addMultibootModules b.modules b.modCount)
    (0, { b with handoff := some ⟨b.entryAddr, b.mbinfo⟩ })

/-! ## `kernel` and the addresses -/

/-- A file for `kernel`: how it is read, and the state after the first bytes have been read. -/
structure KernelFile (σ : Type) where
  opened : OpenFile σ
  bytesRead : ℕ
  firstBytes : Mem
  state : Loading σ

/-- The first part of `method_kernel`. -/
def openKernel (args : List UInt8) (b : Boot σ) : Except (ℤ × Boot σ) (KernelFile σ) :=
  match env.fopen (methodName 0x20 args) b.dev with
  | (none, dev) => .error (-1, { b with dev := dev })
  | (some f, dev) =>
    let r := freadNew f.fsRead (env.fresh dev) 0x30 ⟨b.ram, dev, f.file⟩
    let l : Loading σ := Loading.withIo r.2.2 ⟨b, f.file⟩
    if r.1 = 0 then .error (-1, l.boot) else .ok ⟨f, r.1, r.2.1, l⟩

/-- `kernel_type`. -/
inductive KernelType where
  | flat | elf | linux
deriving DecidableEq

def KernelFile.type (k : KernelFile σ) : KernelType :=
  if k.bytesRead ≥ 4 ∧ slice k.firstBytes 0 4 = [0x7f, 0x45, 0x4c, 0x46] then .elf
  else if k.bytesRead ≥ 0x30 ∧ le32 k.firstBytes 0x24 = 0x016f2818 then .linux
  else .flat

/-- The chunk of a flat kernel: at `binary_load_addr`, or anywhere. -/
def flatChunk (length : ℕ) (b : Boot σ) : Option (ℕ × Boot σ) :=
  if b.binaryLoadAddr ≠ 0 then
    let g := chunkGetChunk b.chunks b.binaryLoadAddr length
    some (g.1, { b with chunks := g.2 })
  else (chunkGetAnyChunk b.chunks length).map fun g => (g.1, { b with chunks := g.2, binaryLoadAddr := g.1 })

/-- The part of `method_kernel` for a flat binary. -/
def loadFlat (k : KernelFile σ) : Option (ℤ × Boot σ) :=
  let length := toU32 k.state.file.len
  (flatChunk length k.state.boot).map fun g =>
    if g.1 = 0 then (-1, g.2)
    else
      let l : Loading σ := ⟨g.2, k.state.file⟩
      let r := fread k.opened.fsRead g.2.binaryLoadAddr 1 length (l.io.seek 0)
      let l := l.withIo r.2
      if r.1 ≠ length then (-1, l.boot)
      else
        let b := l.close env
        (0, if b.entryAddr = 0 then { b with entryAddr := b.binaryLoadAddr } else b)

/-- The ELF header, the program headers and the state, or what `method_kernel` returns. -/
def kernelHeaders (k : KernelFile σ) : Except (ℤ × Boot σ) (Ehdr × List Phdr × Loading σ) :=
  let r := elf32ReadEhdr k.opened.fsRead (env.fresh k.state.boot.dev) k.state.io
  let l := k.state.withIo r.2.2
  if r.1 ≠ elfOk then .error (r.1, l.close env)
  else
    let p := elf32ReadPhdrs k.opened.fsRead (env.fresh l.boot.dev) r.2.1 l.io
    let l := l.withIo p.2.2
    if p.1 ≠ elfOk then .error (p.1, l.close env) else .ok (r.2.1, phdrsAt p.2.1 r.2.1, l)

/-- The part of `method_kernel` for an ELF file. -/
def loadElfKernel (k : KernelFile σ) : ℤ × Boot σ :=
  match kernelHeaders env k with
  | .error r => r
  | .ok (ehdr, phdrs, l) =>
    match loadSegments k.opened.fsRead (fun _ entryAddr => entryAddr) phdrs elfOk l with
    | (some retno, l) => (retno, l.close env)
    | (none, l) => (0, { l.boot with entryAddr := ehdr.eEntry })

/-- `method_kernel(args)`. -/
def methodKernel (args : List UInt8) (b : Boot σ) : Option (ℤ × Boot σ) :=
  match openKernel env args b with
  | .error r => some r
  | .ok k =>
    match k.type with
    | .flat => loadFlat env k
    | .elf => some (loadElfKernel env k)
    | .linux => some (-1, k.state.boot)

/-- `method_entry_addr(args)`. -/
def methodEntryAddr (args : List UInt8) (b : Boot σ) : ℤ × Boot σ :=
  match env.parseAddr args with
  | some val => (0, { b with entryAddr := val })
  | none => (-1, b)

/-- `method_binary_load_addr(args)`. -/
def methodBinaryLoadAddr (args : List UInt8) (b : Boot σ) : ℤ × Boot σ :=
  match env.parseAddr args with
  | some val => (0, { b with binaryLoadAddr := val })
  | none => (-1, b)

/-! ## Configurations -/

/-- A command of the configuration, with its argument. -/
inductive BootCommand where
  | multiboot (args : List UInt8)
  | boot (args : List UInt8)
  | module (args : List UInt8)
  | kernel (args : List UInt8)
  | entryAddr (args : List UInt8)
  | binaryLoadAddr (args : List UInt8)
  | consoleLog (args : List UInt8)

/-- The method of a command. -/
def bootMethod (b : Boot σ) : BootCommand → Option (ℤ × Boot σ)
  | .multiboot args => methodMultiboot env args b
  | .boot _ => some (methodBoot b)
  | .module args => methodModule env args b
  | .kernel args => methodKernel env args b
  | .entryAddr args => some (methodEntryAddr env args b)
  | .binaryLoadAddr args => some (methodBinaryLoadAddr env args b)
  | .consoleLog args =>
    let r := env.methodConsoleLog args b.dev
    some (r.1, { b with dev := r.2 })

/-- One command of a configuration: the next one follows if the method returns `0` and control has not
been transferred. -/
def bootStep (b : Boot σ) (c : BootCommand) : Option (Boot σ) :=
  if b.handoff.isSome then none
  else (bootMethod env b c).bind fun r => if r.1 = 0 then some r.2 else none

/-! ## Files that are held in lists -/

/-- `fread` of a filesystem, for a file with the given bytes. -/
def imageRead (image : List UInt8) : FsTransfer Unit := fun ptr byteSize io =>
  let got := (image.drop io.file.pos.toNat).take byteSize
  (got.length, { io with
    mem := patch io.mem ptr got
    file := { io.file with pos := io.file.pos + got.length } })

/-- A loader whose files are held in lists. -/
def filesEnv (files : List UInt8 → Option (List UInt8)) : BootEnv Unit where
  fopen path s := ((files path).map fun image => ⟨imageRead image, ⟨0, vfsModeR, image.length, 0⟩, []⟩, s)
  fclose := id
  vfsSetDefault _ := id
  methodConsoleLog _ s := (0, s)
  parseAddr _ := none
  regions := []
  fresh _ _ := 0
  rpiBootName := []

/-- An ELF kernel with one segment, at `0x8000`, and one empty section, and a Multiboot header with no
flags. -/
def elfImage : List UInt8 :=
  [0x7f, 0x45, 0x4c, 0x46, 1, 1] ++ List.replicate 10 0 ++ toBytes 2 2 ++ toBytes 2 40 ++
  [1, 0x8000, 52, 84, 0].flatMap (toBytes 4) ++ [52, 32, 1, 40, 1, 0].flatMap (toBytes 2) ++
  [ptLoad, 0, 0x8000, 0x8000, 0, 0x1000, 0, 0].flatMap (toBytes 4) ++ List.replicate 40 0 ++
  [multibootHeaderMagic, 0, 2 ^ 32 - multibootHeaderMagic].flatMap (toBytes 4)

/-- An a.out kernel of 32 bytes, its header, to be loaded to `0x100000`. -/
def aoutImage : List UInt8 :=
  [multibootHeaderMagic, 1 <<< 16, 2 ^ 32 - 1 <<< 16 - multibootHeaderMagic, 0x100000, 0x100000, 0x100020,
    0x100020, 0x100000].flatMap (toBytes 4)

end RpiBoot
