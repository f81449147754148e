import TouchHle.Lib.Checked
import TouchHle.Lib.Words

/-! Lazy linking: symbol stubs are overwritten with supervisor calls, and rebuilt or pointed at a
host function when they are first called. -/

namespace TouchHle.Loader.LazyStubs

open Lib

inductive SectionType
  | symbolStubs
  | lazySymbolPointers
  | other
  deriving DecidableEq

structure IndirectSymbolInfo where
  entrySize : ℕ
  indirectUndefSymbols : List (Option String)
  deriving DecidableEq

structure Section where
  addr : ℕ
  size : ℕ
  type : SectionType
  info : Option IndirectSymbolInfo
  deriving DecidableEq

structure MachO where
  sections : List Section
  deriving DecidableEq

def MachO.getSection (bin : MachO) (type : SectionType) : Option Section :=
  bin.sections.find? fun s => s.type = type

abbrev HostFunction := ℕ

/-- What the search for a symbol answers: a guest address, or a function of the host, which may be
the stub for a missing one. -/
inductive Target
  | guest (addr : ℕ)
  | host (f : HostFunction)
  deriving DecidableEq

structure Dyld where
  mem : Words
  linkedHostFunctions : List HostFunction

def svcLazyLink : ℕ := 0
def svcThreadExit : ℕ := 1
def svcReturnToHost : ℕ := 2
def svcLinkedFunctionsBase : ℕ := svcReturnToHost + 1
def svcLazyLinkRetFlag : ℕ := 0x800000

def symbolStub1Instructions : List ℕ := [0xe59ff000]
def symbolStubInstructions : List ℕ := [0xe59fc000, 0xe59cf000]
def picSymbolStubInstructions : List ℕ := [0xe59fc004, 0xe08fc00c, 0xe59cf000]

def encodeA32Ret : ℕ := 0xe12fff1e
def encodeA32Trap : ℕ := 0xe7ffdefe

def encodeA32Svc (imm : ℕ) : Checked ℕ := do
  assert (imm &&& 0xff000000 = 0)
  return imm ||| 0xef000000

def decodeSvc (w : ℕ) : Option ℕ := if w / 2 ^ 24 = 0xef then some (w % 2 ^ 24) else none

def expectedInstructions (entrySize : ℕ) : Option (List ℕ) :=
  if entrySize = 4 then some []
  else if entrySize = 12 then some symbolStubInstructions
  else if entrySize = 16 then some picSymbolStubInstructions
  else none

def lazyInstructions (entrySize : ℕ) : List ℕ :=
  if entrySize = 4 then [svcLazyLinkRetFlag ||| 0xef000000]
  else if entrySize = 16 then [svcLazyLink ||| 0xef000000, encodeA32Ret, encodeA32Trap]
  else [svcLazyLink ||| 0xef000000, encodeA32Ret]

def setupStub (entrySize : ℕ) (expected : List ℕ) (mem : Words) (ptr : ℕ) : Words :=
  if ∀ j < expected.length, mem (ptr + 4 * j) = expected.getD j 0 then
    mem.writeWords ptr (lazyInstructions entrySize)
  else mem

def setupLazyLinking (mem : Words) (bin : MachO) : Checked Words :=
  match bin.getSection .symbolStubs with
  | none => return mem
  | some stubs =>
    match stubs.info with
    | none => return mem
    | some info =>
      match expectedInstructions info.entrySize with
      | none => return mem
      | some expected => do
        assert (stubs.size % info.entrySize = 0)
        return ((List.range (stubs.size / info.entrySize)).map fun i =>
          stubs.addr + i * info.entrySize).foldl (setupStub info.entrySize expected) mem

def linkByRestoringStub (mem : Words) (linkedFunction svcPc entrySize picOffset : ℕ) : Words :=
  let original :=
    if entrySize = 4 then symbolStub1Instructions
    else if entrySize = 16 then picSymbolStubInstructions
    else symbolStubInstructions
  let mem :=
    if entrySize = 4 then Function.update mem svcPc (original.getD 0 0 ||| picOffset)
    else mem.writeWords svcPc original
  let laSymbolPtr :=
    if entrySize = 12 then mem (svcPc + 4 * original.length)
    else if entrySize = 4 then (svcPc + mem svcPc % 2 ^ 12 + 8) % 2 ^ 32
    else (svcPc + mem (svcPc + 4 * original.length) + 12) % 2 ^ 32
  Function.update mem laSymbolPtr linkedFunction

def findStubs (bins : List MachO) (svcPc : ℕ) : Option (Section × ℕ) :=
  bins.findSome? fun bin =>
    match bin.getSection .symbolStubs with
    | none => none
    | some stubs =>
      if stubs.addr ≤ svcPc ∧ svcPc < stubs.addr + stubs.size then
        some (stubs, match bin.getSection .lazySymbolPointers with
          | some lazyPtrs => (lazyPtrs.addr + 2 ^ 32 - stubs.addr) % 2 ^ 32
          | none => 0)
      else none

def svcFor (entrySize idx : ℕ) : Checked ℕ :=
  let svc := idx + svcLinkedFunctionsBase
  if entrySize = 4 then do
    assert (svc < svcLazyLinkRetFlag)
    return svc ||| svcLazyLinkRetFlag
  else return svc

namespace Dyld

def doLazyLink (d : Dyld) (bins : List MachO) (svcPc : ℕ) (target : Target) :
    Checked (Option HostFunction × Dyld) := do
  let (stubs, picOffset) ← unwrap (findStubs bins svcPc)
  let info ← unwrap stubs.info
  let offset := svcPc - stubs.addr
  assert (offset % info.entrySize = 0)
  let _ ← unwrap ((info.indirectUndefSymbols[offset / info.entrySize]?).bind id)
  match target with
  | .guest addr =>
    return (none, { d with mem := linkByRestoringStub d.mem addr svcPc info.entrySize picOffset })
  | .host f =>
    let svc ← svcFor info.entrySize d.linkedHostFunctions.length
    let w ← encodeA32Svc svc
    let mem := Function.update d.mem svcPc w
    if info.entrySize ≠ 4 then assert (mem (svcPc + 4) = encodeA32Ret)
    return (some f, ⟨mem, d.linkedHostFunctions ++ [f]⟩)

def getSvcHandler (d : Dyld) (bins : List MachO) (svcPc svc : ℕ) (target : Target) :
    Checked (Option HostFunction × Dyld) :=
  if svc = svcLazyLink ∨ svc = svcLazyLinkRetFlag then d.doLazyLink bins svcPc target
  else if svc = svcThreadExit ∨ svc = svcReturnToHost then return (none, d)
  else
    return (d.linkedHostFunctions[
      (svc &&& (0xffffffff ^^^ svcLazyLinkRetFlag)) - svcLinkedFunctionsBase]?, d)

end Dyld

structure Cpu where
  ip : ℕ
  pc : ℕ

/-- The instructions of stubs, run until one loads the program counter: from where, and with what.
The program counter reads as the address of the instruction plus eight. -/
def loadsPc (mem : Words) : ℕ → Cpu → Option (ℕ × ℕ)
  | 0, _ => none
  | n + 1, cpu =>
    let w := mem cpu.pc
    -- `ldr rt, [pc, #imm]`
    if w / 2 ^ 16 = 0xe59f then
      let addr := (cpu.pc + 8 + w % 2 ^ 12) % 2 ^ 32
      if w / 2 ^ 12 % 16 = 15 then some (addr, mem addr)
      else if w / 2 ^ 12 % 16 = 12 then loadsPc mem n ⟨mem addr, cpu.pc + 4⟩
      else none
    -- `add ip, pc, ip`
    else if w = 0xe08fc00c then loadsPc mem n ⟨(cpu.pc + 8 + cpu.ip) % 2 ^ 32, cpu.pc + 4⟩
    -- `ldr pc, [ip]`
    else if w = 0xe59cf000 then some (cpu.ip, mem cpu.ip)
    else none

structure Entry where
  bin : MachO
  stubs : Section
  lazyPtrs : Section
  info : IndirectSymbolInfo
  index : ℕ

def Entry.stub (e : Entry) : ℕ := e.stubs.addr + e.index * e.info.entrySize

def Entry.lazyPtr (e : Entry) : ℕ := e.lazyPtrs.addr + 4 * e.index

def entries (bins : List MachO) : Set Entry :=
  {e | e.bin ∈ bins ∧ e.bin.getSection .symbolStubs = some e.stubs ∧
    e.bin.getSection .lazySymbolPointers = some e.lazyPtrs ∧ e.stubs.info = some e.info ∧
    e.index < e.stubs.size / e.info.entrySize}

structure Call (bins : List MachO) where
  entry : {e : Entry // e ∈ entries bins}
  target : Target

structure Linking where
  dyld : Dyld
  resolved : ℕ → Option Target

def Linking.step {bins : List MachO} (w : Linking) (r : Call bins) : Checked Linking :=
  let pc := r.entry.1.stub
  match decodeSvc (w.dyld.mem pc) with
  | none => return w
  | some svc => do
    let (_, dyld) ← w.dyld.getSvcHandler bins pc svc r.target
    return ⟨dyld, if svc = svcLazyLink ∨ svc = svcLazyLinkRetFlag then
      Function.update w.resolved pc (some r.target) else w.resolved⟩

def setupAll (bins : List MachO) (image : Words) : Checked Words :=
  bins.foldlM setupLazyLinking image

end TouchHle.Loader.LazyStubs
