import DarwinScope.Machine.Maps
import DarwinScope.Binary

namespace DarwinScope

open Machine

structure Image where
  data : Slice
  segments : List SegmentRange

namespace Image

variable (image : Image)

def vmToFileOffset (vmaddr : U64) : Option U64 := vmToFileOffsetIn image.segments vmaddr

def readCstr (vmaddr : U64) : Option Str :=
  if vmaddr = 0 then none
  else do
    let off ← image.vmToFileOffset vmaddr
    readCstrAt image.data off.toNat

def readU32 (vmaddr : U64) : Option U32 := do
  let off ← image.vmToFileOffset vmaddr
  readU32LeAt image.data off.toNat

/-- The word as it stands in the file, signature bits included. -/
def readU64 (vmaddr : U64) : Option U64 := do
  let off ← image.vmToFileOffset vmaddr
  readU64LeAt image.data off.toNat

def readBytes (vmaddr : U64) (len : Nat) : Option Slice := do
  let off ← image.vmToFileOffset vmaddr
  let stop ← checkedAddUsize off.toNat len
  image.data.get off.toNat stop

end Image

structure MappedSection where
  body : Slice
  vmaddr : U64

def MappedSection.slots (sec : MappedSection) : List U64 :=
  (List.range (sec.body.length / 8)).map fun i => sec.vmaddr + BitVec.ofNat 64 (8 * i)

def findSection (bin : MachoBinary) (name : String) : Option MappedSection :=
  (bin.sections.find? fun sect => sect.sectname = lit name).map fun sect => ⟨sect.body, sect.addr⟩

def rebasesByVa (bin : MachoBinary) : Map U64 U64 :=
  Map.ofRows (bin.chainedRebases.map fun r => (r.vmAddress, r.targetVmaddr))

/-- The same string as a range of the image; `none` when it does not lie there. No object of the
    program wraps around the address space, so the checked sums of addresses are exact. -/
def reborrowIntoData (data : Slice) (s : Str) : Option Str := do
  let start ← s.origin
  if start < data.start then none
  else if data.start + data.length < start + s.text.length then none
  else do
    let bytes ← data.get (start - data.start) (start - data.start + s.text.length)
    if validUtf8 bytes.bytes then some ⟨some bytes.start, bytes.bytes⟩ else none

end DarwinScope
