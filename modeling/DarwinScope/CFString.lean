import DarwinScope.Machine.Iteration
import DarwinScope.Machine.Utf16
import DarwinScope.Memory

namespace DarwinScope

open Machine

abbrev cfstringStride : Nat := 32

abbrev cfstringFlagEncodingMask : U32 := 0x07f8
abbrev cfstringFlagAscii : U32 := 0x07c8
abbrev cfstringFlagUtf16 : U32 := 0x07d0

inductive CFStringEncoding where
  | ascii
  | utf16Le
  | other (flags : U32)
deriving DecidableEq

def CFStringEncoding.fromFlags (flags : U32) : CFStringEncoding :=
  if flags &&& cfstringFlagEncodingMask = cfstringFlagAscii then .ascii
  else if flags &&& cfstringFlagEncodingMask = cfstringFlagUtf16 then .utf16Le
  else .other flags

inductive CFStringBody where
  | ascii (s : Str)
  | utf16 (text : List Char)
  | unresolved
deriving DecidableEq

structure CFString where
  address : U64
  flags : U32
  encoding : CFStringEncoding
  bodyAddress : U64
  length : U64
  body : CFStringBody
deriving DecidableEq

structure CFStringRuntime extends Image where
  sectionBody : Slice
  sectionVmaddr : U64
  rebasesByVa : Map U64 U64

namespace CFStringRuntime

def build (bin : MachoBinary) : Option CFStringRuntime :=
  if !bin.is64 then none
  else
    (findSection bin "__cfstring").map fun sec => {
      data := bin.data
      segments := bin.segmentRanges
      sectionBody := sec.body
      sectionVmaddr := sec.vmaddr
      rebasesByVa := DarwinScope.rebasesByVa bin
    }

variable (rt : CFStringRuntime)

def resolvePointer (slotVa raw : U64) : U64 := (rt.rebasesByVa slotVa).getD (stripSignature raw)

end CFStringRuntime

def decodeUtf16Le (bytes : Bytes) : Option (List Char) :=
  if bytes.length % 2 ≠ 0 then none else fromUtf16 (unitsLe bytes)

section

variable (rt : CFStringRuntime)

/-- A length that runs past the file gives way to the terminator of the string. -/
def decodeAscii (off : Nat) (length : U64) : CFStringBody :=
  match checkedAddUsize off length.toNat with
  | none => .unresolved
  | some stop =>
    match rt.data.get off stop with
    | none => ((readCstrAt rt.data off).map CFStringBody.ascii).getD .unresolved
    | some slice => if validUtf8 slice.bytes then .ascii ⟨some slice.start, slice.bytes⟩ else .unresolved

def decodeUtf16 (off : Nat) (length : U64) : CFStringBody :=
  let text : Option (List Char) := do
    let byteLen ← checkedMulUsize length.toNat 2
    let stop ← checkedAddUsize off byteLen
    let slice ← rt.data.get off stop
    decodeUtf16Le slice.bytes
  (text.map CFStringBody.utf16).getD .unresolved

def decodeBody (encoding : CFStringEncoding) (bodyAddress length : U64) : CFStringBody :=
  if bodyAddress = 0 then .unresolved
  else
    match rt.vmToFileOffset bodyAddress with
    | none => .unresolved
    | some off =>
      match encoding with
      | .ascii => decodeAscii rt off.toNat length
      | .utf16Le => decodeUtf16 rt off.toNat length
      | .other _ => .unresolved

def cfStringIterNext (cursor : Nat) : Option (CFString × Nat) := do
  let nextCursor ← checkedAddUsize cursor cfstringStride
  if rt.sectionBody.length < nextCursor then none
  else do
    let flagsOff ← checkedAddUsize cursor 0x08
    let strOff ← checkedAddUsize cursor 0x10
    let lengthOff ← checkedAddUsize cursor 0x18
    let flags := (readU32LeAt rt.sectionBody flagsOff).getD 0
    let rawStr := (readU64LeAt rt.sectionBody strOff).getD 0
    let length := (readU64LeAt rt.sectionBody lengthOff).getD 0
    let bodyAddress := rt.resolvePointer (rt.sectionVmaddr + BitVec.ofNat 64 strOff) rawStr
    let encoding := CFStringEncoding.fromFlags flags
    some ({
      address := rt.sectionVmaddr + BitVec.ofNat 64 cursor
      flags := flags
      encoding := encoding
      bodyAddress := bodyAddress
      length := length
      body := decodeBody rt encoding bodyAddress length
    }, nextCursor)

def cfStrings (fuel : Nat) : Option (List CFString) := collect (cfStringIterNext rt) fuel 0

end

end DarwinScope
