import DarwinScope.Image

namespace DarwinScope.Objc

open Machine

structure ImageInfo where
  version : U32
  flags : U32
deriving DecidableEq

def ImageInfo.parse (body : Slice) : Option ImageInfo := do
  let version ← readU32LeAt body 0
  let flags ← readU32LeAt body 4
  some ⟨version, flags⟩

namespace ImageInfo

variable (info : ImageInfo)

def dyldCategoriesOptimized : Bool := hasBit info.flags 0

def supportsGc : Bool := hasBit info.flags 1

def requiresGc : Bool := hasBit info.flags 2

def optimizedByDyld : Bool := hasBit info.flags 3

def signedClassRo : Bool := hasBit info.flags 4

def isSimulated : Bool := hasBit info.flags 5

def hasCategoryClassProperties : Bool := decide (info.flags &&& 0x40 ≠ 0)

def optimizedByDyldClosure : Bool := hasBit info.flags 7

def swiftUnstableVersion : U8 := ((info.flags &&& 0x0000ff00) >>> 8).setWidth 8

def swiftStableVersion : U16 := ((info.flags &&& 0xffff0000) >>> 16).setWidth 16

def containsSwift : Bool := decide (info.flags &&& 0x0000ff00 ≠ 0)

/-- An image has Swift code when it has an unstable version of it. -/
theorem containsSwift_eq : info.containsSwift = decide (info.swiftUnstableVersion ≠ 0) := by
  have value : (info.flags &&& 0x0000ff00).toNat = info.flags.toNat / 2^8 % 2^8 * 2^8 :=
    and_place_toNat info.flags 0x0000ff00 8 8 (by decide)
  have version : info.swiftUnstableVersion.toNat = info.flags.toNat / 2^8 % 2^8 := by
    rw [swiftUnstableVersion, BitVec.toNat_setWidth, shiftRight_toNat, value]
    omega
  rw [containsSwift, decide_eq_decide, Ne, Ne, ← BitVec.toNat_inj, ← BitVec.toNat_inj, value, version]
  simp

end ImageInfo

structure ObjcRuntime extends Image where
  imageInfo : ImageInfo
  classList : Option MappedSection
  nlclslist : Option MappedSection
  catList : Option MappedSection
  nlcatList : Option MappedSection
  protoList : Option MappedSection
  selRefs : Option MappedSection
  classRefs : Option MappedSection
  superRefs : Option MappedSection
  protoRefs : Option MappedSection
  bindsByVa : Map U64 (Str × Str)
  rebasesByVa : Map U64 U64

def bindEntry (data : Slice) (imp : Import) : Option (U64 × Str × Str) := do
  let name ← reborrowIntoData data imp.name
  let dylib ← reborrowIntoData data imp.dylib
  some (imp.address, name, dylib)

namespace ObjcRuntime

def build (bin : MachoBinary) : Option ObjcRuntime :=
  if !bin.is64 then none
  else do
    let imageinfoSec ← findSection bin "__objc_imageinfo"
    let imageInfo ← ImageInfo.parse imageinfoSec.body
    some {
      data := bin.data
      segments := bin.segmentRanges
      imageInfo := imageInfo
      classList := findSection bin "__objc_classlist"
      nlclslist := findSection bin "__objc_nlclslist"
      catList := findSection bin "__objc_catlist"
      nlcatList := findSection bin "__objc_nlcatlist"
      protoList := findSection bin "__objc_protolist"
      selRefs := findSection bin "__objc_selrefs"
      classRefs := findSection bin "__objc_classrefs"
      superRefs := findSection bin "__objc_superrefs"
      protoRefs := findSection bin "__objc_protorefs"
      bindsByVa := Map.ofRows (bin.imports.filterMap (bindEntry bin.data))
      rebasesByVa := DarwinScope.rebasesByVa bin
    }

def flat (base : U64) (data : Slice) (bindsByVa : Map U64 (Str × Str)) (rebasesByVa : Map U64 U64) : ObjcRuntime where
  data := data
  segments := [⟨base, BitVec.ofNat 64 data.length, 0, BitVec.ofNat 64 data.length⟩]
  imageInfo := ⟨0, 0⟩
  classList := none
  nlclslist := none
  catList := none
  nlcatList := none
  protoList := none
  selRefs := none
  classRefs := none
  superRefs := none
  protoRefs := none
  bindsByVa := bindsByVa
  rebasesByVa := rebasesByVa

/-- The target of a pointer slot: its rebase when there is one, else the stored word without its
    signature. -/
def resolvePointer (rt : ObjcRuntime) (slotVa : U64) : Option U64 :=
  match rt.rebasesByVa slotVa with
  | some target => some target
  | none => (rt.readU64 slotVa).map stripSignature

/-- A pointer field at an offset of a structure: its target, zero when the slot cannot be read. There is
    none when the address of the slot overflows. -/
def pointerField (rt : ObjcRuntime) (va offset : U64) : Option U64 :=
  (checkedAdd va offset).map fun slotVa => (rt.resolvePointer slotVa).getD 0

def requiredField (rt : ObjcRuntime) (va offset : U64) : Option U64 :=
  (checkedAdd va offset).bind rt.resolvePointer

/-- The distinct non-zero targets of the pointer slots of the sections, in order of first occurrence. -/
def pointerTargets (rt : ObjcRuntime) (sections : List (Option MappedSection)) : List U64 :=
  (((sections.filterMap id).flatMap MappedSection.slots).map fun slotVa => (rt.resolvePointer slotVa).getD 0).foldl
    (fun ordered va => if va = 0 ∨ va ∈ ordered then ordered else ordered ++ [va]) []

end ObjcRuntime

def visit (ordered : List U64) (va : U64) : List U64 := if va = 0 ∨ va ∈ ordered then ordered else ordered ++ [va]

theorem visit_new {ordered vas : List U64} (nonzero : ∀ va ∈ vas, va ≠ 0) (distinct : (ordered ++ vas).Nodup) :
    vas.foldl visit ordered = ordered ++ vas := by
  induction vas generalizing ordered with
  | nil => rw [List.foldl_nil, List.append_nil]
  | cons va vas ih =>
    have fresh : va ∉ ordered := fun member =>
      (List.disjoint_of_nodup_append distinct) member List.mem_cons_self
    have turn : visit ordered va = ordered ++ [va] := by
      rw [visit, if_neg]
      rintro (zero | member)
      · exact nonzero va List.mem_cons_self zero
      · exact fresh member
    have same : ordered ++ va :: vas = ordered ++ [va] ++ vas := by rw [List.append_assoc, List.singleton_append]
    rw [same] at distinct
    rw [List.foldl_cons, turn, ih (fun other later => nonzero other (List.mem_cons_of_mem va later)) distinct, same]

theorem visit_known {ordered vas : List U64} (known : ∀ va ∈ vas, va = 0 ∨ va ∈ ordered) :
    vas.foldl visit ordered = ordered := by
  induction vas with
  | nil => rfl
  | cons va vas ih =>
    rw [List.foldl_cons, visit, if_pos (known va List.mem_cons_self)]
    exact ih fun other later => known other (List.mem_cons_of_mem va later)

def bareImageInfo (addr : U64) : Section where
  segname := lit "__DATA"
  sectname := lit "__objc_imageinfo"
  addr := addr
  size := 8
  body := ⟨0, leBytes 8 0, by decide⟩

def symbolPrefixes : List String :=
  ["_OBJC_CLASS_$_", "_OBJC_METACLASS_$_", "_OBJC_PROTOCOL_$_", "_OBJC_REF_$_", "_OBJC_LABEL_PROTOCOL_$_"]

def stripObjcSymbolPrefix (name : Str) : Str :=
  match symbolPrefixes.find? fun p => (lit p).isPrefixOf name.text with
  | some p => name.dropBytes (lit p).length
  | none => name

end DarwinScope.Objc
