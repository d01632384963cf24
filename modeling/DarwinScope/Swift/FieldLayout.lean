import DarwinScope.Memory
import DarwinScope.Swift.Fields
import DarwinScope.Swift.TrailerLayout

namespace DarwinScope.Swift

open Machine

structure RecordData where
  flags : U32
  mangledTypeName : Option Label
  fieldName : Option Label

structure DescriptorData where
  mangledTypeName : Option Label
  superclassMangledName : Option Label
  kind : FieldDescriptorKind
  records : List RecordData

def FieldDescriptorKind.bits : FieldDescriptorKind → U16
  | .struct => 0
  | .class => 1
  | .enum => 2
  | .multiPayloadEnum => 3
  | .protocol => 4
  | .classProtocol => 5
  | .objcProtocol => 6
  | .objcClass => 7
  | .other raw => raw

def nameWord (slot : U64) (name : Option Label) : U32 := (name.map fun label => offsetTo slot label.va).getD 0

def NameFits (image : Image) (slot : U64) (name : Option Label) : Prop :=
  ∀ label ∈ name, label.Readable image ∧ Reached slot label.va

def RecordData.encode (va : U64) (r : RecordData) : Bytes :=
  encodeWords [r.flags, nameWord (va + 4) r.mangledTypeName, nameWord (va + 8) r.fieldName]

def recordPlace (va : U64) (i : Nat) : U64 := va + BitVec.ofNat 64 (12 * i)

def encodeRecords (va : U64) (records : List RecordData) : Bytes :=
  records.zipIdx.flatMap fun place => place.1.encode (recordPlace va place.2)

namespace DescriptorData

def size (d : DescriptorData) : Nat := 16 + 12 * d.records.length

def header (va : U64) (d : DescriptorData) : Bytes :=
  encodeWords [nameWord va d.mangledTypeName, nameWord (va + 4) d.superclassMangledName] ++
    (half d.kind.bits ++ (half 12 ++ encodeWords [BitVec.ofNat 32 d.records.length]))

def encode (va : U64) (d : DescriptorData) : Bytes := d.header va ++ encodeRecords (va + 16) d.records

end DescriptorData

structure RecordData.Fits (image : Image) (va : U64) (r : RecordData) : Prop where
  mangledTypeName : NameFits image (va + 4) r.mangledTypeName
  fieldName : NameFits image (va + 8) r.fieldName

structure DescriptorData.Fits (image : Image) (va : U64) (d : DescriptorData) : Prop where
  mangledTypeName : NameFits image va d.mangledTypeName
  superclassMangledName : NameFits image (va + 4) d.superclassMangledName
  kind : FieldDescriptorKind.fromBits d.kind.bits = d.kind
  few : d.records.length < 2^32
  records : ∀ i (r : RecordData), d.records[i]? = some r → r.Fits image (recordPlace (va + 16) i)

structure RecordContent where
  flags : FieldRecordFlags
  mangledTypeName : Option Bytes
  fieldName : Option Bytes
deriving DecidableEq

structure DescriptorContent where
  address : U64
  mangledTypeName : Option Bytes
  superclassMangledName : Option Bytes
  kind : FieldDescriptorKind
  fieldRecordSize : U16
  numFields : Nat
  records : List RecordContent
deriving DecidableEq

def FieldRecord.content (r : FieldRecord) : RecordContent :=
  ⟨r.flags, r.mangledTypeName.map Str.text, r.fieldName.map Str.text⟩

def FieldDescriptor.content (rt : SwiftRuntime) (d : FieldDescriptor) : DescriptorContent :=
  ⟨d.address, d.mangledTypeName.map Str.text, d.superclassMangledName.map Str.text, d.kind, d.fieldRecordSize,
    d.numFields.toNat, (d.records rt).map FieldRecord.content⟩

def RecordData.content (r : RecordData) : RecordContent :=
  ⟨⟨r.flags⟩, r.mangledTypeName.map Label.text, r.fieldName.map Label.text⟩

def DescriptorData.content (va : U64) (d : DescriptorData) : DescriptorContent :=
  ⟨va, d.mangledTypeName.map Label.text, d.superclassMangledName.map Label.text, d.kind, 12, d.records.length,
    d.records.map RecordData.content⟩

theorem NameFits.absent {image : Image} {slot : U64} : NameFits image slot none := fun _ none => nomatch none

theorem NameFits.present {image : Image} {slot : U64} {label : Label} (readable : label.Readable image)
    (reached : Reached slot label.va) : NameFits image slot (some label) := by
  intro other same
  cases same
  exact ⟨readable, reached⟩

section

variable {rt : SwiftRuntime} {va slot : U64} {name : Option Label}

theorem relativeName_of_fits {read : U64 → Option Str} (fits : NameFits rt.toImage slot name)
    (reads : ∀ label : Label, label.Readable rt.toImage → ∃ s, read label.va = some s ∧ s.text = label.text) :
    (relativeName read slot (nameWord slot name)).map Str.text = name.map Label.text := by
  cases name with
  | none => rfl
  | some label =>
    rcases fits label rfl with ⟨readable, reached⟩
    rcases reached.offset with ⟨nonzero, target⟩
    rcases reads label readable with ⟨s, found, text⟩
    rw [nameWord, Option.map_some, Option.getD_some, relativeName, if_neg nonzero, target, found, Option.map_some,
      Option.map_some, text]

theorem RecordData.encode_length (va : U64) (r : RecordData) : (r.encode va).length = 12 := by
  rw [RecordData.encode, encodeWords_length]
  rfl

end

theorem header_length (va : U64) (d : DescriptorData) : (d.header va).length = 16 := by
  simp only [DescriptorData.header, half, List.length_append, encodeWords_length, leBytes_length, List.length_cons,
    List.length_nil]

theorem encodeRecords_length (va : U64) (records : List RecordData) :
    (encodeRecords va records).length = 12 * records.length := by
  rw [encodeRecords, flatMap_length fun place _ => RecordData.encode_length _ place.1, List.length_zipIdx]

theorem DescriptorData.encode_length (va : U64) (d : DescriptorData) : (d.encode va).length = d.size := by
  rw [DescriptorData.encode, List.length_append, header_length, encodeRecords_length, DescriptorData.size]

def DescriptorData.found (rt : SwiftRuntime) (va : U64) (d : DescriptorData) : FieldDescriptor where
  address := va
  mangledTypeName := relativeName rt.readCstr va (nameWord va d.mangledTypeName)
  superclassMangledName := relativeName rt.readCstr (va + 4) (nameWord (va + 4) d.superclassMangledName)
  kind := FieldDescriptorKind.fromBits d.kind.bits
  fieldRecordSize := 12
  numFields := BitVec.ofNat 32 d.records.length

section

variable {rt : SwiftRuntime} {sec : MappedSection} {ds : List DescriptorData} {i : Nat} {d : DescriptorData} {va : U64}

end

end DarwinScope.Swift
