import DarwinScope.Machine.Words

namespace DarwinScope.Swift

open Machine

inductive ContextDescriptorKind where
  | module
  | extension
  | anonymous
  | protocol
  | opaqueType
  | «class»
  | struct
  | enum
  | other (raw : U8)
deriving DecidableEq

def ContextDescriptorKind.fromBits (raw : U8) : ContextDescriptorKind :=
  let kind := raw &&& 0x1f
  if kind = 0 then .module
  else if kind = 1 then .extension
  else if kind = 2 then .anonymous
  else if kind = 3 then .protocol
  else if kind = 4 then .opaqueType
  else if kind = 16 then .class
  else if kind = 17 then .struct
  else if kind = 18 then .enum
  else .other kind

structure ContextDescriptorFlags where
  raw : U32
deriving DecidableEq

def ContextDescriptorFlags.kind (flags : ContextDescriptorFlags) : ContextDescriptorKind :=
  ContextDescriptorKind.fromBits ((flags.raw &&& 0x1f).setWidth 8)

inductive MetadataInitializationKind where
  | none
  | singleton
  | foreign
  | other
deriving DecidableEq

def MetadataInitializationKind.fromBits (raw : U8) : MetadataInitializationKind :=
  let kind := raw &&& 0x3
  if kind = 0 then .none
  else if kind = 1 then .singleton
  else if kind = 2 then .foreign
  else .other

inductive TypeReferenceKind where
  | directTypeDescriptor
  | indirectTypeDescriptor
  | directObjcClassName
  | indirectObjcClass
  | other (raw : U8)
deriving DecidableEq

def TypeReferenceKind.fromBits (raw : U8) : TypeReferenceKind :=
  let kind := raw &&& 0x7
  if kind = 0 then .directTypeDescriptor
  else if kind = 1 then .indirectTypeDescriptor
  else if kind = 2 then .directObjcClassName
  else if kind = 3 then .indirectObjcClass
  else .other kind

/-- The kind-specific half of the flags of a class, a struct or an enum. -/
structure TypeContextDescriptorFlags where
  raw : U16
deriving DecidableEq

namespace TypeContextDescriptorFlags

def metadataInitialization (flags : TypeContextDescriptorFlags) : MetadataInitializationKind :=
  MetadataInitializationKind.fromBits ((flags.raw &&& 0x3).setWidth 8)

def hasImportInfo (flags : TypeContextDescriptorFlags) : Bool := hasBit flags.raw 2

def hasCanonicalMetadataPrespecializationsOrSingleton (flags : TypeContextDescriptorFlags) : Bool := hasBit flags.raw 3

def hasCanonicalMetadataPrespecializations (flags : TypeContextDescriptorFlags) : Bool :=
  flags.hasCanonicalMetadataPrespecializationsOrSingleton && decide (flags.metadataInitialization ≠ .singleton)

def hasSingletonMetadataPointer (flags : TypeContextDescriptorFlags) : Bool :=
  flags.hasCanonicalMetadataPrespecializationsOrSingleton && decide (flags.metadataInitialization = .singleton)

def hasLayoutString (flags : TypeContextDescriptorFlags) : Bool := hasBit flags.raw 4

def classHasDefaultOverrideTable (flags : TypeContextDescriptorFlags) : Bool := hasBit flags.raw 6

def classIsActor (flags : TypeContextDescriptorFlags) : Bool := hasBit flags.raw 7

def classIsDefaultActor (flags : TypeContextDescriptorFlags) : Bool := hasBit flags.raw 8

def classResilientSuperclassReferenceKind (flags : TypeContextDescriptorFlags) : TypeReferenceKind :=
  TypeReferenceKind.fromBits (((flags.raw >>> 9) &&& 0x7).setWidth 8)

def classImmediateMembersNegative (flags : TypeContextDescriptorFlags) : Bool := hasBit flags.raw 12

def classHasResilientSuperclass (flags : TypeContextDescriptorFlags) : Bool := hasBit flags.raw 13

def classHasOverrideTable (flags : TypeContextDescriptorFlags) : Bool := hasBit flags.raw 14

def classHasVtable (flags : TypeContextDescriptorFlags) : Bool := hasBit flags.raw 15

end TypeContextDescriptorFlags

namespace ContextDescriptorFlags

def hasInvertibleProtocols (flags : ContextDescriptorFlags) : Bool := hasBit flags.raw 5

def isUnique (flags : ContextDescriptorFlags) : Bool := hasBit flags.raw 6

def isGeneric (flags : ContextDescriptorFlags) : Bool := hasBit flags.raw 7

def kindSpecific (flags : ContextDescriptorFlags) : U16 := (flags.raw >>> 16).setWidth 16

def typeFlags (flags : ContextDescriptorFlags) : TypeContextDescriptorFlags := ⟨flags.kindSpecific⟩

end ContextDescriptorFlags

/-- One bit announces prespecializations or a singleton pointer, never both. -/
theorem prespecializations_or_pointer (flags : TypeContextDescriptorFlags) :
    flags.hasCanonicalMetadataPrespecializationsOrSingleton =
        (flags.hasCanonicalMetadataPrespecializations || flags.hasSingletonMetadataPointer) ∧
      (flags.hasCanonicalMetadataPrespecializations && flags.hasSingletonMetadataPointer) = false := by
  unfold TypeContextDescriptorFlags.hasCanonicalMetadataPrespecializations
    TypeContextDescriptorFlags.hasSingletonMetadataPointer
  by_cases singleton : flags.metadataInitialization = .singleton <;> simp [singleton]

inductive SwiftMethodKind where
  | method
  | init
  | getter
  | setter
  | modifyCoroutine
  | readCoroutine
  | other (raw : U8)
deriving DecidableEq

def SwiftMethodKind.fromBits (raw : U8) : SwiftMethodKind :=
  let kind := raw &&& 0xf
  if kind = 0 then .method
  else if kind = 1 then .init
  else if kind = 2 then .getter
  else if kind = 3 then .setter
  else if kind = 4 then .modifyCoroutine
  else if kind = 5 then .readCoroutine
  else .other kind

structure MethodDescriptorFlags where
  raw : U32
deriving DecidableEq

namespace MethodDescriptorFlags

variable (flags : MethodDescriptorFlags)

def kind : SwiftMethodKind := SwiftMethodKind.fromBits ((flags.raw &&& 0xf).setWidth 8)

def isInstance : Bool := hasBit flags.raw 4

def isDynamic : Bool := hasBit flags.raw 5

def isAsync : Bool := hasBit flags.raw 6

def hasExtendedContext : Bool := hasBit flags.raw 7

def extraDiscriminator : U16 := (flags.raw >>> 16).setWidth 16

end MethodDescriptorFlags

end DarwinScope.Swift
