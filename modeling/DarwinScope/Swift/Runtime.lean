import DarwinScope.Image

namespace DarwinScope.Swift

open Machine

structure SwiftRuntime extends Image where
  types : Option MappedSection
  protos : Option MappedSection
  proto : Option MappedSection
  fieldmd : Option MappedSection
  replac : Option MappedSection
  replac2 : Option MappedSection
  capture : Option MappedSection
  reflstr : Option MappedSection
  typeref : Option MappedSection
  builtin : Option MappedSection
  entry : Option MappedSection
  mpenum : Option MappedSection
  acfuncs : Option MappedSection
  assocty : Option MappedSection
  bindsByVa : Map U64 (Str × Str)
  rebasesByVa : Map U64 U64

/-- An empty name has no anchor in the image and is taken as it is. -/
def reborrowIntoData (data : Slice) (borrowed : Str) : Option Str :=
  if borrowed.text = [] then some (Str.literal "") else DarwinScope.reborrowIntoData data borrowed

def bindEntry (data : Slice) (imp : Import) : Option (U64 × Str × Str) := do
  let name ← reborrowIntoData data imp.name
  let dylib ← reborrowIntoData data imp.dylib
  some (imp.address, name, dylib)

def SwiftRuntime.build (bin : MachoBinary) : Option SwiftRuntime :=
  if !bin.is64 then none
  else
    let types := findSection bin "__swift5_types"
    let protos := findSection bin "__swift5_protos"
    let proto := findSection bin "__swift5_proto"
    let fieldmd := findSection bin "__swift5_fieldmd"
    if types.isNone && protos.isNone && proto.isNone && fieldmd.isNone then none
    else
      some {
        data := bin.data
        segments := bin.segmentRanges
        types := types
        protos := protos
        proto := proto
        fieldmd := fieldmd
        replac := findSection bin "__swift5_replac"
        replac2 := findSection bin "__swift5_replac2"
        capture := findSection bin "__swift5_capture"
        reflstr := findSection bin "__swift5_reflstr"
        typeref := findSection bin "__swift5_typeref"
        builtin := findSection bin "__swift5_builtin"
        entry := findSection bin "__swift5_entry"
        mpenum := findSection bin "__swift5_mpenum"
        acfuncs := findSection bin "__swift5_acfuncs"
        assocty := findSection bin "__swift5_assocty"
        bindsByVa := Map.ofRows (bin.imports.filterMap (bindEntry bin.data))
        rebasesByVa := DarwinScope.rebasesByVa bin
      }

end DarwinScope.Swift
