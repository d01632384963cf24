import DarwinScope.Swift.TypeLayout

namespace DarwinScope.Swift

open Machine

structure ContextData where
  flags : U32
  name : Option Label

def ContextDescriptorKind.hasName : ContextDescriptorKind → Bool
  | .anonymous | .opaqueType | .other _ => false
  | _ => true

namespace ContextData

def named (c : ContextData) : Bool := (ContextDescriptorFlags.mk c.flags).kind.hasName

def encode (va : U64) (outer : Option U64) (c : ContextData) : Bytes :=
  encodeWords [c.flags, pointerWord (va + 4) outer] ++ if c.named then encodeWords [nameWord (va + 8) c.name] else []

structure Fits (image : Image) (va : U64) (outer : Option U64) (c : ContextData) : Prop where
  nonzero : va ≠ 0
  parent : PointerFits (va + 4) outer
  name : if c.named then NameFits image (va + 8) c.name else c.name = none
  stored : image.Stored va (c.encode va outer)

def row (va : U64) (c : ContextData) : ParentContext := ⟨va, ⟨c.flags⟩, c.name.map Label.str⟩

end ContextData

/-- The contexts from the innermost one on, each with the place of its descriptor. -/
inductive ContextChain (image : Image) : Option U64 → List (U64 × ContextData) → Prop where
  | top : ContextChain image none []
  | within {va : U64} {outer : Option U64} {c : ContextData} {contexts : List (U64 × ContextData)} :
      c.Fits image va outer → ContextChain image outer contexts → ContextChain image (some va) ((va, c) :: contexts)

def path (contexts : List (U64 × ContextData)) : List Bytes :=
  (contexts.reverse.filterMap fun place => place.2.name).map Label.text

def ParentContext.unplaced (context : ParentContext) : ParentContext :=
  { context with name := context.name.map Str.unplaced }

section

variable {rt : SwiftRuntime} {va : U64} {outer : Option U64} {c : ContextData}

theorem readContextName_unnamed (kind : (ContextDescriptorFlags.mk c.flags).kind.hasName = false) :
    readContextName rt.toImage va ⟨c.flags⟩ = none := by
  unfold readContextName
  split <;> simp_all [ContextDescriptorKind.hasName]

theorem readContextName_named (kind : c.named = true) (fits : NameFits rt.toImage (va + 8) c.name)
    (near : va.toNat + 8 < 2^64)
    (stored : rt.Stored (va + 8) (encodeWords [nameWord (va + 8) c.name])) :
    (readContextName rt.toImage va ⟨c.flags⟩).map Str.unplaced = c.name.map Label.str := by
  rcases stored.readWords (Nat.succ_pos _) with ⟨bytes, read, words⟩
  change rt.readBytes (va + 8) 4 = some bytes at read
  have word : readI32LeAt bytes 0 = some (nameWord (va + 8) c.name) := words 0 _ rfl
  have slot : checkedAdd va 8 = some (va + 8) := @checkedAdd_ofNat 64 va 8 near
  have name := unplaced_of_text (relativeName_of_fits fits fun label readable => readable.read)
  rw [← name]
  unfold ContextData.named at kind
  unfold readContextName relativeName
  split
  · simp_all [ContextDescriptorKind.hasName]
  · simp_all [ContextDescriptorKind.hasName]
  · simp_all [ContextDescriptorKind.hasName]
  · simp only [slot, read, word, Option.bind_eq_bind, Option.bind_some]

theorem next_of_fits (fits : c.Fits rt.toImage va outer) :
    ∃ context, ParentChain.next rt.toImage va = some (context, outer.getD 0) ∧ context.unplaced = c.row va := by
  have front := fits.stored.left
  have room := front.room
  rw [encodeWords_length] at room
  simp only [List.length_cons, List.length_nil] at room
  rcases front.readWords (Nat.succ_pos _) with ⟨header, read, words⟩
  change rt.readBytes va 8 = some header at read
  have flags : readU32LeAt header 0 = some c.flags := words 0 _ rfl
  have parent : readI32LeAt header 4 = some (pointerWord (va + 4) outer) := words 1 _ rfl
  have slot : checkedAdd va 4 = some (va + 4) := @checkedAdd_ofNat 64 va 4 (by omega)
  have target : resolveParent (va + 4) (pointerWord (va + 4) outer) = outer.getD 0 := relativeTarget_of_fits fits.parent
  have name : (readContextName rt.toImage va ⟨c.flags⟩).map Str.unplaced = c.name.map Label.str := by
    have given := fits.name
    have behind := fits.stored.right
    cases kind : c.named with
    | false =>
      rw [kind] at given
      rw [readContextName_unnamed kind, show c.name = none from given]
      rfl
    | true =>
      rw [kind] at given behind
      have stored : rt.Stored (va + 8) (encodeWords [nameWord (va + 8) c.name]) := by simpa using behind
      have tail := stored.room
      exact readContextName_named kind given (by rw [encodeWords_length] at tail; simp at tail; omega) stored
  refine ⟨⟨va, ⟨c.flags⟩, readContextName rt.toImage va ⟨c.flags⟩⟩, ?_, ?_⟩
  · rw [ParentChain.next, if_neg fits.nonzero]
    simp only [read, flags, parent, slot, target, Option.bind_eq_bind, Option.bind_some]
  · rw [ParentContext.unplaced, name]
    rfl

theorem collect_chain {contexts : List (U64 × ContextData)} (chain : ContextChain rt.toImage outer contexts) {fuel : Nat}
    (enough : contexts.length < fuel) :
    (collect (ParentChain.next rt.toImage) fuel (outer.getD 0)).map (List.map ParentContext.unplaced) =
      some (contexts.map fun place => place.2.row place.1) := by
  induction chain generalizing fuel with
  | top =>
    obtain ⟨fuel, rfl⟩ : ∃ n, fuel = n + 1 := ⟨fuel - 1, by simp at enough; omega⟩
    exact congrArg (Option.map _) (collect_stop rfl fuel)
  | within fits _ ih =>
    rw [List.length_cons] at enough
    obtain ⟨fuel, rfl⟩ : ∃ n, fuel = n + 1 := ⟨fuel - 1, by omega⟩
    rcases next_of_fits fits with ⟨context, turn, same⟩
    rcases Option.map_eq_some_iff.mp (@ih fuel (by omega)) with ⟨rows, found, tail⟩
    rw [Option.getD_some, collect_step turn, found]
    simp only [Option.map_some, List.map_cons, same, tail]

end

theorem intercalate_dots (names : List Bytes) (own : Bytes) :
    (names.flatMap fun name => name ++ lit ".") ++ own = List.intercalate (lit ".") (names ++ [own]) := by
  induction names with
  | nil => simp [List.intercalate]
  | cons name names ih =>
    cases names with
    | nil => simp [List.intercalate]
    | cons next names =>
      rw [List.flatMap_cons, List.append_assoc, ih]
      simp [List.intercalate]

theorem qualify_unplaced (contexts : List ParentContext) (name : Str) :
    qualify (contexts.map ParentContext.unplaced) name.unplaced = qualify contexts name := by
  unfold qualify
  simp only [List.filterMap_map, Function.comp_def, ParentContext.unplaced, Str.unplaced]
  congr 1
  induction contexts with
  | nil => rfl
  | cons context contexts ih =>
    cases own : context.name with
    | none => simpa [own] using ih
    | some s => simp [own, ih, Str.unplaced]

theorem qualify_rows (contexts : List (U64 × ContextData)) (own : Label) :
    qualify (contexts.map fun place => place.2.row place.1) own.str =
      List.intercalate (lit ".") (path contexts ++ [own.text]) := by
  rw [← intercalate_dots, qualify, path]
  congr 1
  induction contexts with
  | nil => rfl
  | cons place contexts ih =>
    simp only [List.map_cons, List.filterMap_cons, List.reverse_cons, List.filterMap_append, List.map_append,
      List.flatMap_append, ← ih]
    cases own : place.2.name with
    | none => simp [ContextData.row, own]
    | some label => simp [ContextData.row, own, Label.str]

theorem qualified_of_chain {rt : SwiftRuntime} {outer : Option U64} {contexts : List (U64 × ContextData)} {own : Label}
    {name : Str}
    (chain : ContextChain rt.toImage outer contexts) (same : name.unplaced = own.str) {fuel : Nat}
    (enough : contexts.length < fuel) :
    ((collect (ParentChain.next rt.toImage) fuel (outer.getD 0)).map fun rows => qualify rows name) =
      some (List.intercalate (lit ".") (path contexts ++ [own.text])) := by
  rcases Option.map_eq_some_iff.mp (collect_chain chain enough) with ⟨rows, found, unplaced⟩
  rw [found, Option.map_some, ← qualify_unplaced, unplaced, same, qualify_rows]

/-- The qualified name of a type or a protocol is made of the names around it, from the outermost one on; contexts without
    a name leave no trace in it. -/
theorem qualifiedNames_of_chain (rt : SwiftRuntime) (outer : Option U64) (contexts : List (U64 × ContextData))
    (chain : ContextChain rt.toImage outer contexts) :
    (∀ va (t : TypeData), t.Fits rt.toImage va → t.parent = outer → ∀ fuel, contexts.length < fuel →
      ((decodeTypeDescriptor rt.toImage va).bind fun row => row.qualifiedName rt.toImage fuel) =
        some (List.intercalate (lit ".") (path contexts ++ [t.name.text]))) ∧
    (∀ va (p : ProtocolData), p.Fits rt.toImage va → p.parent = outer → ∀ fuel, contexts.length < fuel →
      ((decodeProtocol rt.toImage va).bind fun row => row.qualifiedName rt.toImage fuel) =
        some (List.intercalate (lit ".") (path contexts ++ [p.name.text]))) := by
  refine ⟨?_, ?_⟩
  · rintro va t fits rfl fuel enough
    rcases Option.map_eq_some_iff.mp (decodeTypeDescriptor_of_fits fits) with ⟨row, decoded, report⟩
    have name : row.name.unplaced = t.name.str := congrArg (fun r => r.row.name) report
    have parent : row.parentVa = t.parent.getD 0 := congrArg (fun r => r.row.parentVa) report
    rw [decoded, Option.bind_some, TypeDescriptor.qualifiedName, parent]
    exact qualified_of_chain chain name enough
  · rintro va p fits rfl fuel enough
    rcases Option.map_eq_some_iff.mp (decodeProtocol_of_fits fits) with ⟨row, decoded, content⟩
    have name : row.name.unplaced = p.name.str := congrArg SwiftProtocol.name content
    have parent : row.parentVa = p.parent.getD 0 := congrArg SwiftProtocol.parentVa content
    rw [decoded, Option.bind_some, SwiftProtocol.qualifiedName, parent]
    exact qualified_of_chain chain name enough

/-- An enum in an anonymous context of a module. -/
def sampleContexts : List (U64 × ContextData) := [(0x100c, ⟨2, none⟩), (0x1000, ⟨0, some ⟨0x1030, [0x4d]⟩⟩)]

def nestedEnum : TypeData := ⟨0x52, some 0x100c, ⟨0x1032, [0x45]⟩, 0, 0, .enum 2 3 1 ⟨none, .none, none, none, none⟩⟩

def sampleContextImage : Image where
  data := ⟨0, ContextData.encode 0x1000 none ⟨0, some ⟨0x1030, [0x4d]⟩⟩ ++ ContextData.encode 0x100c (some 0x1000)
    ⟨2, none⟩ ++
    nestedEnum.encode 0x1014 ++ [0x4d, 0, 0x45, 0], by decide⟩
  segments := [⟨0x1000, 0x1000, 0, 0x1000⟩]

def sampleContextRuntime : SwiftRuntime :=
  ⟨sampleContextImage, none, none, none, none, none, none, none, none, none, none, none, none, none, none, fun _ => none,
    fun _ => none⟩

theorem sampleContext_stored {va : U64} {bytes : Bytes} (low : 0x1000 ≤ va.toNat) (mapped : va.toNat + bytes.length ≤ 0x2000)
    (holds : sampleContextImage.data.Holds (va.toNat - 0x1000) bytes) : sampleContextImage.Stored va bytes := by
  apply @Image.Stored.of_segment _ va bytes ⟨0x1000, 0x1000, 0, 0x1000⟩ (by decide) (List.pairwise_singleton _ _)
    List.mem_cons_self low mapped mapped
  simpa using holds

theorem sampleContexts_chain : ContextChain sampleContextImage (some 0x100c) sampleContexts := by
  have name : Label.Readable sampleContextImage ⟨0x1030, [0x4d]⟩ :=
    ⟨⟨0x30, by decide, by decide⟩, by decide, by decide, by decide⟩
  apply @ContextChain.within _ 0x100c (some 0x1000)
  · exact ⟨by decide, .to ⟨-0x10, by decide, by decide⟩, rfl, sampleContext_stored (by decide) (by decide) (by decide)⟩
  apply @ContextChain.within _ 0x1000 none
  · exact ⟨by decide, .null, .present name ⟨0x28, by decide, by decide⟩,
      sampleContext_stored (by decide) (by decide) (by decide)⟩
  exact .top

theorem nestedEnum_fits : nestedEnum.Fits sampleContextImage 0x1014 := by
  have name : Label.Readable sampleContextImage ⟨0x1032, [0x45]⟩ :=
    ⟨⟨0x32, by decide, by decide⟩, by decide, by decide, by decide⟩
  refine ⟨.to ⟨-0xc, by decide, by decide⟩, .present name ⟨0x16, by decide, by decide⟩,
    ⟨by decide, ⟨by decide, .inl (by decide), by decide, by decide, by decide⟩, ?_⟩,
    sampleContext_stored (by decide) (by decide) (by decide)⟩
  refine ⟨?_, ?_, ?_, ?_, ?_⟩ <;> intro block present <;> cases present

theorem qualifiedNames_of_chain_nested :
    ((decodeTypeDescriptor sampleContextImage 0x1014).bind fun row => row.qualifiedName sampleContextImage 3) =
      some (lit "M.E") :=
  (qualifiedNames_of_chain sampleContextRuntime (some 0x100c) sampleContexts sampleContexts_chain).1 0x1014 nestedEnum
    nestedEnum_fits rfl 3 (by decide)

end DarwinScope.Swift
