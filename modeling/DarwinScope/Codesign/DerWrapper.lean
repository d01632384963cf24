import DarwinScope.Codesign.DerRoundTrip

namespace DarwinScope.Codesign

open Machine

open DerTree (ContainerTag)

/-- A well-formed value: bytes under a tag that no container has, or values in a container. -/
inductive DerNode where
  | leaf (tag : U8) (body : Bytes) (primitive : ¬ ContainerTag tag)
  | container (tag : U8) (items : List DerNode) (listed : ContainerTag tag)

def leafValue (tag : U8) (body : Bytes) : DerEntitlementValue :=
  if tag = 0x01 then .bool (decide (body[0]?.getD 0 ≠ 0))
  else if tag = 0x02 then .integer (derDecodeInteger body)
  else if tag = 0x0c then .string (utf8Lossy body)
  else .other tag

namespace DerNode

def text (key : Bytes) : DerNode := leaf 0x0c key (by decide)

def sequence (items : List DerNode) : DerNode := container 0x30 items (.inl rfl)

mutual

def encode : DerNode → Bytes
  | leaf tag body _ => tlv tag body
  | container tag items _ => tlv tag (encodeItems items)

def encodeItems : List DerNode → Bytes
  | [] => []
  | item :: items => item.encode ++ encodeItems items

end

def tag : DerNode → U8
  | leaf tag _ _ => tag
  | container tag _ _ => tag

def body : DerNode → Bytes
  | leaf _ body _ => body
  | container _ items _ => items.flatMap encode

/-- A value down to a number of levels: a mark stands for what is deeper, and a container shows its first items. -/
def shown : Nat → DerNode → DerEntitlementValue
  | 0, _ => .other 0
  | _ + 1, leaf tag body _ => leafValue tag body
  | levels + 1, container _ items _ => .array ((items.map (shown levels)).take maxDerArrayItems)

theorem encodeItems_eq (items : List DerNode) : encodeItems items = items.flatMap encode := by
  induction items with
  | nil => rw [encodeItems, List.flatMap_nil]
  | cons item items ih => rw [encodeItems, ih, List.flatMap_cons]

theorem encode_eq (n : DerNode) : n.encode = tlv n.tag n.body := by
  cases n with
  | leaf => rw [encode, tag, body]
  | container => rw [encode, encodeItems_eq, tag, body]

theorem body_lt {n : DerNode} (small : n.encode.length < 2^32) : n.body.length < 2^32 := by
  rw [encode_eq, tlv_length] at small
  omega

theorem derItems_nodes {items : List DerNode} (small : (items.flatMap encode).length < 2^32) :
    derItems (items.flatMap encode) = items.map fun n => ⟨n.tag, n.body, n.encode⟩ := derItems_flatMap encode_eq small

/-- The decoder shows a value down to its depth limit, from the front of any buffer that starts with it. -/
theorem decode_shown {levels depth : Nat} {n : DerNode} (room : depth + levels = maxDerValueDepth + 1)
    (small : n.encode.length < 2^32) (rest : Bytes) : derDecodeValue (n.encode ++ rest) depth = some (n.shown levels) := by
  induction levels generalizing depth n rest with
  | zero =>
    rw [derDecodeValue, dif_pos (by omega)]
    rfl
  | succ levels ih =>
    have short := body_lt small
    cases n with
    | leaf tag body primitive =>
      have other : ¬ (tag = 0x30 ∨ tag = 0x31 ∨ tag = 0xa0 ∨ tag = 0xb0) := primitive
      have bound : body.length < 2^32 := short
      rw [encode, derDecodeValue_tlv (by omega) bound, if_neg other, shown, leafValue]
      simp only [apply_ite some]
    | container tag items listed =>
      rcases DerTree.not_leaf listed with ⟨first, second, third⟩
      have each : ∀ item ∈ items, derDecodeValue item.encode (depth + 1) = some (item.shown levels) := by
        intro item member
        have shorter := length_le_flatMap encode member
        have decoded := @ih (depth + 1) item (by omega) (Nat.lt_of_le_of_lt shorter short) []
        rwa [List.append_nil] at decoded
      have walked : (derItems (items.flatMap encode)).filterMap (fun item => derDecodeValue item.whole (depth + 1)) =
          items.map (shown levels) := by
        rw [derItems_nodes short, List.filterMap_map, ← List.filterMap_eq_map']
        exact List.filterMap_congr each
      have bound : (items.flatMap DerNode.encode).length < 2^32 := short
      rw [encode, encodeItems_eq, derDecodeValue_tlv (by omega) bound, if_neg first, if_neg second, if_neg third,
        if_pos listed, walked, shown]

end DerNode

structure KeyedNode where
  key : Bytes
  value : DerNode
  valid : validUtf8 key = true

namespace KeyedNode

def node (e : KeyedNode) : DerNode := .sequence [.text e.key, e.value]

def pair (e : KeyedNode) : Bytes × DerEntitlementValue := (e.key, e.value.shown (maxDerValueDepth + 1))

end KeyedNode

def encodeNodes (entries : List KeyedNode) : Bytes := (entries.map KeyedNode.node).flatMap DerNode.encode

inductive Wrapping where
  | versioned (version : Bytes)
  | unversioned
  | unwrapped
  | bare

def Wrapping.encode (container : U8) (entries : Bytes) : Wrapping → Bytes
  | versioned version => tlv 0x70 (tlv 0x02 version ++ tlv container entries)
  | unversioned => tlv 0x70 (tlv container entries)
  | unwrapped => tlv container entries
  | bare => entries

section

variable {body rest : Bytes} {first : DerNode} {more : List DerNode}

theorem derEntryPair_nodes (small : (first.encode ++ more.flatMap DerNode.encode).length < 2^32) :
    derEntryPair (first.encode ++ more.flatMap DerNode.encode) =
      if first.tag = 0x0c ∧ validUtf8 first.body then
        some (first.body, (more.head?.map (DerNode.shown (maxDerValueDepth + 1))).getD (.other 0))
      else none := by
  rw [List.length_append] at small
  have whole := derRange_rest first.encode (more.flatMap DerNode.encode)
  have value : (derDecodeValue (more.flatMap DerNode.encode) 0).getD (.other 0) =
      (more.head?.map (DerNode.shown (maxDerValueDepth + 1))).getD (.other 0) := by
    cases more with
    | nil =>
      have nothing : derDecodeValue [] 0 = none := by
        rw [derDecodeValue, dif_neg (by decide)]
        rfl
      rw [List.flatMap_nil, nothing]
      rfl
    | cons second more =>
      rw [List.flatMap_cons, List.length_append] at small
      rw [List.flatMap_cons, DerNode.decode_shown (Nat.zero_add _) (by omega)]
      rfl
  rw [first.encode_eq] at small whole ⊢
  have short := tlv_length first.tag first.body
  rw [derEntryPair, definiteLength_read (by omega)]
  simp only [Option.bind_eq_bind, Option.bind_some, header_size, derRange_body, whole, value]
  by_cases string : first.tag = 0x0c
  · rw [if_neg (not_not_intro string)]
    by_cases valid : validUtf8 first.body
    · rw [if_pos valid, if_pos ⟨string, valid⟩]
    · rw [if_neg valid, if_neg fun both => valid both.2]
  · rw [if_pos string, if_neg fun both => string both.1]

theorem derEntryPair_node {e : KeyedNode} (small : e.node.encode.length < 2^32) :
    derEntryPair e.node.body = some e.pair := by
  have short := DerNode.body_lt small
  have shape : e.node.body = (DerNode.text e.key).encode ++ [e.value].flatMap DerNode.encode := List.flatMap_cons
  rw [shape] at short ⊢
  rw [derEntryPair_nodes short, if_pos ⟨rfl, e.valid⟩]
  rfl

theorem entryPairs_nodes {entries : List KeyedNode} (small : (encodeNodes entries).length < 2^32) :
    entryPairs (derItems (encodeNodes entries)) = entries.map KeyedNode.pair := by
  rw [encodeNodes, DerNode.derItems_nodes small, List.map_map, entryPairs, List.filterMap_map, ← List.filterMap_eq_map']
  apply List.filterMap_congr
  intro e member
  have shorter := length_le_flatMap DerNode.encode (List.mem_map_of_mem (f := KeyedNode.node) member)
  exact derEntryPair_node (Nat.lt_of_le_of_lt shorter small)

theorem derInner_listed {container : U8} (listed : ContainerTag container) (small : body.length < 2^32) :
    derInner (tlv container body) = some body := by
  have found := @derInner_tlv container body (DerTree.not_leaf listed).2.1 small []
  rwa [List.append_nil, if_pos listed] at found

theorem derEntries_versioned {container : U8} {version : Bytes} (listed : ContainerTag container)
    (small : (tlv 0x02 version ++ tlv container body).length < 2^32) :
    derEntries (tlv 0x70 (tlv 0x02 version ++ tlv container body)) = body := by
  have located := @derLocateEntries_tlv 0x70 (tlv 0x02 version ++ tlv container body) small []
  rw [List.length_append, tlv_length, tlv_length] at small
  rw [List.append_nil, derInner_integer (by omega), derInner_listed listed (by omega)] at located
  rw [derEntries, located, Option.getD_some]

theorem derEntries_unversioned {container : U8} (listed : ContainerTag container)
    (small : (tlv container body).length < 2^32) : derEntries (tlv 0x70 (tlv container body)) = body := by
  have located := @derLocateEntries_tlv 0x70 (tlv container body) small []
  rw [tlv_length] at small
  rw [List.append_nil, derInner_listed listed (by omega)] at located
  rw [derEntries, located, Option.getD_some]

/-- The first entry looks like a wrapper, but a key stands in it where a container would. -/
theorem derEntries_bare {entries : List KeyedNode} (small : (encodeNodes entries).length < 2^32) :
    derEntries (encodeNodes entries) = encodeNodes entries := by
  cases entries with
  | nil => rfl
  | cons e entries =>
    rw [encodeNodes, List.map_cons, List.flatMap_cons, List.length_append] at small
    have short := @DerNode.body_lt e.node (by omega)
    have located := @derLocateEntries_tlv 0x30 e.node.body short ((entries.map KeyedNode.node).flatMap DerNode.encode)
    have key : (DerNode.text e.key).encode = tlv 0x0c e.key := DerNode.encode_eq _
    have none := @derInner_tlv 0x0c e.key (by decide) (by
      rw [KeyedNode.node, DerNode.sequence, DerNode.body, List.flatMap_cons, List.length_append, key, tlv_length] at short
      omega) ([e.value].flatMap DerNode.encode)
    have shape : e.node.body = tlv 0x0c e.key ++ [e.value].flatMap DerNode.encode := by
      rw [← key]
      exact List.flatMap_cons
    have outer : e.node.encode = tlv 0x30 e.node.body := DerNode.encode_eq _
    rw [shape, none, if_neg (by decide), ← shape, ← outer] at located
    rw [derEntries, encodeNodes, List.map_cons, List.flatMap_cons, located, Option.getD_none]

/-- With no wrapper around it the container is taken for one, and its first entry for the container. -/
theorem derEntries_unwrapped {container : U8} {e : KeyedNode} {entries : List KeyedNode}
    (small : (tlv container (encodeNodes (e :: entries))).length < 2^32) :
    derEntries (tlv container (encodeNodes (e :: entries))) = e.node.body := by
  rw [tlv_length] at small
  have located := @derLocateEntries_tlv container (encodeNodes (e :: entries)) (by omega) []
  rw [encodeNodes, List.map_cons, List.flatMap_cons, List.length_append] at small
  have outer : e.node.encode = tlv 0x30 e.node.body := DerNode.encode_eq _
  have found := @derInner_tlv 0x30 e.node.body (by decide) (DerNode.body_lt (by omega))
    ((entries.map KeyedNode.node).flatMap DerNode.encode)
  rw [if_pos (.inl rfl), ← outer, ← List.flatMap_cons, ← List.map_cons, ← encodeNodes] at found
  rw [List.append_nil, found] at located
  rw [derEntries, located, Option.getD_some]

/-- A value that is itself read as an entry with the key, and whose second value shows what the whole value shows. -/
def SeenThrough (key : Bytes) (n : DerNode) : Prop :=
  ∃ second more, n = .sequence (.text key :: second :: more) ∧
    second.shown (maxDerValueDepth + 1) = n.shown (maxDerValueDepth + 1)

def insidePair (n : DerNode) : Option (Bytes × DerEntitlementValue) := if n.tag = 0x30 then derEntryPair n.body else none

theorem insidePair_iff {key : Bytes} {n : DerNode} (valid : validUtf8 key = true) (small : n.encode.length < 2^32) :
    insidePair n = some (key, n.shown (maxDerValueDepth + 1)) ↔ SeenThrough key n := by
  have short := DerNode.body_lt small
  constructor
  · intro read
    rw [insidePair] at read
    split at read
    · rename_i sequence
      cases n with
      | leaf tag body primitive =>
        rw [DerNode.tag] at sequence
        exact absurd (.inl sequence) primitive
      | container tag items listed =>
        rw [DerNode.tag] at sequence
        subst sequence
        cases items with
        | nil => cases read
        | cons first more =>
          rw [DerNode.body, List.flatMap_cons] at read short
          rw [derEntryPair_nodes short] at read
          split at read
          · rename_i string
            rw [Option.some.injEq, Prod.mk.injEq] at read
            cases first with
            | container tag inner listed =>
              have key := string.1
              rw [DerNode.tag] at key
              exact absurd key (DerTree.not_leaf listed).2.2
            | leaf tag body primitive =>
              have key : tag = 0x0c := string.1
              subst key
              rcases read with ⟨rfl, value⟩
              cases more with
              | nil =>
                rw [DerNode.shown] at value
                cases value
              | cons second more => exact ⟨second, more, rfl, value⟩
          · cases read
    · cases read
  · rintro ⟨second, more, rfl, same⟩
    rw [DerNode.sequence, DerNode.body, List.flatMap_cons] at short
    have tag : (DerNode.sequence (.text key :: second :: more)).tag = 0x30 := rfl
    rw [insidePair, if_pos tag, DerNode.sequence, DerNode.body, List.flatMap_cons, derEntryPair_nodes short,
      if_pos ⟨rfl, valid⟩, List.head?_cons, Option.map_some, Option.getD_some, same]
    rfl

theorem entryPairs_inside {e : KeyedNode} (small : e.node.encode.length < 2^32) :
    entryPairs (derItems e.node.body) = (insidePair e.value).toList := by
  have shape : e.node.body = [DerNode.text e.key, e.value].flatMap DerNode.encode := rfl
  have short := DerNode.body_lt small
  rw [shape] at short
  have key : ¬ (DerNode.text e.key).tag = 0x30 := show ¬ 0x0c#8 = 0x30#8 by decide
  rw [shape, DerNode.derItems_nodes short]
  simp only [entryPairs, List.map_cons, List.map_nil, List.filterMap_cons, List.filterMap_nil, if_neg key, insidePair]
  cases (if e.value.tag = 0x30 then derEntryPair e.value.body else none) <;> rfl

end

/-- The entries that a walker finds whether or not the container stands alone. -/
def FoundUnwrapped (entries : List KeyedNode) : Prop := entries = [] ∨ ∃ e, entries = [e] ∧ SeenThrough e.key e.value

theorem unwrapped_pairs_iff {container : U8} {entries : List KeyedNode}
    (small : (tlv container (encodeNodes entries)).length < 2^32) :
    entryPairs (derItems (derEntries (tlv container (encodeNodes entries)))) = entries.map KeyedNode.pair ↔
      FoundUnwrapped entries := by
  cases entries with
  | nil =>
    have located := @derLocateEntries_tlv container [] (by decide) []
    have items := @derItems_tlv container [] (by decide) []
    rw [List.append_nil] at located items
    have nothing : derEntryPair [] = none := rfl
    have none : entryPairs (derItems (derEntries (tlv container []))) = [] := by
      rw [derEntries, located, derInner_nil, Option.getD_none, items, derItems_nil, entryPairs, List.filterMap_cons, nothing,
        ite_self]
      rfl
    exact ⟨fun _ => .inl rfl, fun _ => none⟩
  | cons e entries =>
    have whole := small
    rw [tlv_length, encodeNodes, List.map_cons, List.flatMap_cons, List.length_append] at whole
    have value : e.value.encode.length < 2^32 := by
      have short := @DerNode.body_lt e.node (by omega)
      have shorter := length_le_flatMap DerNode.encode (show e.value ∈ [DerNode.text e.key, e.value] by simp)
      exact Nat.lt_of_le_of_lt shorter short
    rw [derEntries_unwrapped small, entryPairs_inside (by omega), List.map_cons]
    constructor
    · intro same
      right
      cases inside : insidePair e.value with
      | none =>
        rw [inside] at same
        cases same
      | some pair =>
        rw [inside, Option.toList_some, List.cons.injEq] at same
        refine ⟨e, ?_, (insidePair_iff e.valid value).mp (by rw [inside, same.1]; rfl)⟩
        rw [List.map_eq_nil_iff.mp same.2.symm]
    · rintro (none | ⟨e', single, seen⟩)
      · cases none
      · cases single
        rw [(insidePair_iff e.valid value).mpr seen]
        rfl

def SameEntitlements (e e' : DerEntitlements) : Prop := e.keys = e'.keys ∧ e.pairs = e'.pairs

theorem sameEntitlements_iff {e e' : DerEntitlements} : SameEntitlements e e' ↔ e.pairs = e'.pairs := by
  constructor
  · exact fun same => same.2
  · intro same
    have pairs : derCollectPairs e.payload.bytes = derCollectPairs e'.payload.bytes := same
    refine ⟨?_, same⟩
    rw [DerEntitlements.keys, DerEntitlements.keys, derCollectKeys_eq, derCollectKeys_eq, pairs]

def Wraps (e : DerEntitlements) (wrapping : Wrapping) (container : U8) (entries : List KeyedNode) : Prop :=
  e.payload.bytes = wrapping.encode container (encodeNodes entries)

/-- Entries in a wrapper, with or without a version, and entries with nothing around them are found alike. A container
    with no wrapper gives them only where there is none, or where the only one is found through. -/
theorem der_wrapper_iff (version : Bytes) (container : U8) (listed : ContainerTag container) (entries : List KeyedNode)
    (versioned unversioned unwrapped bare : DerEntitlements)
    (first : Wraps versioned (.versioned version) container entries)
    (second : Wraps unversioned .unversioned container entries)
    (third : Wraps unwrapped .unwrapped container entries)
    (fourth : Wraps bare .bare container entries) (small : versioned.payload.length < 2^32) :
    (SameEntitlements versioned unversioned ∧ SameEntitlements versioned unwrapped ∧ SameEntitlements versioned bare ↔
        FoundUnwrapped entries) ∧
      versioned.pairs = entries.map KeyedNode.pair ∧ SameEntitlements versioned unversioned ∧
      SameEntitlements versioned bare := by
  rw [Slice.length, first, Wrapping.encode, tlv_length] at small
  have outer : (tlv 0x02 version ++ tlv container (encodeNodes entries)).length < 2^32 := by omega
  have inner : (tlv container (encodeNodes entries)).length < 2^32 := by
    rw [List.length_append] at outer
    omega
  have body : (encodeNodes entries).length < 2^32 := by
    rw [tlv_length] at inner
    omega
  have pairs : versioned.pairs = entries.map KeyedNode.pair := by
    rw [DerEntitlements.pairs_eq, DerEntitlements.items, first, Wrapping.encode, derEntries_versioned listed outer,
      entryPairs_nodes body]
  have pairs' : unversioned.pairs = entries.map KeyedNode.pair := by
    rw [DerEntitlements.pairs_eq, DerEntitlements.items, second, Wrapping.encode, derEntries_unversioned listed inner,
      entryPairs_nodes body]
  have pairs'' : bare.pairs = entries.map KeyedNode.pair := by
    rw [DerEntitlements.pairs_eq, DerEntitlements.items, fourth, Wrapping.encode, derEntries_bare body,
      entryPairs_nodes body]
  have same : SameEntitlements versioned unversioned := sameEntitlements_iff.mpr (pairs.trans pairs'.symm)
  have same' : SameEntitlements versioned bare := sameEntitlements_iff.mpr (pairs.trans pairs''.symm)
  have lone : SameEntitlements versioned unwrapped ↔ FoundUnwrapped entries := by
    rw [sameEntitlements_iff, pairs, ← @unwrapped_pairs_iff container entries inner, DerEntitlements.pairs_eq,
      DerEntitlements.items, third, Wrapping.encode, eq_comm]
  refine ⟨?_, pairs, same, same'⟩
  rw [← lone]
  exact ⟨fun all => all.2.1, fun third => ⟨same, third, same'⟩⟩

theorem flag_valid : validUtf8 [0x6b] = true := rfl

def flagEntry : KeyedNode := ⟨[0x6b], .leaf 0x01 [0xff] (by decide), flag_valid⟩

def flagWrapped (wrapping : Wrapping) (bound : (wrapping.encode 0xb0 (encodeNodes [flagEntry])).length < 2^63) :
    DerEntitlements := ⟨⟨0, wrapping.encode 0xb0 (encodeNodes [flagEntry]), bound⟩⟩

theorem der_wrapper_iff_flag :
    (flagWrapped (.versioned [1]) (by decide +kernel)).pairs = [([0x6b], .bool true)] ∧
      ¬ SameEntitlements (flagWrapped (.versioned [1]) (by decide +kernel))
        (flagWrapped .unwrapped (by decide +kernel)) := by
  rcases der_wrapper_iff [1] 0xb0 (by decide) [flagEntry] (flagWrapped (.versioned [1]) (by decide +kernel))
    (flagWrapped .unversioned (by decide +kernel)) (flagWrapped .unwrapped (by decide +kernel))
    (flagWrapped .bare (by decide +kernel)) rfl rfl rfl rfl (by decide +kernel) with ⟨all, pairs, second, fourth⟩
  refine ⟨pairs, fun third => ?_⟩
  rcases all.mp ⟨second, third, fourth⟩ with none | ⟨e, single, second, more, value, -⟩
  · cases none
  · cases single
    cases value

/-- The container is read as the wrapper, its only entry as the container, and nothing is found. -/
theorem flag_lost_unwrapped :
    (flagWrapped .bare (by decide +kernel)).pairs = [([0x6b], .bool true)] ∧
      (flagWrapped .unwrapped (by decide +kernel)).pairs = [] := by
  constructor
  · rw [DerEntitlements.pairs_eq, DerEntitlements.items]
    have found := @entryPairs_nodes [flagEntry] (by decide +kernel)
    rw [← @derEntries_bare [flagEntry] (by decide +kernel)] at found
    exact found
  · have items : (flagWrapped .unwrapped (by decide +kernel)).items =
        [⟨0x0c, [0x6b], [0x0c, 1, 0x6b]⟩, ⟨0x01, [0xff], [0x01, 1, 0xff]⟩] := by decide +kernel
    rw [DerEntitlements.pairs_eq, items]
    rfl

end DarwinScope.Codesign
