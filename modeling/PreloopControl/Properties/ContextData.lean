import PreloopControl.Azdo.ContextData

/-!
# Context Data on the Wire

What is written of a context value is read back as that value. A scalar is bare and stays of its
kind; an array and a dictionary are told apart by their tag, which is read first. A number out of
the range of an `i64` is written as a float. The limit of the range, rounded to an `f64`, is one
more than the largest `i64`: that number is cast to the largest `i64` and rounded back.

## Theorems

* `ofInt_value`: A cast to `f64` of an integer that it holds.
* `asF64_serializeNumber`: A number is read back.
* `nodeFromJson_serializeNode`, `deserialize_serialize`: A value is read back.
-/

namespace Preloop

namespace Azdo

open Expressions

/-! ## Numbers -/

theorem IntegralF64.ext {x y : IntegralF64} (h : x.value = y.value) : x = y := by
  cases x
  cases y
  cases h
  rfl

/-- A cast to `f64` of an integer that it holds. -/
theorem ofInt_value (x : IntegralF64) (h : x.value.natAbs < 2 ^ 64) :
    IntegralF64.ofInt x.value h = x := by
  refine IntegralF64.ext ?_
  show x.value.sign * (Rounding.nearest 53 x.value.natAbs : Int) = x.value
  rw [Rounding.nearest_of_holds x.holds]
  exact Int.sign_mul_natAbs x.value

theorem ofI64_value {n : Int64} {x : IntegralF64} (h : n.toInt = x.value) : ofI64 n = x := by
  have hle := Int64.le_toInt n
  have hlt := Int64.toInt_lt n
  have hbound : x.value.natAbs < 2 ^ 64 := by omega
  rw [← ofInt_value x hbound]
  unfold ofI64
  congr 1

theorem minValue_value : (ofI64 Int64.minValue).value = -2 ^ 63 := by decide

/-- The largest `i64` has too many digits, and is rounded up. -/
theorem maxValue_value : (ofI64 Int64.maxValue).value = 2 ^ 63 := by decide

theorem asF64_numberOfI64 (n : Int64) : (numberOfI64 n).asF64 = some (ofI64 n) := by
  unfold numberOfI64
  by_cases hneg : n < 0
  · rw [if_pos hneg]
    rfl
  · rw [if_neg hneg]
    have hpos : 0 ≤ n := Int64.not_lt.mp hneg
    have hzero : 0 ≤ n.toInt := Int64.le_iff_toInt_le.mp hpos
    have hnat : (n.toUInt64.toNat : Int) = n.toInt := by
      rw [Int64.toNat_toUInt64_of_le hpos]
      exact Int.toNat_of_nonneg hzero
    refine congrArg some ?_
    unfold ofU64 ofI64
    congr 1

/-- A number is read back. -/
theorem asF64_serializeNumber (x : IntegralF64) :
    nodeFromJson (serializeNumber x) = .ok (.number x) := by
  unfold serializeNumber
  rw [minValue_value, maxValue_value]
  by_cases hrange : -2 ^ 63 ≤ x.value ∧ x.value ≤ 2 ^ 63
  · rw [if_pos hrange, nodeFromJson, asF64_numberOfI64, Option.getD_some]
    have hread : ofI64 (asI64 x) = x := by
      by_cases htop : x.value = 2 ^ 63
      · -- the cast stops at the largest `i64`, which the reader rounds up
        have hsat : asI64 x = Int64.maxValue := by
          unfold asI64
          rw [htop]
          decide
        rw [hsat]
        exact IntegralF64.ext (maxValue_value.trans htop.symm)
      · refine ofI64_value ?_
        have hclamp : max (-2 ^ 63) (min x.value (2 ^ 63 - 1)) = x.value := by omega
        unfold asI64
        rw [hclamp]
        exact Int64.toInt_ofInt_of_le hrange.1 (by omega)
    rw [hread]
  · rw [if_neg hrange, nodeFromJson]
    rfl

/-! ## Values -/

theorem serializeItems_eq (items : List ContextNode) :
    serializeItems items = items.map serializeNode := by
  induction items with
  | nil => rfl
  | cons x items ih => rw [serializeItems, ih, List.map_cons]

/-- A pair on the wire. -/
def wirePair (e : Text × ContextNode) : Json :=
  .object [("k".toList, .string e.1), ("v".toList, serializeNode e.2)]

theorem serializePairs_eq (entries : List (Text × ContextNode)) :
    serializePairs entries = entries.map wirePair := by
  induction entries with
  | nil => rfl
  | cons e entries ih =>
      cases e
      rw [serializePairs, ih, List.map_cons]
      rfl

/-- The pairs of a dictionary on the wire, each with its key. -/
theorem pairsField_serialize (entries : List (Text × ContextNode)) :
    pairsField [tag 2, ("d".toList, .array (serializePairs entries))] =
      entries.map fun e => (e.1, serializeNode e.2) := by
  have hfield : arrayField [tag 2, ("d".toList, .array (serializePairs entries))] "d" =
      entries.map wirePair := serializePairs_eq entries
  unfold pairsField
  rw [hfield, List.filterMap_map]
  exact List.filterMap_eq_map.symm ▸ rfl

theorem arrayField_serialize (items : List ContextNode) :
    arrayField [tag 1, ("a".toList, .array (serializeItems items))] "a" =
      items.map serializeNode := serializeItems_eq items

/-- A pair read into a dictionary. -/
def readPair (values : List (Text × ContextNode)) (e : Text × Json) :
    Except Text (List (Text × ContextNode)) := do
  let value ← nodeFromJson e.2
  return SortedMap.insertEntry e.1 value values

/-- Entries that are read back are added one by one. -/
theorem foldlM_pairs {entries : List (Text × ContextNode)}
    (h : ∀ e ∈ entries, nodeFromJson (serializeNode e.2) = .ok e.2) :
    ∀ values : SortedMap Text ContextNode,
      (entries.map fun e => (e.1, serializeNode e.2)).foldlM readPair values.entries =
        .ok (entries.foldl (fun m e => m.insert e.1 e.2) values).entries := by
  induction entries with
  | nil => exact fun _ => rfl
  | cons e entries ih =>
      intro values
      rw [List.map_cons, List.foldlM_cons, readPair, h e List.mem_cons_self]
      exact ih (fun d hd => h d (List.mem_cons_of_mem e hd)) (values.insert e.1 e.2)

/-- An object with the tag of an array. -/
theorem nodeFromJson_array {object : List (Text × Json)}
    (htag : (getField object "t".toList).bind jsonAsI64 = some 1) :
    nodeFromJson (.object object) =
      ((arrayField object "a").mapM nodeFromJson).map ContextNode.array := by
  have hpass : ((arrayField object "a").attach.mapM fun v => nodeFromJson v.1) =
      (arrayField object "a").mapM nodeFromJson := by
    rw [List.mapM_subtype fun _ _ => rfl, List.unattach_attach]
  rw [nodeFromJson, htag]
  exact congrArg (fun items : Except Text _ => items.map ContextNode.array) hpass

/-- An object with the tag of a dictionary. -/
theorem nodeFromJson_dict {object : List (Text × Json)}
    (htag : (getField object "t".toList).bind jsonAsI64 = some 2) :
    nodeFromJson (.object object) =
      ((pairsField object).foldlM readPair []).map ContextNode.dict := by
  have hpass : ((pairsField object).attach.foldlM (fun values e => readPair values e.1) []) =
      (pairsField object).foldlM readPair [] := by
    rw [List.foldlM_subtype fun _ _ _ => rfl, List.unattach_attach]
  rw [nodeFromJson, htag]
  exact congrArg (fun values : Except Text _ => values.map ContextNode.dict) hpass

/-- A value is read back. -/
theorem nodeFromJson_serializeNode {node : ContextNode} (h : node.Ordered) :
    nodeFromJson (serializeNode node) = .ok node := by
  induction h with
  | null => rw [serializeNode, nodeFromJson]
  | string s => rw [serializeNode, nodeFromJson]
  | bool b => rw [serializeNode, nodeFromJson]
  | number x => exact asF64_serializeNumber x
  | @array items _ ih =>
      rw [serializeNode, nodeFromJson_array rfl, arrayField_serialize, Fallible.mapM_map_ok ih]
      rfl
  | @dict entries hsorted _ ih =>
      -- the entries come in the order of their keys, so that the map is built as it was
      have hbuilt : (SortedMap.ofList entries).entries = entries :=
        congrArg SortedMap.entries (SortedMap.ofList_entries ⟨entries, hsorted⟩)
      have hread := foldlM_pairs ih ∅
      rw [serializeNode, nodeFromJson_dict rfl, pairsField_serialize]
      refine (congrArg (fun values : Except Text _ => values.map ContextNode.dict) hread).trans ?_
      exact congrArg (fun values => Except.ok (ContextNode.dict values)) hbuilt

/-- What is written of a context value is read back as that value. -/
theorem deserialize_serialize (x : PipelineContextData) : deserialize (serialize x) = .ok x := by
  have hread : nodeFromJson (serialize x) = .ok x.node := nodeFromJson_serializeNode x.ordered
  unfold deserialize
  split
  · next node h =>
      rw [hread] at h
      cases h
      rfl
  · next message h =>
      rw [hread] at h
      cases h

end Azdo

end Preloop
