import PreloopControl.Expressions.Eval
import PreloopControl.Lib.Fallible
import PreloopControl.Lib.Rounding
import PreloopControl.Lib.SortedMap

/-!
# Context Data

The wire codec of the context values in a job message (`azdo/context_data.rs`): `Serialize` and
`pipeline_context_from_json`, which `Deserialize` applies to the JSON it finds. Scalars are bare,
an array and a dictionary are objects with a tag `t`. The reader knows more forms than are
written: bare arrays, and objects for strings, booleans and numbers.

JSON is `serde_json::Value`; its text is written and read by that crate. An `f64` stands here for
an integer it holds exactly, and the two zeros for one; such a number is finite and has no
fraction, which is what the guard on integral values asks for first.

## Main definitions

* `IntegralF64`: The integers an `f64` holds.
* `PipelineContextData`: Context values.
* `serialize`, `nodeFromJson`, `deserialize`: Writing and reading one.
-/

namespace Preloop

namespace Azdo

open Expressions

/-! ## Numbers -/

/-- An `f64` with the value of an integer. -/
structure IntegralF64 where
  value : Int
  holds : Rounding.Holds 53 971 value.natAbs
deriving DecidableEq

/-- A cast of an integer to `f64`, to the nearest, ties to even. -/
def IntegralF64.ofInt (n : Int) (h : n.natAbs < 2 ^ 64) : IntegralF64 where
  value := n.sign * Rounding.nearest 53 n.natAbs
  holds := by
    have hnear : Rounding.Holds 53 971 (Rounding.nearest 53 n.natAbs) :=
      Rounding.holds_nearest (k := 11) (by decide) h (by decide)
    rw [Int.natAbs_mul, Int.natAbs_natCast]
    by_cases hzero : n = 0
    · subst hzero
      exact ⟨0, 0, by decide, by decide, by decide⟩
    · rw [Int.natAbs_sign_of_ne_zero hzero, Nat.one_mul]
      exact hnear

/-- `n as f64` of an `i64`. -/
def ofI64 (n : Int64) : IntegralF64 := .ofInt n.toInt (by
  have hle := Int64.le_toInt n
  have hlt := Int64.toInt_lt n
  omega)

/-- `n as f64` of a `u64`. -/
def ofU64 (n : UInt64) : IntegralF64 := .ofInt n.toNat (by
  have hlt := n.toNat_lt
  omega)

/-- `value as i64`, which saturates. -/
def asI64 (x : IntegralF64) : Int64 := Int64.ofInt (max (-2 ^ 63) (min x.value (2 ^ 63 - 1)))

/-- `f64::default`. -/
def zero : IntegralF64 := ⟨0, 0, 0, by decide, by decide, by decide⟩

/-- `serde_json::Number`; only a negative number is a `NegInt`. -/
inductive Number
  | posInt (n : UInt64)
  | negInt (n : Int64)
  | float (x : IntegralF64)

/-- `Number::from` of an `i64`. -/
def numberOfI64 (n : Int64) : Number := if n < 0 then .negInt n else .posInt n.toUInt64

/-- `Number::as_f64`. -/
def Number.asF64 : Number → Option IntegralF64
  | .posInt n => some (ofU64 n)
  | .negInt n => some (ofI64 n)
  | .float x => some x

/-- `Number::as_i64`. -/
def Number.asI64 : Number → Option Int
  | .posInt n => if n.toNat < 2 ^ 63 then some n.toNat else none
  | .negInt n => some n.toInt
  | .float _ => none

/-! ## Values -/

/-- `serde_json::Value`. -/
abbrev Json := Value Number

/-- `PipelineContextData`, before the keys of its dictionaries are in order. -/
inductive ContextNode
  | null
  | string (s : Text)
  | bool (b : Bool)
  | number (x : IntegralF64)
  | array (items : List ContextNode)
  | dict (entries : List (Text × ContextNode))

/-- Every dictionary is a `BTreeMap`. -/
inductive ContextNode.Ordered : ContextNode → Prop
  | null : Ordered .null
  | string (s : Text) : Ordered (.string s)
  | bool (b : Bool) : Ordered (.bool b)
  | number (x : IntegralF64) : Ordered (.number x)
  | array {items : List ContextNode} : (∀ x ∈ items, Ordered x) → Ordered (.array items)
  | dict {entries : List (Text × ContextNode)} :
      entries.Pairwise (fun a b => a.1 < b.1) → (∀ e ∈ entries, Ordered e.2) →
      Ordered (.dict entries)

/-- `PipelineContextData`. -/
structure PipelineContextData where
  node : ContextNode
  ordered : node.Ordered

/-! ## Writing -/

/-- A tag of an object. -/
def tag (n : Nat) : Text × Json := ("t".toList, .number (.posInt (UInt64.ofNat n)))

/-- A number is written as an `i64` where it is in range. -/
def serializeNumber (x : IntegralF64) : Json :=
  if (ofI64 Int64.minValue).value ≤ x.value ∧ x.value ≤ (ofI64 Int64.maxValue).value then
    .number (numberOfI64 (asI64 x))
  else .number (.float x)

mutual

/-- `PipelineContextData::serialize`. -/
def serializeNode : ContextNode → Json
  | .null => .null
  | .string s => .string s
  | .bool b => .bool b
  | .number x => serializeNumber x
  | .array items => .object [tag 1, ("a".toList, .array (serializeItems items))]
  | .dict entries => .object [tag 2, ("d".toList, .array (serializePairs entries))]

/-- `ArrayValues::serialize`. -/
def serializeItems : List ContextNode → List Json
  | [] => []
  | x :: items => serializeNode x :: serializeItems items

/-- `PipelineContextDataPair::serialize`. -/
def serializePairs : List (Text × ContextNode) → List Json
  | [] => []
  | (key, value) :: entries =>
    .object [("k".toList, .string key), ("v".toList, serializeNode value)] ::
      serializePairs entries

end

/-- `PipelineContextData::serialize`. -/
def serialize (x : PipelineContextData) : Json := serializeNode x.node

/-! ## Reading -/

/-- `Value::as_i64`. -/
def jsonAsI64 : Json → Option Int
  | .number n => n.asI64
  | _ => none

/-- `Value::as_f64`. -/
def jsonAsF64 : Json → Option IntegralF64
  | .number n => n.asF64
  | _ => none

/-- `Value::as_bool`. -/
def jsonAsBool : Json → Option Bool
  | .bool b => some b
  | _ => none

/-- `Value::as_str`. -/
def jsonAsStr : Json → Option Text
  | .string s => some s
  | _ => none

/-- `Value::as_array`. -/
def jsonAsArray : Json → Option (List Json)
  | .array items => some items
  | _ => none

/-- `Value::as_object`. -/
def jsonAsObject : Json → Option (List (Text × Json))
  | .object fields => some fields
  | _ => none

/-- The items of an array under a key, none where there is no array. -/
def arrayField (object : List (Text × Json)) (key : String) : List Json :=
  ((getField object key.toList).bind jsonAsArray).getD []

/-- The value of a pair. -/
def pairValue (pair : List (Text × Json)) : Json := (getField pair "v".toList).getD .null

/-- The key and the value of a pair; what is no pair, or has no key, is passed over. -/
def pairOf (item : Json) : Option (Text × Json) :=
  (jsonAsObject item).bind fun pair =>
    ((getField pair "k".toList).bind jsonAsStr).map fun key => (key, pairValue pair)

/-- The pairs of a dictionary. -/
def pairsField (object : List (Text × Json)) : List (Text × Json) :=
  (arrayField object "d").filterMap pairOf

theorem sizeOf_getField {fields : List (Text × Json)} {key : Text} {value : Json}
    (h : getField fields key = some value) : sizeOf value < sizeOf fields := by
  obtain ⟨e, he, rfl⟩ := Option.map_eq_some_iff.mp h
  have hmem := List.sizeOf_lt_of_mem (List.mem_of_find?_eq_some he)
  rcases e with ⟨k, v⟩
  have hpair : sizeOf (k, v) = 1 + sizeOf k + sizeOf v := rfl
  have : sizeOf v < sizeOf fields := by omega
  exact this

theorem sizeOf_arrayField {object : List (Text × Json)} {key : String} {item : Json}
    (h : item ∈ arrayField object key) : sizeOf item < sizeOf object := by
  unfold arrayField at h
  cases hfield : getField object key.toList with
  | none =>
      rw [hfield] at h
      exact absurd h List.not_mem_nil
  | some value =>
      rw [hfield] at h
      cases value with
      | array items =>
          have hitem : sizeOf item < sizeOf items := List.sizeOf_lt_of_mem h
          have hvalue := sizeOf_getField hfield
          simp only [Value.array.sizeOf_spec] at hvalue
          omega
      | _ => exact absurd h List.not_mem_nil

theorem sizeOf_pairValue (pair : List (Text × Json)) :
    sizeOf (pairValue pair) < 1 + sizeOf pair := by
  unfold pairValue
  cases hfield : getField pair "v".toList with
  | none =>
      have hnull : sizeOf (Value.null : Json) = 1 := rfl
      have hpair : 0 < sizeOf pair := by
        cases pair with
        | nil => exact Nat.one_pos
        | cons e es =>
            have : sizeOf (e :: es) = 1 + sizeOf e + sizeOf es := rfl
            omega
      rw [Option.getD_none]
      omega
  | some value =>
      have := sizeOf_getField hfield
      rw [Option.getD_some]
      omega

theorem sizeOf_pairsField {object : List (Text × Json)} {e : Text × Json}
    (h : e ∈ pairsField object) : sizeOf e.2 < sizeOf object := by
  obtain ⟨item, hitem, he⟩ := List.mem_filterMap.mp h
  obtain ⟨pair, hpair, hkey⟩ := Option.bind_eq_some_iff.mp he
  obtain ⟨key, -, rfl⟩ := Option.map_eq_some_iff.mp hkey
  have hlt := sizeOf_arrayField hitem
  have hvalue := sizeOf_pairValue pair
  cases item with
  | object fields =>
      cases hpair
      simp only [Value.object.sizeOf_spec] at hlt
      show sizeOf (pairValue pair) < sizeOf object
      omega
  | _ => cases hpair

/-- `pipeline_context_from_json`. -/
def nodeFromJson : Json → Except Text ContextNode
  | .string s => .ok (.string s)
  | .bool b => .ok (.bool b)
  | .number n => .ok (.number (n.asF64.getD zero))
  | .array values => do
    let items ← values.attach.mapM fun v => nodeFromJson v.1
    return .array items
  | .object object =>
    match (getField object "t".toList).bind jsonAsI64 with
    | none | some 0 => .ok (.string (((getField object "s".toList).bind jsonAsStr).getD []))
    | some 1 => do
      let items ← (arrayField object "a").attach.mapM fun v => nodeFromJson v.1
      return .array items
    | some 2 | some 5 => do
      let values ← (pairsField object).attach.foldlM (fun values e => do
        let value ← nodeFromJson e.1.2
        return SortedMap.insertEntry e.1.1 value values) []
      return .dict values
    | some 3 => .ok (.bool (((getField object "b".toList).bind jsonAsBool).getD false))
    | some 4 => .ok (.number (((getField object "n".toList).bind jsonAsF64).getD zero))
    | some other => .error ("unsupported PipelineContextData type ".toList ++
        (toString other).toList)
  | .null => .ok .null
termination_by value => sizeOf value
decreasing_by
  · have hmem := List.sizeOf_lt_of_mem v.2
    simp only [Value.array.sizeOf_spec]
    omega
  · have hmem := sizeOf_arrayField v.2
    simp only [Value.object.sizeOf_spec]
    omega
  · have hmem := sizeOf_pairsField e.2
    simp only [Value.object.sizeOf_spec]
    omega

theorem ordered_insertEntry {key : Text} {value : ContextNode}
    {entries : List (Text × ContextNode)} (hvalue : value.Ordered)
    (h : ∀ e ∈ entries, e.2.Ordered) :
    ∀ e ∈ SortedMap.insertEntry key value entries, e.2.Ordered := by
  intro e he
  rcases SortedMap.mem_insertEntry he with rfl | he
  · exact hvalue
  · exact h e he

/-- The pairs of a dictionary are read into a map. -/
theorem ordered_dict {object : List (Text × Json)} {entries : List (Text × ContextNode)}
    (ih : ∀ e : {e // e ∈ pairsField object}, ∀ node, nodeFromJson e.1.2 = .ok node → node.Ordered)
    (h : (pairsField object).attach.foldlM (fun values e => do
      let value ← nodeFromJson e.1.2
      return SortedMap.insertEntry e.1.1 value values) [] = .ok entries) :
    (ContextNode.dict entries).Ordered := by
  have hkept := Fallible.foldlM_keeps
    (I := fun entries : List (Text × ContextNode) =>
      entries.Pairwise (fun a b => a.1 < b.1) ∧ ∀ e ∈ entries, e.2.Ordered)
    (fun e _ values values' hvalues hstep => ?_) ⟨.nil, fun e he => absurd he List.not_mem_nil⟩ h
  · exact .dict hkept.1 hkept.2
  · rcases Fallible.bind_eq_ok hstep with ⟨value, hvalue, hinsert⟩
    cases hinsert
    exact ⟨SortedMap.sorted_insertEntry _ _ hvalues.1,
      ordered_insertEntry (ih e value hvalue) hvalues.2⟩

/-- Items that were read are in order. -/
theorem ordered_array {values : List Json} {items : List ContextNode}
    (ih : ∀ v : {v // v ∈ values}, ∀ node, nodeFromJson v.1 = .ok node → node.Ordered)
    (h : (values.attach.mapM fun v => nodeFromJson v.1) = .ok items) :
    (ContextNode.array items).Ordered := by
  refine .array fun x hx => ?_
  rcases Fallible.exists_of_mem_mapM h hx with ⟨v, _, hv⟩
  exact ih v x hv

/-- What was read is in order. -/
theorem ordered_of_nodeFromJson (value : Json) :
    ∀ node, nodeFromJson value = .ok node → node.Ordered := by
  -- the cases are those of the reading: the plain values, then the tagged objects by their tag
  induction value using nodeFromJson.induct with
  | case1 s =>
      intro node h
      rw [nodeFromJson] at h
      cases h
      exact .string s
  | case2 b =>
      intro node h
      rw [nodeFromJson] at h
      cases h
      exact .bool b
  | case3 n =>
      intro node h
      rw [nodeFromJson] at h
      cases h
      exact .number _
  | case4 values ih =>
      intro node h
      rw [nodeFromJson] at h
      rcases Fallible.bind_eq_ok h with ⟨items, hitems, hnode⟩
      cases hnode
      exact ordered_array ih hitems
  | case5 object htag | case6 object htag | case10 object htag | case11 object htag =>
      intro node h
      rw [nodeFromJson, htag] at h
      cases h
      constructor
  | case7 object htag ih =>
      intro node h
      rw [nodeFromJson, htag] at h
      rcases Fallible.bind_eq_ok h with ⟨items, hitems, hnode⟩
      cases hnode
      exact ordered_array ih hitems
  | case8 object htag ih | case9 object htag ih =>
      intro node h
      rw [nodeFromJson, htag] at h
      rcases Fallible.bind_eq_ok h with ⟨entries, hentries, hnode⟩
      cases hnode
      exact ordered_dict ih hentries
  | case12 object other h0 h1 h2 h5 h3 h4 htag =>
      intro node h
      rw [nodeFromJson, htag] at h
      simp only at h
      cases h
  | case13 =>
      intro node h
      rw [nodeFromJson] at h
      cases h
      exact .null

/-- `PipelineContextData::deserialize`. -/
def deserialize (value : Json) : Except Text PipelineContextData :=
  match h : nodeFromJson value with
  | .ok node => .ok ⟨node, ordered_of_nodeFromJson value node h⟩
  | .error message => .error message

end Azdo

end Preloop
