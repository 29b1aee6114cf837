import Mathlib
import Daimonos.Framework.Keyed
import Daimonos.Providers.Message

namespace Daimonos.Script

open Framework Providers List

/-- A key of a script dictionary: a string, or another value that can be hashed. -/
inductive StarlarkKey where
  | string (s : String)
  | other (display : String)
  deriving DecidableEq

/-- A script value. Integers have any size there; tuples and ranges are converted as lists are, and
every other value is known by its text only. -/
inductive StarlarkValue where
  | none
  | bool (b : Bool)
  | int (i : Int)
  | float (f : Float)
  | string (s : String)
  | list (items : List StarlarkValue)
  | dict (entries : List (StarlarkKey × StarlarkValue))
  | other (display : String)

def asI64 (n : Int) : Option Int := if -2 ^ 63 ≤ n ∧ n < 2 ^ 63 then some n else none

/-- The cast `as i32`, which keeps the low 32 bits. -/
def asI32 (n : Int) : Int := n.bmod (2 ^ 32)

/-- An integer beyond the signed range is a `u64`, which always has an `f64`. -/
def numberToStarlark (n : Int) : StarlarkValue :=
  match asI64 n with
  | some i => .int (asI32 i)
  | none => .float (Float.ofInt n)

section FromJson

-- the `f64` of a number that is no integer
variable (readFloat : String → Float)

mutual

def jsonToStarlark : Value → StarlarkValue
  | .null => .none
  | .bool b => .bool b
  | .number n => numberToStarlark n
  | .float text => .float (readFloat text)
  | .string s => .string s
  | .array items => .list (jsonToStarlarkItems items)
  | .object fields => .dict (jsonToStarlarkFields [] fields)

def jsonToStarlarkItems : List Value → List StarlarkValue
  | [] => []
  | item::items => jsonToStarlark item :: jsonToStarlarkItems items

def jsonToStarlarkFields (map : List (StarlarkKey × StarlarkValue)) :
    List (String × Value) → List (StarlarkKey × StarlarkValue)
  | [] => map
  | (k, v) :: fields => jsonToStarlarkFields (storeKey (.string k) (jsonToStarlark v) map) fields

end

end FromJson

def unpackI32 (i : Int) : Option Int := if -2 ^ 31 ≤ i ∧ i < 2 ^ 31 then some i else none

section ToJson

-- how a float is displayed
variable (display : Float → String)

mutual

/-- Looking a key of the iteration up finds the value it came with. -/
def starlarkToJson : StarlarkValue → Value
  | .none => .null
  | .bool b => .bool b
  | .int i =>
    match unpackI32 i with
    | some i => .number i
    | none => .string (toString i)
  | .float f => .string (display f)
  | .string s => .string s
  | .list items => .array (starlarkToJsonItems items)
  | .dict entries => .object (starlarkToJsonEntries [] entries)
  | .other text => .string text

def starlarkToJsonItems : List StarlarkValue → List Value
  | [] => []
  | item::items => starlarkToJson item :: starlarkToJsonItems items

def starlarkToJsonEntries (map : List (String × Value)) :
    List (StarlarkKey × StarlarkValue) → List (String × Value)
  | [] => map
  | (.string k, v) :: entries =>
    starlarkToJsonEntries (storeKey k (starlarkToJson v) map) entries
  | (.other _, _) :: entries => starlarkToJsonEntries map entries

end

end ToJson

mutual

/-- The numbers in a value, in their order. -/
def numbers : Value → List Int
  | .number n => [n]
  | .array items => numbersOfItems items
  | .object fields => numbersOfFields fields
  | .null | .bool _ | .float _ | .string _ => []

def numbersOfItems : List Value → List Int
  | [] => []
  | item::items => numbers item ++ numbersOfItems items

def numbersOfFields : List (String × Value) → List Int
  | [] => []
  | (_, v) :: fields => numbers v ++ numbersOfFields fields

end

mutual

/-- Built from null, booleans, integers, strings, arrays and objects with distinct keys. -/
def Plain : Value → Prop
  | .array items => PlainOfItems items
  | .object fields => (fields.map Prod.fst).Nodup ∧ PlainOfFields fields
  | .float _ => False
  | .null | .bool _ | .number _ | .string _ => True

def PlainOfItems : List Value → Prop
  | [] => True
  | item::items => Plain item ∧ PlainOfItems items

def PlainOfFields : List (String × Value) → Prop
  | [] => True
  | (_, v) :: fields => Plain v ∧ PlainOfFields fields

end

/-- A JSON value with 64-bit integers, signed or not. -/
structure Json where
  value : Value
  plain : Plain value
  bounded : ∀ n ∈ numbers value, -2 ^ 63 ≤ n ∧ n < 2 ^ 64

/-- The integers that a 32-bit script integer holds. -/
def FitsI32 (n : Int) : Prop := -2 ^ 31 ≤ n ∧ n < 2 ^ 31

theorem asI32_fits (n : Int) : FitsI32 (asI32 n) := by
  unfold asI32 FitsI32
  rw [Int.bmod_def]
  split_ifs <;> omega

theorem asI32_eq_iff (n : Int) : asI32 n = n ↔ FitsI32 n := by
  constructor
  · intro h
    rw [← h]
    exact asI32_fits n
  · rintro ⟨hlow,hhigh⟩
    unfold asI32
    rw [Int.bmod_def]
    split_ifs <;> omega

/-- A number comes back exactly if it fits: a wider signed one loses its high bits, and an unsigned
one comes back as a text. -/
theorem starlarkToJson_number (display : Float → String) (n : Int) :
    starlarkToJson display (numberToStarlark n) = .number n ↔ FitsI32 n := by
  rw [numberToStarlark,asI64]
  split_ifs with hsigned
  · have hunpack : unpackI32 (asI32 n) = some (asI32 n) := if_pos (asI32_fits n)
    rw [← asI32_eq_iff]
    simp [starlarkToJson,hunpack]
  · have hwide : ¬ FitsI32 n := by
      rintro ⟨hlow,hhigh⟩
      omega
    simp [starlarkToJson,hwide]

theorem jsonToStarlarkFields_eq (readFloat : String → Float) (fields : List (String × Value))
    (map : List (StarlarkKey × StarlarkValue)) (hnodup : (fields.map Prod.fst).Nodup)
    (hnew : ∀ k ∈ fields.map Prod.fst, StarlarkKey.string k ∉ map.map Prod.fst) :
    jsonToStarlarkFields readFloat map fields =
      map ++ fields.map fun f => (.string f.1, jsonToStarlark readFloat f.2) := by
  induction fields generalizing map with
  | nil => simp [jsonToStarlarkFields]
  | cons f fields ih =>
    obtain ⟨k,v⟩ := f
    obtain ⟨hk,hrest⟩ := nodup_cons.mp hnodup
    rw [jsonToStarlarkFields,storeKey_of_notMem (hnew k mem_cons_self),ih _ hrest]
    · simp
    · intro j hj
      have hjk : j≠k := fun h => hk (h ▸ hj)
      simpa [hjk] using hnew j (mem_cons_of_mem _ hj)

theorem starlarkToJsonEntries_eq (display : Float → String)
    (entries : List (String × StarlarkValue)) (map : List (String × Value))
    (hnodup : (entries.map Prod.fst).Nodup)
    (hnew : ∀ k ∈ entries.map Prod.fst, k ∉ map.map Prod.fst) :
    starlarkToJsonEntries display map (entries.map fun e => (.string e.1, e.2)) =
      map ++ entries.map fun e => (e.1, starlarkToJson display e.2) := by
  induction entries generalizing map with
  | nil => simp [starlarkToJsonEntries]
  | cons e entries ih =>
    obtain ⟨k,v⟩ := e
    obtain ⟨hk,hrest⟩ := nodup_cons.mp hnodup
    rw [map_cons,starlarkToJsonEntries,storeKey_of_notMem (hnew k mem_cons_self),ih _ hrest]
    · simp
    · intro j hj
      have hjk : j≠k := fun h => hk (h ▸ hj)
      simpa [hjk] using hnew j (mem_cons_of_mem _ hj)

theorem starlarkToJson_object (readFloat : String → Float) (display : Float → String)
    {fields : List (String × Value)}
    (hnodup : (fields.map Prod.fst).Nodup) :
    starlarkToJson display (jsonToStarlark readFloat (.object fields)) =
      .object (fields.map fun f => (f.1, starlarkToJson display (jsonToStarlark readFloat f.2))) := by
  have hthere := jsonToStarlarkFields_eq readFloat fields [] hnodup (by simp)
  have hback := starlarkToJsonEntries_eq display
    (fields.map fun f => (f.1, jsonToStarlark readFloat f.2)) [] (by simpa [Function.comp_def] using hnodup)
    (by simp)
  simp only [nil_append,map_map,Function.comp_def] at hthere hback
  rw [jsonToStarlark,hthere,starlarkToJson,hback]

section RoundTrip

variable (readFloat : String → Float) (display : Float → String)

mutual

theorem roundTrip_iff : ∀ v : Value, Plain v →
    (starlarkToJson display (jsonToStarlark readFloat v) = v ↔ ∀ n ∈ numbers v, FitsI32 n)
  | .null, _ => by simp [jsonToStarlark,starlarkToJson,numbers]
  | .bool _, _ => by simp [jsonToStarlark,starlarkToJson,numbers]
  | .float _, h => h.elim
  | .number n, _ => by simp [jsonToStarlark,starlarkToJson_number,numbers]
  | .string _, _ => by simp [jsonToStarlark,starlarkToJson,numbers]
  | .array items, h => by
    rw [jsonToStarlark,starlarkToJson,Value.array.injEq]
    exact roundTripItems_iff items h
  | .object fields, h => by
    rw [starlarkToJson_object readFloat display h.1,Value.object.injEq]
    exact roundTripFields_iff fields h.2

theorem roundTripItems_iff : ∀ items : List Value, PlainOfItems items →
    (starlarkToJsonItems display (jsonToStarlarkItems readFloat items) = items ↔
      ∀ n ∈ numbersOfItems items, FitsI32 n)
  | [], _ => by simp [jsonToStarlarkItems,starlarkToJsonItems,numbersOfItems]
  | item::items, h => by
    rw [jsonToStarlarkItems,starlarkToJsonItems,List.cons.injEq,roundTrip_iff item h.1,
      roundTripItems_iff items h.2,numbersOfItems,forall_mem_append]

theorem roundTripFields_iff : ∀ fields : List (String × Value), PlainOfFields fields →
    ((fields.map fun f => (f.1, starlarkToJson display (jsonToStarlark readFloat f.2))) = fields ↔
      ∀ n ∈ numbersOfFields fields, FitsI32 n)
  | [], _ => by simp [numbersOfFields]
  | (k, v) :: fields, h => by
    rw [map_cons,List.cons.injEq,Prod.mk.injEq,roundTrip_iff v h.1,
      roundTripFields_iff fields h.2,numbersOfFields,forall_mem_append]
    simp

end

end RoundTrip

/-- A value comes back from a script as it went in if its integers fit in 32 bits, and only then. -/
theorem json_roundTrip_iff (readFloat : String → Float) (display : Float → String) (json : Json) :
    starlarkToJson display (jsonToStarlark readFloat json.value) = json.value ↔
      ∀ n ∈ numbers json.value, FitsI32 n :=
  roundTrip_iff readFloat display json.value json.plain

/-- A size of three gigabytes in a tool result comes back negative. -/
theorem json_size_changed : ∃ json : Json,
    json.value = .object [("size", .number 3000000000)] ∧
    ∀ readFloat display, starlarkToJson display (jsonToStarlark readFloat json.value) =
      .object [("size", .number (-1294967296))] ∧
      starlarkToJson display (jsonToStarlark readFloat json.value) ≠ json.value := by
  have hwrap : asI64 3000000000 = some 3000000000 ∧ asI32 3000000000 = -1294967296 ∧
      unpackI32 (-1294967296) = some (-1294967296) := by decide
  have hback : ∀ readFloat display, starlarkToJson display
      (jsonToStarlark readFloat (.object [("size", .number 3000000000)])) =
      .object [("size", .number (-1294967296))] := by
    intro readFloat display
    rw [starlarkToJson_object readFloat display (by simp)]
    simp [jsonToStarlark,numberToStarlark,starlarkToJson,hwrap]
  refine ⟨⟨.object [("size", .number 3000000000)],?_,?_⟩,rfl,
    fun readFloat display => ⟨hback readFloat display,?_⟩⟩
  · simp [Plain,PlainOfFields]
  · simp [numbers,numbersOfFields]
  · rw [hback]
    decide

end Daimonos.Script
