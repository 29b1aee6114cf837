import Daimonos.Providers.Message
import Daimonos.ToolOutput.Preview

namespace Daimonos.ToolOutput

open Daimonos.Framework Providers

def truncatedMarker : List Char := "truncated; full output saved to".toList

def leader : List Char := "... ".toList

def ellipsis : List Char := " ...".toList

structure OutputLimits where
  maxBytes : Nat := 50*1024
  maxLines : Nat := 2000

mutual

/-- Whether a document is one that `serde_json` can read: the keys of an object are distinct, in any
order, integers have 64 bits, floats are written as it writes them, and lists and objects are nested
at most `depth` deep. -/
def readableWithin (isFloat : String → Bool) : Value → Nat → Bool
  | .number n, _ => decide (-2 ^ 63 ≤ n ∧ n < 2 ^ 64)
  | .float text, _ => isFloat text
  | .array items, depth+1 => readableItems isFloat items depth
  | .object fields, depth+1 =>
    decide (fields.map (·.1)).Nodup && readableFields isFloat fields depth
  | .array _, 0 | .object _, 0 => false
  | .null, _ | .bool _, _ | .string _, _ => true

def readableItems (isFloat : String → Bool) : List Value → Nat → Bool
  | [], _ => true
  | item::rest, depth => readableWithin isFloat item depth && readableItems isFloat rest depth

def readableFields (isFloat : String → Bool) : List (String × Value) → Nat → Bool
  | [], _ => true
  | (_, value) :: rest, depth =>
    readableWithin isFloat value depth && readableFields isFloat rest depth

end

mutual

/-- A document up to its floats. -/
def withoutFloats : Value → Value
  | .float _ => .float ""
  | .array items => .array (itemsWithoutFloats items)
  | .object fields => .object (fieldsWithoutFloats fields)
  | .null => .null
  | .bool b => .bool b
  | .number n => .number n
  | .string text => .string text

def itemsWithoutFloats : List Value → List Value
  | [] => []
  | item::rest => withoutFloats item :: itemsWithoutFloats rest

def fieldsWithoutFloats : List (String × Value) → List (String × Value)
  | [] => []
  | (key, value) :: rest => (key, withoutFloats value) :: fieldsWithoutFloats rest

end

/-- The recursion limit of `serde_json` is 128: this many lists and objects within each other are
read. -/
def maxNesting : Nat := 127

/-- The two functions of `serde_json` that are used here, with what is documented of them: compact
output is one line and is read back, up to the last place of a float, and no document has a line
that starts with dots, since a string has no raw newline in it and no other token starts with a
dot. -/
structure SerdeJson where
  fromStr : List Char → Option Value
  toString : Value → List Char
  /-- The texts that floats are written with. -/
  isFloat : String → Bool
  readable_of_fromStr : ∀ text value, fromStr text = some value →
    readableWithin isFloat value maxNesting = true
  fromStr_toString : ∀ value, readableWithin isFloat value maxNesting = true →
    (fromStr (toString value)).map withoutFloats = some (withoutFloats value)
  newline_notMem_toString : ∀ value, readableWithin isFloat value maxNesting = true →
    '\n' ∉ toString value
  fromStr_dots : ∀ before after, (before = [] ∨ ∃ start, before = start ++ ['\n']) →
    fromStr (before ++ (leader++after)) = none

mutual

def longestJsonStringLen : Value → Nat
  | .string text => utf8Length text.toList
  | .array items => longestInItems items
  | .object fields => longestInFields fields
  | _ => 0

def longestInItems : List Value → Nat
  | [] => 0
  | item::rest => max (longestJsonStringLen item) (longestInItems rest)

def longestInFields : List (String × Value) → Nat
  | [] => 0
  | (_, value) :: rest => max (longestJsonStringLen value) (longestInFields rest)

end

mutual

def jsonContainsPath (outputPath : List Char) : Value → Bool
  | .string text => decide (outputPath <:+: text.toList)
  | .array items => itemsContainPath outputPath items
  | .object fields => fieldsContainPath outputPath fields
  | _ => false

def itemsContainPath (outputPath : List Char) : List Value → Bool
  | [] => false
  | item::rest => jsonContainsPath outputPath item || itemsContainPath outputPath rest

def fieldsContainPath (outputPath : List Char) : List (String × Value) → Bool
  | [] => false
  | (_, value) :: rest => jsonContainsPath outputPath value || fieldsContainPath outputPath rest

end

/-- `truncate_first_json_string` on one text: the replacement, if it is shorter. -/
def shortenedString (longest targetBytes : Nat) (marker : List Char) (maxLines : Nat)
    (text : String) : Option String :=
  if utf8Length text.toList = longest then
    let replacement := previewText text.toList marker maxLines targetBytes
    if utf8Length replacement ≥ utf8Length text.toList then none
    else some (String.ofList replacement)
  else none

/-- One text of a document replaced by another as `shorter` allows. -/
inductive ShortenOne (shorter : String → String → Prop) : Value → Value → Prop
  | string {text text' : String} : shorter text text' →
    ShortenOne shorter (.string text) (.string text')
  | item {v v' : Value} (before after : List Value) : ShortenOne shorter v v' →
    ShortenOne shorter (.array (before++v::after)) (.array (before++v'::after))
  | field {v v' : Value} (key : String) (before after : List (String × Value)) :
    ShortenOne shorter v v' →
    ShortenOne shorter (.object (before ++ (key, v) :: after))
      (.object (before ++ (key, v') :: after))

def Shortened (shorter : String → String → Prop) : Value → Value → Prop :=
  Relation.ReflTransGen (ShortenOne shorter)

def FewerBytes (text text' : String) : Prop := utf8Length text'.toList < utf8Length text.toList

section Truncation

variable (longest targetBytes : Nat) (marker : List Char) (maxLines : Nat)

mutual

/-- The value with its first longest text shortened, or none if no such text gets shorter. -/
def truncateFirstJsonString : Value → Option Value
  | .string text => (shortenedString longest targetBytes marker maxLines text).map .string
  | .array items => (truncateFirstItem items).map .array
  | .object fields => (truncateFirstField fields).map .object
  | _ => none

def truncateFirstItem : List Value → Option (List Value)
  | [] => none
  | item::rest =>
    match truncateFirstJsonString item with
    | some item => some (item::rest)
    | none => (truncateFirstItem rest).map (item :: ·)

def truncateFirstField : List (String × Value) → Option (List (String × Value))
  | [] => none
  | (key, value) :: rest =>
    match truncateFirstJsonString value with
    | some value => some ((key, value) :: rest)
    | none => (truncateFirstField rest).map ((key, value) :: ·)

end

mutual

/-- The bytes of all texts of a document: what the loop over shortened texts uses up. -/
def stringBytes : Value → Nat
  | .string text => utf8Length text.toList
  | .array items => stringBytesItems items
  | .object fields => stringBytesFields fields
  | _ => 0

def stringBytesItems : List Value → Nat
  | [] => 0
  | item::rest => stringBytes item + stringBytesItems rest

def stringBytesFields : List (String × Value) → Nat
  | [] => 0
  | (_, value) :: rest => stringBytes value + stringBytesFields rest

end

def ShortenedTo (text text' : String) : Prop :=
  shortenedString longest targetBytes marker maxLines text = some text'

variable {longest targetBytes marker maxLines}

theorem ShortenedTo.cases {text text' : String}
    (h : ShortenedTo longest targetBytes marker maxLines text text') :
    utf8Length text.toList = longest ∧
      text'.toList = previewText text.toList marker maxLines targetBytes ∧
      FewerBytes text text' := by
  simp only [ShortenedTo,shortenedString] at h
  split_ifs at h with hlong hge
  obtain rfl := Option.some.inj h
  exact ⟨hlong,String.toList_ofList,by simpa [FewerBytes] using hge⟩

theorem ShortenOne.mono {r q : String → String → Prop} (hrq : ∀ text text', r text text' → q text text')
    {value shorter : Value} (h : ShortenOne r value shorter) : ShortenOne q value shorter := by
  induction h with
  | string hr => exact .string (hrq _ _ hr)
  | item before after _ ih => exact .item before after ih
  | field key before after _ ih => exact .field key before after ih

mutual

theorem shortenOne_truncate : ∀ {value shorter : Value},
    truncateFirstJsonString longest targetBytes marker maxLines value = some shorter →
      ShortenOne (ShortenedTo longest targetBytes marker maxLines) value shorter
  | .string text, shorter, h => by
    obtain ⟨replacement,hreplacement,rfl⟩ := Option.map_eq_some_iff.mp h
    exact .string hreplacement
  | .array items, shorter, h => by
    obtain ⟨found,hfound,rfl⟩ := Option.map_eq_some_iff.mp h
    obtain ⟨before,v,v',after,rfl,rfl,hone⟩ := shortenOne_truncateItem hfound
    exact .item before after hone
  | .object fields, shorter, h => by
    obtain ⟨found,hfound,rfl⟩ := Option.map_eq_some_iff.mp h
    obtain ⟨before,key,v,v',after,rfl,rfl,hone⟩ := shortenOne_truncateField hfound
    exact .field key before after hone
  | .null, _, h | .bool _, _, h | .number _, _, h | .float _, _, h => by cases h

theorem shortenOne_truncateItem : ∀ {items shorter : List Value},
    truncateFirstItem longest targetBytes marker maxLines items = some shorter →
      ∃ before v v' after, items=before++v::after ∧ shorter=before++v'::after ∧
        ShortenOne (ShortenedTo longest targetBytes marker maxLines) v v'
  | [], _, h => by cases h
  | item::rest, shorter, h => by
    rw [truncateFirstItem] at h
    split at h
    · rename_i found hfound
      exact ⟨[],item,found,rest,rfl,(Option.some.inj h).symm,shortenOne_truncate hfound⟩
    · obtain ⟨found,hfound,rfl⟩ := Option.map_eq_some_iff.mp h
      obtain ⟨before,v,v',after,rfl,rfl,hone⟩ := shortenOne_truncateItem hfound
      exact ⟨item::before,v,v',after,rfl,rfl,hone⟩

theorem shortenOne_truncateField : ∀ {fields shorter : List (String × Value)},
    truncateFirstField longest targetBytes marker maxLines fields = some shorter →
      ∃ before key v v' after, fields = before ++ (key, v) :: after ∧
        shorter = before ++ (key, v') :: after ∧ ShortenOne (ShortenedTo longest targetBytes marker maxLines) v v'
  | [], _, h => by cases h
  | (key, value) :: rest, shorter, h => by
    rw [truncateFirstField] at h
    split at h
    · rename_i found hfound
      exact ⟨[],key,value,found,rest,rfl,(Option.some.inj h).symm,shortenOne_truncate hfound⟩
    · obtain ⟨found,hfound,rfl⟩ := Option.map_eq_some_iff.mp h
      obtain ⟨before,key',v,v',after,rfl,rfl,hone⟩ := shortenOne_truncateField hfound
      exact ⟨(key, value) :: before,key',v,v',after,rfl,rfl,hone⟩

end

end Truncation

section Bounding

variable (json : SerdeJson)

def truncationMarker (path : List Char) : List Char :=
  leader ++ (truncatedMarker ++ ' ' :: (path++ellipsis))

end Bounding

def markerOutputPath (text : List Char) : Option (List Char) :=
  match text.dropInfix? truncatedMarker with
  | none => none
  | some (_, suffix) =>
    let path := suffix.dropWhile isWhitespace
    let path :=
      match splitLast path ellipsis with
      | some (before, _) => before
      | none => path
    if path.isEmpty then none else some path

mutual

def jsonOutputPath : Value → Option (List Char)
  | .string text => markerOutputPath text.toList
  | .array items => itemsOutputPath items
  | .object fields =>
    match (Value.object fields).get? "full_output_path" >>= Value.asStr? with
    | some path => some path.toList
    | none => fieldsOutputPath fields
  | _ => none

def itemsOutputPath : List Value → Option (List Char)
  | [] => none
  | item::rest =>
    match jsonOutputPath item with
    | some path => some path
    | none => itemsOutputPath rest

def fieldsOutputPath : List (String × Value) → Option (List Char)
  | [] => none
  | (_, value) :: rest =>
    match jsonOutputPath value with
    | some path => some path
    | none => fieldsOutputPath rest

end

end Daimonos.ToolOutput
