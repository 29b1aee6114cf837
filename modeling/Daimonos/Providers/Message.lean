import Mathlib.Data.List.Basic
import Mathlib.Tactic.Common

namespace Daimonos.Providers

open List

/-- A `serde_json` value; object fields keep their stored order. A number that is no integer is given
by the text that it is written with. -/
inductive Value where
  | null
  | bool (b : Bool)
  | number (n : Int)
  | float (text : String)
  | string (s : String)
  | array (items : List Value)
  | object (fields : List (String × Value))

namespace Value

mutual

def beq : Value → Value → Bool
  | null, null => true
  | bool a, bool b => a == b
  | number a, number b => a == b
  | float a, float b => a == b
  | string a, string b => a == b
  | array a, array b => beqItems a b
  | object a, object b => beqFields a b
  | _, _ => false

def beqItems : List Value → List Value → Bool
  | [], [] => true
  | a::as, b::bs => beq a b && beqItems as bs
  | _, _ => false

def beqFields : List (String × Value) → List (String × Value) → Bool
  | [], [] => true
  | (k, a) :: as, (l, b) :: bs => k == l && beq a b && beqFields as bs
  | _, _ => false

end

mutual

theorem beq_iff : ∀ a b : Value, beq a b = true ↔ a=b
  | null, b => by cases b <;> simp [beq]
  | bool _, b => by cases b <;> simp [beq]
  | number _, b => by cases b <;> simp [beq]
  | float _, b => by cases b <;> simp [beq]
  | string _, b => by cases b <;> simp [beq]
  | array as, b => by cases b <;> simp [beq,beqItems_iff as]
  | object as, b => by cases b <;> simp [beq,beqFields_iff as]

theorem beqItems_iff : ∀ as bs : List Value, beqItems as bs = true ↔ as=bs
  | [], bs => by cases bs <;> simp [beqItems]
  | a::as, bs => by cases bs <;> simp [beqItems,beq_iff a,beqItems_iff as]

theorem beqFields_iff : ∀ as bs : List (String × Value), beqFields as bs = true ↔ as=bs
  | [], bs => by cases bs <;> simp [beqFields]
  | (k, a) :: as, bs => by
    rcases bs with _ | ⟨⟨l,b⟩,bs⟩ <;> simp [beqFields,beq_iff a,beqFields_iff as]

end

instance : DecidableEq Value := fun a b => decidable_of_iff _ (beq_iff a b)

def get? (key : String) : Value → Option Value
  | object fields => (fields.find? (·.1 == key)).map (·.2)
  | _ => none

def asStr? : Value → Option String
  | string s => some s
  | _ => none

private def setFirst (key : String) (v : Value) : List (String × Value) → List (String × Value)
  | [] => []
  | (k, old) :: rest => if k == key then (k, v) :: rest else (k, old) :: setFirst key v rest

def setField : Value → String → Value → Value
  | object fields, key, v => object (setFirst key v fields)
  | other, _, _ => other

theorem setField_split {key : String} {v value : Value} (h : value.get? key = some v) :
    ∃ before after, (∀ c∈before, c.1≠key) ∧ value = .object (before ++ (key, v) :: after) ∧
      ∀ w, value.setField key w = .object (before ++ (key, w) :: after) := by
  cases value with
  | object fields =>
    simp only [get?,Option.map_eq_some_iff] at h
    obtain ⟨⟨k,w⟩,hf,rfl⟩ := h
    simp only [setField,object.injEq]
    induction fields with
    | nil => cases hf
    | cons f rest ih =>
      obtain ⟨l,u⟩ := f
      by_cases hl : l=key
      · subst hl
        obtain ⟨rfl,rfl⟩ : l=k ∧ u=w := by simpa [find?_cons] using hf
        exact ⟨[],rest,nofun,rfl,fun w => by simp [setFirst]⟩
      · obtain ⟨before,after,hne,hrest,hset⟩ := ih (by simpa [find?_cons,hl] using hf)
        refine ⟨(l, u) :: before,after,forall_mem_cons.mpr ⟨hl,hne⟩,
          by rw [hrest,cons_append],fun w => ?_⟩
        simp [setFirst,hl,hset]
  | _ => cases h

theorem setField_get? {key : String} {v value : Value} (h : value.get? key = some v) :
    value.setField key v = value := by
  obtain ⟨before,after,-,hvalue,hset⟩ := setField_split h
  rw [hset v,← hvalue]

theorem get?_setField {key : String} {v old value : Value} (h : value.get? key = some old) :
    (value.setField key v).get? key = some v := by
  obtain ⟨before,after,hne,-,hset⟩ := setField_split h
  have hnone : before.find? (·.1 == key) = none := by simpa using hne
  rw [hset v,get?,find?_append,hnone]
  simp

end Value

inductive Role where
  | user
  | assistant
  deriving DecidableEq

inductive ContentBlock where
  | text (text : String)
  | image (data mediaType : String) (uri : Option String)
  | thinking (text : String)
  | providerState (provider : String) (data : Value)
  | toolCall (id name : String) (input : Value)
  | toolResult (toolUseId content : String) (isError : Bool)
  deriving DecidableEq

/-- Specification state, absent from the source: whether a message is a prompt
the user sent or was made by the session itself. -/
inductive Origin where
  | prompt
  | session
  deriving DecidableEq

/-- `origin` is carried along for specifications only; no modelled function reads it. -/
structure Message where
  role : Role
  content : List ContentBlock
  origin : Origin := .session
  deriving DecidableEq

namespace Message

def user (text : String) : Message := { role := .user, content := [.text text] }
def assistant (text : String) : Message := { role := .assistant, content := [.text text] }

end Message

namespace ContentBlock

def callId? : ContentBlock → Option String
  | toolCall id _ _ => some id
  | _ => none

def resultId? : ContentBlock → Option String
  | toolResult id _ _ => some id
  | _ => none

def isToolCall (b : ContentBlock) : Bool := b.callId?.isSome
def isToolResult (b : ContentBlock) : Bool := b.resultId?.isSome

end ContentBlock

def callIds (content : List ContentBlock) : List String :=
  content.filterMap ContentBlock.callId?

def resultIds (content : List ContentBlock) : List String :=
  content.filterMap ContentBlock.resultId?

@[simp] theorem callIds_nil : callIds [] = [] := rfl
@[simp] theorem resultIds_nil : resultIds [] = [] := rfl

@[simp] theorem resultIds_append (xs ys : List ContentBlock) :
    resultIds (xs++ys) = resultIds xs ++ resultIds ys := filterMap_append

/-- Token usage of one call. The dollar amounts are left out: nothing modelled reads them. -/
@[ext] structure Usage where
  input : Nat := 0
  output : Nat := 0
  reasoningOutput : Option Nat := none
  thinkingBytes : Nat := 0
  cacheRead : Nat := 0
  cacheWrite : Nat := 0
  deriving DecidableEq

namespace Usage

def promptTokens (u : Usage) : Nat := u.input+u.cacheRead+u.cacheWrite

end Usage

inductive StopReason where
  | endTurn
  | toolUse
  | error
  | refusal
  | aborted
  | maxTokens
  deriving DecidableEq

structure LlmResponse where
  content : List ContentBlock
  stopReason : StopReason
  errorMessage : Option String := none
  contextOverflow : Bool := false
  retryable : Bool := false
  usage : Usage := {}

def missingStructuredToolCall : String :=
  "provider declared tool use but returned no structured tool call"

def toolUseMissingStructuredCall (response : LlmResponse) : Bool :=
  response.stopReason == .toolUse && !response.content.any ContentBlock.isToolCall

/-- A tool-use stop without a tool call becomes a non-retryable error with no content. -/
def validateResponseShape (response : LlmResponse) : LlmResponse :=
  if toolUseMissingStructuredCall response then
    { response with
      content := []
      stopReason := .error
      errorMessage := some (response.errorMessage.getD missingStructuredToolCall)
      contextOverflow := false
      retryable := false }
  else response

theorem callIds_eq_nil (content : List ContentBlock) :
    callIds content = [] ↔ content.any ContentBlock.isToolCall = false := by
  simp [callIds,filterMap_eq_nil_iff,ContentBlock.isToolCall]

theorem validateResponseShape_toolUse (response : LlmResponse)
    (h : (validateResponseShape response).stopReason = .toolUse) :
    callIds (validateResponseShape response).content ≠ [] := by
  unfold validateResponseShape at h ⊢
  split_ifs at h ⊢ with hm
  simp only [toolUseMissingStructuredCall,h,beq_self_eq_true,Bool.true_and,
    Bool.not_eq_true',Bool.not_eq_false] at hm
  rw [Ne,callIds_eq_nil,hm]
  decide

end Daimonos.Providers
