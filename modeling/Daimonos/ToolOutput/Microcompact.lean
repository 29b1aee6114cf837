import Mathlib
import Daimonos.Framework.Followed
import Daimonos.Providers.Message

namespace Daimonos.ToolOutput

open Providers List

def prunedMarker : String := "old tool result pruned; full output saved to"
def argumentMarker : String := "...(argument truncated)"

structure ToolOutputConfig where
  intraTurnResultBudgetTokens : Nat := 40000
  intraTurnKeepRecentResults : Nat := 5
  oldArgumentMaxChars : Nat := 2000

/-- Position and size of one tool result in a history. -/
structure ResultRef where
  message : Nat
  block : Nat
  id : String
  isError : Bool
  chars : Nat

/-- The managed output directory: the recovery path a text already names there,
whether that file is present, and the file a complete text gets stored in. -/
structure OutputFiles where
  existing : String → Option String
  isFile : String → Bool
  storeFull : ResultRef → String → String → Option String

/-- An output directory in which nothing is found and nothing can be stored. -/
def OutputFiles.unavailable : OutputFiles where
  existing := fun _ => none
  isFile := fun _ => false
  storeFull := fun _ _ _ => none

structure MicrocompactStats where
  resultsPruned : Nat := 0
  argumentsPruned : Nat := 0
  estimatedTokensSaved : Nat := 0

def containsText (needle text : String) : Bool := decide (needle.toList <:+: text.toList)

def estimatedTokens (chars : Nat) : Nat := (chars+3) / 4

def truncateString (value : String) (maxChars : Nat) : Option (String × Nat) :=
  if value.length ≤ maxChars || containsText argumentMarker value then none
  else
    let text := String.ofList (value.toList.take 20) ++ argumentMarker
    some (text, estimatedTokens (value.length-text.length))

def truncateItems (maxChars : Nat) : List Value → List Value × Nat × Nat
  | [] => ([], 0, 0)
  | item::rest =>
    let (items, changed, saved) := truncateItems maxChars rest
    match item.asStr? >>= fun text => truncateString text maxChars with
    | some (text, tokens) => (.string text :: items, changed+1, saved+tokens)
    | none => (item::items, changed, saved)

def truncateOldArguments (protectedIds : List String) (maxChars : Nat) :
    ContentBlock → ContentBlock × Nat × Nat
  | .toolCall id name input =>
    if id∈protectedIds then (.toolCall id name input, 0, 0)
    else if name = "write_file" then
      match input.get? "content" >>= Value.asStr? >>= fun text => truncateString text maxChars with
      | some (text, saved) => (.toolCall id name (input.setField "content" (.string text)), 1, saved)
      | none => (.toolCall id name input, 0, 0)
    else if name = "edit_file" then
      match input.get? "edits" with
      | some (.array items) =>
        let (items, changed, saved) := truncateItems maxChars items
        (.toolCall id name (input.setField "edits" (.array items)), changed, saved)
      | _ => (.toolCall id name input, 0, 0)
    else (.toolCall id name input, 0, 0)
  | block => (block, 0, 0)

def resultRefs (messages : List Message) : List ResultRef :=
  messages.zipIdx.flatMap fun (m, i) => m.content.zipIdx.filterMap fun (b, j) =>
    match b with
    | .toolResult id content isError => some ⟨i,j,id,isError,content.length⟩
    | _ => none

/-- Tool names by call id; a later call with the same id replaces the entry. -/
def callName (messages : List Message) (id : String) : String :=
  let calls := messages.flatMap fun m => m.content.filterMap fun b =>
    match b with
    | .toolCall id name _ => some (id, name)
    | _ => none
  ((calls.reverse.find? fun c => c.1 == id).map (·.2)).getD "tool"

/-- Results beyond the token budget, walking from the newest to the oldest. -/
def selectPrune (budget : Nat) (protectedRecent : List String) : Nat → List ResultRef → List ResultRef
  | _, [] => []
  | retained, r::rest =>
    let tokens := estimatedTokens r.chars
    if r.isError || r.id∈protectedRecent then
      selectPrune budget protectedRecent (retained+tokens) rest
    else if retained+tokens≤budget then
      selectPrune budget protectedRecent (retained+tokens) rest
    else r :: selectPrune budget protectedRecent retained rest

/-- The file that holds the complete text: one the text names already, else a new one. -/
def OutputFiles.locate (files : OutputFiles) (tool : String) (item : ResultRef)
    (content : String) : Option String :=
  match files.existing content with
  | some path => if files.isFile path then some path else files.storeFull item tool content
  | none => files.storeFull item tool content

def setBlock (messages : List Message) (i j : Nat) (b : ContentBlock) : List Message :=
  messages.modify i fun m => { m with content := m.content.set j b }

def blockAt (messages : List Message) (i j : Nat) : Option ContentBlock :=
  messages[i]? >>= fun m => m.content[j]?

def pruneResult (files : OutputFiles) (tool : String → String)
    (s : List Message × MicrocompactStats) (item : ResultRef) :
    List Message × MicrocompactStats :=
  match blockAt s.1 item.message item.block with
  | some (.toolResult id content isError) =>
    if containsText prunedMarker content then s
    else
      match files.locate (tool item.id) item content with
      | none => s
      | some path =>
        let marker := "[" ++ prunedMarker ++ " " ++ path ++ "]"
        if marker.length ≥ item.chars then s
        else
          (setBlock s.1 item.message item.block (.toolResult id marker isError),
            { s.2 with
              resultsPruned := s.2.resultsPruned+1
              estimatedTokensSaved :=
                s.2.estimatedTokensSaved + estimatedTokens (item.chars-marker.length) })
  | _ => s

def truncateMessage (protectedIds : List String) (maxChars : Nat) (m : Message) :
    Message × Nat × Nat :=
  let blocks := m.content.map (truncateOldArguments protectedIds maxChars)
  ({ m with content := blocks.map (·.1) }, (blocks.map (·.2.1)).sum, (blocks.map (·.2.2)).sum)

def microcompactHistory (files : OutputFiles) (cfg : ToolOutputConfig) (messages : List Message) :
    List Message × MicrocompactStats :=
  let results := resultRefs messages
  let successful := results.filter fun r => !r.isError
  let protectedRecent := (successful.reverse.take cfg.intraTurnKeepRecentResults).map (·.id)
  let protectedErrors := (results.filter (·.isError)).map (·.id)
  let protectedIds := protectedRecent ++ protectedErrors
  let toPrune := selectPrune cfg.intraTurnResultBudgetTokens protectedRecent 0 results.reverse
  let (pruned, stats) := toPrune.foldl (pruneResult files (callName messages)) (messages, {})
  let truncated := pruned.map (truncateMessage protectedIds cfg.oldArgumentMaxChars)
  (truncated.map (·.1),
    { stats with
      argumentsPruned := stats.argumentsPruned + (truncated.map (·.2.1)).sum
      estimatedTokensSaved := stats.estimatedTokensSaved + (truncated.map (·.2.2)).sum })

/-- Whether a pass changed anything, as `microcompact_agent_history` reports it. -/
def MicrocompactStats.pruned (stats : MicrocompactStats) : Bool :=
  !(stats.resultsPruned == 0 && stats.argumentsPruned == 0)

def blockShape : ContentBlock → ContentBlock
  | .toolCall id name _ => .toolCall id name .null
  | .toolResult id _ isError => .toolResult id "" isError
  | block => block

def messageShape (m : Message) : Message := { m with content := m.content.map blockShape }

@[simp] theorem messageShape_role (m : Message) : (messageShape m).role = m.role := rfl

@[simp] theorem callIds_shape (m : Message) : callIds (messageShape m).content = callIds m.content := by
  simp only [callIds,messageShape,filterMap_map]
  congr 1
  funext b
  cases b <;> rfl

variable (m : Message)

@[simp] theorem resultIds_shape :
    resultIds (messageShape m).content = resultIds m.content := by
  simp only [resultIds,messageShape,filterMap_map]
  congr 1
  funext b
  cases b <;> rfl

@[simp] theorem content_shape_eq_nil : (messageShape m).content = [] ↔ m.content = [] := by
  simp [messageShape]

theorem truncateOldArguments_shape (protectedIds : List String) (maxChars : Nat)
    (b : ContentBlock) :
    blockShape (truncateOldArguments protectedIds maxChars b).1 = blockShape b := by
  cases b with
  | toolCall =>
    simp only [truncateOldArguments]
    split_ifs
    · rfl
    · split <;> rfl
    · split <;> rfl
    · rfl
  | _ => rfl

theorem truncateMessage_shape (protectedIds : List String) (maxChars : Nat) :
    messageShape (truncateMessage protectedIds maxChars m).1 = messageShape m := by
  simp [messageShape,truncateMessage,truncateOldArguments_shape]

theorem setBlock_shape {messages : List Message} {i j : Nat} {old b : ContentBlock}
    (hold : blockAt messages i j = some old) (h : blockShape b = blockShape old) :
    (setBlock messages i j b).map messageShape = messages.map messageShape := by
  obtain ⟨m,hm,hj⟩ := Option.bind_eq_some_iff.mp hold
  have hset : (m.content.set j b).map blockShape = m.content.map blockShape := by
    obtain ⟨hlt,rfl⟩ := List.getElem?_eq_some_iff.mp hj
    have hlt' : j < (m.content.map blockShape).length := by simpa using hlt
    rw [List.map_set,h,← List.getElem_map blockShape (h := hlt'),List.set_getElem_self]
  apply ext_getElem?
  intro k
  simp only [setBlock,getElem?_map,getElem?_modify]
  by_cases hk : i=k
  · subst hk
    simp [hm,messageShape,hset]
  · simp [hk]

variable (files : OutputFiles)

/-- One pruning step either does nothing or rewrites one result and counts it. -/
theorem pruneResult_cases (tool : String → String)
    (s : List Message × MicrocompactStats) (item : ResultRef) :
    pruneResult files tool s item = s ∨
      ((pruneResult files tool s item).1.map messageShape = s.1.map messageShape ∧
        s.2.resultsPruned < (pruneResult files tool s item).2.resultsPruned) := by
  unfold pruneResult
  split
  · rename_i id content isError hb
    split_ifs
    · exact .inl rfl
    · split
      · exact .inl rfl
      · dsimp only
        split_ifs
        · exact .inl rfl
        · exact .inr ⟨setBlock_shape hb rfl,Nat.lt_succ_self _⟩
  · exact .inl rfl

theorem pruneResult_foldl (tool : String → String) (items : List ResultRef)
    (s : List Message × MicrocompactStats) :
    items.foldl (pruneResult files tool) s = s ∨
      ((items.foldl (pruneResult files tool) s).1.map messageShape = s.1.map messageShape ∧
        s.2.resultsPruned < (items.foldl (pruneResult files tool) s).2.resultsPruned) := by
  induction items generalizing s with
  | nil => exact .inl rfl
  | cons item items ih =>
    rw [foldl_cons]
    rcases pruneResult_cases files tool s item with h | ⟨hs,hlt⟩
    · rw [h]
      exact ih s
    · rcases ih (pruneResult files tool s item) with h | ⟨hs',hlt'⟩
      · rw [h]
        exact .inr ⟨hs,hlt⟩
      · exact .inr ⟨hs'.trans hs,hlt.trans hlt'⟩

theorem microcompactHistory_shape (files : OutputFiles) (cfg : ToolOutputConfig)
    (messages : List Message) :
    (microcompactHistory files cfg messages).1.map messageShape = messages.map messageShape := by
  simp only [microcompactHistory,map_map,Function.comp_def,truncateMessage_shape]
  rcases pruneResult_foldl files (callName messages) _ (messages, {}) with h | ⟨h,-⟩
  · rw [h]
  · exact h

theorem truncateItems_zero {maxChars : Nat} {items : List Value}
    (h : (truncateItems maxChars items).2.1 = 0) : (truncateItems maxChars items).1 = items := by
  induction items with
  | nil => rfl
  | cons item rest ih =>
    simp only [truncateItems] at h ⊢
    split at h
    · simp at h
    · rw [ih h]

theorem truncateOldArguments_zero {protectedIds : List String} {maxChars : Nat} {b : ContentBlock}
    (h : (truncateOldArguments protectedIds maxChars b).2.1 = 0) :
    (truncateOldArguments protectedIds maxChars b).1 = b := by
  cases b with
  | toolCall =>
    simp only [truncateOldArguments] at h ⊢
    split_ifs at h ⊢
    · rfl
    · split at h
      · simp at h
      · rfl
    · split at h
      · rename_i items hi
        rw [truncateItems_zero h,Value.setField_get? hi]
      · rfl
    · rfl
  | _ => rfl

theorem truncateMessage_zero {protectedIds : List String} {maxChars : Nat} {m : Message}
    (h : (truncateMessage protectedIds maxChars m).2.1 = 0) :
    (truncateMessage protectedIds maxChars m).1 = m := by
  simp only [truncateMessage,map_map,List.sum_eq_zero_iff_forall_eq_nat,mem_map,
    Function.comp_apply,forall_exists_index,and_imp,forall_apply_eq_imp_iff₂] at h ⊢
  have hc : (m.content.map ((fun x => x.1) ∘ truncateOldArguments protectedIds maxChars))
      = m.content := by
    refine (map_congr_left fun b hb => ?_).trans (map_id m.content)
    exact truncateOldArguments_zero (h b hb)
  rw [hc]

theorem microcompactHistory_unpruned {files : OutputFiles} {cfg : ToolOutputConfig}
    {messages : List Message} (h : (microcompactHistory files cfg messages).2.pruned = false) :
    (microcompactHistory files cfg messages).1 = messages := by
  simp only [MicrocompactStats.pruned,Bool.not_eq_false',Bool.and_eq_true,beq_iff_eq] at h
  simp only [microcompactHistory] at h ⊢
  rcases pruneResult_foldl files (callName messages) _ (messages, {}) with hf | ⟨-,hlt⟩
  · rw [hf] at h ⊢
    have hargs := h.2
    simp only [Nat.zero_add,map_map,List.sum_eq_zero_iff_forall_eq_nat,mem_map,
      Function.comp_apply,forall_exists_index,and_imp,forall_apply_eq_imp_iff₂] at hargs
    rw [map_map]
    refine (map_congr_left fun m hm => ?_).trans (map_id messages)
    exact truncateMessage_zero (hargs m hm)
  · rw [h.1] at hlt
    exact absurd hlt (by simp)

end Daimonos.ToolOutput
