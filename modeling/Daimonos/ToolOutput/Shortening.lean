import Daimonos.ToolOutput.RecoveryPointer
import Daimonos.ToolOutput.RepeatedPruning

namespace Daimonos.ToolOutput

open Framework Providers List

section Shortening

variable {shorter : String → String → Prop}

theorem Shortened.field {v v' : Value} (h : Shortened shorter v v') (key : String)
    (before after : List (String × Value)) :
    Shortened shorter (.object (before ++ (key, v) :: after))
      (.object (before ++ (key, v') :: after)) := by
  induction h with
  | refl => exact .refl
  | tail _ hone ih => exact ih.tail (.field key before after hone)

theorem Shortened.null {shown : Value} (h : Shortened shorter .null shown) : shown=.null := by
  induction h with
  | refl => rfl
  | tail _ hone ih =>
    subst ih
    cases hone

end Shortening

section Pass

variable {cfg : ToolOutputConfig} {messages : List Message}

def truncatedArgumentChars : Nat := 42

def NoLonger (text text' : String) : Prop := text'.length≤text.length

theorem length_truncateString {value text : String} {saved maxChars : Nat}
    (hmax : truncatedArgumentChars ≤ maxChars)
    (h : truncateString value maxChars = some (text, saved)) : NoLonger value text := by
  unfold truncateString at h
  split_ifs at h with hkeep
  obtain ⟨rfl,-⟩ := Prod.mk.inj (Option.some.inj h)
  rw [Bool.or_eq_true,not_or,decide_eq_true_eq] at hkeep
  have hmarker : argumentMarker.length=23 := by decide
  unfold truncatedArgumentChars at hmax
  rw [NoLonger,String.length_append,hmarker,String.length_ofList,length_take]
  omega

theorem shortened_truncateItems {maxChars : Nat} (hmax : truncatedArgumentChars ≤ maxChars)
    (items before : List Value) : Shortened NoLonger (.array (before++items))
      (.array (before ++ (truncateItems maxChars items).1)) := by
  induction items generalizing before with
  | nil => exact .refl
  | cons item rest ih =>
    simp only [truncateItems]
    split
    · rename_i text tokens hsome
      obtain ⟨value,hvalue,htext⟩ := Option.bind_eq_some_iff.mp hsome
      have hitem : item = .string value := by
        cases item <;> cases hvalue
        rfl
      have hrest := ih (before ++ [.string text])
      rw [append_assoc,append_assoc] at hrest
      subst hitem
      exact .head (.item before rest (.string (length_truncateString hmax htext))) hrest
    · have hrest := ih (before ++ [item])
      rw [append_assoc,append_assoc] at hrest
      exact hrest

theorem shortened_truncateOldArguments (protectedIds : List String) (maxChars : Nat)
    (id name : String) (input : Value) :
    ∃ input', (truncateOldArguments protectedIds maxChars (.toolCall id name input)).1 =
      .toolCall id name input' ∧
        (truncatedArgumentChars ≤ maxChars → Shortened NoLonger input input') := by
  simp only [truncateOldArguments]
  split_ifs
  · exact ⟨input,rfl,fun _ => .refl⟩
  · split
    · rename_i text saved hsome
      obtain ⟨value,hvalue,htext⟩ := Option.bind_eq_some_iff.mp hsome
      obtain ⟨field,hfield,hstring⟩ := Option.bind_eq_some_iff.mp hvalue
      have hitem : field = .string value := by
        cases field <;> cases hstring
        rfl
      subst hitem
      obtain ⟨before,after,-,hinput,hset⟩ := Value.setField_split hfield
      refine ⟨_,rfl,fun hmax => ?_⟩
      rw [hset,hinput]
      exact .single (.field "content" before after (.string (length_truncateString hmax htext)))
    · exact ⟨input,rfl,fun _ => .refl⟩
  · split
    · rename_i items hitems
      obtain ⟨before,after,-,hinput,hset⟩ := Value.setField_split hitems
      refine ⟨_,rfl,fun hmax => ?_⟩
      rw [hset,hinput]
      exact (shortened_truncateItems hmax items []).field "edits" before after
    · exact ⟨input,rfl,fun _ => .refl⟩
  · exact ⟨input,rfl,fun _ => .refl⟩

/-- The tokens of the results among `newer` that the pass has no reason to prune. -/
def retainedTokens (pruned newer : List ResultRef) : Nat :=
  ((newer.filter fun r => decide (r ∉ pruned)).map fun r => estimatedTokens r.chars).sum

theorem fits_of_notMem_selectPrune {budget : Nat} {kept : List String} {r : ResultRef}
    (older newer : List ResultRef) (retained : Nat) (hnodup : (newer++r::older).Nodup)
    (h : r ∉ selectPrune budget kept retained (newer++r::older))
    (hopen : (r.isError || decide (r.id∈kept)) = false) :
    retained + retainedTokens (selectPrune budget kept retained (newer++r::older)) newer +
      estimatedTokens r.chars ≤ budget := by
  induction newer generalizing retained with
  | nil =>
    rw [nil_append,selectPrune] at h
    rw [hopen,if_neg (by decide)] at h
    split_ifs at h with hfits
    · simpa [retainedTokens] using hfits
    · exact absurd mem_cons_self h
  | cons x newer ih =>
    obtain ⟨hx,hrest⟩ := nodup_cons.mp hnodup
    have hxsel : ∀ n, x ∉ selectPrune budget kept n (newer++r::older) := fun n hin =>
      hx ((selectPrune_sublist _ _ _ _).subset hin)
    rw [cons_append,selectPrune] at h ⊢
    have hcount : ∀ n, retainedTokens (selectPrune budget kept n (newer++r::older)) (x::newer) =
        estimatedTokens x.chars +
          retainedTokens (selectPrune budget kept n (newer++r::older)) newer := by
      intro n
      simp [retainedTokens,hxsel n]
    split_ifs at h ⊢
    · have hih := ih _ hrest h
      rw [hcount]
      omega
    · have hih := ih _ hrest h
      rw [hcount]
      omega
    · rw [mem_cons,not_or] at h
      have hsame : retainedTokens (x :: selectPrune budget kept retained (newer++r::older))
          (x::newer) = retainedTokens (selectPrune budget kept retained (newer++r::older)) newer := by
        unfold retainedTokens
        rw [filter_cons_of_neg (by simp)]
        congr 2
        refine filter_congr fun y hy => ?_
        have hne : y≠x := fun heq => hx (heq ▸ mem_append_left _ hy)
        simp [hne]
      rw [hsame]
      exact ih _ hrest h.2

/-- A result after the pass: protected ones are as they were, none is longer, and an unprotected one
that is left fits the budget or cannot be replaced by something shorter. -/
structure ResultKept (files : OutputFiles) (cfg : ToolOutputConfig) (messages : List Message)
    (r : ResultRef) (content content' : String) : Prop where
  exempt : r.isError=true ∨ r.id ∈ protectedRecent cfg (resultRefs messages) → content'=content
  noLonger : content'.length ≤ content.length
  left : content'=content → r.isError=false → r.id ∉ protectedRecent cfg (resultRefs messages) →
    (∃ newer older, (resultRefs messages).reverse = newer++r::older ∧
      retainedTokens (toPrune cfg (resultRefs messages)) newer + estimatedTokens r.chars ≤
        cfg.intraTurnResultBudgetTokens) ∨
    containsText prunedMarker content = true ∨
    files.locate (callName messages r.id) r content = none ∨
    ∃ path, files.locate (callName messages r.id) r content = some path ∧
      content.length ≤ (markerText path).length

theorem shrunkText_lt {files : OutputFiles} {tool : String → String} {slot : ResultRef × String}
    {text : String} (hchars : slot.1.chars=slot.2.length)
    (h : shrunkText files tool slot = some text) : text.length < slot.2.length := by
  unfold shrunkText at h
  split_ifs at h
  split at h
  · cases h
  · split_ifs at h with hlong
    rw [← hchars,← Option.some.inj h]
    exact Nat.not_le.mp hlong

theorem notMem_of_exempt {budget retained : Nat} {kept : List String} {r : ResultRef}
    {results : List ResultRef} (h : r.isError=true ∨ r.id∈kept) :
    r ∉ selectPrune budget kept retained results := by
  induction results generalizing retained with
  | nil => exact not_mem_nil
  | cons x rest ih =>
    rw [selectPrune]
    split_ifs with hexempt
    · exact ih
    · exact ih
    · rw [mem_cons,not_or]
      refine ⟨fun heq => hexempt ?_,ih⟩
      rw [← heq,Bool.or_eq_true,decide_eq_true_eq]
      exact h

theorem shrunkText_eq_none {files : OutputFiles} {tool : String → String}
    {slot : ResultRef × String} (h : shrunkText files tool slot = none) :
    containsText prunedMarker slot.2 = true ∨ files.locate (tool slot.1.id) slot.1 slot.2 = none ∨
      ∃ path, files.locate (tool slot.1.id) slot.1 slot.2 = some path ∧
        slot.1.chars ≤ (markerText path).length := by
  unfold shrunkText at h
  split_ifs at h with hmarked
  · exact .inl hmarked
  · split at h
    · rename_i hnone
      exact .inr (.inl hnone)
    · rename_i path hpath
      split_ifs at h with hlong
      exact .inr (.inr ⟨path,hpath,hlong⟩)

theorem resultKept (files : OutputFiles) {i j : Nat} {id content : String} {isError : Bool}
    (hb : blockAt messages i j = some (.toolResult id content isError)) :
    ResultKept files cfg messages ⟨i,j,id,isError,content.length⟩ content
      ((onlyFor (shrunkText files (callName messages)) (toPrune cfg (resultRefs messages))
        (⟨i,j,id,isError,content.length⟩, content)).getD content) := by
  generalize hr : (⟨i,j,id,isError,content.length⟩ : ResultRef) = r
  have hslot : (r, content) ∈ slots messages := by
    rw [← hr]
    exact mem_slots.mpr ⟨_,hb,rfl⟩
  have hchars : r.chars=content.length := chars_of_mem_slots hslot
  have hmem : r ∈ (resultRefs messages).reverse := by
    rw [mem_reverse,resultRefs_eq]
    exact mem_map_of_mem hslot
  have hnodup : (resultRefs messages).reverse.Nodup := by
    have hplaces : ((resultRefs messages).map place).Nodup := by
      rw [resultRefs_eq,map_map]
      exact slots_places_nodup messages
    exact nodup_reverse.mpr (List.Nodup.of_map place hplaces)
  obtain ⟨newer,older,hsplit⟩ := append_of_mem hmem
  unfold onlyFor
  by_cases hpruned : r ∈ toPrune cfg (resultRefs messages)
  · rw [if_pos hpruned]
    refine ⟨fun hexempt => absurd hpruned ?_,?_,fun hkept _ _ => .inr ?_⟩
    · exact notMem_of_exempt hexempt
    · cases hshrunk : shrunkText files (callName messages) (r, content) with
      | none => exact le_rfl
      | some text => exact (shrunkText_lt hchars hshrunk).le
    · cases hshrunk : shrunkText files (callName messages) (r, content) with
      | none => exact hchars ▸ shrunkText_eq_none hshrunk
      | some text =>
        rw [hshrunk] at hkept
        have hlt := shrunkText_lt hchars hshrunk
        rw [show text=content from hkept] at hlt
        exact absurd hlt (Nat.lt_irrefl _)
  · rw [if_neg hpruned]
    refine ⟨fun _ => rfl,le_rfl,fun _ hsuccess hopen => .inl ⟨newer,older,hsplit,?_⟩⟩
    unfold toPrune at hpruned ⊢
    rw [hsplit] at hpruned hnodup ⊢
    have hfits := fits_of_notMem_selectPrune older newer 0 hnodup hpruned (by simp [hsuccess,hopen])
    omega

/-- How a block may differ after the pass. -/
def BlockKept (files : OutputFiles) (cfg : ToolOutputConfig) (messages : List Message) (i j : Nat) :
    ContentBlock → ContentBlock → Prop
  | .toolResult id content isError, after =>
    ∃ content', after = .toolResult id content' isError ∧
      ResultKept files cfg messages ⟨i,j,id,isError,content.length⟩ content content'
  | .toolCall id name input, after =>
    ∃ input', after = .toolCall id name input' ∧
      (truncatedArgumentChars ≤ cfg.oldArgumentMaxChars → Shortened NoLonger input input')
  | before, after => after=before

/-- Microcompaction keeps the shape of a history, and of every block what it has to keep. -/
theorem microcompactHistory_keeps (files : OutputFiles) (cfg : ToolOutputConfig)
    (messages : List Message) :
    (microcompactHistory files cfg messages).1.map messageShape = messages.map messageShape ∧
    ∀ i j, ∀ before ∈ blockAt messages i j,
      ∃ after ∈ blockAt (microcompactHistory files cfg messages).1 i j,
        BlockKept files cfg messages i j before after := by
  refine ⟨microcompactHistory_shape files cfg messages,fun i j before hbefore => ?_⟩
  have htruncate : ∀ (ids : List String) (n : Nat) (ms : List Message),
      blockAt (truncateMessages ids n ms) i j =
        (blockAt ms i j).map fun b => (truncateOldArguments ids n b).1 := by
    intro ids n ms
    simp only [blockAt,truncateMessages,truncateMessage,getElem?_map,Option.bind_eq_bind]
    cases ms[i]? with
    | none => rfl
    | some m => simp [Function.comp_def]
  rw [microcompactHistory_messages,htruncate,blockAt_rewriteResults,hbefore]
  refine ⟨_,rfl,?_⟩
  cases before with
  | toolResult => exact ⟨_,rfl,resultKept files hbefore⟩
  | toolCall id name input => exact shortened_truncateOldArguments _ _ id name input
  | text | image | thinking | providerState => rfl

def twoResults : List Message :=
  [{ role := .user, content :=
      [.toolResult "t" (String.ofList (List.replicate 60 'a')) false, .toolResult "u" "b" false] }]

def newestOnly : ToolOutputConfig :=
  { intraTurnResultBudgetTokens := 0, intraTurnKeepRecentResults := 1 }

/-- The newest result is protected. -/
theorem microcompactHistory_keeps_newest : ∃ (files : OutputFiles) (after : ContentBlock),
    after ∈ blockAt (microcompactHistory files newestOnly twoResults).1 0 1 ∧
      BlockKept files newestOnly twoResults 0 1 (.toolResult "u" "b" false) after :=
  ⟨.unavailable,(microcompactHistory_keeps .unavailable newestOnly twoResults).2 0 1 _ rfl⟩

/-- A result that cannot be stored stays, over budget as it is and longer than a marker. -/
theorem unstored_result_stays : ∃ files : OutputFiles,
    (microcompactHistory files newestOnly twoResults).1 = twoResults ∧
    protectedRecent newestOnly (resultRefs twoResults) = ["u"] ∧
    newestOnly.intraTurnResultBudgetTokens < estimatedTokens 60 ∧
    (markerText "/out/t.txt").length < 60 :=
  ⟨.unavailable,by decide +kernel,by decide,by decide,by decide⟩

end Pass

section SummaryCap

variable {content path phrase : List Char}

end SummaryCap

end Daimonos.ToolOutput
