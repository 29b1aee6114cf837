import Daimonos.ToolOutput.Microcompact

namespace Daimonos.ToolOutput

open Providers List

deriving instance DecidableEq for ResultRef

section Slots

def blockSlot (i j : Nat) : ContentBlock → Option (ResultRef × String)
  | .toolResult id content isError => some (⟨i,j,id,isError,content.length⟩, content)
  | _ => none

def slots (messages : List Message) : List (ResultRef × String) :=
  messages.zipIdx.flatMap fun (m, i) => m.content.zipIdx.filterMap fun (b, j) => blockSlot i j b

variable {messages : List Message} {slot : ResultRef × String}

theorem resultRefs_eq : resultRefs messages = (slots messages).map Prod.fst := by
  simp only [resultRefs,slots,map_flatMap,map_filterMap]
  congr 1
  funext ⟨m,i⟩
  congr 1
  funext ⟨b,j⟩
  cases b <;> rfl

theorem mem_slots : slot ∈ slots messages ↔
    ∃ b, blockAt messages slot.1.message slot.1.block = some b ∧
      blockSlot slot.1.message slot.1.block b = some slot := by
  simp only [slots,mem_flatMap,mem_filterMap,Prod.exists,mem_zipIdx_iff_getElem?,
    blockAt,Option.bind_eq_bind,Option.bind_eq_some_iff]
  constructor
  · rintro ⟨m,i,hm,b,j,hb,hslot⟩
    have hpos : slot.1.message=i ∧ slot.1.block=j := by
      cases b <;> cases hslot
      exact ⟨rfl,rfl⟩
    obtain ⟨rfl,rfl⟩ := hpos
    exact ⟨b,⟨m,hm,hb⟩,hslot⟩
  · rintro ⟨b,⟨m,hm,hb⟩,hslot⟩
    exact ⟨m,_,hm,b,_,hb,hslot⟩

def place (r : ResultRef) : Nat × Nat := (r.message, r.block)

theorem zipIdx_pairwise {α : Type*} (l : List α) : l.zipIdx.Pairwise fun a b => a.2<b.2 := by
  rw [← pairwise_map (f := Prod.snd) (R := (· < ·)),zipIdx_map_snd]
  exact pairwise_lt_range' 1

theorem place_of_blockSlot {i j : Nat} {b : ContentBlock} (h : blockSlot i j b = some slot) :
    place slot.1 = (i, j) := by
  cases b <;> cases h
  rfl

theorem slots_places_nodup (messages : List Message) :
    ((slots messages).map fun slot => place slot.1).Nodup := by
  rw [List.Nodup,pairwise_map,slots,pairwise_flatMap]
  constructor
  · rintro ⟨m,i⟩ -
    rw [pairwise_filterMap]
    refine (zipIdx_pairwise m.content).imp ?_
    intro ⟨b,j⟩ ⟨b',j'⟩ hlt slot hslot slot' hslot' heq
    rw [place_of_blockSlot hslot,place_of_blockSlot hslot',Prod.mk.injEq] at heq
    exact absurd heq.2 (Nat.ne_of_lt hlt)
  · refine (zipIdx_pairwise messages).imp ?_
    intro ⟨m,i⟩ ⟨m',i'⟩ hlt slot hslot slot' hslot' heq
    obtain ⟨⟨b,j⟩,-,hb⟩ := mem_filterMap.mp hslot
    obtain ⟨⟨b',j'⟩,-,hb'⟩ := mem_filterMap.mp hslot'
    rw [place_of_blockSlot hb,place_of_blockSlot hb',Prod.mk.injEq] at heq
    exact absurd heq.1 (Nat.ne_of_lt hlt)

theorem chars_of_mem_slots (h : slot ∈ slots messages) : slot.1.chars=slot.2.length := by
  obtain ⟨b,-,hb⟩ := mem_slots.mp h
  cases b with
  | toolResult => rw [← Option.some.inj hb]
  | _ => cases hb

theorem eq_of_place_eq {slot' : ResultRef × String} (h : slot ∈ slots messages)
    (h' : slot' ∈ slots messages) (hplace : place slot.1 = place slot'.1) : slot=slot' := by
  obtain ⟨b,hb,hslot⟩ := mem_slots.mp h
  obtain ⟨b',hb',hslot'⟩ := mem_slots.mp h'
  obtain ⟨hmessage,hblock⟩ := Prod.mk.inj hplace
  rw [← hmessage,← hblock] at hb' hslot'
  obtain rfl := Option.some.inj (hb.symm.trans hb')
  exact Option.some.inj (hslot.symm.trans hslot')

end Slots

section Rewriting

variable {messages : List Message} {change other : ResultRef × String → Option String}
  {slot : ResultRef × String}

def rewriteBlock (change : ResultRef × String → Option String) (i j : Nat) :
    ContentBlock → ContentBlock
  | .toolResult id content isError =>
    .toolResult id ((change (⟨i,j,id,isError,content.length⟩, content)).getD content) isError
  | b => b

/-- Give results new texts, each as a function of the result and its old text. -/
def rewriteResults (change : ResultRef × String → Option String) (messages : List Message) :
    List Message :=
  messages.mapIdx fun i m => { m with content := m.content.mapIdx (rewriteBlock change i) }

def applied (change : ResultRef × String → Option String) (slot : ResultRef × String) :
    ResultRef × String :=
  match change slot with
  | some text => ({ slot.1 with chars := text.length }, text)
  | none => slot

theorem applied_snd : (applied change slot).2 = (change slot).getD slot.2 := by
  unfold applied
  cases change slot <;> rfl

theorem applied_fst :
    (applied change slot).1.id = slot.1.id ∧ (applied change slot).1.isError = slot.1.isError := by
  unfold applied
  cases change slot <;> exact ⟨rfl,rfl⟩

theorem place_applied : place (applied change slot).1 = place slot.1 := by
  unfold applied
  cases change slot <;> rfl

theorem applied_of_none (h : change slot = none) : applied change slot = slot := by
  rw [applied,h]

theorem zipIdx_mapIdx {α β : Type*} (f : Nat → α → β) (l : List α) :
    (l.mapIdx f).zipIdx = l.zipIdx.map fun p => (f p.2 p.1, p.2) := by
  apply ext_getElem?
  intro i
  rw [getElem?_zipIdx,getElem?_mapIdx,getElem?_map,getElem?_zipIdx]
  cases l[i]? <;> simp

theorem blockSlot_rewriteBlock (i j : Nat) (b : ContentBlock) :
    blockSlot i j (rewriteBlock change i j b) = (blockSlot i j b).map (applied change) := by
  cases b with
  | toolResult id content isError =>
    simp only [rewriteBlock,blockSlot,applied,Option.map_some]
    cases change (⟨i,j,id,isError,content.length⟩, content) <;> rfl
  | _ => rfl

theorem slots_rewriteResults :
    slots (rewriteResults change messages) = (slots messages).map (applied change) := by
  simp only [slots,rewriteResults,zipIdx_mapIdx,flatMap_map,filterMap_map,
    map_flatMap,map_filterMap,Function.comp_def,blockSlot_rewriteBlock]

theorem blockAt_rewriteResults (change : ResultRef × String → Option String)
    (messages : List Message) (i j : Nat) :
    blockAt (rewriteResults change messages) i j =
      (blockAt messages i j).map (rewriteBlock change i j) := by
  simp only [blockAt,rewriteResults,getElem?_mapIdx,Option.bind_eq_bind]
  cases messages[i]? with
  | none => rfl
  | some m => simp only [Option.map_some,Option.bind_some,getElem?_mapIdx]

theorem rewriteResults_congr (other : ResultRef × String → Option String)
    (h : ∀ slot ∈ slots messages, (change slot).getD slot.2 = (other slot).getD slot.2) :
    rewriteResults change messages = rewriteResults other messages := by
  unfold rewriteResults
  rw [mapIdx_eq_mapIdx_iff]
  intro i hi
  congr 1
  rw [mapIdx_eq_mapIdx_iff]
  intro j hj
  cases hb : messages[i].content[j] with
  | toolResult id content isError =>
    have hslot : ((⟨i,j,id,isError,content.length⟩, content) : ResultRef × String) ∈
        slots messages := by
      refine mem_slots.mpr ⟨.toolResult id content isError,?_,rfl⟩
      simp only [blockAt,getElem?_eq_getElem hi,Option.bind_eq_bind,Option.bind_some,
        getElem?_eq_getElem hj,hb]
    rw [rewriteBlock,rewriteBlock,h _ hslot]
  | _ => rfl

theorem mapIdx_eq_self {α : Type*} {f : Nat → α → α} {l : List α}
    (h : ∀ i a, l[i]? = some a → f i a = a) : l.mapIdx f = l := by
  apply ext_getElem?
  intro i
  rw [getElem?_mapIdx]
  cases ha : l[i]? with
  | none => rfl
  | some a => rw [Option.map_some,h i a ha]

theorem rewriteResults_none : rewriteResults (fun _ => none) messages = messages := by
  refine mapIdx_eq_self fun i m _ => ?_
  have hcontent : m.content.mapIdx (rewriteBlock (fun _ => none) i) = m.content := by
    refine mapIdx_eq_self fun j b _ => ?_
    cases b <;> rfl
  rw [hcontent]

theorem rewriteResults_eq_self_iff :
    rewriteResults change messages = messages ↔
      ∀ slot ∈ slots messages, (change slot).getD slot.2 = slot.2 := by
  constructor
  · intro h slot hslot
    obtain ⟨b,hb,hb'⟩ := mem_slots.mp hslot
    have hsame := blockAt_rewriteResults change messages slot.1.message slot.1.block
    rw [h,hb,Option.map_some,Option.some_inj] at hsame
    cases b with
    | toolResult =>
      rw [rewriteBlock,ContentBlock.toolResult.injEq] at hsame
      rw [← Option.some.inj hb'] at hsame ⊢
      exact hsame.2.1.symm
    | _ => cases hb'
  · intro h
    rw [rewriteResults_congr (fun _ => none) h,rewriteResults_none]

theorem rewriteResults_rewriteResults :
    rewriteResults other (rewriteResults change messages) =
      rewriteResults (fun slot => some (applied other (applied change slot)).2) messages := by
  simp only [rewriteResults,mapIdx_mapIdx,Function.comp_def]
  congr 1
  funext i m
  congr 2
  funext j b
  cases b with
  | toolResult id content isError =>
    simp only [rewriteBlock,applied,Option.getD_some]
    cases change (⟨i,j,id,isError,content.length⟩, content) with
    | none =>
      simp only [Option.getD_none]
      cases other (⟨i,j,id,isError,content.length⟩, content) <;> rfl
    | some text =>
      simp only [Option.getD_some]
      cases other (⟨i,j,id,isError,text.length⟩, text) <;> rfl
  | _ => rfl

end Rewriting

section Pruning

variable {files : OutputFiles} {tool : String → String} {messages : List Message}
  {item : ResultRef} {items : List ResultRef} {slot : ResultRef × String}
  {shrunk : ResultRef × String → Option String}

def markerText (path : String) : String := "[" ++ prunedMarker ++ " " ++ path ++ "]"

/-- The text that pruning puts in the place of a result, if it does. -/
def shrunkText (files : OutputFiles) (tool : String → String) (slot : ResultRef × String) :
    Option String :=
  if containsText prunedMarker slot.2 then none
  else
    match files.locate (tool slot.1.id) slot.1 slot.2 with
    | none => none
    | some path =>
      if (markerText path).length ≥ slot.1.chars then none else some (markerText path)

def onlyFor (shrunk : ResultRef × String → Option String) (items : List ResultRef)
    (slot : ResultRef × String) : Option String :=
  if slot.1∈items then shrunk slot else none

theorem rewriteBlock_elsewhere {i j : Nat} {text : Option String} (h : (i, j) ≠ place item)
    (b : ContentBlock) :
    rewriteBlock (fun slot => if slot.1=item then text else none) i j b = b := by
  cases b with
  | toolResult id content isError =>
    have hne : (⟨i,j,id,isError,content.length⟩ : ResultRef) ≠ item := by
      rintro rfl
      exact h rfl
    simp only [rewriteBlock,if_neg hne,Option.getD_none]
  | _ => rfl

theorem setBlock_eq_rewriteResults {content text : String}
    (hb : blockAt messages item.message item.block =
      some (.toolResult item.id content item.isError))
    (hchars : content.length=item.chars) :
    setBlock messages item.message item.block (.toolResult item.id text item.isError) =
      rewriteResults (fun slot => if slot.1=item then some text else none) messages := by
  obtain ⟨m,hm,hcontent⟩ := Option.bind_eq_some_iff.mp hb
  apply ext_getElem?
  intro k
  rw [setBlock,getElem?_modify,rewriteResults,getElem?_mapIdx]
  by_cases hk : item.message=k
  · subst hk
    rw [hm,Option.map_eq_map,Option.map_some,Option.map_some,if_pos rfl]
    congr 2
    apply ext_getElem?
    intro l
    rw [getElem?_set,getElem?_mapIdx]
    by_cases hl : item.block=l
    · subst hl
      have hlt := (List.getElem?_eq_some_iff.mp hcontent).1
      have hitem : (⟨item.message,item.block,item.id,item.isError,content.length⟩ : ResultRef) =
          item := by rw [hchars]
      rw [if_pos rfl,if_pos hlt,hcontent,Option.map_some,rewriteBlock,hitem,if_pos rfl,
        Option.getD_some]
    · rw [if_neg hl]
      cases m.content[l]? with
      | none => rfl
      | some b =>
        rw [Option.map_some,rewriteBlock_elsewhere]
        exact fun heq => hl (Prod.mk.inj heq).2.symm
  · cases messages[k]? with
    | none => rfl
    | some m' =>
      have hsame : m'.content.mapIdx
          (rewriteBlock (fun slot => if slot.1=item then some text else none) k) = m'.content :=
        mapIdx_eq_self fun l b _ =>
          rewriteBlock_elsewhere (fun heq => hk (Prod.mk.inj heq).1.symm) b
      rw [Option.map_eq_map,Option.map_some,Option.map_some,if_neg hk,hsame]

theorem blockAt_of_mem_slots (h : slot ∈ slots messages) :
    blockAt messages slot.1.message slot.1.block =
      some (.toolResult slot.1.id slot.2 slot.1.isError) := by
  obtain ⟨b,hb,hslot⟩ := mem_slots.mp h
  cases b with
  | toolResult =>
    rw [hb,← Option.some.inj hslot]
  | _ => cases hslot

theorem pruneResult_eq (files : OutputFiles) (tool : String → String) (stats : MicrocompactStats)
    (hitem : item ∈ resultRefs messages) :
    (pruneResult files tool (messages, stats) item).1 =
      rewriteResults (onlyFor (shrunkText files tool) [item]) messages := by
  rw [resultRefs_eq] at hitem
  obtain ⟨slot,hslot,rfl⟩ := mem_map.mp hitem
  have hb := blockAt_of_mem_slots hslot
  have hchars := chars_of_mem_slots hslot
  have hshrunk : rewriteResults (onlyFor (shrunkText files tool) [slot.1]) messages =
      rewriteResults (fun s => if s.1=slot.1 then shrunkText files tool slot else none)
        messages := by
    refine rewriteResults_congr _ fun s hs => ?_
    rw [onlyFor]
    by_cases heq : s.1=slot.1
    · obtain rfl := eq_of_place_eq hs hslot (congrArg place heq)
      rw [if_pos (mem_singleton.mpr rfl),if_pos rfl]
    · rw [if_neg (mt mem_singleton.mp heq),if_neg heq]
  have hunchanged : shrunkText files tool slot = none →
      rewriteResults (onlyFor (shrunkText files tool) [slot.1]) messages = messages := by
    intro hnone
    rw [hshrunk,rewriteResults_eq_self_iff]
    intro s _
    rw [hnone,ite_self,Option.getD_none]
  unfold pruneResult
  rw [hb]
  dsimp only
  split_ifs with hmarked
  · exact (hunchanged (if_pos hmarked)).symm
  · split
    · rename_i hlocate
      refine (hunchanged ?_).symm
      rw [shrunkText,if_neg hmarked,hlocate]
    · rename_i path hlocate
      split_ifs with hlong
      · refine (hunchanged ?_).symm
        rw [shrunkText,if_neg hmarked,hlocate]
        exact if_pos hlong
      · have hsome : shrunkText files tool slot = some (markerText path) := by
          rw [shrunkText,if_neg hmarked,hlocate]
          exact if_neg hlong
        rw [hshrunk,hsome]
        exact setBlock_eq_rewriteResults hb hchars.symm

theorem onlyFor_of_notMem (h : place slot.1 ∉ items.map place) :
    onlyFor shrunk items slot = none :=
  if_neg fun hin => h (mem_map_of_mem hin)

theorem rewriteResults_onlyFor_cons {rest : List ResultRef} (hitem : place item ∉ rest.map place) :
    rewriteResults (onlyFor shrunk rest) (rewriteResults (onlyFor shrunk [item]) messages) =
      rewriteResults (onlyFor shrunk (item::rest)) messages := by
  rw [rewriteResults_rewriteResults]
  refine rewriteResults_congr _ fun slot hslot => ?_
  rw [Option.getD_some,applied_snd]
  by_cases heq : slot.1=item
  · have hnone : onlyFor shrunk rest (applied (onlyFor shrunk [item]) slot) = none := by
      refine onlyFor_of_notMem ?_
      rw [place_applied,heq]
      exact hitem
    have hboth : onlyFor shrunk [item] slot = onlyFor shrunk (item::rest) slot := by
      rw [onlyFor,onlyFor,if_pos (by simp [heq]),if_pos (by simp [heq])]
    rw [hnone,Option.getD_none,applied_snd,hboth]
  · have hnone : onlyFor shrunk [item] slot = none := if_neg (mt mem_singleton.mp heq)
    rw [applied_of_none hnone]
    simp only [onlyFor,mem_cons,heq,false_or]

theorem foldl_pruneResult (stats : MicrocompactStats) (hplaces : (items.map place).Nodup)
    (hitems : ∀ r∈items, r ∈ resultRefs messages) :
    (items.foldl (pruneResult files tool) (messages, stats)).1 =
      rewriteResults (onlyFor (shrunkText files tool) items) messages := by
  induction items generalizing messages stats with
  | nil =>
    have hnone : onlyFor (shrunkText files tool) [] = fun _ => none := by
      funext slot
      exact if_neg not_mem_nil
    rw [foldl_nil,hnone,rewriteResults_none]
  | cons item rest ih =>
    obtain ⟨hitem,hrest⟩ := nodup_cons.mp hplaces
    have hstep := pruneResult_eq files tool stats (hitems item mem_cons_self)
    rw [foldl_cons,← Prod.mk.eta (p := pruneResult files tool (messages, stats) item),hstep,
      ih _ hrest ?_,rewriteResults_onlyFor_cons hitem]
    intro r hr
    have hmem := hitems r (mem_cons_of_mem item hr)
    rw [resultRefs_eq] at hmem ⊢
    obtain ⟨slot,hslot,rfl⟩ := mem_map.mp hmem
    refine mem_map.mpr ⟨slot,?_,rfl⟩
    rw [slots_rewriteResults]
    refine mem_map.mpr ⟨slot,hslot,applied_of_none (onlyFor_of_notMem ?_)⟩
    rw [map_singleton,mem_singleton]
    intro heq
    exact hitem (heq ▸ mem_map_of_mem hr)

end Pruning

section Arguments

variable {protectedIds : List String} {maxChars : Nat} {messages : List Message}

theorem truncateString_idem {value text : String} {saved : Nat}
    (h : truncateString value maxChars = some (text, saved)) :
    truncateString text maxChars = none := by
  unfold truncateString at h
  split_ifs at h
  obtain ⟨rfl,-⟩ := Prod.mk.inj (Option.some.inj h)
  have hmarked : containsText argumentMarker
      (String.ofList (value.toList.take 20) ++ argumentMarker) = true := by
    rw [containsText,decide_eq_true_eq,String.toList_append]
    exact (suffix_append _ _).isInfix
  rw [truncateString,hmarked,Bool.or_true,if_pos rfl]

theorem truncateItems_idem (items : List Value) :
    (truncateItems maxChars (truncateItems maxChars items).1).1 =
      (truncateItems maxChars items).1 := by
  induction items with
  | nil => rfl
  | cons item rest ih =>
    simp only [truncateItems]
    split
    · rename_i text saved htext
      obtain ⟨value,-,hvalue⟩ := Option.bind_eq_some_iff.mp htext
      simp only [truncateItems,Value.asStr?,Option.bind_eq_bind,Option.bind_some,
        truncateString_idem hvalue,ih]
    · rename_i hnone
      simp only [truncateItems,hnone,ih]

theorem truncateOldArguments_idem (b : ContentBlock) :
    (truncateOldArguments protectedIds maxChars
      (truncateOldArguments protectedIds maxChars b).1).1 =
        (truncateOldArguments protectedIds maxChars b).1 := by
  cases b with
  | toolCall id name input =>
    by_cases hprotected : id∈protectedIds
    · simp only [truncateOldArguments,if_pos hprotected]
    by_cases hwrite : name = "write_file"
    · cases htext : input.get? "content" >>= Value.asStr? >>=
          fun text => truncateString text maxChars with
      | none =>
        simp only [truncateOldArguments,if_neg hprotected,if_pos hwrite,htext]
      | some result =>
        obtain ⟨value,hvalue,htruncated⟩ := Option.bind_eq_some_iff.mp htext
        obtain ⟨field,hfield,-⟩ := Option.bind_eq_some_iff.mp hvalue
        simp only [truncateOldArguments,if_neg hprotected,if_pos hwrite,htext]
        simp only [Value.get?_setField hfield,Option.bind_eq_bind,Option.bind_some,Value.asStr?,
          truncateString_idem htruncated]
    by_cases hedit : name = "edit_file"
    · by_cases hitems : ∃ items, input.get? "edits" = some (.array items)
      · obtain ⟨items,hitems⟩ := hitems
        simp only [truncateOldArguments,if_neg hprotected,if_neg hwrite,if_pos hedit,hitems,
          Value.get?_setField hitems,truncateItems_idem]
        rw [Value.setField_get? (Value.get?_setField hitems)]
      · have hsame : (truncateOldArguments protectedIds maxChars (.toolCall id name input)).1 =
            .toolCall id name input := by
          simp only [truncateOldArguments,if_neg hprotected,if_neg hwrite,if_pos hedit]
          split
          · rename_i items heq
            exact absurd ⟨items,heq⟩ hitems
          · rfl
        rw [hsame,hsame]
    · simp only [truncateOldArguments,if_neg hprotected,if_neg hwrite,if_neg hedit]
  | _ => rfl

def truncateMessages (protectedIds : List String) (maxChars : Nat) (messages : List Message) :
    List Message :=
  messages.map fun m => (truncateMessage protectedIds maxChars m).1

theorem truncateMessages_idem :
    truncateMessages protectedIds maxChars (truncateMessages protectedIds maxChars messages) =
      truncateMessages protectedIds maxChars messages := by
  simp only [truncateMessages,truncateMessage,map_map,Function.comp_def,
    truncateOldArguments_idem]

theorem blockSlot_truncate (i j : Nat) (b : ContentBlock) :
    blockSlot i j (truncateOldArguments protectedIds maxChars b).1 = blockSlot i j b := by
  have hshape := truncateOldArguments_shape protectedIds maxChars b
  cases b with
  | toolCall id name input =>
    cases hb : (truncateOldArguments protectedIds maxChars (.toolCall id name input)).1 with
    | toolResult =>
      rw [hb] at hshape
      cases hshape
    | _ => rfl
  | _ => rfl

theorem slots_truncateMessages :
    slots (truncateMessages protectedIds maxChars messages) = slots messages := by
  simp only [slots,truncateMessages,truncateMessage,map_map,Function.comp_def,
    zipIdx_map,Prod.map,id,flatMap_map,filterMap_map,blockSlot_truncate]

theorem rewriteBlock_truncate (change : ResultRef × String → Option String) (i j : Nat)
    (b : ContentBlock) :
    rewriteBlock change i j (truncateOldArguments protectedIds maxChars b).1 =
      (truncateOldArguments protectedIds maxChars (rewriteBlock change i j b)).1 := by
  have hshape := truncateOldArguments_shape protectedIds maxChars b
  cases b with
  | toolCall id name input =>
    show rewriteBlock change i j (truncateOldArguments protectedIds maxChars _).1 =
      (truncateOldArguments protectedIds maxChars (.toolCall id name input)).1
    cases hb : (truncateOldArguments protectedIds maxChars (.toolCall id name input)).1 with
    | toolResult =>
      rw [hb] at hshape
      cases hshape
    | _ => rfl
  | _ => rfl

theorem rewriteResults_truncateMessages (change : ResultRef × String → Option String) :
    rewriteResults change (truncateMessages protectedIds maxChars messages) =
      truncateMessages protectedIds maxChars (rewriteResults change messages) := by
  apply ext_getElem?
  intro i
  simp only [rewriteResults,truncateMessages,getElem?_mapIdx,getElem?_map,Option.map_map]
  congr 1
  funext m
  simp only [Function.comp_def,truncateMessage,map_map]
  congr 1
  apply ext_getElem?
  intro j
  simp only [getElem?_mapIdx,getElem?_map,Option.map_map]
  congr 1
  funext b
  exact rewriteBlock_truncate change i j b

end Arguments

section Passes

variable {files again : OutputFiles} {tool : String → String} {cfg : ToolOutputConfig}
  {messages : List Message}

/-- The newest successful results, which a pass keeps whatever they cost. -/
def protectedRecent (cfg : ToolOutputConfig) (results : List ResultRef) : List String :=
  ((results.filter fun r => !r.isError).reverse.take cfg.intraTurnKeepRecentResults).map (·.id)

def protectedCalls (cfg : ToolOutputConfig) (results : List ResultRef) : List String :=
  protectedRecent cfg results ++ (results.filter (·.isError)).map (·.id)

def toPrune (cfg : ToolOutputConfig) (results : List ResultRef) : List ResultRef :=
  selectPrune cfg.intraTurnResultBudgetTokens (protectedRecent cfg results) 0 results.reverse

theorem selectPrune_sublist (budget : Nat) (kept : List String) (retained : Nat)
    (results : List ResultRef) : (selectPrune budget kept retained results).Sublist results := by
  induction results generalizing retained with
  | nil => exact List.Sublist.refl []
  | cons r rest ih =>
    simp only [selectPrune]
    split_ifs
    · exact (ih _).cons r
    · exact (ih _).cons r
    · exact (ih _).cons_cons r

theorem places_nodup_toPrune (cfg : ToolOutputConfig) (messages : List Message) :
    ((toPrune cfg (resultRefs messages)).map place).Nodup := by
  have hall : ((resultRefs messages).map place).Nodup := by
    rw [resultRefs_eq,map_map]
    exact slots_places_nodup messages
  have hreverse : ((resultRefs messages).reverse.map place).Nodup := by
    rw [map_reverse]
    exact nodup_reverse.mpr hall
  exact hreverse.sublist ((selectPrune_sublist _ _ _ _).map place)

theorem microcompactHistory_messages (files : OutputFiles) (cfg : ToolOutputConfig)
    (messages : List Message) :
    (microcompactHistory files cfg messages).1 =
      truncateMessages (protectedCalls cfg (resultRefs messages)) cfg.oldArgumentMaxChars
        (rewriteResults
          (onlyFor (shrunkText files (callName messages)) (toPrune cfg (resultRefs messages))) messages) := by
  have hitems : ∀ r ∈ toPrune cfg (resultRefs messages), r ∈ resultRefs messages := fun r hr =>
    mem_reverse.mp ((selectPrune_sublist _ _ _ _).subset hr)
  rw [← foldl_pruneResult {} (places_nodup_toPrune cfg messages) hitems,truncateMessages,
    microcompactHistory]
  simp only [map_map,Function.comp_def]
  rfl

theorem slots_microcompactHistory :
    slots (microcompactHistory files cfg messages).1 =
      (slots messages).map
        (applied (onlyFor (shrunkText files (callName messages)) (toPrune cfg (resultRefs messages)))) := by
  rw [microcompactHistory_messages,slots_truncateMessages,slots_rewriteResults]

def callEntry : ContentBlock → Option (String × String)
  | .toolCall id name _ => some (id, name)
  | _ => none

theorem callName_eq (messages : List Message) (id : String) :
    callName messages id =
      (((messages.flatMap fun m => m.content.filterMap callEntry).reverse.find?
        fun c => c.1 == id).map (·.2)).getD "tool" := rfl

theorem callName_shape {messages messages' : List Message}
    (h : messages'.map messageShape = messages.map messageShape) :
    callName messages' = callName messages := by
  have hcalls : ∀ ms : List Message, (ms.flatMap fun m => m.content.filterMap callEntry) =
      (ms.map messageShape).flatMap fun m => m.content.filterMap callEntry := by
    intro ms
    rw [flatMap_map]
    congr 1
    funext m
    rw [messageShape,filterMap_map]
    congr 1
    funext b
    cases b <;> rfl
  funext id
  rw [callName_eq,callName_eq,hcalls messages',hcalls messages,h]

theorem protected_of_same {results results' : List ResultRef}
    (h : results'.map (fun r => (r.id, r.isError)) = results.map fun r => (r.id, r.isError)) :
    protectedRecent cfg results' = protectedRecent cfg results ∧
      protectedCalls cfg results' = protectedCalls cfg results := by
  have hfilter : ∀ (keep : Bool → Bool) (rs : List ResultRef),
      (rs.filter fun r => keep r.isError).map (·.id) =
        ((rs.map fun r => (r.id, r.isError)).filter fun p => keep p.2).map (·.1) := by
    intro keep rs
    rw [filter_map,map_map]
    rfl
  have hrecent : protectedRecent cfg results' = protectedRecent cfg results := by
    unfold protectedRecent
    rw [map_take,map_take,map_reverse,map_reverse,hfilter (!·),h,← hfilter (!·)]
  refine ⟨hrecent,?_⟩
  rw [protectedCalls,protectedCalls,hrecent,hfilter (·),h,← hfilter (·)]

end Passes

section Walk

variable {budget retained : Nat} {kept : List String} {shrunk : ResultRef × String → Option String}
  {slot : ResultRef × String} {rest : List (ResultRef × String)}

/-- From the newest result to the oldest, with what the first and the second pass retain: every
result that the first pass keeps for its size and that has a shorter marker still fits once the
markers of newer results are counted, as far as these fit themselves. -/
def stillFits (budget : Nat) (kept : List String) (shrunk : ResultRef × String → Option String) :
    Nat → Nat → List (ResultRef × String) → Bool
  | _, _, [] => true
  | first, second, slot::rest =>
    let tokens := estimatedTokens slot.1.chars
    if slot.1.isError || slot.1.id∈kept then
      stillFits budget kept shrunk (first+tokens) (second+tokens) rest
    else if first+tokens≤budget then
      if second+tokens≤budget then
        stillFits budget kept shrunk (first+tokens) (second+tokens) rest
      else (shrunk slot).isNone && stillFits budget kept shrunk (first+tokens) second rest
    else
      let left := estimatedTokens (applied shrunk slot).1.chars
      if second+left≤budget then stillFits budget kept shrunk first (second+left) rest
      else stillFits budget kept shrunk first second rest

theorem notMem_selectPrune {r : ResultRef} {results : List ResultRef}
    (h : place r ∉ results.map place) : r ∉ selectPrune budget kept retained results :=
  fun hin => h (mem_map_of_mem ((selectPrune_sublist _ _ _ _).subset hin))

def passed (budget : Nat) (kept : List String) (shrunk : ResultRef × String → Option String)
    (retained : Nat) (results : List (ResultRef × String)) : List (ResultRef × String) :=
  results.map (applied (onlyFor shrunk (selectPrune budget kept retained (results.map (·.1)))))

theorem places_passed : ((passed budget kept shrunk retained rest).map (·.1)).map place =
    (rest.map (·.1)).map place := by
  simp only [passed,map_map,Function.comp_def,place_applied]

theorem ne_of_place {r : ResultRef} {x : ResultRef × String}
    (h : place r ∉ (rest.map (·.1)).map place) (hx : x ∈ passed budget kept shrunk retained rest) :
    x.1≠r := by
  intro heq
  refine h ?_
  rw [← heq,← places_passed]
  exact mem_map_of_mem (mem_map_of_mem hx)

theorem passed_cons_kept {next : Nat} (hplace : place slot.1 ∉ (rest.map (·.1)).map place)
    (hselect : selectPrune budget kept retained (slot.1 :: rest.map (·.1)) =
      selectPrune budget kept next (rest.map (·.1))) :
    passed budget kept shrunk retained (slot::rest) =
      slot :: passed budget kept shrunk next rest := by
  have hnone : onlyFor shrunk (selectPrune budget kept next (rest.map (·.1))) slot = none :=
    if_neg (notMem_selectPrune hplace)
  rw [passed,map_cons,map_cons,hselect,applied_of_none hnone,passed]

theorem passed_cons_pruned (hplace : place slot.1 ∉ (rest.map (·.1)).map place)
    (hselect : selectPrune budget kept retained (slot.1 :: rest.map (·.1)) =
      slot.1 :: selectPrune budget kept retained (rest.map (·.1))) :
    passed budget kept shrunk retained (slot::rest) =
      applied shrunk slot :: passed budget kept shrunk retained rest := by
  rw [passed,map_cons,map_cons,hselect,passed]
  congr 1
  · rw [applied,onlyFor,if_pos mem_cons_self,applied]
  · refine map_congr_left fun x hx => ?_
    have hne : x.1≠slot.1 := by
      rintro heq
      exact hplace (heq ▸ mem_map_of_mem (mem_map_of_mem hx))
    simp only [applied,onlyFor,mem_cons,hne,false_or]

/-- What the second pass may still prune of the rewritten results, beside a result at another
place, is what it may prune of the others. -/
theorem forall_cons_selected {items : List ResultRef} {P : ResultRef × String → Prop}
    (h : slot.1 ∉ items) :
    (∀ x∈slot::rest, x.1∈items → P x) ↔ ∀ x∈rest, x.1∈items → P x := by
  rw [forall_mem_cons]
  exact and_iff_right fun hin => absurd hin h

theorem stillFits_iff {shrunk' : ResultRef × String → Option String}
    (hsame : ∀ slot, shrunk' slot = none ↔ shrunk slot = none)
    (hmarked : ∀ slot text, shrunk slot = some text → shrunk' (applied shrunk slot) = none)
    (first second : Nat) (results : List (ResultRef × String))
    (hplaces : ((results.map (·.1)).map place).Nodup) :
    (∀ x ∈ passed budget kept shrunk first results,
      x.1 ∈ selectPrune budget kept second ((passed budget kept shrunk first results).map (·.1)) →
      shrunk' x = none) ↔
    stillFits budget kept shrunk first second results = true := by
  induction results generalizing first second with
  | nil => simp [passed,stillFits]
  | cons slot rest ih =>
    rw [map_cons,map_cons,nodup_cons] at hplaces
    obtain ⟨hplace,hrest⟩ := hplaces
    have hnew : ∀ first second, slot.1 ∉
        selectPrune budget kept second ((passed budget kept shrunk first rest).map (·.1)) := by
      intro first second
      refine notMem_selectPrune ?_
      rw [places_passed]
      exact hplace
    by_cases hkept : (slot.1.isError || decide (slot.1.id∈kept)) = true
    · -- A protected result costs the same in both passes.
      rw [passed_cons_kept hplace (by rw [selectPrune,if_pos hkept]),map_cons,selectPrune,
        if_pos hkept,forall_cons_selected (hnew _ _),ih _ _ hrest,stillFits,if_pos hkept]
    by_cases hfits : first + estimatedTokens slot.1.chars ≤ budget
    · rw [passed_cons_kept hplace (by rw [selectPrune,if_neg hkept,if_pos hfits]),map_cons,
        selectPrune,if_neg hkept,stillFits,if_neg hkept,if_pos hfits]
      by_cases hagain : second + estimatedTokens slot.1.chars ≤ budget
      · rw [if_pos hagain,if_pos hagain,forall_cons_selected (hnew _ _),ih _ _ hrest]
      · -- The second pass selects a result that the first one kept.
        rw [if_neg hagain,if_neg hagain,Bool.and_eq_true,Option.isNone_iff_eq_none,← hsame,
          ← ih _ _ hrest,forall_mem_cons]
        refine and_congr (by simp) (forall₂_congr fun x hx => ?_)
        rw [mem_cons,or_iff_right (ne_of_place hplace hx)]
    · -- A result selected by the first pass is left alone by the second one in any case.
      have hkept' : ¬ ((applied shrunk slot).1.isError ||
          decide ((applied shrunk slot).1.id ∈ kept)) = true := by
        rw [applied_fst.1,applied_fst.2]
        exact hkept
      have hquiet : shrunk' (applied shrunk slot) = none := by
        cases htext : shrunk slot with
        | none =>
          rw [applied_of_none htext]
          exact (hsame slot).mpr htext
        | some text => exact hmarked slot text htext
      rw [passed_cons_pruned hplace (by rw [selectPrune,if_neg hkept,if_neg hfits]),
        map_cons,selectPrune,if_neg hkept',stillFits,if_neg hkept,if_neg hfits]
      have hplace' : place (applied shrunk slot).1 ∉ (rest.map (·.1)).map place := by
        rwa [place_applied]
      by_cases hagain : second + estimatedTokens (applied shrunk slot).1.chars ≤ budget
      · rw [if_pos hagain,if_pos hagain,forall_mem_cons,ih _ _ hrest]
        exact and_iff_right fun _ => hquiet
      · rw [if_neg hagain,if_neg hagain,forall_mem_cons,← ih _ _ hrest,
          and_iff_right fun _ => hquiet]
        refine forall₂_congr fun x hx => ?_
        rw [mem_cons,or_iff_right (ne_of_place hplace' hx)]

end Walk

section Repeated

variable {files again : OutputFiles} {tool : String → String} {cfg : ToolOutputConfig}
  {messages : List Message} {slot : ResultRef × String}

/-- Storage in two passes: every text is stored, under names of the same length, and the files that
texts name stay what they are. -/
structure StoresAgain (files again : OutputFiles) : Prop where
  existing : again.existing=files.existing
  isFile : ∀ content path, files.existing content = some path →
    again.isFile path = files.isFile path
  stored : ∀ item tool content, ∃ path path', files.storeFull item tool content = some path ∧
    again.storeFull item tool content = some path' ∧ path'.length=path.length

theorem StoresAgain.locate (h : StoresAgain files again) (tool : String) (item : ResultRef)
    (content : String) : ∃ path path', files.locate tool item content = some path ∧
      again.locate tool item content = some path' ∧ path'.length=path.length := by
  unfold OutputFiles.locate
  rw [h.existing]
  cases hexisting : files.existing content with
  | none => exact h.stored item tool content
  | some path =>
    dsimp only
    rw [h.isFile content path hexisting]
    split_ifs
    · exact ⟨path,path,rfl,rfl,rfl⟩
    · exact h.stored item tool content

theorem containsText_markerText (path : String) :
    containsText prunedMarker (markerText path) = true := by
  rw [containsText,decide_eq_true_eq,markerText]
  exact ⟨"[".toList," ".toList++path.toList ++ "]".toList,by simp⟩

theorem markerText_of_shrunkText {text : String}
    (h : shrunkText files tool slot = some text) :
    containsText prunedMarker slot.2 = false ∧ ∃ path, text = markerText path := by
  unfold shrunkText at h
  split_ifs at h with hmarked
  split at h
  · cases h
  · rename_i path hpath
    split_ifs at h
    exact ⟨by simpa using hmarked,path,(Option.some.inj h).symm⟩

theorem shrunkText_again (h : StoresAgain files again) (slot : ResultRef × String) :
    shrunkText again tool slot = none ↔ shrunkText files tool slot = none := by
  obtain ⟨path,path',hpath,hpath',hlength⟩ := h.locate (tool slot.1.id) slot.1 slot.2
  have hmarker : (markerText path').length = (markerText path).length := by
    simp only [markerText,String.length_append,hlength]
  unfold shrunkText
  split_ifs
  · exact Iff.rfl
  · rw [hpath,hpath']
    dsimp only
    rw [hmarker]
    split_ifs <;> simp

theorem shrunkText_applied (slot : ResultRef × String) (text : String)
    (h : shrunkText files tool slot = some text) :
    shrunkText again tool (applied (shrunkText files tool) slot) = none := by
  obtain ⟨-,path,rfl⟩ := markerText_of_shrunkText h
  rw [applied,h,shrunkText]
  exact if_pos (containsText_markerText path)

theorem getD_onlyFor_iff {items : List ResultRef} :
    (onlyFor (shrunkText files tool) items slot).getD slot.2 = slot.2 ↔
      (slot.1∈items → shrunkText files tool slot = none) := by
  unfold onlyFor
  split_ifs with hin
  · cases htext : shrunkText files tool slot with
    | none => simp
    | some text =>
      obtain ⟨hclean,path,rfl⟩ := markerText_of_shrunkText htext
      have hne : markerText path ≠ slot.2 := by
        intro heq
        rw [← heq,containsText_markerText] at hclean
        cases hclean
      simp [hin,hne]
  · simp [hin]

theorem protected_microcompactHistory (files : OutputFiles) (cfg : ToolOutputConfig)
    (messages : List Message) :
    let results := resultRefs (microcompactHistory files cfg messages).1
    protectedRecent cfg results = protectedRecent cfg (resultRefs messages) ∧
      protectedCalls cfg results = protectedCalls cfg (resultRefs messages) := by
  refine protected_of_same ?_
  rw [resultRefs_eq,slots_microcompactHistory,resultRefs_eq]
  simp only [map_map,Function.comp_def,applied_fst]

theorem microcompactHistory_again (files again : OutputFiles) (cfg : ToolOutputConfig)
    (messages : List Message) :
    let once := (microcompactHistory files cfg messages).1
    (microcompactHistory again cfg once).1 =
      rewriteResults (onlyFor (shrunkText again (callName messages))
        (toPrune cfg (resultRefs once))) once := by
  intro once
  have hname : callName once = callName messages :=
    callName_shape (microcompactHistory_shape files cfg messages)
  have hcalls : protectedCalls cfg (resultRefs once) = protectedCalls cfg (resultRefs messages) :=
    (protected_microcompactHistory files cfg messages).2
  have hdone : truncateMessages (protectedCalls cfg (resultRefs messages)) cfg.oldArgumentMaxChars
      once=once := by
    show truncateMessages _ _ (microcompactHistory files cfg messages).1 =
      (microcompactHistory files cfg messages).1
    rw [microcompactHistory_messages,truncateMessages_idem]
  rw [microcompactHistory_messages again cfg once,hname,hcalls,
    ← rewriteResults_truncateMessages,hdone]

/-- A second pass changes nothing exactly if every result the first one kept for its size, with a
shorter marker, still fits beside the markers. -/
theorem microcompactHistory_repeated (h : StoresAgain files again) (cfg : ToolOutputConfig)
    (messages : List Message) :
    (microcompactHistory again cfg (microcompactHistory files cfg messages).1).1 =
        (microcompactHistory files cfg messages).1 ↔
      stillFits cfg.intraTurnResultBudgetTokens (protectedRecent cfg (resultRefs messages))
        (shrunkText files (callName messages)) 0 0 (slots messages).reverse = true := by
  have hplaces : (((slots messages).reverse.map (·.1)).map place).Nodup := by
    rw [map_reverse,map_reverse,nodup_reverse,map_map]
    exact slots_places_nodup messages
  have hrecent := (protected_microcompactHistory files cfg messages).1
  rw [microcompactHistory_again,rewriteResults_eq_self_iff,
    ← stillFits_iff (shrunkText_again h) shrunkText_applied 0 0 _ hplaces]
  simp only [getD_onlyFor_iff,toPrune,hrecent]
  simp only [passed,resultRefs_eq,slots_microcompactHistory,toPrune,← map_reverse,mem_map,
    mem_reverse]

def plainStore : OutputFiles where
  existing := fun _ => none
  isFile := fun _ => false
  storeFull := fun _ _ _ => some "/o/x"

theorem plainStore_storesAgain : StoresAgain plainStore plainStore where
  existing := rfl
  isFile := fun _ _ _ => rfl
  stored := fun _ _ _ => ⟨"/o/x","/o/x",rfl,rfl,rfl⟩

def smallBudget : ToolOutputConfig where
  intraTurnResultBudgetTokens := 20
  intraTurnKeepRecentResults := 1
  oldArgumentMaxChars := 20

def threeResults (oldest middle newest : Nat) : List Message :=
  [{ role := .assistant
     content := [.toolCall "a" "search" .null, .toolCall "b" "search" .null,
       .toolCall "c" "search" .null] },
   { role := .user
     content := [.toolResult "a" (String.ofList (List.replicate oldest 'x')) false,
       .toolResult "b" (String.ofList (List.replicate middle 'x')) false,
       .toolResult "c" (String.ofList (List.replicate newest 'x')) false] }]

/-- The two older results are both too long and are pruned at once. -/
theorem microcompactHistory_repeated_long :
    (microcompactHistory plainStore smallBudget
        (microcompactHistory plainStore smallBudget (threeResults 100 100 1)).1).1 =
      (microcompactHistory plainStore smallBudget (threeResults 100 100 1)).1 :=
  (microcompactHistory_repeated plainStore_storesAgain smallBudget (threeResults 100 100 1)).mpr
    (by decide +kernel)

/-- The first pass prunes the middle result and keeps the oldest one, whose fifteen tokens fit
beside the newest; the marker of the middle result then takes thirteen tokens, and the second pass
prunes the oldest. -/
theorem microcompactHistory_not_idempotent :
    (0 < smallBudget.intraTurnResultBudgetTokens ∧ 0 < smallBudget.intraTurnKeepRecentResults ∧
      20 ≤ smallBudget.oldArgumentMaxChars) ∧ StoresAgain plainStore plainStore ∧
    (microcompactHistory plainStore smallBudget
        (microcompactHistory plainStore smallBudget (threeResults 60 100 1)).1).1 ≠
      (microcompactHistory plainStore smallBudget (threeResults 60 100 1)).1 := by
  refine ⟨by decide,plainStore_storesAgain,?_⟩
  decide +kernel

end Repeated

end Daimonos.ToolOutput
