import Daimonos.Framework.Keyed
import Daimonos.Session.TimelineCounts

namespace Daimonos.Session

open Framework List ActiveToolState

def TimelineEntryKind.toolState? : TimelineEntryKind → Option (String × ToolCallStateStatus)
  | .tool toolCallId _ _ status _ _ => some (toolCallId, status)
  | _ => none

def TimelineEntryKind.isEnded (entry : TimelineEntryKind) : Bool :=
  entry.toolState?.any fun p => p.2.isTerminal

namespace TimelineReducer

def applyAll (r : TimelineReducer) (events : List SessionEvent) : TimelineReducer :=
  events.foldl apply r

theorem applyAll_append (r : TimelineReducer) (before after : List SessionEvent) :
    r.applyAll (before++after) = (r.applyAll before).applyAll after := foldl_append

/-- The retained tool entries and the active tools tell the same story. -/
structure ToolsAgree (r : TimelineReducer) : Prop where
  active : ∀ t∈r.activeTools, t.status.isTerminal=false
  counted : ∀ e∈r.timeline, ∀ toolCallId status, e.entry.toolState? = some (toolCallId, status) →
    (status.isTerminal=false ↔
      (r.activeTools.map occurrenceId).count e.id = 1)
  same : ∀ e∈r.timeline, ∀ toolCallId status, e.entry.toolState? = some (toolCallId, status) →
    ∀ t∈r.activeTools, t.occurrenceId=e.id → t.toolCallId=toolCallId ∧ t.status=status

/-- The same in the form the operations keep: occurrences are distinct, an active tool whose entry
is retained is shown by it, and a retained entry that is not terminal is held by an active tool. -/
structure Paired (r : TimelineReducer) : Prop where
  ids : IdsOk r
  active : ∀ t∈r.activeTools, t.status.isTerminal=false
  distinct : (r.activeTools.map occurrenceId).Nodup
  minted : ∀ t∈r.activeTools, t.occurrenceId < r.nextId
  shown : ∀ t∈r.activeTools, ∀ e∈r.timeline, e.id=t.occurrenceId →
    e.entry.toolState? = some (t.toolCallId, t.status)
  held : ∀ e∈r.timeline, ∀ toolCallId status, e.entry.toolState? = some (toolCallId, status) →
    status.isTerminal=false → ∃ t∈r.activeTools, t.occurrenceId=e.id

variable {r : TimelineReducer}

theorem Paired.agree (h : Paired r) : ToolsAgree r where
  active := h.active
  counted e he toolCallId status hstate := by
    constructor
    · intro hopen
      obtain ⟨t,ht,hocc⟩ := h.held e he toolCallId status hstate hopen
      exact count_eq_one_of_mem h.distinct (mem_map.mpr ⟨t,ht,hocc⟩)
    · intro hone
      have hmem : e.id ∈ r.activeTools.map occurrenceId :=
        count_pos_iff.mp (Nat.lt_of_lt_of_eq Nat.one_pos hone.symm)
      obtain ⟨t,ht,hocc⟩ := mem_map.mp hmem
      have hshown := h.shown t ht e he hocc.symm
      rw [hstate] at hshown
      obtain ⟨-,hstatus⟩ := Prod.mk.inj (Option.some.inj hshown)
      rw [hstatus]
      exact h.active t ht
  same e he toolCallId status hstate t ht hocc := by
    have hshown := h.shown t ht e he hocc.symm
    rw [hstate] at hshown
    obtain ⟨hid,hstatus⟩ := Prod.mk.inj (Option.some.inj hshown)
    exact ⟨hid.symm,hstatus.symm⟩

theorem Paired.congr {r' : TimelineReducer} (h : Paired r)
    (htimeline : (r'.timeline.map fun e => (e.id, e.entry.toolState?)) =
      r.timeline.map fun e => (e.id, e.entry.toolState?))
    (htools : r'.activeTools=r.activeTools) (hnext : r'.nextId=r.nextId) : Paired r' := by
  have hmem : ∀ e∈r'.timeline, ∃ e₀∈r.timeline, e₀.id=e.id ∧
      e₀.entry.toolState? = e.entry.toolState? := by
    intro e he
    have hpair : (e.id, e.entry.toolState?) ∈ r'.timeline.map fun e => (e.id, e.entry.toolState?) :=
      mem_map_of_mem he
    rw [htimeline] at hpair
    obtain ⟨e₀,he₀,heq⟩ := mem_map.mp hpair
    obtain ⟨hid,hstate⟩ := Prod.mk.inj heq
    exact ⟨e₀,he₀,hid,hstate⟩
  have hids : r'.timeline.map TimelineEntry.id = r.timeline.map TimelineEntry.id := by
    have := congrArg (List.map Prod.fst) htimeline
    simpa [Function.comp_def] using this
  refine ⟨⟨hids ▸ h.ids.increasing,fun e he => ?_⟩,htools ▸ h.active,htools ▸ h.distinct,
    fun t ht => ?_,fun t ht e he hid => ?_,fun e he toolCallId status hstate hopen => ?_⟩
  · obtain ⟨e₀,he₀,hid,-⟩ := hmem e he
    rw [← hid,hnext]
    exact h.ids.minted e₀ he₀
  · rw [hnext]
    exact h.minted t (htools ▸ ht)
  · obtain ⟨e₀,he₀,hid₀,hstate⟩ := hmem e he
    rw [← hstate]
    exact h.shown t (htools ▸ ht) e₀ he₀ (hid₀.trans hid)
  · obtain ⟨e₀,he₀,hid₀,hstate₀⟩ := hmem e he
    rw [htools,← hid₀]
    exact h.held e₀ he₀ toolCallId status (hstate₀.trans hstate) hopen

variable {entry : TimelineEntryKind}

theorem Paired.push (h : Paired r)
    (htool : entry.toolState?=none) (hsaturated : (r.push entry).2.nextId < u64Max) :
    Paired (r.push entry).2 := by
  obtain ⟨-,-,htools,hnext⟩ := push_eq entry r
  have hsucc := nextId_of_unsaturated (hnext ▸ hsaturated)
  refine ⟨h.ids.push entry hsaturated,htools ▸ h.active,htools ▸ h.distinct,fun t ht => ?_,
    fun t ht e he hid => ?_,fun e he toolCallId status hstate hopen => ?_⟩
  · rw [hnext,hsucc]
    exact Nat.lt_succ_of_lt (h.minted t (htools ▸ ht))
  · rw [htools] at ht
    rcases mem_push he with hold | rfl
    · exact h.shown t ht e hold hid
    · exact absurd (h.minted t ht) (Nat.not_lt.mpr (Nat.le_of_eq hid))
  · rw [htools]
    rcases mem_push he with hold | rfl
    · exact h.held e hold toolCallId status hstate hopen
    · rw [htool] at hstate
      cases hstate

theorem Paired.startTool (h : Paired r)
    {tool : ActiveToolState} (hocc : tool.occurrenceId=r.nextId)
    (hstate : entry.toolState? = some (tool.toolCallId, tool.status))
    (hopen : tool.status.isTerminal=false) (hsaturated : (r.push entry).2.nextId < u64Max) :
    Paired { (r.push entry).2 with activeTools := (r.push entry).2.activeTools ++ [tool] } := by
  obtain ⟨-,-,htools,hnext⟩ := push_eq entry r
  have hsucc := nextId_of_unsaturated (hnext ▸ hsaturated)
  have hfresh : ∀ t∈r.activeTools, t.occurrenceId ≠ tool.occurrenceId := by
    intro t ht
    rw [hocc]
    exact Nat.ne_of_lt (h.minted t ht)
  have hids := h.ids.push entry hsaturated
  have hmem : ∀ t ∈ (r.push entry).2.activeTools ++ [tool], t∈r.activeTools ∨ t=tool := by
    intro t ht
    rw [htools] at ht
    simpa using ht
  refine ⟨⟨hids.increasing,hids.minted⟩,fun t ht => ?_,?_,fun t ht => ?_,fun t ht e he hid => ?_,
    fun e he toolCallId status hstate' hopen' => ?_⟩
  · rcases hmem t ht with hold | rfl
    · exact h.active t hold
    · exact hopen
  · rw [htools,map_append,nodup_append]
    refine ⟨h.distinct,nodup_singleton _,?_⟩
    intro o ho o' ho' heq
    obtain ⟨t,ht,rfl⟩ := mem_map.mp ho
    rw [map_singleton,mem_singleton] at ho'
    exact hfresh t ht (heq.trans ho')
  · rw [hnext,hsucc]
    rcases hmem t ht with hold | rfl
    · exact Nat.lt_succ_of_lt (h.minted t hold)
    · exact Nat.lt_succ_of_le (Nat.le_of_eq hocc)
  · rcases mem_push he with hold | rfl
    · rcases hmem t ht with holdt | rfl
      · exact h.shown t holdt e hold hid
      · rw [hocc] at hid
        exact absurd (h.ids.minted e hold) (Nat.not_lt.mpr (Nat.le_of_eq hid.symm))
    · rcases hmem t ht with holdt | rfl
      · exact absurd (h.minted t holdt) (Nat.not_lt.mpr (Nat.le_of_eq hid))
      · exact hstate
  · rcases mem_push he with hold | rfl
    · obtain ⟨t,ht,hid⟩ := h.held e hold toolCallId status hstate' hopen'
      exact ⟨t,mem_append_left _ (htools ▸ ht),hid⟩
    · exact ⟨tool,mem_append_right _ (mem_singleton_self tool),hocc⟩

theorem toolState?_setTool (entry : TimelineEntryKind) (status : ToolCallStateStatus)
    (output : Option String) :
    (entry.setTool status output).toolState? = entry.toolState?.map fun p => (p.1, status) := by
  cases entry <;> rfl

theorem toolState?_of_isTool (h : entry.isTool=false) :
    entry.toolState?=none := by
  cases entry with
  | tool => cases h
  | _ => rfl

variable {e : TimelineEntry} {status : ToolCallStateStatus}

theorem mem_updateOccurrence (h : IdsOk r) {occurrenceId : Nat} {output : Option String}
    (he : e ∈ (r.updateOccurrence occurrenceId status output).timeline) :
    ∃ e₀∈r.timeline, e₀.id=e.id ∧ (e₀.id≠occurrenceId → e=e₀) ∧
      (e₀.id=occurrenceId → e.entry.toolState? = e₀.entry.toolState?.map fun p => (p.1, status)) := by
  have hunique : r.timeline.Pairwise fun x y =>
      ¬ ((decide (x.id=occurrenceId) && x.entry.isTool) = true ∧
        (decide (y.id=occurrenceId) && y.entry.isTool) = true) := by
    refine (pairwise_map.mp h.increasing).imp ?_
    intro x y hlt hboth
    simp only [Bool.and_eq_true,decide_eq_true_eq] at hboth
    exact absurd hlt (Nat.not_lt.mpr (Nat.le_of_eq (hboth.2.1.trans hboth.1.1.symm)))
  unfold updateOccurrence at he
  rw [modifyLast_eq_map hunique] at he
  obtain ⟨e₀,he₀,rfl⟩ := mem_map.mp he
  refine ⟨e₀,he₀,?_,fun hne => ?_,fun heq => ?_⟩
  · split_ifs <;> rfl
  · rw [decide_eq_false hne,Bool.false_and,if_neg Bool.false_ne_true]
  · rw [decide_eq_true heq,Bool.true_and]
    split_ifs with htool
    · exact toolState?_setTool e₀.entry status output
    · rw [toolState?_of_isTool (Bool.eq_false_of_not_eq_true htool),Option.map_none]

theorem toolState?_of_isOpenTool {toolCallId : String} (h : entry.isOpenTool toolCallId = true) :
    ∃ status, entry.toolState? = some (toolCallId, status) ∧ status.isTerminal=false := by
  cases entry with
  | tool candidate name title status =>
    simp only [TimelineEntryKind.isOpenTool,Bool.and_eq_true,decide_eq_true_eq,
      Bool.not_eq_true'] at h
    exact ⟨status,by rw [← h.1]; rfl,h.2⟩
  | _ => cases h

theorem Paired.occurrenceOf (h : Paired r) {toolCallId : String}
    {occurrenceId : Nat} (hocc : r.occurrenceOf toolCallId = some occurrenceId) :
    ∃ t∈r.activeTools, t.occurrenceId=occurrenceId ∧ t.toolCallId=toolCallId := by
  rcases Option.or_eq_some_iff.mp hocc with hentry | hactive
  · obtain ⟨e,hfind,rfl⟩ := Option.map_eq_some_iff.mp hentry
    have he : e∈r.timeline := mem_reverse.mp (mem_of_find?_eq_some hfind)
    have hopen := find?_some hfind
    obtain ⟨status,hstate,hstatus⟩ := toolState?_of_isOpenTool hopen
    obtain ⟨t,ht,hid⟩ := h.held e he toolCallId status hstate hstatus
    have hshown := h.shown t ht e he hid.symm
    rw [hstate] at hshown
    exact ⟨t,ht,hid,(congrArg Prod.fst (Option.some.inj hshown)).symm⟩
  · obtain ⟨t,hfind,rfl⟩ := Option.map_eq_some_iff.mp hactive.2
    have hid := find?_some hfind
    exact ⟨t,mem_reverse.mp (mem_of_find?_eq_some hfind),rfl,of_decide_eq_true hid⟩

theorem Paired.finishTool (h : Paired r) (occurrenceId : Nat)
    (output : Option String) (hterminal : status.isTerminal=true) :
    Paired { r.updateOccurrence occurrenceId status output with
      activeTools := r.activeTools.filter fun t => decide (t.occurrenceId≠occurrenceId) } := by
  have hids := h.ids.congr (updateOccurrence_ledger occurrenceId status output r)
  have hmem : ∀ t, t ∈ r.activeTools.filter (fun t => decide (t.occurrenceId≠occurrenceId)) ↔
      t∈r.activeTools ∧ t.occurrenceId≠occurrenceId := by
    simp
  refine ⟨⟨hids.increasing,hids.minted⟩,fun t ht => h.active t ((hmem t).mp ht).1,
    h.distinct.sublist (filter_sublist.map _),fun t ht => h.minted t ((hmem t).mp ht).1,
    fun t ht e he hid => ?_,fun e he id status' hstate hopen => ?_⟩
  · obtain ⟨e₀,he₀,hid',hother,-⟩ := mem_updateOccurrence h.ids he
    obtain ⟨htold,htne⟩ := (hmem t).mp ht
    obtain rfl := hother (by rw [hid',hid]; exact htne)
    exact h.shown t htold e he₀ hid
  · obtain ⟨e₀,he₀,hid',hother,hthis⟩ := mem_updateOccurrence h.ids he
    by_cases heq : e₀.id=occurrenceId
    · rw [hthis heq] at hstate
      obtain ⟨p,-,hp⟩ := Option.map_eq_some_iff.mp hstate
      obtain ⟨-,rfl⟩ := Prod.mk.inj hp
      rw [hterminal] at hopen
      cases hopen
    · obtain rfl := hother heq
      obtain ⟨t,ht,htid⟩ := h.held e he₀ id status' hstate hopen
      exact ⟨t,(hmem t).mpr ⟨ht,by rw [htid]; exact heq⟩,htid⟩

theorem Paired.moveTool (h : Paired r) {t₀ : ActiveToolState}
    (ht₀ : t₀∈r.activeTools) (output : Option String) (hopen : status.isTerminal=false) :
    Paired { r.updateOccurrence t₀.occurrenceId status output with
      activeTools := modifyFirst (fun t => decide (t.occurrenceId=t₀.occurrenceId))
        (fun t => { t with status }) r.activeTools } := by
  have hids := h.ids.congr (updateOccurrence_ledger t₀.occurrenceId status output r)
  have hmap := modifyFirst_eq_map (f := fun t : ActiveToolState => { t with status })
    (p := fun t => decide (t.occurrenceId=t₀.occurrenceId)) (l := r.activeTools) (by
      refine (pairwise_map.mp h.distinct).imp ?_
      intro x y hne hboth
      exact hne ((of_decide_eq_true hboth.1).trans (of_decide_eq_true hboth.2).symm))
  rw [hmap]
  -- an active tool now is one from before, with the new status if it is the one that moved
  have hmem : ∀ t ∈ r.activeTools.map (fun t => if decide (t.occurrenceId=t₀.occurrenceId) = true
      then { t with status } else t), ∃ t'∈r.activeTools, t'.occurrenceId=t.occurrenceId ∧
        t'.toolCallId=t.toolCallId ∧
        t.status = if t'.occurrenceId = t₀.occurrenceId then status else t'.status := by
    intro t ht
    obtain ⟨t',ht',rfl⟩ := mem_map.mp ht
    refine ⟨t',ht',?_⟩
    by_cases heq : t'.occurrenceId = t₀.occurrenceId
    · simp [heq]
    · simp [heq]
  refine ⟨⟨hids.increasing,hids.minted⟩,fun t ht => ?_,?_,fun t ht => ?_,fun t ht e he hid => ?_,
    fun e he id status' hstate hopen' => ?_⟩
  · obtain ⟨t',ht',-,-,hstatus⟩ := hmem t ht
    rw [hstatus]
    split_ifs
    · exact hopen
    · exact h.active t' ht'
  · have hocc : (r.activeTools.map fun t => if decide (t.occurrenceId=t₀.occurrenceId) = true
        then { t with status } else t).map occurrenceId =
        r.activeTools.map occurrenceId := by
      rw [map_map]
      refine map_congr_left fun t _ => ?_
      simp only [Function.comp_apply]
      split_ifs <;> rfl
    rw [hocc]
    exact h.distinct
  · obtain ⟨t',ht',hid',-⟩ := hmem t ht
    rw [← hid']
    exact h.minted t' ht'
  · obtain ⟨t',ht',htid,htool,hstatus⟩ := hmem t ht
    obtain ⟨e₀,he₀,hid',hother,hthis⟩ := mem_updateOccurrence h.ids he
    have hold := h.shown t' ht' e₀ he₀ (by rw [hid',hid,htid])
    have hsame : t'.occurrenceId=e₀.id := by rw [hid',hid,htid]
    rw [hstatus,← htool,hsame]
    split_ifs with heq
    · rw [hthis heq,hold,Option.map_some]
    · rw [hother heq,hold]
  · obtain ⟨e₀,he₀,hid',hother,-⟩ := mem_updateOccurrence h.ids he
    obtain ⟨t,ht,htid⟩ : ∃ t∈r.activeTools, t.occurrenceId=e.id := by
      by_cases heq : e₀.id=t₀.occurrenceId
      · exact ⟨t₀,ht₀,by rw [← hid',heq]⟩
      · obtain rfl := hother heq
        exact h.held e he₀ id status' hstate hopen'
    refine ⟨_,mem_map_of_mem ht,?_⟩
    rw [← htid]
    split_ifs <;> rfl

theorem Paired.updateTool (h : Paired r) (toolCallId : String)
    (status : ToolCallStateStatus) (output : Option String) :
    Paired (r.updateTool toolCallId status output) := by
  unfold TimelineReducer.updateTool
  cases hocc : r.occurrenceOf toolCallId with
  | none => exact h
  | some occurrenceId =>
    obtain ⟨t,ht,rfl,-⟩ := h.occurrenceOf hocc
    split_ifs with hterminal
    · exact h.finishTool t.occurrenceId output hterminal
    · exact h.moveTool ht output (Bool.eq_false_of_not_eq_true hterminal)

theorem Paired.closeOpen (h : Paired r) : Paired r.closeOpen :=
  h.congr rfl rfl rfl

theorem Paired.appendText (h : Paired r) (kind : TextKind) (text : String)
    (hsaturated : (r.appendText kind text).nextId < u64Max) : Paired (r.appendText kind text) := by
  unfold TimelineReducer.appendText at hsaturated ⊢
  cases hopen : r.appendToOpen kind text with
  | some r' =>
    obtain ⟨init,last,entry,htimeline,-,hentry,rfl⟩ := of_appendToOpen hopen
    obtain ⟨hlast,hentry'⟩ := TimelineEntryKind.of_appendText hentry
    refine h.congr ?_ rfl rfl
    simp [htimeline,toolState?_of_isTool hlast,toolState?_of_isTool hentry']
  | none =>
    rw [hopen] at hsaturated
    have htool : (kind.entry text).toolState? = none := by cases kind <;> rfl
    have hpushed := h.closeOpen.push htool hsaturated
    exact hpushed.congr rfl rfl rfl

theorem paired_of_empty (htimeline : r.timeline = []) (htools : r.activeTools = []) : Paired r := by
  refine ⟨⟨?_,?_⟩,?_,?_,?_,?_,?_⟩ <;> simp [htimeline,htools]

theorem Paired.apply (h : Paired r) (event : SessionEvent)
    (hsaturated : (r.apply event).nextId < u64Max) : Paired (r.apply event) := by
  suffices happlied : ∀ r', Paired r' → Paired r'.syncWindow by
    cases event with
    | userMessage => exact happlied _ (h.closeOpen.push rfl hsaturated)
    | assistantDelta text => exact happlied _ (h.appendText .assistant text hsaturated)
    | thoughtDelta text => exact happlied _ (h.appendText .thought text hsaturated)
    | assistantDone => exact happlied _ (h.closeOpen.push rfl hsaturated)
    | toolCallStarted =>
      exact happlied _ (h.closeOpen.startTool rfl rfl rfl hsaturated)
    | toolCallUpdated id status => exact happlied _ (h.updateTool id status none)
    | toolCallFinished id status output => exact happlied _ (h.updateTool id status (some output))
    | conversationCleared => exact happlied _ (paired_of_empty rfl rfl)
    | _ => exact happlied _ h
  intro r' hr'
  exact hr'.congr rfl rfl rfl

/-- An entry is new, or comes from one with its id, unchanged if that one had ended. -/
def Carried (r : TimelineReducer) (e : TimelineEntry) : Prop :=
  e.id=r.nextId ∨ ∃ e₀∈r.timeline, e₀.id=e.id ∧ (e₀.entry.isEnded=true → e=e₀)

theorem Paired.mem_apply (h : Paired r) {event : SessionEvent}
    (he : e ∈ (r.apply event).timeline) : Carried r e := by
  have hpush : ∀ entry, e ∈ (r.closeOpen.push entry).2.timeline → Carried r e := by
    intro entry hmem
    rcases mem_push hmem with hold | rfl
    · exact Or.inr ⟨e,hold,rfl,fun _ => rfl⟩
    · exact Or.inl rfl
  have hsame : e∈r.timeline → Carried r e := fun hmem => Or.inr ⟨e,hmem,rfl,fun _ => rfl⟩
  have htext : ∀ kind text, e ∈ (r.appendText kind text).timeline → Carried r e := by
    intro kind text hmem
    unfold TimelineReducer.appendText at hmem
    cases hopen : r.appendToOpen kind text with
    | none =>
      rw [hopen] at hmem
      exact hpush _ hmem
    | some r' =>
      rw [hopen] at hmem
      obtain ⟨init,last,entry,htimeline,-,hentry,rfl⟩ := of_appendToOpen hopen
      rcases mem_append.mp hmem with hold | hnew
      · exact hsame (htimeline ▸ mem_append_left _ hold)
      · rw [mem_singleton.mp hnew]
        have hlast := toolState?_of_isTool (TimelineEntryKind.of_appendText hentry).1
        refine Or.inr ⟨last,htimeline ▸ mem_append_right _ (mem_singleton_self last),rfl,?_⟩
        intro hended
        rw [TimelineEntryKind.isEnded,hlast] at hended
        cases hended
  have htool : ∀ id status output, e ∈ (r.updateTool id status output).timeline → Carried r e := by
    intro id status output hmem
    cases hocc : r.occurrenceOf id with
    | none =>
      rw [TimelineReducer.updateTool,hocc] at hmem
      exact hsame hmem
    | some occurrenceId =>
      have hupdated : e ∈ (r.updateOccurrence occurrenceId status output).timeline := by
        rw [TimelineReducer.updateTool,hocc] at hmem
        split_ifs at hmem <;> exact hmem
      obtain ⟨t,ht,rfl,-⟩ := h.occurrenceOf hocc
      obtain ⟨e₀,he₀,hid,hother,-⟩ := mem_updateOccurrence h.ids hupdated
      refine Or.inr ⟨e₀,he₀,hid,fun hended => hother fun heq => ?_⟩
      rw [TimelineEntryKind.isEnded,h.shown t ht e₀ he₀ heq,Option.any_some,h.active t ht] at hended
      cases hended
  cases event with
  | userMessage | assistantDone | toolCallStarted => exact hpush _ he
  | assistantDelta text => exact htext .assistant text he
  | thoughtDelta text => exact htext .thought text he
  | toolCallUpdated id status => exact htool id status none he
  | toolCallFinished id status output => exact htool id status (some output) he
  | conversationCleared => exact absurd he not_mem_nil
  | _ => exact hsame he

/-- Wherever the id of `e` is retained, it is `e` itself. -/
def Frozen (e : TimelineEntry) (r : TimelineReducer) : Prop :=
  e.id < r.nextId ∧ ∀ e'∈r.timeline, e'.id=e.id → e'=e

theorem IdsOk.frozen (h : IdsOk r) (he : e∈r.timeline) : Frozen e r := by
  have hnodup : (r.timeline.map TimelineEntry.id).Nodup :=
    h.increasing.imp fun hlt => Nat.ne_of_lt hlt
  exact ⟨h.minted e he,fun e' he' hid => inj_on_of_nodup_map hnodup he' he hid⟩

theorem Frozen.apply (hf : Frozen e r) (h : Paired r)
    (hended : e.entry.isEnded=true) {event : SessionEvent}
    (hsaturated : (r.apply event).nextId < u64Max) : Frozen e (r.apply event) := by
  refine ⟨Nat.lt_of_lt_of_le hf.1 (nextId_le_apply hsaturated),fun e' he' hid => ?_⟩
  rcases h.mem_apply he' with hnew | ⟨e₀,he₀,hid₀,hkept⟩
  · exact absurd hf.1 (Nat.not_lt.mpr (Nat.le_of_eq (hnew.symm.trans hid)))
  · obtain rfl := hf.2 e₀ he₀ (hid₀.trans hid)
    exact hkept hended

theorem unsaturated_of_applyAll {events : List SessionEvent}
    (h : (r.applyAll events).nextId < u64Max) : r.nextId<u64Max := by
  induction events generalizing r with
  | nil => exact h
  | cons event rest ih => exact unsaturated_of_apply (ih h)

theorem Paired.applyAll (h : Paired r) (events : List SessionEvent)
    (hsaturated : (r.applyAll events).nextId < u64Max) : Paired (r.applyAll events) := by
  induction events generalizing r with
  | nil => exact h
  | cons event rest ih => exact ih (h.apply event (unsaturated_of_applyAll hsaturated)) hsaturated

theorem Frozen.applyAll (hf : Frozen e r) (h : Paired r)
    (hended : e.entry.isEnded=true) {events : List SessionEvent}
    (hsaturated : (r.applyAll events).nextId < u64Max) : Frozen e (r.applyAll events) := by
  induction events generalizing r with
  | nil => exact hf
  | cons event rest ih =>
    have hnow : (r.apply event).nextId < u64Max := unsaturated_of_applyAll hsaturated
    exact ih (hf.apply h hended hnow) (h.apply event hnow) hsaturated

theorem paired_new (maxEntries : Nat) : Paired (new maxEntries) := paired_of_empty rfl rfl

/-- Once an entry has ended it stays as it is for as long as it is retained. -/
def EndedFixed (maxEntries : Nat) (events : List SessionEvent) : Prop :=
  ∀ before after, events=before++after →
    ∀ e ∈ ((new maxEntries).applyAll before).timeline, e.entry.isEnded=true →
      ∀ e' ∈ ((new maxEntries).applyAll events).timeline, e'.id=e.id → e'=e

/-- While ids last, the entries and the active tools agree, and what has ended stays as it is. -/
theorem applyAll_toolsAgree (maxEntries : Nat) (events : List SessionEvent)
    (h : ((new maxEntries).applyAll events).nextId < u64Max) :
    ToolsAgree ((new maxEntries).applyAll events) ∧ EndedFixed maxEntries events := by
  refine ⟨((paired_new maxEntries).applyAll events h).agree,?_⟩
  intro before after hsplit e he hended e' he' hid
  subst hsplit
  rw [applyAll_append] at h he'
  have hbefore := (paired_new maxEntries).applyAll before (unsaturated_of_applyAll h)
  exact ((hbefore.ids.frozen he).applyAll hbefore hended h).2 e' he' hid

/-- An id is used again after its first call has ended. -/
theorem applyAll_toolsAgree_reusedId :
    ToolsAgree ((new 2).applyAll
      [.toolCallStarted "call_0" "bash" "bash" none, .userMessage "a" none, .userMessage "b" none,
        .toolCallFinished "call_0" .completed "ok", .toolCallStarted "call_0" "bash" "bash" none]) ∧
    EndedFixed 2
      [.toolCallStarted "call_0" "bash" "bash" none, .userMessage "a" none, .userMessage "b" none,
        .toolCallFinished "call_0" .completed "ok", .toolCallStarted "call_0" "bash" "bash" none] :=
  applyAll_toolsAgree 2 _ (by decide)

theorem applyAll_messages (maxEntries n : Nat) :
    ((new maxEntries).applyAll (List.replicate n (.userMessage "" none))).nextId =
      saturatingAdd n 1 ∧
    ((new maxEntries).applyAll (List.replicate n (.userMessage "" none))).activeTools = [] ∧
    ((new maxEntries).applyAll (List.replicate n (.userMessage "" none))).maxEntries =
      max maxEntries 1 := by
  induction n with
  | zero => exact ⟨rfl,rfl,rfl⟩
  | succ n ih =>
    rw [replicate_succ',applyAll_append]
    generalize (new maxEntries).applyAll (List.replicate n (.userMessage "" none)) = r at ih ⊢
    obtain ⟨hnext,htools,hmax⟩ := ih
    obtain ⟨-,-,htools',hnext'⟩ := push_eq (.user "" false) r.closeOpen
    refine ⟨hnext'.trans ?_,htools'.trans htools,(push_maxEntries _ r.closeOpen).trans hmax⟩
    change saturatingAdd r.nextId 1 = _
    rw [hnext]
    unfold saturatingAdd
    generalize u64Max = limit
    omega

theorem apply_toolCallStarted (r : TimelineReducer) (id name title : String) (summary : Option String)
    (h : 0 < r.maxEntries) :
    (r.apply (.toolCallStarted id name title summary)).activeTools =
      r.activeTools ++ [ActiveToolState.mk r.nextId id name title .pending false] ∧
    (r.apply (.toolCallStarted id name title summary)).nextId = saturatingAdd r.nextId 1 ∧
    (r.apply (.toolCallStarted id name title summary)).maxEntries = r.maxEntries ∧
    TimelineEntry.mk r.nextId r.nextId (.tool id name title .pending none false) ∈
      (r.apply (.toolCallStarted id name title summary)).timeline := by
  obtain ⟨-,-,htools,hnext⟩ := push_eq (.tool id name title .pending none false) r.closeOpen
  obtain ⟨init,hlast⟩ :=
    push_last (.tool id name title .pending none false) (r := r.closeOpen) h
  refine ⟨congrArg (· ++ [_]) htools,hnext,push_maxEntries _ r.closeOpen,?_⟩
  change _ ∈ (r.closeOpen.push _).2.timeline
  rw [hlast]
  exact mem_append_right _ (mem_singleton_self _)

theorem not_toolsAgree_of_saturated (hnext : r.nextId=u64Max)
    (htools : r.activeTools = []) (hmax : 0 < r.maxEntries) :
    ¬ ToolsAgree (r.applyAll [.toolCallStarted "a" "bash" "bash" none,
      .toolCallStarted "b" "bash" "bash" none]) := by
  intro h
  rw [applyAll,foldl_cons,foldl_cons,foldl_nil] at h
  obtain ⟨htools₁,hnext₁,hmax₁,-⟩ := r.apply_toolCallStarted "a" "bash" "bash" none hmax
  obtain ⟨htools₂,-,-,hentry⟩ :=
    (r.apply (.toolCallStarted "a" "bash" "bash" none)).apply_toolCallStarted "b" "bash" "bash" none
      (hmax₁ ▸ hmax)
  have hsaturated : saturatingAdd u64Max 1 = u64Max := by decide
  have hcount := (h.counted _ hentry "b" .pending rfl).mp rfl
  rw [htools₂,htools₁,hnext₁,htools,hnext,hsaturated] at hcount
  simp at hcount

/-- At the end of the id space the agreement is lost. -/
theorem toolsAgree_saturated :
    ∃ events, ¬ ToolsAgree ((new 2).applyAll events) := by
  refine ⟨List.replicate (u64Max-1) (.userMessage "" none) ++
    [.toolCallStarted "a" "bash" "bash" none, .toolCallStarted "b" "bash" "bash" none],?_⟩
  obtain ⟨hnext,htools,hmax⟩ := applyAll_messages 2 (u64Max-1)
  rw [applyAll_append]
  refine not_toolsAgree_of_saturated (hnext.trans (by decide)) htools ?_
  rw [hmax]
  decide

end TimelineReducer

end Daimonos.Session
