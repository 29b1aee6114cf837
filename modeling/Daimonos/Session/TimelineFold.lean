import Daimonos.Session.Timeline
import Daimonos.Session.ToolLifecycle

namespace Daimonos.Session

open Framework List TimelineEntryKind

/-- The reducer and, for each `ToolCallStarted` folded so far, the occurrence id it minted. -/
structure TimelineFold where
  reducer : TimelineReducer
  occurrences : List Nat := []

namespace TimelineFold

def new (maxEntries : Nat) : TimelineFold := { reducer := .new maxEntries }

def apply (f : TimelineFold) (event : SessionEvent) : TimelineFold where
  reducer := f.reducer.apply event
  occurrences :=
    match event with
    | .toolCallStarted .. => f.occurrences ++ [f.reducer.nextId]
    | _ => f.occurrences

def applyAll (f : TimelineFold) (events : List SessionEvent) : TimelineFold := events.foldl apply f

theorem unsaturated_of_applyAll {f : TimelineFold} {events : List SessionEvent}
    (h : (f.applyAll events).reducer.nextId < u64Max) : f.reducer.nextId<u64Max := by
  induction events generalizing f with
  | nil => exact h
  | cons event rest ih => exact TimelineReducer.unsaturated_of_apply (ih h)

end TimelineFold

def Ending.status : Ending → ToolCallStateStatus
  | .finished isError _ => finishStatus isError
  | .blocked => .failed
  | .cancelled => .cancelled

def Ending.shown : Ending → Option String
  | .finished _ output => some output
  | .blocked | .cancelled => none

theorem Ending.status_isTerminal (e : Ending) : e.status.isTerminal := by
  cases e with
  | finished isError => cases isError <;> rfl
  | blocked | cancelled => rfl

section Tracking

variable {calls : List ToolCallInfo} {active : List (String × Nat)} {ending : Nat → Option Ending}
  {f : TimelineFold}

/-- What the entry of a call shows: open while the call is active, else how it ended. -/
def EntryOk (active : List (String × Nat)) (call : Nat) (id : String)
    (status : ToolCallStateStatus) (output : Option String) : Option Ending → Prop
  | none => (id, call) ∈ active ∧ status.isTerminal=false ∧ output=none
  | some e => status=e.status ∧ output=e.shown

variable {id : String} {call : Nat} {active' : List (String × Nat)} {status : ToolCallStateStatus}

theorem EntryOk.mono {active : List (String × Nat)}
    {output : Option String} {ending : Option Ending}
    (h : EntryOk active call id status output ending)
    (hmem : (id, call) ∈ active → (id, call) ∈ active') :
    EntryOk active' call id status output ending := by
  cases ending with
  | none => exact ⟨hmem h.1,h.2⟩
  | some e => exact h

structure Ledger (calls : List ToolCallInfo) (active : List (String × Nat))
    (ending : Nat → Option Ending) : Prop where
  distinct : (active.map Prod.fst).Nodup
  unfinished : ∀ c∈active, ending c.2 = none
  admitted : ∀ c∈active, ∃ info, calls[c.2]? = some info ∧ info.id=c.1
  ended : ∀ call e, ending call = some e → call < calls.length

structure Tracks (calls : List ToolCallInfo) (active : List (String × Nat))
    (ending : Nat → Option Ending) (f : TimelineFold) : Prop where
  count : f.occurrences.length = calls.length
  increasing : f.occurrences.Pairwise (· < ·)
  minted : ∀ o∈f.occurrences, o<f.reducer.nextId
  ids : f.reducer.IdsOk
  entries : ∀ e∈f.reducer.timeline, ∀ id name title status output truncated,
    e.entry = .tool id name title status output truncated →
    ∃ call info, f.occurrences[call]? = some e.id ∧ calls[call]? = some info ∧ info.id=id ∧
      EntryOk active call id status output (ending call)
  tools : ∀ t∈f.reducer.activeTools, ∃ call, f.occurrences[call]? = some t.occurrenceId ∧
    (t.toolCallId, call) ∈ active

theorem Ledger.call_unique (h : Ledger calls active ending) {j k : Nat}
    (hj : (id, j) ∈ active) (hk : (id, k) ∈ active) : j=k := by
  have := inj_on_of_nodup_map h.distinct hj hk rfl
  exact congrArg Prod.snd this

theorem Ledger.id_unique (h : Ledger calls active ending) {id' : String}
    (hid : (id, call) ∈ active) (hid' : (id', call) ∈ active) : id=id' := by
  obtain ⟨info,hinfo,rfl⟩ := h.admitted _ hid
  obtain ⟨info',hinfo',rfl⟩ := h.admitted _ hid'
  exact congrArg ToolCallInfo.id (Option.some.inj (hinfo.symm.trans hinfo'))

theorem Ledger.fresh (h : Ledger calls active ending) : ending calls.length = none := by
  cases hend : ending calls.length with
  | none => rfl
  | some e => exact absurd (h.ended _ e hend) (Nat.lt_irrefl _)

variable {o : Nat}

theorem Tracks.occurrence_unique (h : Tracks calls active ending f) {j k : Nat}
    (hj : f.occurrences[j]? = some o) (hk : f.occurrences[k]? = some o) : j=k := by
  have hnodup : f.occurrences.Nodup := h.increasing.imp fun hlt => Nat.ne_of_lt hlt
  obtain ⟨hjlt,hjo⟩ := List.getElem?_eq_some_iff.mp hj
  obtain ⟨hklt,hko⟩ := List.getElem?_eq_some_iff.mp hk
  exact (List.Nodup.getElem_inj_iff hnodup).mp (hjo.trans hko.symm)

theorem Tracks.isOpenTool_eq (h : Tracks calls active ending f) (hl : Ledger calls active ending)
    (hmem : (id, call) ∈ active)
    (ho : f.occurrences[call]? = some o) {e : TimelineEntry} (he : e∈f.reducer.timeline) :
    e.entry.isOpenTool id = (decide (e.id=o) && e.entry.isTool) := by
  cases hentry : e.entry with
  | tool =>
    obtain ⟨k,info,hk,hinfo,rfl,hok⟩ := h.entries e he _ _ _ _ _ _ hentry
    rw [Bool.eq_iff_iff]
    simp only [isOpenTool,isTool,Bool.and_true,
      Bool.and_eq_true,decide_eq_true_eq,Bool.not_eq_true']
    constructor
    · intro hx
      obtain ⟨rfl,hstatus⟩ := hx
      cases hending : ending k with
      | none =>
        rw [hending] at hok
        obtain rfl := hl.call_unique hok.1 hmem
        exact Option.some.inj (hk.symm.trans ho)
      | some e' =>
        rw [hending] at hok
        rw [hok.1,e'.status_isTerminal] at hstatus
        cases hstatus
    · intro heq
      subst heq
      obtain rfl := h.occurrence_unique hk ho
      rw [hl.unfinished _ hmem] at hok
      obtain ⟨info',hinfo',hid⟩ := hl.admitted _ hmem
      obtain rfl : info=info' := Option.some.inj (hinfo.symm.trans hinfo')
      exact ⟨hid,hok.2.1⟩
  | _ => simp [isOpenTool,isTool]

theorem Tracks.tool_eq (h : Tracks calls active ending f) (hl : Ledger calls active ending)
    (hmem : (id, call) ∈ active)
    (ho : f.occurrences[call]? = some o) {t : ActiveToolState} (ht : t∈f.reducer.activeTools) :
    t.toolCallId=id ↔ t.occurrenceId=o := by
  obtain ⟨k,hk,hactive⟩ := h.tools t ht
  constructor
  · intro heq
    subst heq
    obtain rfl := hl.call_unique hactive hmem
    exact Option.some.inj (hk.symm.trans ho)
  · intro heq
    subst heq
    obtain rfl := h.occurrence_unique hk ho
    exact hl.id_unique hactive hmem

/-- An event for an active call's id is about the call's occurrence, unless neither its entry nor
its active tool is left. -/
theorem Tracks.occurrenceOf_active (h : Tracks calls active ending f)
    (hl : Ledger calls active ending) (hmem : (id, call) ∈ active)
    (ho : f.occurrences[call]? = some o) :
    f.reducer.occurrenceOf id = some o ∨ (f.reducer.occurrenceOf id = none ∧
      (∀ e∈f.reducer.timeline, (decide (e.id=o) && e.entry.isTool) = false) ∧
      ∀ t∈f.reducer.activeTools, t.occurrenceId≠o) := by
  unfold TimelineReducer.occurrenceOf
  cases hentry : f.reducer.timeline.reverse.find? fun e => e.entry.isOpenTool id with
  | some e =>
    left
    have he : e∈f.reducer.timeline := mem_reverse.mp (mem_of_find?_eq_some hentry)
    have hopen := find?_some hentry
    rw [h.isOpenTool_eq hl hmem ho he,Bool.and_eq_true,decide_eq_true_eq] at hopen
    simp [hopen.1]
  | none =>
    have hnone : ∀ e∈f.reducer.timeline, (decide (e.id=o) && e.entry.isTool) = false := by
      intro e he
      rw [← h.isOpenTool_eq hl hmem ho he]
      exact Bool.eq_false_iff.mpr (find?_eq_none.mp hentry e (mem_reverse.mpr he))
    cases htool : f.reducer.activeTools.reverse.find? fun t => decide (t.toolCallId=id) with
    | some t =>
      left
      have ht : t∈f.reducer.activeTools := mem_reverse.mp (mem_of_find?_eq_some htool)
      have hid := find?_some htool
      simp [(h.tool_eq hl hmem ho ht).mp (of_decide_eq_true hid)]
    | none =>
      right
      refine ⟨rfl,hnone,fun t ht heq => ?_⟩
      have := find?_eq_none.mp htool t (mem_reverse.mpr ht)
      exact this (decide_eq_true ((h.tool_eq hl hmem ho ht).mpr heq))

theorem Tracks.occurrenceOf_inactive (h : Tracks calls active ending f)
    (hid : id ∉ active.map Prod.fst) : f.reducer.occurrenceOf id = none := by
  have hentry : f.reducer.timeline.reverse.find? (fun e => e.entry.isOpenTool id) = none := by
    rw [find?_eq_none]
    intro e he hopen
    cases hkind : e.entry with
    | tool =>
      obtain ⟨k,info,hk,hinfo,rfl,hok⟩ :=
        h.entries e (mem_reverse.mp he) _ _ _ _ _ _ hkind
      simp only [hkind,isOpenTool,Bool.and_eq_true,decide_eq_true_eq,Bool.not_eq_true'] at hopen
      cases hending : ending k with
      | none =>
        rw [hending] at hok
        exact hid (hopen.1 ▸ mem_map_of_mem hok.1)
      | some e' =>
        rw [hending] at hok
        rw [hok.1,e'.status_isTerminal] at hopen
        exact Bool.noConfusion hopen.2
    | _ => simp [hkind,isOpenTool] at hopen
  have htool : f.reducer.activeTools.reverse.find? (fun t => decide (t.toolCallId=id)) = none := by
    rw [find?_eq_none]
    intro t ht heq
    obtain ⟨k,-,hactive⟩ := h.tools t (mem_reverse.mp ht)
    exact hid (of_decide_eq_true heq ▸ mem_map_of_mem hactive)
  simp only [TimelineReducer.occurrenceOf,hentry,htool]
  rfl

def setEntry (o : Nat) (status : ToolCallStateStatus) (output : Option String)
    (e : TimelineEntry) : TimelineEntry :=
  if decide (e.id=o) && e.entry.isTool then { e with entry := e.entry.setTool status output }
  else e

@[simp] theorem setEntry_id (o : Nat) (status : ToolCallStateStatus) (output : Option String)
    (e : TimelineEntry) : (setEntry o status output e).id = e.id := by
  unfold setEntry
  split_ifs <;> rfl

theorem Tracks.updateTool_active (h : Tracks calls active ending f)
    (hl : Ledger calls active ending) (hmem : (id, call) ∈ active)
    (ho : f.occurrences[call]? = some o) (status : ToolCallStateStatus) (output : Option String) :
    let r := f.reducer.updateTool id status output
    r.timeline = f.reducer.timeline.map (setEntry o status output) ∧
    r.nextId=f.reducer.nextId ∧
    ∀ t∈r.activeTools, (status.isTerminal → t.occurrenceId≠o) ∧
      ∃ t'∈f.reducer.activeTools, t'.occurrenceId=t.occurrenceId ∧
        t'.toolCallId=t.toolCallId := by
  have hunique : f.reducer.timeline.Pairwise fun x y =>
      ¬ ((decide (x.id=o) && x.entry.isTool) ∧ (decide (y.id=o) && y.entry.isTool)) := by
    refine (pairwise_map.mp h.ids.increasing).imp ?_
    intro x y hlt hx
    obtain ⟨hx,hy⟩ := hx
    simp only [Bool.and_eq_true,decide_eq_true_eq] at hx hy
    omega
  unfold TimelineReducer.updateTool
  rcases h.occurrenceOf_active hl hmem ho with hocc | ⟨hocc,hnone,htools⟩
  · simp only [hocc]
    have htimeline : (f.reducer.updateOccurrence o status output).timeline =
        f.reducer.timeline.map (setEntry o status output) := modifyLast_eq_map hunique
    split_ifs with hterminal
    · refine ⟨htimeline,rfl,fun t ht => ?_⟩
      obtain ⟨hold,hne⟩ := mem_filter.mp ht
      exact ⟨fun _ => of_decide_eq_true hne,t,hold,rfl,rfl⟩
    · refine ⟨htimeline,rfl,fun t ht => ⟨fun hc => absurd hc hterminal,?_⟩⟩
      rcases mem_modifyFirst ht with hold | ⟨t',hold,-,rfl⟩
      · exact ⟨t,hold,rfl,rfl⟩
      · exact ⟨t',hold,rfl,rfl⟩
  · simp only [hocc]
    refine ⟨?_,trivial,fun t ht => ⟨fun _ => htools t ht,t,ht,rfl,rfl⟩⟩
    have hsame : ∀ e∈f.reducer.timeline, setEntry o status output e = e := by
      intro e he
      simp [setEntry,hnone e he]
    rw [map_congr_left hsame,map_id']

theorem Tracks.settle (h : Tracks calls active ending f) (hl : Ledger calls active ending)
    (hmem : (id, call) ∈ active) {output : Option String} {ending' : Nat → Option Ending}
    (hentry : EntryOk active' call id status output (ending' call))
    (hactive : ∀ c∈active, c.2≠call → c∈active')
    (hending : ∀ k, k≠call → ending' k = ending k)
    (hopen : status.isTerminal=false → (id, call) ∈ active') :
    Tracks calls active' ending' { f with reducer := f.reducer.updateTool id status output } := by
  obtain ⟨info,hinfo,rfl⟩ := hl.admitted _ hmem
  have hlt : call<f.occurrences.length := by
    rw [h.count]
    exact (List.getElem?_eq_some_iff.mp hinfo).1
  obtain ⟨o,ho⟩ : ∃ o, f.occurrences[call]? = some o := ⟨_,List.getElem?_eq_getElem hlt⟩
  obtain ⟨htimeline,hnext,htools⟩ := h.updateTool_active hl hmem ho status output
  have hids : (f.reducer.updateTool info.id status output).timeline.map TimelineEntry.id =
      f.reducer.timeline.map TimelineEntry.id := by
    rw [htimeline,map_map]
    exact map_congr_left fun e _ => setEntry_id o status output e
  refine ⟨h.count,h.increasing,?_,⟨?_,?_⟩,?_,?_⟩
  · rw [hnext]
    exact h.minted
  · rw [hids]
    exact h.ids.increasing
  · intro e he
    rw [htimeline] at he
    obtain ⟨e₀,he₀,rfl⟩ := mem_map.mp he
    rw [setEntry_id,hnext]
    exact h.ids.minted e₀ he₀
  · intro e he id' name title status' output' truncated hkind
    rw [htimeline] at he
    obtain ⟨e₀,he₀,rfl⟩ := mem_map.mp he
    rw [setEntry_id]
    cases hkind₀ : e₀.entry with
    | tool =>
      obtain ⟨k,info₀,hk,hinfo₀,rfl,hok⟩ := h.entries e₀ he₀ _ _ _ _ _ _ hkind₀
      by_cases heq : e₀.id=o
      · obtain rfl := h.occurrence_unique (heq ▸ hk) ho
        obtain rfl : info=info₀ := Option.some.inj (hinfo.symm.trans hinfo₀)
        rw [hl.unfinished _ hmem] at hok
        obtain ⟨-,-,rfl⟩ := hok
        simp only [setEntry,heq,hkind₀,isTool,decide_true,Bool.and_true,
          if_true,setTool,Option.or_none,tool.injEq] at hkind
        obtain ⟨rfl,-,-,rfl,rfl,-⟩ := hkind
        exact ⟨k,info,hk,hinfo,rfl,hentry⟩
      · have hne : k≠call := by
          intro heq
          subst heq
          exact heq (Option.some.inj (hk.symm.trans ho))
        simp only [setEntry,heq,decide_false,Bool.false_and,Bool.false_eq_true,if_false,hkind₀,
          tool.injEq] at hkind
        obtain ⟨rfl,-,-,rfl,rfl,-⟩ := hkind
        refine ⟨k,info₀,hk,hinfo₀,rfl,?_⟩
        rw [hending k hne]
        exact hok.mono fun hmem' => hactive _ hmem' hne
    | _ => simp [setEntry,hkind₀,isTool] at hkind
  · intro t ht
    obtain ⟨hne,t',ht',hocc,hid⟩ := htools t ht
    obtain ⟨k,hk,hact⟩ := h.tools t' ht'
    rw [hocc] at hk
    rw [hid] at hact
    refine ⟨k,hk,?_⟩
    by_cases hkc : k=call
    · subst hkc
      have hstill : t.occurrenceId=o := Option.some.inj (hk.symm.trans ho)
      have hnot : status.isTerminal=false := Bool.eq_false_iff.mpr fun hc => hne hc hstill
      rw [hl.id_unique hact hmem]
      exact hopen hnot
    · exact hactive _ hact hkc

theorem Tracks.updateTool_inactive (h : Tracks calls active ending f)
    (hid : id ∉ active.map Prod.fst) (status : ToolCallStateStatus) (output : Option String) :
    f.reducer.updateTool id status output = f.reducer := by
  simp only [TimelineReducer.updateTool,h.occurrenceOf_inactive hid]

theorem Tracks.other (h : Tracks calls active ending f) {event : SessionEvent}
    (hevent : event.isToolCall=false) (hsat : (f.apply event).reducer.nextId < u64Max) :
    Tracks calls active ending (f.apply event) := by
  have hkeeps := f.reducer.apply_keeps hevent
  have hocc : (f.apply event).occurrences = f.occurrences := by
    cases event <;> first | rfl | cases hevent
  have hle : f.reducer.nextId ≤ (f.apply event).reducer.nextId := by
    rcases hkeeps.nextId with heq | heq
    · exact Nat.le_of_eq heq.symm
    · have hsucc := TimelineReducer.nextId_of_unsaturated (heq ▸ hsat)
      have : (f.apply event).reducer.nextId = f.reducer.nextId+1 := heq.trans hsucc
      omega
  refine ⟨hocc ▸ h.count,hocc ▸ h.increasing,?_,hkeeps.ids h.ids hsat,?_,?_⟩
  · intro o ho
    rw [hocc] at ho
    exact Nat.lt_of_lt_of_le (h.minted o ho) hle
  · intro e he id name title status output truncated hkind
    rw [hocc]
    exact h.entries e (hkeeps.entries e he (by rw [hkind]; rfl)) _ _ _ _ _ _ hkind
  · intro t ht
    rw [hocc]
    exact h.tools t (hkeeps.tools t ht)

theorem Tracks.start (h : Tracks calls active ending f) (hl : Ledger calls active ending)
    (info : ToolCallInfo) (hsat : (f.apply (startedEvent info)).reducer.nextId < u64Max) :
    Tracks (calls ++ [info]) (active ++ [(info.id, calls.length)]) ending
      (f.apply (startedEvent info)) := by
  have hpush := TimelineReducer.push_eq (.tool info.id info.name info.name .pending none false)
    f.reducer.closeOpen
  obtain ⟨hid,-,htools,hnext⟩ := hpush
  have hsucc := TimelineReducer.nextId_of_unsaturated (hnext ▸ hsat)
  have hnext' : (f.apply (startedEvent info)).reducer.nextId = f.reducer.nextId+1 :=
    hnext.trans hsucc
  have hnew : (f.occurrences ++ [f.reducer.nextId])[calls.length]? = some f.reducer.nextId := by
    simp [← h.count]
  have hids : f.reducer.closeOpen.IdsOk := ⟨h.ids.increasing,h.ids.minted⟩
  have hids' := hids.push (.tool info.id info.name info.name .pending none false) hsat
  refine ⟨?_,?_,?_,⟨hids'.increasing,hids'.minted⟩,?_,?_⟩
  · simp [TimelineFold.apply,startedEvent,h.count]
  · refine pairwise_append.mpr ⟨h.increasing,pairwise_singleton _ _,?_⟩
    intro a ha b hb
    rw [mem_singleton.mp hb]
    exact h.minted a ha
  · intro o ho
    rw [hnext']
    rcases mem_append.mp ho with hold | hlast
    · exact Nat.lt_succ_of_lt (h.minted o hold)
    · rw [mem_singleton.mp hlast]
      exact Nat.lt_succ_self _
  · intro e he id name title status output truncated hkind
    rcases TimelineReducer.mem_push he with hold | rfl
    · obtain ⟨k,info',hk,hinfo',hid',hok⟩ := h.entries e hold _ _ _ _ _ _ hkind
      exact ⟨k,info',getElem?_append_of_some hk _,getElem?_append_of_some hinfo' info,hid',
        hok.mono (mem_append_left _)⟩
    · cases hkind
      refine ⟨calls.length,info,hnew,by simp,rfl,?_⟩
      rw [hl.fresh]
      exact ⟨by simp,rfl,rfl⟩
  · intro t ht
    rcases mem_append.mp ht with hold | hlast
    · obtain ⟨k,hk,hact⟩ := h.tools t (htools ▸ hold)
      exact ⟨k,getElem?_append_of_some hk _,mem_append_left _ hact⟩
    · rw [mem_singleton.mp hlast]
      exact ⟨calls.length,hid ▸ hnew,by simp⟩

theorem Tracks.sync {r : TimelineReducer} (h : Tracks calls active ending { f with reducer := r }) :
    Tracks calls active ending { f with reducer := r.syncWindow } :=
  ⟨h.count,h.increasing,h.minted,⟨h.ids.increasing,h.ids.minted⟩,h.entries,h.tools⟩

/-- An active call ends: the first terminal event for its id settles its entry. -/
theorem Tracks.finish (h : Tracks calls active ending f) (hl : Ledger calls active ending)
    (hmem : (id, call) ∈ active) (e : Ending) :
    Tracks calls (removeKey id active) (Function.update ending call (some e))
      { f with reducer := (f.reducer.updateTool id e.status e.shown).syncWindow } := by
  refine Tracks.sync (h.settle hl hmem ?_ (fun c hc hne => ?_) (fun k hk => ?_) fun hopen => ?_)
  · rw [Function.update_self]
    exact ⟨rfl,rfl⟩
  · refine mem_removeKey.mpr ⟨hc,?_⟩
    intro heq
    subst heq
    exact hne (hl.call_unique hc hmem)
  · exact Function.update_of_ne hk _ _
  · rw [e.status_isTerminal] at hopen
    cases hopen

theorem Tracks.late (h : Tracks calls active ending f)
    (hid : id ∉ active.map Prod.fst) (status : ToolCallStateStatus) (output : Option String) :
    Tracks calls active ending
      { f with reducer := (f.reducer.updateTool id status output).syncWindow } := by
  rw [h.updateTool_inactive hid]
  exact h.sync

theorem Tracks.progress (h : Tracks calls active ending f) (hl : Ledger calls active ending)
    (id : String) : Tracks calls active ending (f.apply (.toolCallUpdated id .inProgress)) := by
  by_cases hid : id ∈ active.map Prod.fst
  · obtain ⟨c,hc,rfl⟩ := mem_map.mp hid
    refine Tracks.sync (h.settle hl hc ?_ (fun _ hc _ => hc) (fun _ _ => rfl) fun _ => hc)
    rw [hl.unfinished c hc]
    exact ⟨hc,rfl,rfl⟩
  · exact h.late hid .inProgress none

theorem Ledger.start (h : Ledger calls active ending) {info : ToolCallInfo}
    (hid : info.id ∉ active.map Prod.fst) :
    Ledger (calls ++ [info]) (active ++ [(info.id, calls.length)]) ending := by
  refine ⟨?_,fun c hc => ?_,fun c hc => ?_,fun call e he => ?_⟩
  · rw [map_append,map_singleton]
    exact h.distinct.append (nodup_singleton _) (by simpa using hid)
  · rcases mem_append.mp hc with hold | hlast
    · exact h.unfinished c hold
    · rw [mem_singleton.mp hlast]
      exact h.fresh
  · rcases mem_append.mp hc with hold | hlast
    · obtain ⟨info',hinfo',hid'⟩ := h.admitted c hold
      exact ⟨info',getElem?_append_of_some hinfo' info,hid'⟩
    · rw [mem_singleton.mp hlast]
      exact ⟨info,by simp,rfl⟩
  · have := h.ended call e he
    rw [length_append]
    omega

theorem Ledger.finish (h : Ledger calls active ending) (hmem : (id, call) ∈ active) (e : Ending) :
    Ledger calls (removeKey id active) (Function.update ending call (some e)) := by
  obtain ⟨info,hinfo,-⟩ := h.admitted _ hmem
  refine ⟨nodup_removeKey h.distinct,fun c hc => ?_,fun c hc => ?_,fun k e' he => ?_⟩
  · obtain ⟨hold,hne⟩ := mem_removeKey.mp hc
    have hcall : c.2≠call := by
      intro heq
      subst heq
      exact hne (h.id_unique hold hmem)
    rw [Function.update_of_ne hcall]
    exact h.unfinished c hold
  · exact h.admitted c (mem_removeKey.mp hc).1
  · by_cases hk : k=call
    · subst hk
      exact (List.getElem?_eq_some_iff.mp hinfo).1
    · rw [Function.update_of_ne hk] at he
      exact h.ended k e' he

theorem Ledger.perm (h : Ledger calls active ending)
    (hperm : active'.Perm active) : Ledger calls active' ending :=
  ⟨(hperm.map Prod.fst).nodup_iff.mpr h.distinct,fun c hc => h.unfinished c (hperm.subset hc),
    fun c hc => h.admitted c (hperm.subset hc),h.ended⟩

theorem Tracks.perm (h : Tracks calls active ending f)
    (hperm : active'.Perm active) : Tracks calls active' ending f := by
  refine ⟨h.count,h.increasing,h.minted,h.ids,?_,fun t ht => ?_⟩
  · intro e he id name title status output truncated hkind
    obtain ⟨call,info,hcall,hinfo,hid,hok⟩ := h.entries e he _ _ _ _ _ _ hkind
    exact ⟨call,info,hcall,hinfo,hid,hok.mono fun hmem => hperm.symm.subset hmem⟩
  · obtain ⟨call,hcall,hactive⟩ := h.tools t ht
    exact ⟨call,hcall,hperm.symm.subset hactive⟩

def cancelEvents (ids : List (String × Nat)) : List (Option Nat × SessionEvent) :=
  ids.flatMap fun c =>
    [(none, .toolCallUpdated c.1 .cancelled), (some c.2, .toolCallFinished c.1 .cancelled "cancelled")]

theorem mem_cancelEvents {ids : List (String × Nat)} {output : String} :
    (some call, .toolCallFinished id status output) ∈ cancelEvents ids ↔
      (id, call) ∈ ids ∧ status=.cancelled ∧ output = "cancelled" := by
  simp only [cancelEvents,mem_flatMap,mem_cons,Prod.mk.injEq,reduceCtorEq,false_and,
    false_or,Option.some.injEq,SessionEvent.toolCallFinished.injEq,not_mem_nil,or_false]
  constructor
  · intro hx
    obtain ⟨⟨_,_⟩,hc,rfl,rfl,rfl,rfl⟩ := hx
    exact ⟨hc,rfl,rfl⟩
  · intro hx
    obtain ⟨hc,rfl,rfl⟩ := hx
    exact ⟨(id, call),hc,rfl,rfl,rfl,rfl⟩

theorem Tracks.cancelAll (h : Tracks calls active ending f) (hl : Ledger calls active ending) :
    Tracks calls [] (fun k => if k ∈ active.map Prod.snd then some .cancelled else ending k)
      (f.applyAll ((cancelEvents active).map Prod.snd)) := by
  induction active generalizing ending f with
  | nil => simpa [cancelEvents,TimelineFold.applyAll] using h
  | cons c rest ih =>
    obtain ⟨id,call⟩ := c
    have hnodup := nodup_cons.mp hl.distinct
    have hrest : removeKey id ((id, call) :: rest) = rest := by
      rw [removeKey,filter_cons_of_neg (by simp),← removeKey,removeKey_of_notMem hnodup.1]
    have hledger := hl.finish mem_cons_self .cancelled
    have hupdated := h.finish hl mem_cons_self .cancelled
    rw [hrest] at hledger hupdated
    have hfinished := hupdated.late hnodup.1 .cancelled (some "cancelled")
    have htail := ih hfinished hledger
    have hending : (fun k => if k ∈ rest.map Prod.snd then some Ending.cancelled
        else Function.update ending call (some .cancelled) k) =
        fun k => if k ∈ ((id, call) :: rest).map Prod.snd then some .cancelled else ending k := by
      funext k
      by_cases hk : k=call
      · simp [hk]
      · simp only [Function.update_of_ne hk,map_cons,mem_cons,hk,false_or]
    rw [hending] at htail
    exact htail

end Tracking

end Daimonos.Session
