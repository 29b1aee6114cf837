import Daimonos.Session.EventRouter
import Daimonos.Session.Protocol

namespace Daimonos.Session

open Framework List

inductive TimelineEntryKind where
  | user (text : String) (contentTruncated : Bool)
  | assistant (text : String) (contentTruncated : Bool)
  | thought (text : String) (contentTruncated : Bool)
  | system (text : String) (contentTruncated : Bool)
  | outcome (outcome : AssistantOutcome)
  | tool (toolCallId name title : String) (status : ToolCallStateStatus) (output : Option String)
      (contentTruncated : Bool)
  deriving DecidableEq

structure TimelineEntry where
  id : Nat
  order : Nat
  entry : TimelineEntryKind
  deriving DecidableEq

structure ActiveToolState where
  occurrenceId : Nat
  toolCallId : String
  name : String
  title : String
  status : ToolCallStateStatus
  contentTruncated : Bool
  deriving DecidableEq

structure HistoryWindow where
  truncatedBefore : Nat
  retained : Nat
  total : Option Nat
  continuation : Option String
  deriving DecidableEq

def HistoryWindow.complete (retained : Nat) : HistoryWindow :=
  { truncatedBefore := 0, retained, total := some retained, continuation := none }

inductive TextKind where
  | assistant
  | thought
  deriving DecidableEq

structure TimelineReducer where
  timeline : List TimelineEntry
  activeTools : List ActiveToolState
  historyWindow : HistoryWindow
  maxEntries : Nat
  nextId : Nat
  openEntryId : Option Nat
  deriving DecidableEq

def saturatingAdd (a b : Nat) : Nat := min (a+b) u64Max

theorem saturatingAdd_eq {a b : Nat} (h : a+b≤u64Max) : saturatingAdd a b = a+b :=
  Nat.min_eq_left h

namespace TimelineEntryKind

def isTool : TimelineEntryKind → Bool
  | .tool .. => true
  | _ => false

def isOpenTool (toolCallId : String) : TimelineEntryKind → Bool
  | .tool candidate _ _ status _ _ => decide (candidate=toolCallId) && !status.isTerminal
  | _ => false

def setTool (status : ToolCallStateStatus) (output : Option String) :
    TimelineEntryKind → TimelineEntryKind
  | .tool toolCallId name title _ current contentTruncated =>
    .tool toolCallId name title status (output.or current) contentTruncated
  | entry => entry

def appendText (kind : TextKind) (text : String) : TimelineEntryKind → Option TimelineEntryKind
  | .assistant current contentTruncated =>
    if kind=.assistant then some (.assistant (current++text) contentTruncated) else none
  | .thought current contentTruncated =>
    if kind=.thought then some (.thought (current++text) contentTruncated) else none
  | _ => none

theorem of_appendText {kind : TextKind} {text : String} {entry entry' : TimelineEntryKind}
    (h : entry.appendText kind text = some entry') : entry.isTool=false ∧ entry'.isTool=false := by
  cases entry with
  | assistant current truncated | thought current truncated =>
    simp only [appendText] at h
    split_ifs at h
    cases h
    exact ⟨rfl,rfl⟩
  | _ => cases h

end TimelineEntryKind

def TextKind.entry (text : String) : TextKind → TimelineEntryKind
  | .assistant => .assistant text false
  | .thought => .thought text false

namespace TimelineReducer

def new (maxEntries : Nat) : TimelineReducer :=
  { timeline := [], activeTools := [], historyWindow := .complete 0, maxEntries := max maxEntries 1,
    nextId := 1, openEntryId := none }

def closeOpen (r : TimelineReducer) : TimelineReducer := { r with openEntryId := none }

def syncWindow (r : TimelineReducer) : TimelineReducer :=
  let window := r.historyWindow
  { r with
    historyWindow :=
      { window with
        retained := r.timeline.length
        total := some (saturatingAdd window.truncatedBefore r.timeline.length) } }

def trimToLimit (r : TimelineReducer) : TimelineReducer :=
  let excess := r.timeline.length-r.maxEntries
  if excess > 0 then
    let timeline := r.timeline.drop excess
    let window := r.historyWindow
    { r with
      timeline
      historyWindow :=
        { window with truncatedBefore := saturatingAdd window.truncatedBefore excess }
      openEntryId := r.openEntryId.filter fun id => timeline.any fun entry => entry.id == id }
  else r

def push (entry : TimelineEntryKind) (r : TimelineReducer) : Nat × TimelineReducer :=
  let id := r.nextId
  let added : TimelineEntry := { id, order := id, entry }
  let pushed := { r with nextId := saturatingAdd r.nextId 1, timeline := r.timeline ++ [added] }
  (id, pushed.trimToLimit.syncWindow)

def appendToOpen (kind : TextKind) (text : String) (r : TimelineReducer) : Option TimelineReducer := do
  let openId ← r.openEntryId
  let last ← r.timeline.getLast?
  if last.id≠openId then none
  else
    let entry ← last.entry.appendText kind text
    some { r with timeline := r.timeline.dropLast ++ [{ last with entry }] }

def appendText (kind : TextKind) (text : String) (r : TimelineReducer) : TimelineReducer :=
  match r.appendToOpen kind text with
  | some r => r
  | none =>
    let (id, r) := r.closeOpen.push (kind.entry text)
    { r with openEntryId := some id }

def updateOccurrence (occurrenceId : Nat) (status : ToolCallStateStatus) (output : Option String)
    (r : TimelineReducer) : TimelineReducer :=
  { r with
    timeline :=
      modifyLast (fun e => decide (e.id=occurrenceId) && e.entry.isTool)
        (fun e => { e with entry := e.entry.setTool status output }) r.timeline }

/-- The occurrence an event for a tool call id is about: the newest open entry, else an active tool
whose entry has been trimmed. -/
def occurrenceOf (toolCallId : String) (r : TimelineReducer) : Option Nat :=
  ((r.timeline.reverse.find? fun e => e.entry.isOpenTool toolCallId).map TimelineEntry.id).or
    ((r.activeTools.reverse.find? fun t => decide (t.toolCallId=toolCallId)).map
      ActiveToolState.occurrenceId)

def updateTool (toolCallId : String) (status : ToolCallStateStatus) (output : Option String)
    (r : TimelineReducer) : TimelineReducer :=
  match r.occurrenceOf toolCallId with
  | none => r
  | some occurrenceId =>
    let updated := r.updateOccurrence occurrenceId status output
    if status.isTerminal then
      { updated with
        activeTools := updated.activeTools.filter fun t => decide (t.occurrenceId≠occurrenceId) }
    else
      { updated with
        activeTools :=
          modifyFirst (fun t => decide (t.occurrenceId=occurrenceId))
            (fun t => { t with status }) updated.activeTools }

def clear (r : TimelineReducer) : TimelineReducer :=
  { r with timeline := [], activeTools := [], historyWindow := .complete 0, openEntryId := none }

def apply (r : TimelineReducer) (event : SessionEvent) : TimelineReducer :=
  let applied :=
    match event with
    | .userMessage text _ => (r.closeOpen.push (.user text false)).2
    | .assistantDelta text => r.appendText .assistant text
    | .thoughtDelta text => r.appendText .thought text
    | .assistantDone outcome => (r.closeOpen.push (.outcome outcome)).2
    | .toolCallStarted id name title _ =>
      let (occurrenceId, r) := r.closeOpen.push (.tool id name title .pending none false)
      let added : ActiveToolState :=
        { occurrenceId, toolCallId := id, name, title, status := .pending,
          contentTruncated := false }
      { r with activeTools := r.activeTools ++ [added] }
    | .toolCallUpdated id status => r.updateTool id status none
    | .toolCallFinished id status output => r.updateTool id status (some output)
    | .conversationCleared => r.clear
    | .approvalRequested _ | .approvalResolved .. | .approvalDeadlineChanged ..
    | .runtimeOptionsChanged _ | .contextUsageChanged _ | .turnStatusChanged _
    | .durabilityStatusChanged _ | .sessionEnding _ => r
  applied.syncWindow

def freeId (timeline : List TimelineEntry) (activeTools : List ActiveToolState) : Nat :=
  let ids := (timeline.map fun e => max e.id e.order) ++ activeTools.map ActiveToolState.occurrenceId
  saturatingAdd (ids.max?.getD 0) 1

def fromParts (timeline : List TimelineEntry) (activeTools : List ActiveToolState)
    (historyWindow : HistoryWindow) (maxEntries : Nat) : TimelineReducer :=
  let reducer : TimelineReducer :=
    { timeline, activeTools, historyWindow, maxEntries := max maxEntries 1,
      nextId := freeId timeline activeTools, openEntryId := none }
  (activeTools.foldl (fun r tool => r.updateOccurrence tool.occurrenceId tool.status none) reducer)
    |>.trimToLimit.syncWindow

def isOpen (id : Nat) (r : TimelineReducer) : Bool := decide (r.openEntryId = some id)

def pushReconstructed (entry : TimelineEntryKind) (r : TimelineReducer) : TimelineReducer :=
  (r.closeOpen.push entry).2

def startReconstructedTool (toolCallId name title : String) (r : TimelineReducer) :
    TimelineReducer :=
  let (occurrenceId, r) := r.closeOpen.push (.tool toolCallId name title .inProgress none false)
  let added : ActiveToolState :=
    { occurrenceId, toolCallId, name, title, status := .inProgress, contentTruncated := false }
  { r with activeTools := r.activeTools ++ [added] }

def pushSystem (text : String) (r : TimelineReducer) : TimelineReducer :=
  (r.closeOpen.push (.system text false)).2

def updateReconstructedTool (toolCallId : String) (status : ToolCallStateStatus) (output : String)
    (r : TimelineReducer) : TimelineReducer :=
  r.updateTool toolCallId status (some output)

def cancelReconstructedActiveTools (r : TimelineReducer) : TimelineReducer :=
  r.activeTools.foldl (fun r tool => r.updateOccurrence tool.occurrenceId .cancelled none)
    { r with activeTools := [] }

structure IdsOk (r : TimelineReducer) : Prop where
  increasing : (r.timeline.map TimelineEntry.id).Pairwise (· < ·)
  minted : ∀ e∈r.timeline, e.id < r.nextId

theorem push_eq (entry : TimelineEntryKind) (r : TimelineReducer) :
    (r.push entry).1 = r.nextId ∧
    (∃ n, (r.push entry).2.timeline =
      (r.timeline ++ [TimelineEntry.mk r.nextId r.nextId entry]).drop n) ∧
    (r.push entry).2.activeTools = r.activeTools ∧
    (r.push entry).2.nextId = saturatingAdd r.nextId 1 := by
  unfold push trimToLimit
  dsimp only
  split_ifs with hexcess
  · exact ⟨rfl,⟨_,rfl⟩,rfl,rfl⟩
  · exact ⟨rfl,⟨0,rfl⟩,rfl,rfl⟩

theorem push_maxEntries (entry : TimelineEntryKind) (r : TimelineReducer) :
    (r.push entry).2.maxEntries = r.maxEntries := by
  unfold push trimToLimit
  dsimp only
  split_ifs <;> rfl

theorem push_closed (entry : TimelineEntryKind) (r : TimelineReducer) :
    (r.closeOpen.push entry).2.openEntryId = none := by
  unfold push trimToLimit
  dsimp only
  split_ifs <;> rfl

theorem push_last (entry : TimelineEntryKind) {r : TimelineReducer} (h : 0 < r.maxEntries) :
    ∃ init, (r.push entry).2.timeline = init ++ [TimelineEntry.mk r.nextId r.nextId entry] := by
  unfold push trimToLimit
  dsimp only
  split_ifs with hexcess
  · rw [length_append,length_singleton] at hexcess ⊢
    exact ⟨_,drop_append_of_le_length (by omega)⟩
  · exact ⟨_,rfl⟩

theorem mem_push {entry : TimelineEntryKind} {r : TimelineReducer} {e : TimelineEntry}
    (h : e ∈ (r.push entry).2.timeline) :
    e∈r.timeline ∨ e = TimelineEntry.mk r.nextId r.nextId entry := by
  obtain ⟨-,⟨n,htimeline⟩,-⟩ := push_eq entry r
  rw [htimeline] at h
  rcases mem_append.mp (mem_of_mem_drop h) with hold | hnew
  · exact Or.inl hold
  · exact Or.inr (mem_singleton.mp hnew)

theorem nextId_of_unsaturated {n : Nat} (h : saturatingAdd n 1 < u64Max) :
    saturatingAdd n 1 = n+1 := by
  unfold saturatingAdd at h ⊢
  omega

theorem IdsOk.push {r : TimelineReducer} (h : IdsOk r) (entry : TimelineEntryKind)
    (hsaturated : (r.push entry).2.nextId < u64Max) : IdsOk (r.push entry).2 := by
  obtain ⟨-,⟨n,htimeline⟩,-,hnext⟩ := push_eq entry r
  rw [hnext] at hsaturated
  have hsucc := nextId_of_unsaturated hsaturated
  refine ⟨?_,fun e he => ?_⟩
  · rw [htimeline,map_drop,map_append,map_singleton]
    refine List.Pairwise.sublist (drop_sublist _ _) (pairwise_append.mpr
      ⟨h.increasing,pairwise_singleton _ _,?_⟩)
    intro a ha b hb
    obtain ⟨e,he,rfl⟩ := mem_map.mp ha
    rw [mem_singleton.mp hb]
    exact h.minted e he
  · rw [hnext,hsucc]
    rcases mem_push he with hold | rfl
    · exact Nat.lt_succ_of_lt (h.minted e hold)
    · exact Nat.lt_succ_self _

/-- What extending the open entry does: it is the last one, and only its entry changes. -/
theorem of_appendToOpen {kind : TextKind} {text : String} {r r' : TimelineReducer}
    (h : r.appendToOpen kind text = some r') :
    ∃ init last entry, r.timeline = init ++ [last] ∧ r.openEntryId = some last.id ∧
      last.entry.appendText kind text = some entry ∧
      r' = { r with timeline := init ++ [TimelineEntry.mk last.id last.order entry] } := by
  simp only [appendToOpen,Option.bind_eq_bind,Option.bind_eq_some_iff] at h
  obtain ⟨openId,hopen,last,hlast,hrest⟩ := h
  split_ifs at hrest with hid
  obtain ⟨entry,hentry,hr'⟩ := Option.bind_eq_some_iff.mp hrest
  cases hr'
  obtain rfl : last.id=openId := not_not.mp hid
  exact ⟨_,last,entry,(dropLast_append_getLast? last hlast).symm,hopen,hentry,rfl⟩

theorem appendToOpen_eq_some {kind : TextKind} {text : String} {r r' : TimelineReducer}
    (h : r.appendToOpen kind text = some r') :
    r'.timeline.map TimelineEntry.id = r.timeline.map TimelineEntry.id ∧
    (∀ e∈r'.timeline, e.entry.isTool → e∈r.timeline) ∧
    r'.activeTools=r.activeTools ∧ r'.nextId=r.nextId := by
  obtain ⟨init,last,entry,htimeline,-,hentry,rfl⟩ := of_appendToOpen h
  have hkind := (TimelineEntryKind.of_appendText hentry).2
  refine ⟨by simp [htimeline],fun e he htool => ?_,rfl,rfl⟩
  rw [htimeline]
  rcases mem_append.mp he with hold | hnew
  · exact mem_append_left _ hold
  · rw [mem_singleton.mp hnew,hkind] at htool
    cases htool

structure Keeps (r r' : TimelineReducer) : Prop where
  entries : ∀ e∈r'.timeline, e.entry.isTool → e∈r.timeline
  tools : ∀ t∈r'.activeTools, t∈r.activeTools
  nextId : r'.nextId=r.nextId ∨ r'.nextId = saturatingAdd r.nextId 1
  ids : IdsOk r → r'.nextId<u64Max → IdsOk r'

variable (r : TimelineReducer)

theorem keeps_refl : Keeps r r :=
  ⟨fun _ he _ => he,fun _ ht => ht,Or.inl rfl,fun h _ => h⟩

theorem keeps_push (entry : TimelineEntryKind) (r : TimelineReducer) (h : entry.isTool=false) :
    Keeps r (r.closeOpen.push entry).2 := by
  obtain ⟨-,-,htools,hnext⟩ := push_eq entry r.closeOpen
  refine ⟨fun e he htool => ?_,fun t ht => htools ▸ ht,Or.inr hnext,fun hids hsat => ?_⟩
  · rcases mem_push he with hold | rfl
    · exact hold
    · rw [h] at htool
      cases htool
  · exact IdsOk.push (r := r.closeOpen) ⟨hids.increasing,hids.minted⟩ entry hsat

theorem keeps_appendText (kind : TextKind) (text : String) (r : TimelineReducer) :
    Keeps r (r.appendText kind text) := by
  unfold appendText
  split
  next r' hopen =>
    obtain ⟨hmap,hentries,htools,hnext⟩ := appendToOpen_eq_some hopen
    refine ⟨hentries,fun t ht => htools ▸ ht,Or.inl hnext,fun hids _ => ⟨hmap ▸ hids.increasing,?_⟩⟩
    intro e he
    have hmem : e.id ∈ r.timeline.map TimelineEntry.id := hmap ▸ mem_map_of_mem he
    obtain ⟨e',he',heq⟩ := mem_map.mp hmem
    rw [hnext,← heq]
    exact hids.minted e' he'
  next =>
    have hkeeps := keeps_push (kind.entry text) r (by cases kind <;> rfl)
    exact ⟨hkeeps.entries,hkeeps.tools,hkeeps.nextId,
      fun hids hsat => ⟨(hkeeps.ids hids hsat).increasing,(hkeeps.ids hids hsat).minted⟩⟩

theorem keeps_clear : Keeps r r.clear :=
  ⟨fun _ he => absurd he not_mem_nil,fun _ ht => absurd ht not_mem_nil,Or.inl rfl,
    fun _ _ => ⟨List.Pairwise.nil,fun _ he => absurd he not_mem_nil⟩⟩

theorem apply_keeps (r : TimelineReducer) {event : SessionEvent}
    (h : event.isToolCall=false) : Keeps r (r.apply event) := by
  suffices hkeeps : ∀ r', Keeps r r' → Keeps r r'.syncWindow by
    cases event with
    | userMessage => exact hkeeps _ (keeps_push _ r rfl)
    | assistantDelta text => exact hkeeps _ (keeps_appendText .assistant text r)
    | thoughtDelta text => exact hkeeps _ (keeps_appendText .thought text r)
    | assistantDone => exact hkeeps _ (keeps_push _ r rfl)
    | conversationCleared => exact hkeeps _ (keeps_clear r)
    | toolCallStarted | toolCallUpdated | toolCallFinished => cases h
    | _ => exact hkeeps _ (keeps_refl r)
  intro r' hr'
  exact ⟨hr'.entries,hr'.tools,hr'.nextId,
    fun hids hsat => ⟨(hr'.ids hids hsat).increasing,(hr'.ids hids hsat).minted⟩⟩

theorem updateTool_nextId (id : String) (status : ToolCallStateStatus) (output : Option String)
    (r : TimelineReducer) : (r.updateTool id status output).nextId = r.nextId := by
  unfold updateTool
  split
  · rfl
  · split_ifs <;> rfl

theorem apply_nextId (r : TimelineReducer) (event : SessionEvent) :
    (r.apply event).nextId = r.nextId ∨ (r.apply event).nextId = saturatingAdd r.nextId 1 := by
  cases htool : event.isToolCall with
  | false => exact (r.apply_keeps htool).nextId
  | true =>
    cases event with
    | toolCallStarted => exact Or.inr (push_eq _ r.closeOpen).2.2.2
    | toolCallUpdated id status => exact Or.inl (updateTool_nextId id status none r)
    | toolCallFinished id status output => exact Or.inl (updateTool_nextId id status (some output) r)
    | _ => cases htool

theorem nextId_le_apply {r : TimelineReducer} {event : SessionEvent}
    (h : (r.apply event).nextId < u64Max) : r.nextId ≤ (r.apply event).nextId := by
  rcases r.apply_nextId event with heq | heq
  · exact Nat.le_of_eq heq.symm
  · rw [heq] at h ⊢
    rw [nextId_of_unsaturated h]
    exact Nat.le_succ _

theorem unsaturated_of_apply {r : TimelineReducer} {event : SessionEvent}
    (h : (r.apply event).nextId < u64Max) : r.nextId<u64Max :=
  Nat.lt_of_le_of_lt (nextId_le_apply h) h

end TimelineReducer

end Daimonos.Session
