import Daimonos.Session.FrontendState
import Daimonos.Session.ToolAgreement

namespace Daimonos.Session

open Framework List

def trimOldest {α : Type} (maxEntries : Nat) (entries : List α) : Bool × List α :=
  let excess := entries.length-maxEntries
  (decide (excess > 0), if excess > 0 then entries.drop excess else entries)

theorem trimOldest_eq_self {α : Type} {maxEntries : Nat} {entries : List α} :
    (trimOldest maxEntries entries).2 = entries ↔ entries.length ≤ maxEntries := by
  unfold trimOldest
  dsimp only
  split_ifs with hexcess
  · refine iff_of_false (fun heq => ?_) (by omega)
    have hlength := congrArg List.length heq
    rw [length_drop] at hlength
    omega
  · exact iff_of_true rfl (by omega)

/-- The daemon's own copy of the session, which every event updates. -/
structure SnapshotState where
  snapshot : SessionSnapshot
  maxEntries : Nat
  timeline : TimelineReducer

namespace SnapshotState

def syncTimeline (s : SnapshotState) : SnapshotState :=
  let snapshot := s.snapshot
  { s with
    snapshot :=
      { snapshot with
        timeline := s.timeline.timeline
        activeTools := s.timeline.activeTools
        historyWindow := s.timeline.historyWindow } }

def fromSnapshot (snapshot : SessionSnapshot) (maxEntries : Nat) : SnapshotState :=
  let maxEntries := max maxEntries 1
  let snapshot := { snapshot with runtimeOptions := (trimOldest maxEntries snapshot.runtimeOptions).2 }
  let timeline :=
    TimelineReducer.fromParts snapshot.timeline snapshot.activeTools snapshot.historyWindow maxEntries
  { snapshot, maxEntries, timeline : SnapshotState }.syncTimeline

def applyBody (event : SessionEvent) (maxEntries : Nat) (snapshot : SessionSnapshot) :
    SessionSnapshot :=
  match event with
  | .userMessage .. | .assistantDelta _ | .thoughtDelta _ | .assistantDone _ | .toolCallStarted ..
  | .toolCallUpdated .. | .toolCallFinished .. | .sessionEnding _ => snapshot
  | .approvalRequested request =>
    { snapshot with pendingApprovals := pushApproval request snapshot.pendingApprovals }
  | .approvalResolved approvalId _ _ =>
    { snapshot with pendingApprovals := dropApproval approvalId snapshot.pendingApprovals }
  | .approvalDeadlineChanged approvalId deadlineUnixMs paused =>
    { snapshot with
      pendingApprovals := changeDeadline approvalId deadlineUnixMs paused snapshot.pendingApprovals }
  | .runtimeOptionsChanged options =>
    { snapshot with runtimeOptions := (trimOldest maxEntries options).2 }
  | .contextUsageChanged usage => { snapshot with contextUsage := some usage }
  | .conversationCleared => { snapshot with pendingApprovals := [] }
  | .turnStatusChanged status => { snapshot with turnStatus := status }
  | .durabilityStatusChanged status => { snapshot with durabilityStatus := status }

def apply (seq : Nat) (event : SessionEvent) (s : SnapshotState) : SnapshotState :=
  let snapshot := s.snapshot
  { s with
    snapshot := applyBody event s.maxEntries { snapshot with seq }
    timeline := s.timeline.apply event }.syncTimeline

/-- Events arrive with consecutive sequence numbers. -/
def applyAll (s : SnapshotState) (events : List SessionEvent) : SnapshotState :=
  events.foldl (fun s event => s.apply (s.snapshot.seq+1) event) s

end SnapshotState

namespace TimelineEntryKind

def textKind? : TimelineEntryKind → Option TextKind
  | .assistant .. => some .assistant
  | .thought .. => some .thought
  | _ => none

theorem appendText_isSome_iff (entry : TimelineEntryKind) (kind : TextKind) (text : String) :
    (entry.appendText kind text).isSome ↔ entry.textKind? = some kind := by
  cases entry <;> cases kind <;> simp [appendText,textKind?]

theorem textKind?_of_appendText {entry entry' : TimelineEntryKind} {kind : TextKind} {text : String}
    (h : entry.appendText kind text = some entry') : entry'.textKind? = some kind := by
  cases entry with
  | assistant current truncated | thought current truncated =>
    simp only [appendText] at h
    split_ifs at h with hkind
    cases h
    rw [hkind]
    rfl
  | _ => cases h

end TimelineEntryKind

namespace TimelineReducer

/-- Where the next event finds the reducer: the last entry has the newest id, an empty timeline has
no tools, and the open entry is the last one and is text. -/
structure AtTail (r : TimelineReducer) : Prop where
  positive : 0 < r.maxEntries
  newest : ∀ init e, r.timeline = init ++ [e] → e.id+1=r.nextId
  empty : r.timeline = [] → r.activeTools = []
  opened : ∀ id, r.openEntryId = some id →
    ∃ init e, r.timeline = init ++ [e] ∧ e.id=id ∧ e.entry.textKind?.isSome

theorem atTail_new (maxEntries : Nat) : AtTail (new maxEntries) where
  positive := Nat.lt_of_lt_of_le Nat.one_pos (Nat.le_max_right maxEntries 1)
  newest init e h := absurd h (by simp [new])
  empty _ := rfl
  opened _ h := by cases h

variable {r r' : TimelineReducer}

theorem AtTail.push (h : AtTail r) (entry : TimelineEntryKind)
    (hsaturated : (r.push entry).2.nextId < u64Max)
    (htimeline : r'.timeline = (r.push entry).2.timeline) (hnext : r'.nextId = (r.push entry).2.nextId)
    (hmax : r'.maxEntries=r.maxEntries)
    (hopen : ∀ id, r'.openEntryId = some id → id=r.nextId ∧ entry.textKind?.isSome) :
    AtTail r' := by
  obtain ⟨init,hlast⟩ := push_last entry h.positive
  have hsucc := nextId_of_unsaturated ((push_eq entry r).2.2.2 ▸ hsaturated)
  rw [hlast] at htimeline
  refine ⟨hmax ▸ h.positive,fun init' e he => ?_,fun hempty => ?_,fun id hid => ?_⟩
  · rw [htimeline] at he
    obtain ⟨-,he⟩ := append_inj' he rfl
    cases he
    rw [hnext,(push_eq entry r).2.2.2,hsucc]
  · rw [htimeline] at hempty
    exact absurd hempty (by simp)
  · obtain ⟨rfl,htext⟩ := hopen id hid
    exact ⟨init,_,htimeline,rfl,htext⟩

theorem AtTail.congr (h : AtTail r)
    (htimeline : (r'.timeline.map fun e => (e.id, e.entry.textKind?)) =
      r.timeline.map fun e => (e.id, e.entry.textKind?))
    (htools : r.timeline = [] → r'.activeTools=r.activeTools) (hmax : r'.maxEntries=r.maxEntries)
    (hnext : r'.nextId=r.nextId) (hopen : r'.openEntryId=r.openEntryId ∨ r'.openEntryId=none) :
    AtTail r' := by
  have hsplit : ∀ init e, r'.timeline = init ++ [e] → ∃ init' e', r.timeline = init' ++ [e'] ∧
      e'.id=e.id := by
    intro init e he
    rw [he,map_append,map_singleton] at htimeline
    obtain ⟨init',rest,hr,-,hrest⟩ := map_eq_append_iff.mp htimeline.symm
    obtain ⟨e',rfl,heq⟩ := map_eq_singleton_iff.mp hrest
    exact ⟨init',e',hr,(Prod.mk.inj heq).1⟩
  refine ⟨hmax ▸ h.positive,fun init e he => ?_,fun hempty => ?_,fun id hid => ?_⟩
  · obtain ⟨init',e',hr,hid⟩ := hsplit init e he
    rw [hnext,← hid]
    exact h.newest init' e' hr
  · rw [hempty] at htimeline
    have hr : r.timeline = [] := map_eq_nil_iff.mp htimeline.symm
    rw [htools hr]
    exact h.empty hr
  · have hid' : r.openEntryId = some id := by
      rcases hopen with heq | hnone
      · rw [← heq,hid]
      · rw [hnone] at hid
        cases hid
    obtain ⟨init,e,hr,rfl,htext⟩ := h.opened id hid'
    rw [hr,map_append,map_singleton] at htimeline
    obtain ⟨init',rest,hr',-,hrest⟩ := map_eq_append_iff.mp htimeline
    obtain ⟨e',rfl,heq⟩ := map_eq_singleton_iff.mp hrest
    obtain ⟨hsame,hkind⟩ := Prod.mk.inj heq
    exact ⟨init',e',hr',hsame,hkind ▸ htext⟩

theorem updateTool_frame (id : String) (status : ToolCallStateStatus) (output : Option String)
    (r : TimelineReducer) :
    ((r.updateTool id status output).timeline.map fun e => (e.id, e.entry.textKind?)) =
      (r.timeline.map fun e => (e.id, e.entry.textKind?)) ∧
    (r.updateTool id status output).maxEntries = r.maxEntries ∧
    (r.updateTool id status output).openEntryId = r.openEntryId ∧
    (r.activeTools = [] → (r.updateTool id status output).activeTools = []) := by
  have hmap : ∀ occurrenceId, ((r.updateOccurrence occurrenceId status output).timeline.map
      fun e => (e.id, e.entry.textKind?)) = r.timeline.map fun e => (e.id, e.entry.textKind?) := by
    intro occurrenceId
    refine map_modifyLast (f := fun e => TimelineEntry.mk e.id e.order (e.entry.setTool status output))
      (fun e => ?_) r.timeline
    cases e.entry <;> simp [TimelineEntryKind.setTool,TimelineEntryKind.textKind?]
  unfold updateTool
  split
  · exact ⟨rfl,rfl,rfl,fun h => h⟩
  · split_ifs
    · refine ⟨hmap _,rfl,rfl,fun h => ?_⟩
      change List.filter _ r.activeTools = []
      rw [h]
      rfl
    · refine ⟨hmap _,rfl,rfl,fun h => ?_⟩
      change modifyFirst _ _ r.activeTools = []
      rw [h]
      rfl

theorem AtTail.updateTool (h : AtTail r) (id : String)
    (status : ToolCallStateStatus) (output : Option String) : AtTail (r.updateTool id status output) := by
  obtain ⟨htimeline,hmax,hopen,htools⟩ := updateTool_frame id status output r
  refine h.congr htimeline (fun hempty => ?_) hmax (updateTool_nextId id status output r) (Or.inl hopen)
  rw [h.empty hempty]
  exact htools (h.empty hempty)

theorem AtTail.closeOpen (h : AtTail r) : AtTail r.closeOpen :=
  h.congr rfl (fun _ => rfl) rfl rfl (Or.inr rfl)

theorem AtTail.clear (h : AtTail r) : AtTail r.clear where
  positive := h.positive
  newest init e he := absurd he (by simp [TimelineReducer.clear])
  empty _ := rfl
  opened _ hid := by cases hid

theorem textKind?_entry (kind : TextKind) (text : String) :
    (kind.entry text).textKind? = some kind := by
  cases kind <;> rfl

theorem AtTail.appendText (h : AtTail r) (kind : TextKind) (text : String)
    (hsaturated : (r.appendText kind text).nextId < u64Max) : AtTail (r.appendText kind text) := by
  unfold TimelineReducer.appendText at hsaturated ⊢
  cases hopen : r.appendToOpen kind text with
  | some r' =>
    obtain ⟨init,last,entry,htimeline,-,hentry,rfl⟩ := of_appendToOpen hopen
    refine h.congr ?_ (fun _ => rfl) rfl rfl (Or.inl rfl)
    have hlast := (TimelineEntryKind.appendText_isSome_iff last.entry kind text).mp (by rw [hentry]; rfl)
    simp [htimeline,hlast,TimelineEntryKind.textKind?_of_appendText hentry]
  | none =>
    rw [hopen] at hsaturated
    refine h.closeOpen.push (kind.entry text) hsaturated rfl rfl (push_maxEntries _ r.closeOpen) ?_
    intro id hid
    exact ⟨(Option.some.inj hid).symm,by rw [textKind?_entry]; rfl⟩

theorem AtTail.apply (h : AtTail r) (event : SessionEvent)
    (hsaturated : (r.apply event).nextId < u64Max) : AtTail (r.apply event) := by
  -- what pushes leaves nothing open, whatever it does to the active tools
  have hpush : ∀ entry (r' : TimelineReducer), (r.closeOpen.push entry).2.nextId < u64Max →
      r'.timeline = (r.closeOpen.push entry).2.timeline →
      r'.nextId = (r.closeOpen.push entry).2.nextId → r'.maxEntries=r.maxEntries →
      r'.openEntryId=none → AtTail r' := by
    intro entry r' hsat htimeline hnext hmax hopen
    refine h.closeOpen.push entry hsat htimeline hnext hmax fun id hid => ?_
    rw [hopen] at hid
    cases hid
  suffices happlied : ∀ r', AtTail r' → AtTail r'.syncWindow by
    cases event with
    | userMessage | assistantDone | toolCallStarted =>
      exact happlied _ (hpush _ _ hsaturated rfl rfl (push_maxEntries _ r.closeOpen) (push_closed _ r))
    | assistantDelta text => exact happlied _ (h.appendText .assistant text hsaturated)
    | thoughtDelta text => exact happlied _ (h.appendText .thought text hsaturated)
    | toolCallUpdated id status => exact happlied _ (h.updateTool id status none)
    | toolCallFinished id status output => exact happlied _ (h.updateTool id status (some output))
    | conversationCleared => exact happlied _ h.clear
    | _ => exact happlied _ h
  intro r' hr'
  exact hr'.congr rfl (fun _ => rfl) rfl rfl (Or.inl rfl)

/-- Everything a snapshot needs to be resumed from. -/
structure Resumable (maxEntries : Nat) (r : TimelineReducer) : Prop where
  paired : Paired r
  atTail : AtTail r
  counted : ∃ minted sinceClear, TimelineRun.Counted maxEntries ⟨r,minted,sinceClear⟩
  unsaturated : r.nextId<u64Max

theorem resumable_new (maxEntries : Nat) : Resumable maxEntries (new maxEntries) :=
  ⟨paired_new maxEntries,atTail_new maxEntries,⟨[],0,TimelineRun.new_counted maxEntries⟩,
    by change 1 < u64Max; decide⟩

theorem Resumable.apply {maxEntries : Nat} (h : Resumable maxEntries r)
    (event : SessionEvent) (hsaturated : (r.apply event).nextId < u64Max) :
    Resumable maxEntries (r.apply event) := by
  obtain ⟨minted,sinceClear,hcounted⟩ := h.counted
  exact ⟨h.paired.apply event hsaturated,h.atTail.apply event hsaturated,
    ⟨_,_,hcounted.perform (.event event) h.unsaturated⟩,hsaturated⟩

theorem setTool_self {entry : TimelineEntryKind} {toolCallId : String} {status : ToolCallStateStatus}
    (h : entry.toolState? = some (toolCallId, status)) : entry.setTool status none = entry := by
  cases entry with
  | tool =>
    obtain ⟨-,rfl⟩ := Prod.mk.inj (Option.some.inj h)
    rfl
  | _ => cases h

theorem Paired.restore (h : Paired r) (heq : r'.timeline=r.timeline)
    {tools : List ActiveToolState} (hsub : ∀ t∈tools, t∈r.activeTools) :
    tools.foldl (fun r tool => r.updateOccurrence tool.occurrenceId tool.status none) r' = r' := by
  induction tools with
  | nil => rfl
  | cons tool rest ih =>
    have hself : r'.updateOccurrence tool.occurrenceId tool.status none = r' := by
      unfold updateOccurrence
      rw [modifyLast_eq_self]
      intro e he hp
      simp only [Bool.and_eq_true,decide_eq_true_eq] at hp
      have hshown := h.shown tool (hsub tool mem_cons_self) e (heq ▸ he) hp.1
      rw [setTool_self hshown]
    rw [foldl_cons,hself]
    exact ih fun t ht => hsub t (mem_cons_of_mem tool ht)

theorem Resumable.freeId_eq {maxEntries : Nat} (h : Resumable maxEntries r) :
    freeId r.timeline r.activeTools = if r.timeline = [] then 1 else r.nextId := by
  unfold freeId
  split_ifs with hempty
  · rw [hempty,h.atTail.empty hempty]
    rfl
  · obtain ⟨init,e,htimeline⟩ : ∃ init e, r.timeline = init ++ [e] :=
      ⟨_,_,(dropLast_append_getLast hempty).symm⟩
    have hnewest := h.atTail.newest init e htimeline
    obtain ⟨minted,sinceClear,hcounted⟩ := h.counted
    have horder : ∀ e∈r.timeline, e.order=e.id := hcounted.counts.order
    have hmem : e∈r.timeline := by simp [htimeline]
    have hmax : ((r.timeline.map fun e => max e.id e.order) ++
        r.activeTools.map ActiveToolState.occurrenceId).max? = some e.id := by
      rw [max?_eq_some_iff]
      refine ⟨mem_append_left _ (mem_map.mpr ⟨e,hmem,?_⟩),fun b hb => ?_⟩
      · rw [horder e hmem,Nat.max_self]
      · rcases mem_append.mp hb with hentry | htool
        · obtain ⟨e',he',rfl⟩ := mem_map.mp hentry
          rw [horder e' he',Nat.max_self]
          have := h.paired.ids.minted e' he'
          omega
        · obtain ⟨t,ht,rfl⟩ := mem_map.mp htool
          have := h.paired.minted t ht
          omega
    have hunsaturated := h.unsaturated
    dsimp only
    rw [hmax,Option.getD_some,saturatingAdd_eq (by omega),hnewest]

/-- A snapshot restores everything but the open entry, and the counter unless the timeline is empty. -/
theorem Resumable.fromParts_eq {maxEntries : Nat} (h : Resumable maxEntries r) :
    fromParts r.timeline r.activeTools r.historyWindow r.maxEntries =
      { r with nextId := if r.timeline = [] then 1 else r.nextId, openEntryId := none } := by
  obtain ⟨minted,sinceClear,hcounted⟩ := h.counted
  have hsynced : r.syncWindow.historyWindow = r.historyWindow :=
    congrArg historyWindow (hcounted.synced h.unsaturated)
  have hlimit : max r.maxEntries 1 = r.maxEntries := Nat.max_eq_left h.atTail.positive
  have hexcess : ¬ r.timeline.length-r.maxEntries > 0 := by
    have hbounded : r.timeline.length ≤ r.maxEntries := hcounted.bounded
    omega
  unfold fromParts
  dsimp only
  rw [h.paired.restore (by rfl) fun t ht => ht,h.freeId_eq,hlimit,trimToLimit]
  rw [if_neg hexcess]
  unfold syncWindow at hsynced ⊢
  dsimp only at hsynced ⊢
  rw [hsynced]

end TimelineReducer

end Daimonos.Session
