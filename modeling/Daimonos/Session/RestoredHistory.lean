import Daimonos.Session.InitialSnapshot
import Daimonos.Session.SnapshotState

namespace Daimonos.Session

open Framework List Providers TimelineReducer

/-- The reducers that the reconstruction of a history passes through. -/
inductive Rebuilt (maxEntries : Nat) : TimelineReducer → Prop
  | new : Rebuilt maxEntries (.new maxEntries)
  | push {r : TimelineReducer} {entry : TimelineEntryKind} (h : Rebuilt maxEntries r)
    (hentry : entry.toolState?=none) : Rebuilt maxEntries (r.pushReconstructed entry)
  | start {r : TimelineReducer} (h : Rebuilt maxEntries r) (toolCallId name title : String) :
    Rebuilt maxEntries (r.startReconstructedTool toolCallId name title)
  | update {r : TimelineReducer} (h : Rebuilt maxEntries r) (toolCallId : String)
    (status : ToolCallStateStatus) (output : String) :
    Rebuilt maxEntries (r.updateReconstructedTool toolCallId status output)

namespace Rebuilt

variable {maxEntries : Nat}

theorem flushText {s : PendingTimeline} (h : Rebuilt maxEntries s.timeline) :
    Rebuilt maxEntries s.flushText.timeline := by
  unfold PendingTimeline.flushText
  split
  · rename_i kind text _
    exact h.push (by cases kind <;> rfl)
  · exact h

theorem pushText {s : PendingTimeline} (h : Rebuilt maxEntries s.timeline)
    (kind : ReconstructedTextKind) (text : String) :
    Rebuilt maxEntries (s.pushText kind text).timeline := by
  unfold PendingTimeline.pushText
  split
  · split_ifs
    · exact h
    · exact h.flushText
  · exact h.flushText

theorem block {s : PendingTimeline} (h : Rebuilt maxEntries s.timeline)
    (projectOutput : String → String) (role : Role) (b : ContentBlock) :
    Rebuilt maxEntries (s.block projectOutput role b).timeline := by
  cases b with
  | text | thinking => exact h.pushText _ _
  | toolCall => exact h.flushText.start _ _ _
  | toolResult => exact h.flushText.update _ _ _
  | image | providerState => exact h.flushText

variable {r : TimelineReducer}

theorem message (h : Rebuilt maxEntries r) (projectOutput : String → String) (m : Message) :
    Rebuilt maxEntries (reconstructMessage projectOutput r m) := by
  have hblocks : ∀ (blocks : List ContentBlock) (s : PendingTimeline),
      Rebuilt maxEntries s.timeline → Rebuilt maxEntries
        (blocks.foldl (PendingTimeline.block projectOutput m.role) s).timeline := by
    intro blocks
    induction blocks with
    | nil => exact fun _ hs => hs
    | cons b rest ih => exact fun s hs => ih _ (hs.block projectOutput m.role b)
  exact flushText (hblocks m.content _ h)

theorem pushOutcome (h : Rebuilt maxEntries r) (outcomes : List AssistantOutcome) (index : Nat) :
    Rebuilt maxEntries (pushOutcome outcomes index r) := by
  unfold Session.pushOutcome
  split
  · exact h.push rfl
  · exact h

theorem reconstruct (projectOutput : String → String) (outcomes : List AssistantOutcome)
    (history : List Message) :
    Rebuilt maxEntries (reconstruct projectOutput outcomes maxEntries history).timeline := by
  refine List.foldlRecOn (motive := fun s : Reconstruction TimelineReducer =>
    Rebuilt maxEntries s.timeline) history _ .new ?_
  intro s hs m _
  refine message ?_ projectOutput m
  unfold Reconstruction.beginTurn
  split_ifs
  · exact hs.pushOutcome outcomes _
  · exact hs
  · exact hs

theorem of_initialSnapshot (projectOutput : String → String) (history : List Message)
    (outcomes : List AssistantOutcome) (maxEntries : Nat) :
    ∃ r, Rebuilt maxEntries r ∧ initialSnapshot projectOutput history outcomes maxEntries =
      r.cancelReconstructedActiveTools := by
  have h : Rebuilt maxEntries _ := reconstruct projectOutput outcomes history
  refine ⟨_,?_,rfl⟩
  split_ifs
  · exact h.pushOutcome outcomes _
  · exact h

end Rebuilt

namespace TimelineReducer

variable {r : TimelineReducer} {maxEntries : Nat}

theorem Paired.cancelAll (tools : List ActiveToolState) (h : Paired { r with activeTools := tools }) :
    Paired (tools.foldl (fun r tool => r.updateOccurrence tool.occurrenceId .cancelled none)
      { r with activeTools := [] }) := by
  induction tools generalizing r with
  | nil => exact h
  | cons tool rest ih =>
    have hfinished := h.finishTool tool.occurrenceId none
      (show ToolCallStateStatus.cancelled.isTerminal = true from rfl)
    have hrest : (tool::rest).filter (fun t => decide (t.occurrenceId ≠ tool.occurrenceId)) = rest := by
      have hfresh := (nodup_cons.mp h.distinct).1
      rw [filter_cons_of_neg (by simp),filter_eq_self]
      intro t ht
      exact decide_eq_true fun heq => hfresh (heq ▸ mem_map_of_mem ht)
    dsimp only at hfinished
    rw [hrest] at hfinished
    exact ih (r := r.updateOccurrence tool.occurrenceId .cancelled none) hfinished

theorem cancelReconstructedActiveTools_frame (r : TimelineReducer) :
    (r.cancelReconstructedActiveTools.timeline.map fun e => (e.id, e.entry.textKind?)) =
      (r.timeline.map fun e => (e.id, e.entry.textKind?)) ∧
    r.cancelReconstructedActiveTools.activeTools = [] ∧
    r.cancelReconstructedActiveTools.maxEntries = r.maxEntries ∧
    r.cancelReconstructedActiveTools.nextId = r.nextId ∧
    r.cancelReconstructedActiveTools.openEntryId = r.openEntryId := by
  refine List.foldlRecOn
    (motive := fun r' : TimelineReducer =>
      (r'.timeline.map fun e => (e.id, e.entry.textKind?)) =
        (r.timeline.map fun e => (e.id, e.entry.textKind?)) ∧ r'.activeTools = [] ∧
      r'.maxEntries=r.maxEntries ∧ r'.nextId=r.nextId ∧ r'.openEntryId=r.openEntryId)
    r.activeTools _ ⟨rfl,rfl,rfl,rfl,rfl⟩ ?_
  rintro r' ⟨htimeline,hrest⟩ tool -
  refine ⟨?_,hrest⟩
  rw [← htimeline]
  refine map_modifyLast (f := fun e => TimelineEntry.mk e.id e.order (e.entry.setTool .cancelled none))
    (fun e => ?_) r'.timeline
  cases e.entry <;> simp [TimelineEntryKind.setTool,TimelineEntryKind.textKind?]

theorem Resumable.cancelled (h : Resumable maxEntries r) :
    Resumable maxEntries r.cancelReconstructedActiveTools := by
  obtain ⟨htimeline,htools,hmax,hnext,hopen⟩ := cancelReconstructedActiveTools_frame r
  obtain ⟨minted,sinceClear,hcounted⟩ := h.counted
  refine ⟨h.paired.cancelAll r.activeTools,h.atTail.congr htimeline (fun hempty => ?_) hmax hnext
    (Or.inl hopen),⟨_,_,hcounted.perform .cancelReconstructedActiveTools h.unsaturated⟩,
    hnext ▸ h.unsaturated⟩
  rw [htools,h.atTail.empty hempty]

theorem Resumable.closed (h : Resumable maxEntries r) : Resumable maxEntries r.closeOpen := by
  obtain ⟨minted,sinceClear,hcounted⟩ := h.counted
  exact ⟨h.paired.closeOpen,h.atTail.closeOpen,⟨minted,sinceClear,hcounted.congr rfl⟩,
    h.unsaturated⟩

theorem Resumable.pushed (h : Resumable maxEntries r) (op : TimelineOp) {entry : TimelineEntryKind}
    (hpaired : Paired (r.perform op)) (hsaturated : (r.perform op).nextId < u64Max)
    (heq : ∃ tools, r.perform op = { (r.closeOpen.push entry).2 with activeTools := tools }) :
    Resumable maxEntries (r.perform op) ∧ (r.perform op).timeline ≠ [] := by
  obtain ⟨tools,heq⟩ := heq
  obtain ⟨minted,sinceClear,hcounted⟩ := h.counted
  obtain ⟨init,hlast⟩ := push_last entry h.atTail.closeOpen.positive
  refine ⟨⟨hpaired,?_,⟨_,_,hcounted.perform op h.unsaturated⟩,hsaturated⟩,?_⟩
  · rw [heq] at hsaturated ⊢
    refine h.atTail.closeOpen.push entry hsaturated rfl rfl (push_maxEntries _ _) fun id hid => ?_
    cases (push_closed entry r).symm.trans hid
  · rw [heq]
    simp [hlast]

/-- A snapshot of a reducer that still counts from one if it is empty brings back all but the open
entry. -/
theorem Resumable.reopened (h : Resumable maxEntries r) (hfirst : r.timeline = [] → r.nextId = 1) :
    fromParts r.timeline r.activeTools r.historyWindow (max maxEntries 1) = r.closeOpen := by
  obtain ⟨minted,sinceClear,hcounted⟩ := h.counted
  have hlimit : r.maxEntries = max maxEntries 1 := hcounted.limit
  rw [← hlimit,h.fromParts_eq]
  split_ifs with hempty
  · rw [← hfirst hempty]
    rfl
  · rfl

end TimelineReducer

variable {maxEntries : Nat} {r : TimelineReducer}

/-- A reconstructed reducer can be resumed from, and it is empty only if nothing was pushed. -/
theorem Rebuilt.resumable (h : Rebuilt maxEntries r) (hsaturated : r.nextId<u64Max) :
    Resumable maxEntries r ∧ (r.timeline = [] → r = .new maxEntries) := by
  induction h with
  | new => exact ⟨resumable_new maxEntries,fun _ => rfl⟩
  | push h hentry ih =>
    rename_i r entry
    have hafter : (r.perform (.pushReconstructed entry)).nextId < u64Max := hsaturated
    obtain ⟨hr,-⟩ := ih (unsaturated_of_perform hafter)
    obtain ⟨hpushed,hne⟩ := hr.pushed (.pushReconstructed entry)
      (hr.paired.closeOpen.push hentry hsaturated) hafter ⟨_,rfl⟩
    exact ⟨hpushed,fun hempty => absurd hempty hne⟩
  | start h toolCallId name title ih =>
    rename_i r
    have hafter : (r.perform (.startReconstructedTool toolCallId name title)).nextId < u64Max :=
      hsaturated
    obtain ⟨hr,-⟩ := ih (unsaturated_of_perform hafter)
    obtain ⟨hpushed,hne⟩ := hr.pushed (.startReconstructedTool toolCallId name title)
      (hr.paired.closeOpen.startTool rfl rfl rfl hsaturated) hafter ⟨_,rfl⟩
    exact ⟨hpushed,fun hempty => absurd hempty hne⟩
  | update h toolCallId status output ih =>
    rename_i r
    have hnext := updateTool_nextId toolCallId status (some output) r
    have hbefore : r.nextId<u64Max := hnext ▸ hsaturated
    obtain ⟨hr,hnew⟩ := ih hbefore
    obtain ⟨minted,sinceClear,hcounted⟩ := hr.counted
    refine ⟨⟨hr.paired.updateTool toolCallId status (some output),
      hr.atTail.updateTool toolCallId status (some output),
      ⟨_,_,hcounted.perform (.updateReconstructedTool toolCallId status output) hbefore⟩,
      hsaturated⟩,fun hempty => ?_⟩
    have hframe := (updateTool_frame toolCallId status (some output) r).1
    rw [show (r.updateTool toolCallId status (some output)).timeline = [] from hempty,
      map_nil] at hframe
    rw [hnew (map_eq_nil_iff.mp hframe.symm)]
    rfl

namespace SnapshotState

/-- What the daemon opens a session with: the timeline of the stored history, everything else as the
core has it. -/
def opened (projectOutput : String → String) (history : List Message)
    (outcomes : List AssistantOutcome) (core : SessionSnapshot) (maxEntries : Nat) : SnapshotState :=
  let timeline := initialSnapshot projectOutput history outcomes maxEntries
  fromSnapshot
    { core with
      timeline := timeline.timeline
      activeTools := timeline.activeTools
      historyWindow := timeline.historyWindow } maxEntries

variable (projectOutput : String → String) (history : List Message) (outcomes : List AssistantOutcome)
  (maxEntries : Nat)

theorem initialSnapshot_resumable
    (h : (initialSnapshot projectOutput history outcomes maxEntries).nextId < u64Max) :
    Resumable maxEntries (initialSnapshot projectOutput history outcomes maxEntries) ∧
    ((initialSnapshot projectOutput history outcomes maxEntries).timeline = [] →
      (initialSnapshot projectOutput history outcomes maxEntries).nextId = 1) := by
  obtain ⟨r,hrebuilt,heq⟩ := Rebuilt.of_initialSnapshot projectOutput history outcomes maxEntries
  obtain ⟨htimeline,-,-,hnext,-⟩ := cancelReconstructedActiveTools_frame r
  rw [heq] at h ⊢
  obtain ⟨hr,hnew⟩ := hrebuilt.resumable (hnext ▸ h)
  refine ⟨hr.cancelled,fun hempty => ?_⟩
  rw [hempty,map_nil] at htimeline
  rw [hnext,hnew (map_eq_nil_iff.mp htimeline.symm)]
  rfl

theorem opened_resumable (core : SessionSnapshot)
    (h : (initialSnapshot projectOutput history outcomes maxEntries).nextId < u64Max) :
    Resumable maxEntries (opened projectOutput history outcomes core maxEntries).timeline ∧
    (opened projectOutput history outcomes core maxEntries).timeline.nextId =
      (initialSnapshot projectOutput history outcomes maxEntries).nextId := by
  obtain ⟨hresumable,hfirst⟩ := initialSnapshot_resumable projectOutput history outcomes maxEntries h
  have hclosed : (opened projectOutput history outcomes core maxEntries).timeline =
      (initialSnapshot projectOutput history outcomes maxEntries).closeOpen :=
    hresumable.reopened hfirst
  rw [hclosed]
  exact ⟨hresumable.closed,rfl⟩

end SnapshotState

end Daimonos.Session
