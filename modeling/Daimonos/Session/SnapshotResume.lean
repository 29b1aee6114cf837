import Daimonos.Session.RestoredHistory

namespace Daimonos.Session

open Framework List Providers SnapshotState SessionEvent

namespace SessionEvent

def textKind? : SessionEvent → Option TextKind
  | .assistantDelta _ => some .assistant
  | .thoughtDelta _ => some .thought
  | _ => none

def closesText : SessionEvent → Bool
  | .userMessage .. | .assistantDone _ | .toolCallStarted .. | .conversationCleared => true
  | _ => false

def pushesEntry (openKind : Option TextKind) : SessionEvent → Bool
  | .userMessage .. | .assistantDone _ | .toolCallStarted .. => true
  | .assistantDelta _ => decide (openKind ≠ some .assistant)
  | .thoughtDelta _ => decide (openKind ≠ some .thought)
  | _ => false

/-- Whether the timeline is empty after the event, given whether it was before. -/
def leavesEmpty (empty : Bool) : SessionEvent → Bool
  | .conversationCleared => true
  | .userMessage .. | .assistantDelta _ | .thoughtDelta _ | .assistantDone _
  | .toolCallStarted .. => false
  | _ => empty

def emptyAfter (empty : Bool) (events : List SessionEvent) : Bool := events.foldl leavesEmpty empty

def resumeText (openKind : Option TextKind) : List SessionEvent → Bool
  | [] => false
  | event::rest =>
    match event.textKind? with
    | some kind => decide (openKind = some kind)
    | none => if event.closesText then false else resumeText openKind rest

theorem resumeText_none (events : List SessionEvent) : resumeText none events = false := by
  induction events with
  | nil => rfl
  | cons event rest ih =>
    rw [resumeText]
    split
    · rfl
    · rw [ih,ite_self]

end SessionEvent

namespace TimelineReducer

def openKind? (r : TimelineReducer) : Option TextKind :=
  r.openEntryId.bind fun _ => r.timeline.getLast?.bind fun e => e.entry.textKind?

variable {r : TimelineReducer}

theorem AtTail.openKind_isSome (h : AtTail r) :
    r.openKind?.isSome = r.openEntryId.isSome := by
  cases hopen : r.openEntryId with
  | none => simp [openKind?,hopen]
  | some id =>
    obtain ⟨init,e,htimeline,-,htext⟩ := h.opened id hopen
    simpa [openKind?,hopen,htimeline] using htext

theorem AtTail.appendToOpen_isSome (h : AtTail r) (kind : TextKind)
    (text : String) : (r.appendToOpen kind text).isSome ↔ r.openKind? = some kind := by
  cases hopen : r.openEntryId with
  | none => simp [appendToOpen,openKind?,hopen]
  | some id =>
    obtain ⟨init,e,htimeline,hid,-⟩ := h.opened id hopen
    have happend : r.appendToOpen kind text = (e.entry.appendText kind text).bind fun entry =>
        some { r with timeline := init ++ [TimelineEntry.mk e.id e.order entry] } := by
      simp [appendToOpen,hopen,htimeline,hid]
    have hkind : r.openKind?=e.entry.textKind? := by simp [openKind?,hopen,htimeline]
    rw [happend,hkind,← TimelineEntryKind.appendText_isSome_iff e.entry kind text]
    cases e.entry.appendText kind text <;> simp

theorem AtTail.appendText_cases (h : AtTail r) (kind : TextKind) (text : String) :
    (r.openKind? = some kind ∧ ∃ init last entry, r.timeline = init ++ [last] ∧
      entry.textKind? = some kind ∧ r.appendText kind text =
        { r with timeline := init ++ [TimelineEntry.mk last.id last.order entry] }) ∨
    (r.openKind? ≠ some kind ∧ r.appendText kind text =
      { (r.closeOpen.push (kind.entry text)).2 with openEntryId := some r.nextId }) := by
  cases hopen : r.appendToOpen kind text with
  | some r' =>
    obtain ⟨init,last,entry,htimeline,-,hentry,rfl⟩ := of_appendToOpen hopen
    refine Or.inl ⟨(h.appendToOpen_isSome kind text).mp (by rw [hopen]; rfl),init,last,entry,
      htimeline,TimelineEntryKind.textKind?_of_appendText hentry,?_⟩
    rw [TimelineReducer.appendText,hopen]
  | none =>
    refine Or.inr ⟨fun hkind => ?_,by rw [TimelineReducer.appendText,hopen]; rfl⟩
    have hsome := (h.appendToOpen_isSome kind text).mpr hkind
    rw [hopen] at hsome
    cases hsome

theorem push_ne_nil (entry : TimelineEntryKind) (h : 0 < r.maxEntries) :
    (r.push entry).2.timeline ≠ [] := by
  obtain ⟨init,hlast⟩ := push_last entry h
  rw [hlast]
  exact append_ne_nil_of_right_ne_nil _ (cons_ne_nil _ _)

theorem AtTail.apply_nextId (h : AtTail r) (event : SessionEvent) :
    (r.apply event).nextId =
      if event.pushesEntry r.openKind? then saturatingAdd r.nextId 1 else r.nextId := by
  have hdelta : ∀ kind text, (r.appendText kind text).nextId =
      if decide (r.openKind? ≠ some kind) then saturatingAdd r.nextId 1 else r.nextId := by
    intro kind text
    rcases h.appendText_cases kind text with ⟨hkind,_,_,_,_,_,heq⟩ | ⟨hkind,heq⟩
    · rw [heq,if_neg (by simp [hkind])]
    · rw [heq,if_pos (by simp [hkind])]
      exact (push_eq _ r.closeOpen).2.2.2
  cases event with
  | userMessage | assistantDone | toolCallStarted => exact (push_eq _ r.closeOpen).2.2.2
  | assistantDelta text => exact hdelta .assistant text
  | thoughtDelta text => exact hdelta .thought text
  | toolCallUpdated id status => exact updateTool_nextId id status none r
  | toolCallFinished id status output => exact updateTool_nextId id status (some output) r
  | _ => rfl

theorem updateTool_length (id : String) (status : ToolCallStateStatus) (output : Option String)
    (r : TimelineReducer) : (r.updateTool id status output).timeline.length = r.timeline.length := by
  have hmap := congrArg List.length (updateTool_frame id status output r).1
  rwa [length_map,length_map] at hmap

theorem AtTail.apply_isEmpty (h : AtTail r) (event : SessionEvent) :
    (r.apply event).timeline.isEmpty = event.leavesEmpty r.timeline.isEmpty := by
  have hdelta : ∀ kind text, (r.appendText kind text).timeline.isEmpty = false := by
    intro kind text
    rcases h.appendText_cases kind text with ⟨-,init,last,entry,-,-,heq⟩ | ⟨-,heq⟩
    · simp [heq]
    · rw [heq]
      exact isEmpty_eq_false_iff.mpr (push_ne_nil _ (r := r.closeOpen) h.positive)
  have htool : ∀ id status output, (r.updateTool id status output).timeline.isEmpty =
      r.timeline.isEmpty := by
    intro id status output
    rw [Bool.eq_iff_iff,isEmpty_iff_length_eq_zero,isEmpty_iff_length_eq_zero,updateTool_length]
  cases event with
  | userMessage | assistantDone | toolCallStarted =>
    exact isEmpty_eq_false_iff.mpr (push_ne_nil _ (r := r.closeOpen) h.positive)
  | assistantDelta text => exact hdelta .assistant text
  | thoughtDelta text => exact hdelta .thought text
  | toolCallUpdated id status => exact htool id status none
  | toolCallFinished id status output => exact htool id status (some output)
  | _ => rfl

theorem openKind?_congr {r' : TimelineReducer} (hopen : r'.openEntryId=r.openEntryId)
    (htimeline : (r'.timeline.map fun e => (e.id, e.entry.textKind?)) =
      r.timeline.map fun e => (e.id, e.entry.textKind?)) : r'.openKind?=r.openKind? := by
  have hlast := congrArg List.getLast? htimeline
  rw [getLast?_map,getLast?_map] at hlast
  unfold openKind?
  cases hr' : r'.timeline.getLast? <;> cases hr : r.timeline.getLast? <;> simp_all

theorem openKind?_of_closed (h : r.openEntryId=none) :
    r.openKind?=none := by
  rw [openKind?,h]
  rfl

/-- Text is open after a delta, nothing is after what closes it, the rest leaves it as it is. -/
theorem AtTail.apply_openKind (h : AtTail r) (event : SessionEvent) :
    (r.apply event).openKind? =
      if event.closesText then none else event.textKind?.or r.openKind? := by
  have hdelta : ∀ kind text, (r.appendText kind text).syncWindow.openKind? = some kind := by
    intro kind text
    rcases h.appendText_cases kind text with ⟨hkind,init,last,entry,_,hentry,heq⟩ | ⟨_,heq⟩
    · obtain ⟨id,hid⟩ : ∃ id, r.openEntryId = some id :=
        Option.isSome_iff_exists.mp (by rw [← h.openKind_isSome,hkind]; rfl)
      simp [heq,openKind?,syncWindow,hid,hentry]
    · obtain ⟨init,hlast⟩ := push_last (kind.entry text) (r := r.closeOpen) h.positive
      rw [heq]
      simp [openKind?,syncWindow,hlast,textKind?_entry]
  have htool : ∀ id status output, (r.updateTool id status output).syncWindow.openKind? =
      r.openKind? := by
    intro id status output
    obtain ⟨htimeline,-,hopen,-⟩ := updateTool_frame id status output r
    exact openKind?_congr hopen htimeline
  cases event with
  | userMessage | assistantDone | toolCallStarted => exact openKind?_of_closed (push_closed _ r)
  | conversationCleared => rfl
  | assistantDelta text => exact hdelta .assistant text
  | thoughtDelta text => exact hdelta .thought text
  | toolCallUpdated id status => exact htool id status none
  | toolCallFinished id status output => exact htool id status (some output)
  | _ => rfl

theorem updateTool_window (id : String) (status : ToolCallStateStatus) (output : Option String)
    (r : TimelineReducer) : (r.updateTool id status output).historyWindow = r.historyWindow := by
  unfold updateTool
  split
  · rfl
  · split_ifs <;> rfl

variable {d c : TimelineReducer} {event : SessionEvent}

theorem apply_window_of_empty (hd : AtTail d)
    (hwindow : d.timeline = [] → c.historyWindow = d.historyWindow)
    (hempty : c.timeline.isEmpty = d.timeline.isEmpty) (hafter : (d.apply event).timeline = []) :
    (c.apply event).historyWindow = (d.apply event).historyWindow := by
  have hleaves := hd.apply_isEmpty event
  rw [hafter,isEmpty_nil] at hleaves
  have hsync : ∀ c' d' : TimelineReducer, c'.historyWindow = c.historyWindow →
      d'.historyWindow = d.historyWindow → c'.timeline.length = c.timeline.length →
      d'.timeline.length = d.timeline.length → d.timeline.isEmpty=true →
      c'.syncWindow.historyWindow = d'.syncWindow.historyWindow := by
    intro c' d' hc' hd' hclen hdlen hnil
    have hcnil : c.timeline = [] := List.isEmpty_iff.mp (hempty.trans hnil)
    have hdnil : d.timeline = [] := List.isEmpty_iff.mp hnil
    unfold syncWindow
    rw [hc',hd',hclen,hdlen,hwindow hdnil,hcnil,hdnil]
  cases event with
  | userMessage | assistantDone | toolCallStarted | assistantDelta | thoughtDelta => cases hleaves
  | conversationCleared => rfl
  | toolCallUpdated | toolCallFinished =>
    exact hsync _ _ (updateTool_window ..) (updateTool_window ..) (updateTool_length ..)
      (updateTool_length ..) hleaves.symm
  | _ => exact hsync _ _ rfl rfl rfl rfl hleaves.symm

structure SameLook (c d : TimelineReducer) : Prop where
  timeline : c.timeline=d.timeline
  activeTools : c.activeTools=d.activeTools
  historyWindow : c.historyWindow = d.historyWindow

/-- Two reducers with different counters: what either appends from now on, the other cannot. -/
structure Apart (c d : TimelineReducer) : Prop where
  client : AtTail c
  daemon : AtTail d
  counters : c.nextId≠d.nextId
  empty : c.timeline.isEmpty = d.timeline.isEmpty
  window : d.timeline = [] → c.historyWindow = d.historyWindow
  openKind : c.openKind?=d.openKind?

theorem Apart.sameLook_iff (h : Apart c d) :
    SameLook c d ↔ d.timeline = [] := by
  constructor
  · intro hlook
    by_contra hne
    obtain ⟨init,e,htimeline⟩ : ∃ init e, d.timeline = init ++ [e] :=
      ⟨_,_,(dropLast_append_getLast hne).symm⟩
    have hd := h.daemon.newest init e htimeline
    have hc := h.client.newest init e (hlook.timeline.trans htimeline)
    exact h.counters (hc.symm.trans hd)
  · intro hd
    have hc : c.timeline = [] := List.isEmpty_iff.mp (by rw [h.empty,hd]; rfl)
    exact ⟨hc.trans hd.symm,(h.client.empty hc).trans (h.daemon.empty hd).symm,h.window hd⟩

theorem Apart.apply (h : Apart c d) (event : SessionEvent)
    (hc : c.nextId+1<u64Max) (hd : d.nextId+1<u64Max) :
    Apart (c.apply event) (d.apply event) := by
  have hcounter : ∀ r : TimelineReducer, AtTail r → r.nextId+1<u64Max →
      (r.apply event).nextId = r.nextId + (event.pushesEntry r.openKind?).toNat := by
    intro r hr hlt
    rw [hr.apply_nextId event]
    cases event.pushesEntry r.openKind? with
    | true => exact saturatingAdd_eq (Nat.le_of_lt hlt)
    | false => rfl
  have hc' := hcounter c h.client hc
  have hd' := hcounter d h.daemon hd
  have hle := Bool.toNat_le (event.pushesEntry d.openKind?)
  rw [h.openKind] at hc'
  refine ⟨h.client.apply event (by omega),h.daemon.apply event (by omega),?_,?_,?_,?_⟩
  · have := h.counters
    omega
  · rw [h.client.apply_isEmpty,h.daemon.apply_isEmpty,h.empty]
  · exact apply_window_of_empty h.daemon h.window h.empty
  · rw [h.client.apply_openKind,h.daemon.apply_openKind,h.openKind]

theorem apply_nextId_le (r : TimelineReducer) (event : SessionEvent) :
    (r.apply event).nextId ≤ r.nextId+1 := by
  rcases r.apply_nextId event with heq | heq
  · rw [heq]
    exact Nat.le_succ _
  · rw [heq]
    exact Nat.min_le_left _ _

theorem Apart.applyAll (h : Apart c d) (events : List SessionEvent)
    (hc : c.nextId+events.length<u64Max) (hd : d.nextId+events.length<u64Max) :
    Apart (c.applyAll events) (d.applyAll events) := by
  induction events generalizing c d with
  | nil => exact h
  | cons event rest ih =>
    rw [length_cons] at hc hd
    have hc' := c.apply_nextId_le event
    have hd' := d.apply_nextId_le event
    exact ih (h.apply event (by omega) (by omega)) (by omega) (by omega)

variable (events : List SessionEvent)

theorem AtTail.applyAll_isEmpty (h : AtTail r) (hr : r.nextId+events.length<u64Max) :
    (r.applyAll events).timeline.isEmpty = emptyAfter r.timeline.isEmpty events := by
  induction events generalizing r with
  | nil => rfl
  | cons event rest ih =>
    rw [length_cons] at hr
    have hr' := r.apply_nextId_le event
    have hafter := ih (h.apply event (by omega)) (by omega)
    rwa [h.apply_isEmpty event] at hafter

theorem Apart.sameLook_applyAll_iff (h : Apart c d) (hc : c.nextId+events.length<u64Max)
    (hd : d.nextId+events.length<u64Max) :
    SameLook (c.applyAll events) (d.applyAll events) ↔
      emptyAfter d.timeline.isEmpty events = true := by
  rw [(h.applyAll events hc hd).sameLook_iff,← h.daemon.applyAll_isEmpty events hd,
    List.isEmpty_iff]

theorem sameLook_refl (r : TimelineReducer) : SameLook r r := ⟨rfl,rfl,rfl⟩

theorem closeOpen_apply_of_closes
    (h : event.closesText=true) : d.closeOpen.apply event = d.apply event := by
  cases event with
  | userMessage | assistantDone | toolCallStarted | conversationCleared => rfl
  | _ => cases h

variable {kind : TextKind}

theorem AtTail.closeOpen_apply_of_text (h : AtTail d)
    (hkind : event.textKind? = some kind) (hopen : d.openKind? ≠ some kind) :
    d.closeOpen.apply event = d.apply event := by
  have happend : ∀ text, d.closeOpen.appendText kind text = d.appendText kind text := by
    intro text
    rcases h.closeOpen.appendText_cases kind text with ⟨hclosed,-⟩ | ⟨-,heq⟩
    · cases hclosed
    · rcases h.appendText_cases kind text with ⟨hsame,-⟩ | ⟨-,heq'⟩
      · exact absurd hsame hopen
      · rw [heq,heq']
        rfl
  cases event with
  | assistantDelta text | thoughtDelta text =>
    cases hkind
    exact congrArg syncWindow (happend text)
  | _ => cases hkind

theorem closeOpen_apply (hcloses : event.closesText=false) (hkind : event.textKind?=none) :
    d.closeOpen.apply event = (d.apply event).closeOpen := by
  have htool : ∀ id status output, (d.closeOpen.updateTool id status output).syncWindow =
      (d.updateTool id status output).syncWindow.closeOpen := by
    intro id status output
    have hoccurrence : d.closeOpen.occurrenceOf id = d.occurrenceOf id := rfl
    unfold updateTool
    rw [hoccurrence]
    split
    · rfl
    · split_ifs <;> rfl
  cases event with
  | toolCallUpdated id status => exact htool id status none
  | toolCallFinished id status output => exact htool id status (some output)
  | userMessage | assistantDone | toolCallStarted | conversationCleared => cases hcloses
  | assistantDelta | thoughtDelta => cases hkind
  | _ => rfl

/-- Text of the open kind sets them apart: one extends its entry, the other starts a new one. -/
theorem AtTail.apart_of_resume (h : AtTail d)
    (hkind : event.textKind? = some kind) (hopen : d.openKind? = some kind)
    (hd : d.nextId+1<u64Max) : Apart (d.closeOpen.apply event) (d.apply event) := by
  have hclosed : d.closeOpen.openKind?=none := openKind?_of_closed rfl
  have hpushes : event.pushesEntry none = true ∧ event.pushesEntry (some kind) = false ∧
      event.leavesEmpty d.timeline.isEmpty = false ∧ event.closesText=false := by
    cases event with
    | assistantDelta | thoughtDelta =>
      cases hkind
      exact ⟨rfl,rfl,rfl,rfl⟩
    | _ => cases hkind
  obtain ⟨hpush,hextend,hleaves,hcloses⟩ := hpushes
  have hcnext : (d.closeOpen.apply event).nextId = d.nextId+1 := by
    rw [h.closeOpen.apply_nextId,hclosed,hpush]
    exact saturatingAdd_eq (Nat.le_of_lt hd)
  have hdnext : (d.apply event).nextId = d.nextId := by
    rw [h.apply_nextId,hopen,hextend]
    rfl
  have hempty : (d.apply event).timeline.isEmpty = false := (h.apply_isEmpty event).trans hleaves
  refine ⟨h.closeOpen.apply event (by omega),h.apply event (by omega),by omega,?_,?_,?_⟩
  · rw [hempty]
    exact (h.closeOpen.apply_isEmpty event).trans hleaves
  · intro hnil
    rw [hnil] at hempty
    cases hempty
  · rw [h.closeOpen.apply_openKind,h.apply_openKind,hcloses,hkind]
    rfl

theorem AtTail.closeOpen_sameLook_iff (h : AtTail d)
    (hopen : d.openKind? = some kind) (events : List SessionEvent)
    (hd : d.nextId+events.length+1<u64Max) :
    SameLook (d.closeOpen.applyAll events) (d.applyAll events) ↔
      resumeText (some kind) events = false ∨
        emptyAfter d.timeline.isEmpty events = true := by
  induction events generalizing d with
  | nil => exact iff_of_true ⟨rfl,rfl,rfl⟩ (Or.inl rfl)
  | cons event rest ih =>
    rw [length_cons] at hd
    have hd' := d.apply_nextId_le event
    have hcons : ∀ r : TimelineReducer, r.applyAll (event::rest) = (r.apply event).applyAll rest :=
      fun _ => rfl
    have hempty : emptyAfter d.timeline.isEmpty (event::rest) =
        emptyAfter (d.apply event).timeline.isEmpty rest := by
      rw [h.apply_isEmpty event]
      rfl
    rw [hcons,hcons,hempty,resumeText]
    cases hkind : event.textKind? with
    | some kind' =>
      by_cases hsame : kind=kind'
      · subst hsame
        have happly := d.closeOpen.apply_nextId_le event
        have hnext : d.closeOpen.nextId=d.nextId := rfl
        have hapart := h.apart_of_resume hkind hopen (by omega)
        rw [hapart.sameLook_applyAll_iff rest (by omega) (by omega)]
        simp
      · rw [h.closeOpen_apply_of_text hkind (by rw [hopen]; simpa using hsame)]
        exact iff_of_true (sameLook_refl _) (Or.inl (by simpa using hsame))
    | none =>
      cases hcloses : event.closesText with
      | true =>
        rw [closeOpen_apply_of_closes hcloses]
        exact iff_of_true (sameLook_refl _) (Or.inl rfl)
      | false =>
        rw [closeOpen_apply hcloses hkind]
        have hopen' : (d.apply event).openKind? = some kind := by
          rw [h.apply_openKind,hcloses,hkind,hopen]
          rfl
        simpa using ih (h.apply event (by omega)) hopen' (by omega)

/-- Whether a reducer restored from the snapshot of this one goes on as this one does. -/
def resumesInStep (d : TimelineReducer) (after : List SessionEvent) : Bool :=
  (if d.timeline.isEmpty then decide (d.nextId=1)
    else !SessionEvent.resumeText d.openKind? after) ||
  emptyAfter d.timeline.isEmpty after

def restored (d : TimelineReducer) : TimelineReducer :=
  fromParts d.timeline d.activeTools d.historyWindow d.maxEntries

theorem Resumable.restored_sameLook_iff {maxEntries : Nat}
    (h : Resumable maxEntries d) (after : List SessionEvent)
    (hd : d.nextId+after.length+1<u64Max) :
    SameLook (d.restored.applyAll after) (d.applyAll after) ↔ d.resumesInStep after = true := by
  rw [restored,h.fromParts_eq,resumesInStep,Bool.or_eq_true]
  by_cases hempty : d.timeline = []
  · have hclosed : d.openEntryId=none := by
      cases hopen : d.openEntryId with
      | none => rfl
      | some id =>
        obtain ⟨init,e,htimeline,-⟩ := h.atTail.opened id hopen
        rw [hempty] at htimeline
        exact absurd htimeline (by simp)
    rw [if_pos hempty,if_pos (List.isEmpty_iff.mpr hempty),decide_eq_true_eq]
    by_cases hnext : d.nextId=1
    · rw [← hnext,← hclosed]
      exact iff_of_true (sameLook_refl _) (Or.inl rfl)
    · -- the client counts from one again, the daemon does not
      have hapart : Apart { d with nextId := 1, openEntryId := none } d := by
        refine ⟨⟨h.atTail.positive,?_,h.atTail.empty,fun id hid => ?_⟩,h.atTail,Ne.symm hnext,
          rfl,fun _ => rfl,?_⟩
        · intro init e htimeline
          exact absurd (htimeline.symm.trans hempty) (by simp)
        · cases hid
        · rw [openKind?_of_closed hclosed]
          rfl
      have hone : 1+after.length<u64Max := by omega
      rw [hapart.sameLook_applyAll_iff after hone (by omega),or_iff_right hnext]
  · have hlost : { d with nextId := d.nextId, openEntryId := none } = d.closeOpen := rfl
    rw [if_neg hempty,if_neg (by simpa using hempty),Bool.not_eq_true',hlost]
    cases hopen : d.openKind? with
    | none =>
      have hclosed : d.openEntryId=none := by
        rw [← Option.isNone_iff_eq_none,← Option.not_isSome,← h.atTail.openKind_isSome,hopen]
        rfl
      have hsame : d.closeOpen=d := by rw [closeOpen,← hclosed]
      rw [hsame]
      exact iff_of_true (sameLook_refl _) (Or.inl (resumeText_none after))
    | some kind => exact h.atTail.closeOpen_sameLook_iff hopen after hd

end TimelineReducer

namespace SnapshotState

/-- The snapshot shows the timeline of the reducer beside it. -/
structure Synced (s : SnapshotState) : Prop where
  timeline : s.snapshot.timeline = s.timeline.timeline
  activeTools : s.snapshot.activeTools = s.timeline.activeTools
  historyWindow : s.snapshot.historyWindow = s.timeline.historyWindow

theorem synced_applyAll {s : SnapshotState} (h : Synced s) (events : List SessionEvent) :
    Synced (s.applyAll events) := by
  induction events generalizing s with
  | nil => exact h
  | cons event rest ih => exact ih ⟨rfl,rfl,rfl⟩

variable (s : SnapshotState) (events : List SessionEvent)

theorem applyAll_timeline :
    (s.applyAll events).timeline = s.timeline.applyAll events := by
  induction events generalizing s with
  | nil => rfl
  | cons event rest ih => exact ih _

theorem applyAll_maxEntries :
    (s.applyAll events).maxEntries = s.maxEntries := by
  induction events generalizing s with
  | nil => rfl
  | cons event rest ih => exact ih _

theorem applyAll_append (before after : List SessionEvent) :
    s.applyAll (before++after) = (s.applyAll before).applyAll after := foldl_append

theorem resumable_applyAll {s : SnapshotState} {maxEntries : Nat}
    (hs : TimelineReducer.Resumable maxEntries s.timeline) (events : List SessionEvent)
    (h : s.timeline.nextId+events.length<u64Max) :
    TimelineReducer.Resumable maxEntries (s.applyAll events).timeline ∧
    (s.applyAll events).timeline.nextId ≤ s.timeline.nextId + events.length := by
  rw [applyAll_timeline]
  induction events using List.reverseRecOn with
  | nil => exact ⟨hs,Nat.le_refl _⟩
  | append_singleton events event ih =>
    rw [length_append,length_singleton] at h ⊢
    obtain ⟨hresumable,hnext⟩ := ih (by omega)
    rw [TimelineReducer.applyAll_append]
    have hle := (s.timeline.applyAll events).apply_nextId_le event
    exact ⟨hresumable.apply event (by omega),hle.trans (by omega)⟩

end SnapshotState

def sequenced (seq : Nat) : List SessionEvent → List (Nat × SessionEvent)
  | [] => []
  | event::rest => (seq+1, event) :: sequenced (seq+1) rest

def lastOptions : List SessionEvent → Option (List RuntimeOption)
  | [] => none
  | .runtimeOptionsChanged options :: rest => some ((lastOptions rest).getD options)
  | _::rest => lastOptions rest

namespace ViewState

/-- A client takes the daemon's snapshot and then the events that follow it. -/
def attach (v : ViewState) (s : SnapshotState) (after : List SessionEvent) : ViewState :=
  (v.applySnapshot s.snapshot).deliver (sequenced s.snapshot.seq after)

/-- The view shows what the daemon's own state shows. -/
structure SameSession (v : ViewState) (s : SnapshotState) : Prop where
  timeline : v.timeline.timeline = s.snapshot.timeline
  activeTools : v.timeline.activeTools = s.snapshot.activeTools
  historyWindow : v.timeline.historyWindow = s.snapshot.historyWindow
  pendingApprovals : v.pendingApprovals = s.snapshot.pendingApprovals
  runtimeOptions : v.runtimeOptions = s.snapshot.runtimeOptions
  contextUsage : v.contextUsage = s.snapshot.contextUsage
  turnStatus : v.turnStatus = s.snapshot.turnStatus
  durabilityStatus : v.durabilityStatus = s.snapshot.durabilityStatus

structure SameControls (v : ViewState) (s : SnapshotState) : Prop where
  lastSeq : v.lastSeq=s.snapshot.seq
  pendingApprovals : v.pendingApprovals = s.snapshot.pendingApprovals
  contextUsage : v.contextUsage = s.snapshot.contextUsage
  turnStatus : v.turnStatus = s.snapshot.turnStatus
  durabilityStatus : v.durabilityStatus = s.snapshot.durabilityStatus

theorem SameControls.advance {v : ViewState} {s : SnapshotState} (h : SameControls v s) (seq : Nat)
    (event : SessionEvent) : SameControls (v.advance (seq, event)) (s.apply seq event) := by
  obtain ⟨-,hpending,husage,hturn,hdurability⟩ := h
  refine ⟨?_,?_,?_,?_,?_⟩
  · cases event <;> rfl
  all_goals
    cases event <;>
      simp [ViewState.advance,applyEventBody,syncProjection,apply,applyBody,syncTimeline, *]

variable (v : ViewState)

theorem applyEventBody_timeline (event : SessionEvent) :
    (v.applyEventBody event).timeline = v.timeline := by
  cases event <;> rfl

theorem deliver_sequenced_cons (event : SessionEvent) (rest : List SessionEvent) :
    v.deliver (sequenced v.lastSeq (event::rest)) = (v.advance (v.lastSeq+1, event)).deliver
        (sequenced (v.advance (v.lastSeq+1, event)).lastSeq rest) := by
  rw [sequenced,deliver_cons,if_pos rfl,advance_lastSeq]

variable (events : List SessionEvent)

theorem deliver_sequenced_timeline :
    (v.deliver (sequenced v.lastSeq events)).timeline = v.timeline.applyAll events := by
  induction events generalizing v with
  | nil => rfl
  | cons event rest ih =>
    rw [deliver_sequenced_cons,ih]
    change (applyEventBody event _).timeline.applyAll rest = _
    rw [applyEventBody_timeline]
    rfl

theorem SameControls.deliver {v : ViewState} {s : SnapshotState} (h : SameControls v s)
    (events : List SessionEvent) :
    SameControls (v.deliver (sequenced v.lastSeq events)) (s.applyAll events) := by
  induction events generalizing v s with
  | nil => exact h
  | cons event rest ih =>
    rw [deliver_sequenced_cons]
    have hnext := h.advance (v.lastSeq+1) event
    rw [h.lastSeq] at hnext ⊢
    exact ih hnext

theorem deliver_sequenced_options :
    (v.deliver (sequenced v.lastSeq events)).runtimeOptions =
      (lastOptions events).getD v.runtimeOptions := by
  induction events generalizing v with
  | nil => rfl
  | cons event rest ih =>
    rw [deliver_sequenced_cons,ih]
    cases event <;> rfl

end ViewState

theorem SnapshotState.applyAll_options (s : SnapshotState) (events : List SessionEvent) :
    (s.applyAll events).snapshot.runtimeOptions =
      ((lastOptions events).map fun options => (trimOldest s.maxEntries options).2).getD
        s.snapshot.runtimeOptions := by
  induction events generalizing s with
  | nil => rfl
  | cons event rest ih =>
    refine (ih _).trans ?_
    cases event with
    | runtimeOptionsChanged options =>
      rw [lastOptions]
      cases lastOptions rest <;> rfl
    | _ => rfl

def SnapshotState.keepsOptions (s : SnapshotState) (after : List SessionEvent) : Bool :=
  (lastOptions after).all fun options => decide (options.length ≤ s.maxEntries)

theorem SnapshotState.keepsOptions_iff (s : SnapshotState) (after : List SessionEvent) :
    (lastOptions after).getD s.snapshot.runtimeOptions =
      (s.applyAll after).snapshot.runtimeOptions ↔ s.keepsOptions after = true := by
  rw [applyAll_options,keepsOptions]
  cases lastOptions after with
  | none => exact iff_of_true rfl rfl
  | some options =>
    change options = (trimOldest s.maxEntries options).2 ↔ decide _ = true
    rw [decide_eq_true_eq,eq_comm,trimOldest_eq_self]

/-- Whether a client that attaches now shows after the events what the daemon shows: its timeline
goes on from the snapshot, and the daemon has not trimmed options that the client keeps. -/
def SnapshotState.attachesInStep (s : SnapshotState) (after : List SessionEvent) : Bool :=
  s.timeline.resumesInStep after && s.keepsOptions after

namespace ViewState

section Attach

variable (projectOutput : String → String) (history : List Message) (outcomes : List AssistantOutcome)
  (core : SessionSnapshot) (maxEntries : Nat)

/-- A client that attaches to a session, opened from any stored history, shows after any further
events what the daemon shows exactly if it goes on in step. -/
theorem attach_sameSession_iff (before after : List SessionEvent) (v : ViewState)
    (hlimit : v.maxScrollbackEntries =
      (opened projectOutput history outcomes core maxEntries).maxEntries)
    (hlength : (initialSnapshot projectOutput history outcomes maxEntries).nextId + before.length +
      after.length+1<u64Max) :
    SameSession
      (v.attach ((opened projectOutput history outcomes core maxEntries).applyAll before) after)
      ((opened projectOutput history outcomes core maxEntries).applyAll (before++after)) ↔
    ((opened projectOutput history outcomes core maxEntries).applyAll before).attachesInStep after =
      true := by
  obtain ⟨hopened,hfirst⟩ :=
    opened_resumable projectOutput history outcomes maxEntries core (by omega)
  obtain ⟨hresumable,hnext⟩ := resumable_applyAll hopened before (by omega)
  have hmax := applyAll_maxEntries (opened projectOutput history outcomes core maxEntries) before
  have hentries : ((opened projectOutput history outcomes core maxEntries).applyAll
      before).timeline.maxEntries = max maxEntries 1 := by
    obtain ⟨minted,sinceClear,hcounted⟩ := hresumable.counted
    exact hcounted.limit
  have hsynced := synced_applyAll (s := opened projectOutput history outcomes core maxEntries)
    ⟨rfl,rfl,rfl⟩ before
  rw [applyAll_append]
  rw [← hmax] at hlimit
  rw [hfirst] at hnext
  generalize (opened projectOutput history outcomes core maxEntries).applyAll before = s at *
  have hsynced' := synced_applyAll hsynced after
  -- the client's reducer is the one restored from the snapshot, then fed the same events
  have htimeline : (v.attach s after).timeline = s.timeline.restored.applyAll after := by
    have hparts : (v.applySnapshot s.snapshot).timeline = s.timeline.restored := by
      change TimelineReducer.fromParts _ _ _ v.maxScrollbackEntries = _
      rw [hsynced.timeline,hsynced.activeTools,hsynced.historyWindow,hlimit,hmax]
      rw [TimelineReducer.restored,hentries]
      rfl
    rw [← hparts]
    exact deliver_sequenced_timeline (v.applySnapshot s.snapshot) after
  have hcontrols : SameControls (v.attach s after) (s.applyAll after) :=
    SameControls.deliver (v := v.applySnapshot s.snapshot) ⟨rfl,rfl,rfl,rfl,rfl⟩ after
  have hoptions : (v.attach s after).runtimeOptions =
      (lastOptions after).getD s.snapshot.runtimeOptions :=
    deliver_sequenced_options (v.applySnapshot s.snapshot) after
  have hlook := hresumable.restored_sameLook_iff after (by omega)
  rw [← htimeline,← applyAll_timeline] at hlook
  rw [attachesInStep,Bool.and_eq_true,← hlook,← s.keepsOptions_iff,← hoptions]
  constructor
  · intro h
    exact ⟨⟨h.timeline.trans hsynced'.timeline,h.activeTools.trans hsynced'.activeTools,
      h.historyWindow.trans hsynced'.historyWindow⟩,h.runtimeOptions⟩
  · intro h
    exact ⟨h.1.timeline.trans hsynced'.timeline.symm,h.1.activeTools.trans hsynced'.activeTools.symm,
      h.1.historyWindow.trans hsynced'.historyWindow.symm,hcontrols.pendingApprovals,h.2,
      hcontrols.contextUsage,hcontrols.turnStatus,hcontrols.durabilityStatus⟩

end Attach

/-- The snapshot of a core that has done nothing yet. -/
def idleCore (sessionId : String) : SessionSnapshot where
  sessionId
  seq := 0
  turnStatus := .idle
  durabilityStatus := .saved
  timeline := []
  activeTools := []
  historyWindow := .complete 0
  pendingApprovals := []
  runtimeOptions := []
  contextUsage := none

/-- A session opened from the stored history. -/
def session (history : List Message) (maxEntries : Nat) : SnapshotState :=
  opened id history [] (idleCore "session") maxEntries

/-- Attached while text streams: what follows is not more of that text, so both show the same. -/
theorem attach_sameSession_midText :
    SameSession ((withScrollbackLimit "view" 4).attach
        ((session [⟨.user,[.text "hi"],.session⟩] 4).applyAll [.assistantDelta "a"])
        [.toolCallStarted "call" "read" "read" none, .assistantDelta "b", .assistantDone .completed])
      ((session [⟨.user,[.text "hi"],.session⟩] 4).applyAll ([.assistantDelta "a"] ++
        [.toolCallStarted "call" "read" "read" none, .assistantDelta "b",
          .assistantDone .completed])) :=
  (attach_sameSession_iff id [⟨.user,[.text "hi"],.session⟩] [] (idleCore "session") 4 _ _ _ rfl
    (by decide)).mpr (by decide +kernel)

/-- Three ways to differ: text that goes on after the snapshot becomes an entry of its own, after a
clear the client counts entries from one again, and options above the limit stay with the client. -/
theorem attach_not_sameSession :
    ¬ SameSession ((withScrollbackLimit "view" 4).attach
        ((session [] 4).applyAll [.assistantDelta "a"]) [.assistantDelta "b"])
      ((session [] 4).applyAll ([.assistantDelta "a"] ++ [.assistantDelta "b"])) ∧
    ¬ SameSession ((withScrollbackLimit "view" 4).attach
        ((session [] 4).applyAll [.assistantDelta "a", .conversationCleared])
        [.assistantDelta "b"])
      ((session [] 4).applyAll
        ([.assistantDelta "a", .conversationCleared] ++ [.assistantDelta "b"])) ∧
    ¬ SameSession ((withScrollbackLimit "view" 1).attach (session [] 1)
        [.runtimeOptionsChanged
          [RuntimeOption.mk "a" "" (.bool true) (.bool true) .boolean true none,
            RuntimeOption.mk "b" "" (.bool true) (.bool true) .boolean true none]])
      ((session [] 1).applyAll
        [.runtimeOptionsChanged
          [RuntimeOption.mk "a" "" (.bool true) (.bool true) .boolean true none,
            RuntimeOption.mk "b" "" (.bool true) (.bool true) .boolean true none]]) :=
  ⟨fun h => absurd h.timeline (by decide +kernel),fun h => absurd h.timeline (by decide +kernel),
    fun h => absurd h.runtimeOptions (by decide +kernel)⟩

end ViewState

end Daimonos.Session
