import Daimonos.Session.Timeline

namespace Daimonos.Session

open Framework List TimelineReducer

/-- The changes a reducer offers to its owner. -/
inductive TimelineOp where
  | event (event : SessionEvent)
  | pushSystem (text : String)
  | pushReconstructed (entry : TimelineEntryKind)
  | startReconstructedTool (toolCallId name title : String)
  | updateReconstructedTool (toolCallId : String) (status : ToolCallStateStatus) (output : String)
  | cancelReconstructedActiveTools
  | clear

def TimelineOp.isClear : TimelineOp → Bool
  | .clear | .event .conversationCleared => true
  | _ => false

namespace TimelineReducer

def perform (r : TimelineReducer) : TimelineOp → TimelineReducer
  | .event event => r.apply event
  | .pushSystem text => r.pushSystem text
  | .pushReconstructed entry => r.pushReconstructed entry
  | .startReconstructedTool toolCallId name title => r.startReconstructedTool toolCallId name title
  | .updateReconstructedTool toolCallId status output =>
    r.updateReconstructedTool toolCallId status output
  | .cancelReconstructedActiveTools => r.cancelReconstructedActiveTools
  | .clear => r.clear

def pushes (r : TimelineReducer) : TimelineOp → Bool
  | .event (.userMessage ..) | .event (.assistantDone _) | .event (.toolCallStarted ..)
  | .pushSystem _ | .pushReconstructed _ | .startReconstructedTool .. => true
  | .event (.assistantDelta text) => (r.appendToOpen .assistant text).isNone
  | .event (.thoughtDelta text) => (r.appendToOpen .thought text).isNone
  | _ => false

end TimelineReducer

/-- A reducer beside the ids it has handed out, oldest first, and the pushes since the last clear. -/
structure TimelineRun where
  reducer : TimelineReducer
  minted : List Nat
  sinceClear : Nat

namespace TimelineRun

def new (maxEntries : Nat) : TimelineRun := { reducer := .new maxEntries, minted := [], sinceClear := 0 }

def perform (run : TimelineRun) (op : TimelineOp) : TimelineRun :=
  let pushes := run.reducer.pushes op
  { reducer := run.reducer.perform op
    minted := if pushes then run.minted ++ [run.reducer.nextId] else run.minted
    sinceClear :=
      if pushes then run.sinceClear+1 else if op.isClear then 0 else run.sinceClear }

def performAll (run : TimelineRun) (ops : List TimelineOp) : TimelineRun := ops.foldl perform run

end TimelineRun

namespace TimelineReducer

/-- What the counting of entries looks at: ids and orders, the window, the limit and the counter. -/
def ledger (r : TimelineReducer) : List (Nat × Nat) × HistoryWindow × Nat × Nat :=
  (r.timeline.map fun e => (e.id, e.order), r.historyWindow, r.maxEntries, r.nextId)

theorem updateOccurrence_ledger (occurrenceId : Nat) (status : ToolCallStateStatus)
    (output : Option String) (r : TimelineReducer) :
    (r.updateOccurrence occurrenceId status output).ledger = r.ledger := by
  have hmarks := map_modifyLast (p := fun e => decide (e.id=occurrenceId) && e.entry.isTool)
    (f := fun e => TimelineEntry.mk e.id e.order (e.entry.setTool status output))
    (g := fun e => (e.id, e.order)) (fun _ => rfl) r.timeline
  simp only [ledger,updateOccurrence,hmarks]

theorem updateTool_ledger (id : String) (status : ToolCallStateStatus) (output : Option String)
    (r : TimelineReducer) : (r.updateTool id status output).ledger = r.ledger := by
  unfold updateTool
  split
  · rfl
  · rename_i occurrenceId _
    have hocc := updateOccurrence_ledger occurrenceId status output r
    split_ifs
    · exact hocc
    · exact hocc

theorem cancelReconstructed_ledger (r : TimelineReducer) :
    r.cancelReconstructedActiveTools.ledger = r.ledger := by
  suffices h : ∀ (tools : List ActiveToolState) (t : TimelineReducer),
      (tools.foldl (fun r tool => r.updateOccurrence tool.occurrenceId .cancelled none) t).ledger =
        t.ledger from h r.activeTools _
  intro tools
  induction tools with
  | nil => exact fun _ => rfl
  | cons tool rest ih =>
    intro t
    rw [foldl_cons,ih,updateOccurrence_ledger]

variable {r r' : TimelineReducer}

theorem appendToOpen_ledger {kind : TextKind} {text : String}
    (h : r.appendToOpen kind text = some r') : r'.ledger=r.ledger := by
  obtain ⟨init,last,entry,htimeline,-,-,rfl⟩ := of_appendToOpen h
  simp [ledger,htimeline]

theorem syncWindow_ledger (h : r'.ledger=r.ledger) :
    r'.syncWindow.ledger = r.syncWindow.ledger := by
  simp only [ledger,Prod.mk.injEq] at h
  obtain ⟨hmarks,hwindow,hmax,hnext⟩ := h
  have hlength : r'.timeline.length = r.timeline.length := by
    simpa using congrArg List.length hmarks
  simp only [ledger,syncWindow,hmarks,hwindow,hmax,hnext,hlength]

variable {op : TimelineOp}

theorem perform_pushed (h : r.pushes op = true) :
    ∃ entry, (r.perform op).ledger = (r.closeOpen.push entry).2.ledger := by
  have hdelta : ∀ (kind : TextKind) (text : String), (r.appendToOpen kind text).isNone = true →
      (r.appendText kind text).syncWindow.ledger = (r.closeOpen.push (kind.entry text)).2.ledger := by
    intro kind text hnone
    rw [appendText,Option.isNone_iff_eq_none.mp hnone]
    rfl
  cases op with
  | event event =>
    cases event with
    | userMessage => exact ⟨_,rfl⟩
    | assistantDelta text => exact ⟨_,hdelta .assistant text h⟩
    | thoughtDelta text => exact ⟨_,hdelta .thought text h⟩
    | assistantDone | toolCallStarted => exact ⟨_,rfl⟩
    | _ => cases h
  | pushSystem => exact ⟨_,rfl⟩
  | pushReconstructed entry => exact ⟨entry,rfl⟩
  | startReconstructedTool => exact ⟨_,rfl⟩
  | _ => cases h

theorem perform_cleared (h : op.isClear=true) :
    (r.perform op).ledger = r.clear.ledger := by
  cases op with
  | clear => rfl
  | event event =>
    cases event with
    | conversationCleared => rfl
    | _ => cases h
  | _ => cases h

theorem perform_kept (hp : r.pushes op = false) (hc : op.isClear=false) :
    (r.perform op).ledger = r.ledger ∨ (r.perform op).ledger = r.syncWindow.ledger := by
  have hdelta : ∀ (kind : TextKind) (text : String), (r.appendToOpen kind text).isNone = false →
      (r.appendText kind text).syncWindow.ledger = r.syncWindow.ledger := by
    intro kind text hsome
    obtain ⟨r',hr'⟩ := Option.isSome_iff_exists.mp (Option.isNone_eq_false_iff.mp hsome)
    rw [appendText,hr']
    exact syncWindow_ledger (appendToOpen_ledger hr')
  cases op with
  | event event =>
    right
    cases event with
    | assistantDelta text => exact hdelta .assistant text hp
    | thoughtDelta text => exact hdelta .thought text hp
    | toolCallUpdated id status => exact syncWindow_ledger (updateTool_ledger id status none r)
    | toolCallFinished id status output =>
      exact syncWindow_ledger (updateTool_ledger id status (some output) r)
    | userMessage | assistantDone | toolCallStarted => cases hp
    | conversationCleared => cases hc
    | _ => rfl
  | updateReconstructedTool id status output =>
    exact Or.inl (updateTool_ledger id status (some output) r)
  | cancelReconstructedActiveTools => exact Or.inl (cancelReconstructed_ledger r)
  | clear => cases hc
  | pushSystem | pushReconstructed | startReconstructedTool => cases hp

theorem unsaturated_of_perform (h : (r.perform op).nextId < u64Max) : r.nextId<u64Max := by
  have hnext : ∀ {t : TimelineReducer}, (r.perform op).ledger = t.ledger →
      (r.perform op).nextId = t.nextId := fun heq => congrArg (·.2.2.2) heq
  cases hp : r.pushes op with
  | true =>
    obtain ⟨entry,hledger⟩ := perform_pushed hp
    rw [hnext hledger,(push_eq entry r.closeOpen).2.2.2] at h
    rw [nextId_of_unsaturated h] at h
    exact Nat.lt_of_succ_lt h
  | false =>
    cases hc : op.isClear with
    | true =>
      rw [hnext (perform_cleared hc)] at h
      exact h
    | false =>
      rcases perform_kept hp hc with hledger | hledger
      · rw [hnext hledger] at h
        exact h
      · rw [hnext hledger] at h
        exact h

theorem ledger_eq_iff :
    r'.ledger=r.ledger ↔
      (r'.timeline.map fun e => (e.id, e.order)) = (r.timeline.map fun e => (e.id, e.order)) ∧
      r'.historyWindow = r.historyWindow ∧ r'.maxEntries=r.maxEntries ∧ r'.nextId=r.nextId := by
  simp only [ledger,Prod.mk.injEq]

theorem IdsOk.congr (h : IdsOk r) (heq : r'.ledger=r.ledger) :
    IdsOk r' := by
  obtain ⟨hmarks,-,-,hnext⟩ := ledger_eq_iff.mp heq
  have hids : r'.timeline.map TimelineEntry.id = r.timeline.map TimelineEntry.id := by
    simpa [Function.comp_def] using congrArg (List.map Prod.fst) hmarks
  refine ⟨hids ▸ h.increasing,fun e he => ?_⟩
  have hmem : e.id ∈ r.timeline.map TimelineEntry.id := hids ▸ mem_map_of_mem he
  obtain ⟨e₀,he₀,hid⟩ := mem_map.mp hmem
  rw [hnext,← hid]
  exact h.minted e₀ he₀

theorem push_window (entry : TimelineEntryKind) (r : TimelineReducer)
    (h : r.historyWindow.truncatedBefore+r.timeline.length<u64Max) :
    (r.push entry).2.timeline =
      (r.timeline ++ [TimelineEntry.mk r.nextId r.nextId entry]).drop
        (r.timeline.length+1-r.maxEntries) ∧
    (r.push entry).2.maxEntries = r.maxEntries ∧
    (r.push entry).2.historyWindow.truncatedBefore =
      r.historyWindow.truncatedBefore + (r.timeline.length+1-r.maxEntries) ∧
    (r.push entry).2.historyWindow.retained = (r.push entry).2.timeline.length ∧
    (r.push entry).2.historyWindow.total =
      some (saturatingAdd (r.push entry).2.historyWindow.truncatedBefore
        (r.push entry).2.timeline.length) := by
  have hlength : (r.timeline ++ [TimelineEntry.mk r.nextId r.nextId entry]).length =
      r.timeline.length+1 := by simp
  unfold push trimToLimit
  simp only [hlength]
  split_ifs with hexcess
  · refine ⟨rfl,rfl,?_,rfl,rfl⟩
    exact saturatingAdd_eq (by omega)
  · have hnone : r.timeline.length+1-r.maxEntries=0 := by omega
    rw [hnone]
    exact ⟨rfl,rfl,rfl,rfl,rfl⟩

end TimelineReducer

/-- The counting at every moment of a run. -/
structure TimelineCounts (maxEntries : Nat) (run : TimelineRun) : Prop where
  increasing : run.minted.Pairwise (· < ·)
  newest : run.reducer.timeline.map TimelineEntry.id =
    run.minted.drop (run.minted.length - run.reducer.timeline.length)
  order : ∀ e∈run.reducer.timeline, e.order=e.id
  bounded : run.reducer.timeline.length ≤ max maxEntries 1
  retained : run.reducer.historyWindow.retained = run.reducer.timeline.length
  accounted : run.reducer.historyWindow.truncatedBefore + run.reducer.historyWindow.retained =
    run.sinceClear
  total : run.reducer.historyWindow.total = some run.sinceClear

namespace TimelineRun

variable {maxEntries : Nat} {run : TimelineRun}

/-- What carries the counts: the ids handed out are 1, 2, … up to the counter. -/
structure Counted (maxEntries : Nat) (run : TimelineRun) : Prop where
  minted : run.minted = List.range' 1 run.minted.length
  next : run.reducer.nextId=run.minted.length+1
  marks : run.reducer.timeline.map (fun e => (e.id, e.order)) =
    (run.minted.drop (run.minted.length - run.reducer.timeline.length)).map fun i => (i, i)
  bounded : run.reducer.timeline.length ≤ run.reducer.maxEntries
  limit : run.reducer.maxEntries = max maxEntries 1
  retained : run.reducer.historyWindow.retained = run.reducer.timeline.length
  accounted : run.reducer.historyWindow.truncatedBefore + run.reducer.timeline.length =
    run.sinceClear
  total : run.reducer.historyWindow.total = some run.sinceClear
  pushed : run.sinceClear ≤ run.minted.length

theorem Counted.counts (h : Counted maxEntries run) : TimelineCounts maxEntries run := by
  have hids : run.reducer.timeline.map TimelineEntry.id =
      run.minted.drop (run.minted.length - run.reducer.timeline.length) := by
    have := congrArg (List.map Prod.fst) h.marks
    simpa [Function.comp_def] using this
  refine ⟨?_,hids,fun e he => ?_,h.limit ▸ h.bounded,h.retained,?_,h.total⟩
  · rw [h.minted]
    exact pairwise_lt_range'
  · have hmem : (e.id, e.order) ∈ run.reducer.timeline.map fun e => (e.id, e.order) :=
      mem_map_of_mem he
    rw [h.marks] at hmem
    obtain ⟨i,-,hi⟩ := mem_map.mp hmem
    obtain ⟨hid,horder⟩ := Prod.mk.inj hi
    rw [← hid,← horder]
  · rw [h.retained,h.accounted]

theorem Counted.congr (h : Counted maxEntries run) {r' : TimelineReducer}
    (heq : r'.ledger=run.reducer.ledger) : Counted maxEntries { run with reducer := r' } := by
  obtain ⟨hmarks,hwindow,hmax,hnext⟩ := ledger_eq_iff.mp heq
  have hlength : r'.timeline.length = run.reducer.timeline.length := by
    simpa using congrArg List.length hmarks
  obtain ⟨minted,next,marks,bounded,limit,retained,accounted,total,pushed⟩ := h
  refine ⟨minted,hnext.trans next,?_,?_,?_,?_,?_,?_,pushed⟩
  · simpa only [hmarks,hlength] using marks
  · simpa only [hmax,hlength] using bounded
  · simpa only [hmax] using limit
  · simpa only [hwindow,hlength] using retained
  · simpa only [hwindow,hlength] using accounted
  · simpa only [hwindow] using total

theorem Counted.clear (h : Counted maxEntries run) :
    Counted maxEntries { run with reducer := run.reducer.clear, sinceClear := 0 } where
  minted := h.minted
  next := h.next
  marks := by simp [TimelineReducer.clear]
  bounded := Nat.zero_le _
  limit := h.limit
  retained := rfl
  accounted := rfl
  total := rfl
  pushed := Nat.zero_le _

theorem Counted.push (h : Counted maxEntries run) (entry : TimelineEntryKind)
    (hsaturated : run.reducer.nextId<u64Max) :
    Counted maxEntries
      { reducer := (run.reducer.push entry).2
        minted := run.minted ++ [run.reducer.nextId]
        sinceClear := run.sinceClear+1 } := by
  obtain ⟨minted,next,marks,bounded,limit,retained,accounted,total,pushed⟩ := h
  obtain ⟨htimeline,hmax,hbefore,hretained,htotal⟩ :=
    run.reducer.push_window entry (by omega)
  have hnext := (push_eq entry run.reducer).2.2.2
  have hlength : (run.reducer.push entry).2.timeline.length =
      min (run.reducer.timeline.length+1) run.reducer.maxEntries := by
    rw [htimeline,length_drop,length_append,length_singleton]
    omega
  have hminted : (run.minted ++ [run.reducer.nextId]).length = run.minted.length+1 := by simp
  have hsucc : saturatingAdd run.reducer.nextId 1 = run.reducer.nextId+1 :=
    saturatingAdd_eq hsaturated
  refine ⟨?_,?_,?_,?_,hmax.trans limit,hretained,?_,?_,?_⟩ <;> dsimp only
  · rw [hminted,range'_concat,← minted,next,Nat.one_mul,Nat.add_comm 1]
  · rw [hnext,hsucc,hminted,next]
  · -- what is dropped now and what was dropped before is dropped from the ids at once
    have hdrop : run.minted.length+1 - (run.reducer.push entry).2.timeline.length =
        run.minted.length - run.reducer.timeline.length +
          (run.reducer.timeline.length+1-run.reducer.maxEntries) := by
      omega
    have hkept : (run.minted ++ [run.reducer.nextId]).drop
        (run.minted.length - run.reducer.timeline.length) =
        run.minted.drop (run.minted.length - run.reducer.timeline.length) ++
          [run.reducer.nextId] := drop_append_of_le_length (Nat.sub_le _ _)
    rw [hminted,hdrop,htimeline,← drop_drop,hkept]
    simp only [map_drop,map_append,map_cons,map_nil,marks]
  · omega
  · omega
  · rw [htotal,hbefore,hlength,saturatingAdd_eq (by omega)]
    congr 1
    omega
  · omega

theorem Counted.synced (h : Counted maxEntries run)
    (hsaturated : run.reducer.nextId<u64Max) : run.reducer.syncWindow = run.reducer := by
  have hnext := h.next
  have hpushed := h.pushed
  have hsum : saturatingAdd run.reducer.historyWindow.truncatedBefore
      run.reducer.timeline.length = run.sinceClear := by
    rw [saturatingAdd_eq (by rw [h.accounted]; omega),h.accounted]
  unfold syncWindow
  dsimp only
  rw [hsum,← h.total,← h.retained]

theorem Counted.perform (h : Counted maxEntries run) (op : TimelineOp)
    (hsaturated : run.reducer.nextId<u64Max) : Counted maxEntries (run.perform op) := by
  unfold TimelineRun.perform
  cases hp : run.reducer.pushes op with
  | true =>
    obtain ⟨entry,hledger⟩ := perform_pushed hp
    have hclosed : Counted maxEntries { run with reducer := run.reducer.closeOpen } := h.congr rfl
    exact (hclosed.push entry hsaturated).congr hledger
  | false =>
    cases hc : op.isClear with
    | true => exact h.clear.congr (perform_cleared hc)
    | false =>
      have hledger : (run.reducer.perform op).ledger = run.reducer.ledger := by
        rcases perform_kept hp hc with hkept | hsynced
        · exact hkept
        · rw [hsynced,h.synced hsaturated]
      exact h.congr hledger

theorem new_counted (maxEntries : Nat) : Counted maxEntries (new maxEntries) where
  minted := rfl
  next := rfl
  marks := rfl
  bounded := Nat.zero_le _
  limit := rfl
  retained := rfl
  accounted := rfl
  total := rfl
  pushed := Nat.le_refl 0

theorem performAll_counted (maxEntries : Nat) (ops : List TimelineOp)
    (h : ((new maxEntries).performAll ops).reducer.nextId < u64Max) :
    Counted maxEntries ((new maxEntries).performAll ops) := by
  induction ops using List.reverseRecOn with
  | nil => exact new_counted maxEntries
  | append_singleton ops op ih =>
    rw [performAll,foldl_append] at h ⊢
    have hbefore := unsaturated_of_perform h
    exact (ih hbefore).perform op hbefore

/-- As long as the id counter has not saturated, ids are never reused and the window accounts for
every entry pushed since the last clear. -/
theorem performAll_counts (maxEntries : Nat) (ops : List TimelineOp)
    (h : ((new maxEntries).performAll ops).reducer.nextId < u64Max) :
    TimelineCounts maxEntries ((new maxEntries).performAll ops) :=
  (performAll_counted maxEntries ops h).counts

/-- Entries are trimmed, cleared and pushed again. -/
theorem performAll_counts_trimmed :
    TimelineCounts 2 ((new 2).performAll
      [.event (.userMessage "a" none), .event (.assistantDelta "b"), .event (.assistantDelta "c"),
        .pushSystem "d", .clear, .pushSystem "e"]) :=
  performAll_counts 2 _ (by decide)

end TimelineRun

end Daimonos.Session
