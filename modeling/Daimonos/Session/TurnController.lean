import Daimonos.Framework.Transition
import Daimonos.Session.Protocol

namespace Daimonos.Session

open Framework List Option

inductive TurnOutcome where
  | live
  | completed
  | cancelled
  deriving DecidableEq

structure TurnSignal where
  outcome : TurnOutcome := .live
  notified : Bool := false
  deriving DecidableEq

namespace TurnSignal

/-- The compare-exchange from `live`. Claiming the outcome that already holds also succeeds. -/
def claim (outcome : TurnOutcome) (signal : TurnSignal) : Bool × TurnSignal :=
  if signal.outcome=.live then (true, { signal with outcome })
  else (decide (signal.outcome=outcome), signal)

def isCancelled (signal : TurnSignal) : Bool := decide (signal.outcome=.cancelled)

end TurnSignal

inductive TurnPhase where
  | claimed
  | admitted
  | running
  | dropping (status : TurnStatus)
  | terminated
  | over
  | abandoned
  deriving DecidableEq

structure Turn where
  signal : TurnSignal := {}
  phase : TurnPhase := .claimed
  deriving DecidableEq

/-- Where a `cancel_with` call stands. The turn is the signal it cloned out of the slot. -/
inductive CancelPhase where
  | loaded (turn : Nat)
  | checked (turn : Nat) (alreadyCancelled : Bool)
  | emitting (turn : Nat)
  | notifying (turn : Nat)
  | returned (result : Bool)
  deriving DecidableEq

/-- A session's turn slot, every turn begun so far, every cancel request made so far, and the
turn statuses emitted, each with the turn it was emitted for. -/
structure TurnController where
  active : Option Nat := none
  turns : List Turn := []
  cancels : List CancelPhase := []
  stream : List (Nat × TurnStatus) := []

inductive TurnMove where
  | recheck (mutationActive : Bool)
  | announce
  | cancelled
  | complete
  | readOutcome
  | emitTerminal
  | release

inductive TurnAction where
  | begin
  | move (turn : Nat) (move : TurnMove)
  | cancel
  | advance (request : Nat)

namespace TurnController

def setTurn (c : TurnController) (t : Nat) (turn : Turn) : TurnController :=
  { c with turns := c.turns.set t turn }

def setCancel (c : TurnController) (i : Nat) (phase : CancelPhase) : TurnController :=
  { c with cancels := c.cancels.set i phase }

def emit (c : TurnController) (t : Nat) (status : TurnStatus) : TurnController :=
  { c with stream := c.stream ++ [(t, status)] }

/-- `ActiveTurn::drop`: clear the slot if it still holds this turn's signal. -/
def clearSlot (c : TurnController) (t : Nat) : TurnController :=
  if c.active = some t then { c with active := none } else c

end TurnController

/-- The status `SessionTurn::drop` picks. -/
def TurnSignal.terminalStatus (signal : TurnSignal) : TurnStatus :=
  if signal.isCancelled then .cancelled else .idle

namespace TurnController

def turnStep (c : TurnController) (t : Nat) (turn : Turn) : TurnMove → Option TurnController
  | .recheck mutationActive =>
    if turn.phase=.claimed then
      if mutationActive then some ((c.clearSlot t).setTurn t { turn with phase := .abandoned })
      else some (c.setTurn t { turn with phase := .admitted })
    else none
  | .announce =>
    if turn.phase=.admitted then
      some ((c.emit t .running).setTurn t { turn with phase := .running })
    else none
  | .cancelled =>
    if turn.phase=.running ∧ turn.signal.notified then
      some (c.setTurn t { turn with signal := { turn.signal with notified := false } })
    else none
  | .complete =>
    if turn.phase=.running then
      some (c.setTurn t { turn with signal := (turn.signal.claim .completed).2 })
    else none
  | .readOutcome =>
    if turn.phase=.running then
      some (c.setTurn t { turn with phase := .dropping turn.signal.terminalStatus })
    else none
  | .emitTerminal =>
    match turn.phase with
    | .dropping status => some ((c.emit t status).setTurn t { turn with phase := .terminated })
    | _ => none
  | .release =>
    if turn.phase=.terminated then
      some ((c.clearSlot t).setTurn t { turn with phase := .over })
    else none

/-- A cancel request's next step. `emitting` is `before_signal`, run when the request had not seen
the turn cancelled before its claim. -/
def cancelStep (c : TurnController) (i : Nat) : CancelPhase → Option TurnController
  | .loaded t => (c.turns[t]?).map fun turn => c.setCancel i (.checked t turn.signal.isCancelled)
  | .checked t alreadyCancelled =>
    (c.turns[t]?).map fun turn =>
      let (won, signal) := turn.signal.claim .cancelled
      if won then
        (c.setTurn t { turn with signal }).setCancel i
          (if alreadyCancelled then .notifying t else .emitting t)
      else c.setCancel i (.returned false)
  | .emitting t => some ((c.emit t .cancelling).setCancel i (.notifying t))
  | .notifying t =>
    (c.turns[t]?).map fun turn =>
      (c.setTurn t { turn with signal := { turn.signal with notified := true } }).setCancel i
        (.returned true)
  | .returned _ => none

def begin (c : TurnController) : Except Unit TurnController :=
  if c.active.isSome then .error ()
  else .ok { c with active := some c.turns.length, turns := c.turns ++ [{}] }

def cancelWith (c : TurnController) : TurnController :=
  { c with cancels := c.cancels ++ [c.active.elim (.returned false) .loaded] }

def step (c : TurnController) : TurnAction → Option TurnController
  | .begin => c.begin.toOption
  | .move t m => (c.turns[t]?).bind fun turn => c.turnStep t turn m
  | .cancel => some c.cancelWith
  | .advance i => (c.cancels[i]?).bind (c.cancelStep i)

def system : System TurnController TurnAction := { init := {}, step }

end TurnController

def TurnStatus.isTerminal : TurnStatus → Bool
  | .idle | .cancelled => true
  | .running | .waitingForApproval | .cancelling => false

def statuses (t : Nat) (stream : List (Nat × TurnStatus)) : List TurnStatus :=
  stream.filterMap fun e => if e.1=t then some e.2 else none

@[simp] theorem statuses_append (t : Nat) (l₁ l₂ : List (Nat × TurnStatus)) :
    statuses t (l₁++l₂) = statuses t l₁ ++ statuses t l₂ := by
  simp [statuses]

@[simp] theorem statuses_singleton (t u : Nat) (status : TurnStatus) :
    statuses t [(u, status)] = if u=t then [status] else [] := by
  by_cases h : u=t <;> simp [statuses,h]

def CancelPhase.emits (t : Nat) : CancelPhase → Nat
  | .emitting u => if u=t then 1 else 0
  | _ => 0

namespace Turn

def outcomeRead (turn : Turn) : Bool :=
  match turn.phase with
  | .dropping _ | .terminated | .over => true
  | _ => false

def ended (turn : Turn) : Bool :=
  match turn.phase with
  | .terminated | .over => true
  | _ => false

def terminal (turn : Turn) : List TurnStatus :=
  if turn.ended then [turn.signal.terminalStatus] else []

theorem terminal_eq_nil {turn : Turn} (h : turn.ended=false) : turn.terminal = [] := by
  rw [terminal,h]
  rfl

theorem of_outcomeRead_eq_false {turn : Turn} (h : turn.outcomeRead=false) :
    turn.ended=false ∧ ∀ status, turn.phase ≠ .dropping status := by
  cases hphase : turn.phase <;> simp_all [outcomeRead,ended]

end Turn

namespace TurnController

/-- No request that saw the turn live claims it once another cancel holds it or drop has read the
outcome, and drop does not emit while the winner's `Cancelling` is outstanding. -/
def stepOk (c : TurnController) : TurnAction → Bool
  | .advance i =>
    match c.cancels[i]? with
    | some (.checked t false) =>
      (c.turns[t]?).all fun turn =>
        decide (turn.signal.outcome≠.cancelled ∧
          (turn.signal.outcome=.live → turn.outcomeRead=false))
    | _ => true
  | .move t .emitTerminal => decide (.emitting t ∉ c.cancels)
  | _ => true

theorem claim_of_stepOk {c : TurnController} {i t : Nat} {turn : Turn} (h : c.stepOk (.advance i))
    (hr : c.cancels[i]? = some (.checked t false)) (ht : c.turns[t]? = some turn) :
    turn.signal.outcome≠.cancelled ∧
      (turn.signal.outcome=.live → turn.outcomeRead=false) := by
  simp only [stepOk,hr,ht,all_some] at h
  exact of_decide_eq_true h

end TurnController

open CancelPhase

structure TurnOk (c : TurnController) (t : Nat) (turn : Turn) : Prop where
  statuses : ∃ body, statuses t c.stream = body++turn.terminal ∧
    (∀ status∈body, status.isTerminal=false) ∧
    body.count .cancelling + total (emits t) c.cancels =
      if turn.signal.isCancelled then 1 else 0
  dropping : ∀ status, turn.phase = .dropping status → status = turn.signal.terminalStatus
  quiet : turn.ended → total (emits t) c.cancels = 0

structure Ordered (c : TurnController) : Prop where
  turns : ∀ t turn, c.turns[t]? = some turn → TurnOk c t turn
  unborn : ∀ t, c.turns[t]? = none →
    statuses t c.stream = [] ∧ total (emits t) c.cancels = 0
  checked : ∀ t, .checked t true ∈ c.cancels →
    ∃ turn, c.turns[t]? = some turn ∧ turn.signal.isCancelled

variable {t : Nat} {turn : Turn}

theorem TurnOk.frame {c c' : TurnController} (h : TurnOk c t turn)
    (hs : Session.statuses t c'.stream = Session.statuses t c.stream)
    (he : total (emits t) c'.cancels = total (emits t) c.cancels) :
    TurnOk c' t turn := by
  refine ⟨?_,h.dropping,?_⟩
  · rw [hs,he]
    exact h.statuses
  · rw [he]
    exact h.quiet

open TurnSignal

theorem TurnOk.withTurn {c c' : TurnController} {turn' : Turn} (h : TurnOk c t turn)
    (hs : c'.stream=c.stream)
    (he : total (emits t) c'.cancels = total (emits t) c.cancels)
    (hcancelled : turn'.signal.isCancelled = turn.signal.isCancelled)
    (hended : turn'.ended=turn.ended)
    (hdropping : ∀ status, turn'.phase = .dropping status → status = turn'.signal.terminalStatus) :
    TurnOk c' t turn' := by
  have hterminal : turn'.terminal=turn.terminal := by
    simp only [Turn.terminal,terminalStatus,hcancelled,hended]
  refine ⟨?_,hdropping,?_⟩
  · rw [hs,he,hterminal,hcancelled]
    exact h.statuses
  · rw [he,hended]
    exact h.quiet

theorem TurnOk.emitBody {c c' : TurnController} {turn' : Turn}
    (h : TurnOk c t turn) (status : TurnStatus) (hstatus : status.isTerminal=false)
    (hs : Session.statuses t c'.stream = Session.statuses t c.stream ++ [status])
    (he : [status].count .cancelling + total (emits t) c'.cancels =
      total (emits t) c.cancels)
    (hsignal : turn'.signal=turn.signal) (hended : turn.ended=false)
    (hended' : turn'.ended=false)
    (hdropping : ∀ status, turn'.phase = .dropping status → status = turn'.signal.terminalStatus) :
    TurnOk c' t turn' := by
  obtain ⟨body,heq,hnone,hcount⟩ := h.statuses
  refine ⟨⟨body ++ [status],?_,?_,?_⟩,hdropping,?_⟩
  · rw [hs,heq,Turn.terminal_eq_nil hended,Turn.terminal_eq_nil hended',append_nil,append_nil]
  · intro status' hmem
    rcases mem_append.mp hmem with hb | hlast
    · exact hnone status' hb
    · rw [mem_singleton.mp hlast]
      exact hstatus
  · rw [count_append,hsignal]
    omega
  · intro hc
    exact absurd (hended'.symm.trans hc) Bool.false_ne_true

namespace Ordered

variable {c c' : TurnController} {t : Nat} {turn turn' : Turn}

theorem update (h : Ordered c)
    (ht : c.turns[t]? = some turn) (hturns : c'.turns = c.turns.set t turn')
    (hothers : ∀ u, u≠t → statuses u c'.stream = statuses u c.stream ∧
      total (emits u) c'.cancels = total (emits u) c.cancels)
    (hkeep : turn.signal.isCancelled → turn'.signal.isCancelled) (hok : TurnOk c' t turn')
    (hchecked : ∀ u, .checked u true ∈ c'.cancels →
      .checked u true ∈ c.cancels ∨ (u=t ∧ turn'.signal.isCancelled)) :
    Ordered c' := by
  have hlt : t < c.turns.length := (List.getElem?_eq_some_iff.mp ht).1
  have hself : c'.turns[t]? = some turn' := by
    rw [hturns,List.getElem?_set_self hlt]
  have hother : ∀ u, u≠t → c'.turns[u]? = c.turns[u]? := by
    intro u hu
    rw [hturns,getElem?_set_ne (Ne.symm hu)]
  refine ⟨?_,?_,?_⟩
  · intro u turn'' hu
    by_cases hut : u=t
    · subst hut
      obtain rfl : turn'=turn'' := some.inj (hself.symm.trans hu)
      exact hok
    · rw [hother u hut] at hu
      exact (h.turns u turn'' hu).frame (hothers u hut).1 (hothers u hut).2
  · intro u hu
    have hut : u≠t := by
      intro heq
      subst heq
      rw [hself] at hu
      cases hu
    rw [hother u hut] at hu
    rw [(hothers u hut).1,(hothers u hut).2]
    exact h.unborn u hu
  · intro u hu
    rcases hchecked u hu with hold | ⟨rfl,hc⟩
    · obtain ⟨turn'',hu',hc⟩ := h.checked u hold
      by_cases hut : u=t
      · subst hut
        obtain rfl : turn=turn'' := some.inj (ht.symm.trans hu')
        exact ⟨turn',hself,hkeep hc⟩
      · exact ⟨turn'',(hother u hut).trans hu',hc⟩
    · exact ⟨turn',hself,hc⟩

theorem setTurn (h : Ordered c) (ht : c.turns[t]? = some turn) (active : Option Nat)
    (hcancelled : turn'.signal.isCancelled = turn.signal.isCancelled)
    (hended : turn'.ended=turn.ended)
    (hdropping : ∀ status, turn'.phase = .dropping status → status = turn'.signal.terminalStatus) :
    Ordered { c with active, turns := c.turns.set t turn' } :=
  h.update ht rfl (fun _ _ => ⟨rfl,rfl⟩) (fun hc => hcancelled ▸ hc)
    ((h.turns t turn ht).withTurn rfl rfl hcancelled hended hdropping) fun _ => Or.inl

open TurnController

theorem emitTurn {status : TurnStatus}
    (h : Ordered c) (ht : c.turns[t]? = some turn) (hsignal : turn'.signal=turn.signal)
    (hok : TurnOk { c with stream := c.stream ++ [(t, status)] } t turn') :
    Ordered ((c.emit t status).setTurn t turn') := by
  refine h.update ht rfl ?_ (fun hc => hsignal ▸ hc) (hok.frame rfl rfl) fun _ => Or.inl
  intro u hu
  simp [TurnController.setTurn,emit,Ne.symm hu]

theorem clearSlot_eq (c : TurnController) (t : Nat) :
    ∃ active, c.clearSlot t = { c with active } := by
  unfold clearSlot
  split_ifs
  · exact ⟨none,rfl⟩
  · exact ⟨c.active,rfl⟩

theorem turnStep {m : TurnMove} (h : Ordered c)
    (ht : c.turns[t]? = some turn) (hok : c.stepOk (.move t m))
    (hs : c.turnStep t turn m = some c') : Ordered c' := by
  obtain ⟨hbody,hdropping,hquiet⟩ := h.turns t turn ht
  obtain ⟨active,hclear⟩ := clearSlot_eq c t
  cases m with
  | recheck =>
    simp only [TurnController.turnStep,ite_none_right_eq_some] at hs
    obtain ⟨hphase,hs⟩ := hs
    split_ifs at hs
    · cases hs
      rw [hclear]
      exact h.setTurn ht active rfl (by simp [Turn.ended,hphase]) (by simp)
    · cases hs
      exact h.setTurn ht c.active rfl (by simp [Turn.ended,hphase]) (by simp)
  | announce =>
    simp only [TurnController.turnStep,ite_none_right_eq_some] at hs
    obtain ⟨hphase,hs⟩ := hs
    cases hs
    refine h.emitTurn ht rfl ((h.turns t turn ht).emitBody .running rfl ?_ ?_ rfl ?_ rfl (by simp))
    · simp
    · simp
    · simp [Turn.ended,hphase]
  | cancelled =>
    simp only [TurnController.turnStep,ite_none_right_eq_some] at hs
    obtain ⟨⟨hphase,-⟩,hs⟩ := hs
    cases hs
    exact h.setTurn ht c.active rfl (by simp [Turn.ended,hphase]) (by simp [hphase])
  | complete =>
    simp only [TurnController.turnStep,ite_none_right_eq_some] at hs
    obtain ⟨hphase,hs⟩ := hs
    cases hs
    refine h.setTurn ht c.active ?_ (by simp [Turn.ended,hphase]) (by simp [hphase])
    by_cases hlive : turn.signal.outcome=.live <;>
      simp [claim,isCancelled,hlive]
  | readOutcome =>
    simp only [TurnController.turnStep,ite_none_right_eq_some] at hs
    obtain ⟨hphase,hs⟩ := hs
    cases hs
    refine h.setTurn ht c.active rfl (by simp [Turn.ended,hphase]) ?_
    intro status hcase
    cases hcase
    rfl
  | emitTerminal =>
    simp only [TurnController.turnStep] at hs
    split at hs
    next status hphase =>
      cases hs
      have hempty : total (emits t) c.cancels = 0 := by
        refine total_eq_zero fun r hr => ?_
        cases r with
        | emitting v =>
          have hne : v≠t := by
            intro heq
            subst heq
            simp [stepOk,hr] at hok
          simp [emits,hne]
        | _ => rfl
      refine h.emitTurn ht rfl ⟨?_,by simp,fun _ => hempty⟩
      obtain ⟨body,heq,hnone,hcount⟩ := hbody
      refine ⟨body,?_,hnone,hcount⟩
      simp [heq,Turn.terminal,Turn.ended,hphase,hdropping status hphase]
    next => cases hs
  | release =>
    simp only [TurnController.turnStep,ite_none_right_eq_some] at hs
    obtain ⟨hphase,hs⟩ := hs
    cases hs
    rw [hclear]
    exact h.setTurn ht active rfl (by simp [Turn.ended,hphase]) (by simp)

theorem set_eq_self (ht : c.turns[t]? = some turn) :
    c.turns.set t turn = c.turns := by
  obtain ⟨hlt,rfl⟩ := List.getElem?_eq_some_iff.mp ht
  exact List.set_getElem_self hlt

variable {i : Nat}

theorem cancelMove {r r' : CancelPhase}
    (h : Ordered c) (ht : c.turns[t]? = some turn) (hr : c.cancels[i]? = some r)
    (hturns : c'.turns = c.turns.set t turn') (hcancels : c'.cancels = c.cancels.set i r')
    (hstream : ∀ u, u≠t → statuses u c'.stream = statuses u c.stream)
    (hown : ∀ u, u≠t → r.emits u = r'.emits u)
    (hkeep : turn.signal.isCancelled → turn'.signal.isCancelled) (hok : TurnOk c' t turn')
    (hchecked : ∀ u, r' = .checked u true → u=t ∧ turn'.signal.isCancelled) : Ordered c' := by
  refine h.update ht hturns ?_ hkeep hok ?_
  · intro u hu
    refine ⟨hstream u hu,?_⟩
    have hset := total_set (emits u) hr r'
    rw [hcancels]
    have := hown u hu
    omega
  · intro u hu
    rw [hcancels] at hu
    rcases mem_or_eq_of_mem_set hu with hold | heq
    · exact Or.inl hold
    · exact Or.inr (hchecked u heq.symm)

theorem claimLive (h : Ordered c)
    (ht : c.turns[t]? = some turn) (hr : c.cancels[i]? = some (.checked t false))
    (hlive : turn.signal.isCancelled=false) (hread : turn.outcomeRead=false) :
    Ordered ((c.setTurn t { turn with signal := { turn.signal with outcome := .cancelled } }).setCancel i
      (.emitting t)) := by
  obtain ⟨hended,hdrop⟩ := Turn.of_outcomeRead_eq_false hread
  have hset := total_set (emits t) hr (.emitting t)
  refine h.cancelMove ht hr rfl rfl (fun _ _ => rfl) ?_ (fun _ => rfl) ⟨?_,?_,?_⟩ (by simp)
  · intro u hu
    simp [emits,Ne.symm hu]
  · obtain ⟨body,heq,hnone,hcount⟩ := (h.turns t turn ht).statuses
    refine ⟨body,?_,hnone,?_⟩
    · have hnil : Turn.terminal
          { turn with signal := { turn.signal with outcome := .cancelled } } = [] :=
        Turn.terminal_eq_nil hended
      rw [Turn.terminal_eq_nil hended] at heq
      rw [hnil]
      exact heq
    · simp only [hlive,Bool.false_eq_true,if_false] at hcount
      simp only [emits,if_true] at hset
      simp only [TurnController.setCancel,TurnController.setTurn,isCancelled,
        decide_true,if_true]
      omega
  · exact fun status hphase => absurd hphase (hdrop status)
  · intro he
    exact absurd (hended.symm.trans he) Bool.false_ne_true

theorem emitCancelling (h : Ordered c) (hr : c.cancels[i]? = some (.emitting t)) :
    Ordered ((c.emit t .cancelling).setCancel i (.notifying t)) := by
  have hset := total_set (emits t) hr (.notifying t)
  have hpending := le_total (emits t) (mem_of_getElem? hr)
  simp only [emits,if_true] at hset hpending
  cases ht : c.turns[t]? with
  | none =>
    have := (h.unborn t ht).2
    omega
  | some turn =>
    have hturn := h.turns t turn ht
    have hended : turn.ended=false := by
      rw [Bool.eq_false_iff]
      intro he
      have := hturn.quiet he
      omega
    refine h.cancelMove ht hr (set_eq_self ht).symm rfl ?_ ?_ id
      (hturn.emitBody .cancelling rfl ?_ ?_ rfl hended hended hturn.dropping) (by simp)
    · intro u hu
      simp [TurnController.setCancel,emit,Ne.symm hu]
    · intro u hu
      simp [emits,Ne.symm hu]
    · simp [TurnController.setCancel,emit]
    · simp only [TurnController.setCancel,emit,count_singleton_self]
      omega

theorem cancelStep {r : CancelPhase} (h : Ordered c)
    (hr : c.cancels[i]? = some r) (hok : c.stepOk (.advance i))
    (hs : c.cancelStep i r = some c') : Ordered c' := by
  cases r with
  | loaded t =>
    obtain ⟨turn,ht,rfl⟩ := map_eq_some_iff.mp hs
    have hset := total_set (emits t) hr (.checked t turn.signal.isCancelled)
    refine h.cancelMove ht hr (set_eq_self ht).symm rfl (fun _ _ => rfl) (fun _ _ => rfl) id
      ((h.turns t turn ht).frame rfl hset) ?_
    intro u hu
    injection hu with htu hc
    exact ⟨htu.symm,hc⟩
  | checked t alreadyCancelled =>
    obtain ⟨turn,ht,rfl⟩ := map_eq_some_iff.mp hs
    have hturn := h.turns t turn ht
    cases houtcome : turn.signal.outcome with
    | live =>
      have hlive : turn.signal.isCancelled=false := by
        simp [isCancelled,houtcome]
      have hfresh : alreadyCancelled=false := by
        rw [Bool.eq_false_iff]
        intro heq
        subst heq
        obtain ⟨turn',ht',hc⟩ := h.checked t (mem_of_getElem? hr)
        obtain rfl : turn=turn' := some.inj (ht.symm.trans ht')
        exact Bool.false_ne_true (hlive.symm.trans hc)
      subst hfresh
      simp only [claim,houtcome,if_true,Bool.false_eq_true,if_false]
      exact h.claimLive ht hr hlive ((claim_of_stepOk hok hr ht).2 houtcome)
    | completed =>
      have hset := total_set (emits t) hr (.returned false)
      simp only [claim,houtcome,reduceCtorEq,if_false,decide_false,Bool.false_eq_true]
      exact h.cancelMove ht hr (set_eq_self ht).symm rfl (fun _ _ => rfl) (fun _ _ => rfl) id
        (hturn.frame rfl hset) (by simp)
    | cancelled =>
      have hseen : alreadyCancelled=true := by
        rw [← Bool.not_eq_false]
        intro heq
        subst heq
        exact (claim_of_stepOk hok hr ht).1 houtcome
      subst hseen
      have hset := total_set (emits t) hr (.notifying t)
      simp only [claim,houtcome,reduceCtorEq,if_false,decide_true,if_true]
      exact h.cancelMove ht hr rfl rfl (fun _ _ => rfl) (fun _ _ => rfl) id
        (hturn.frame rfl hset) (by simp)
  | emitting =>
    cases hs
    exact h.emitCancelling hr
  | notifying t =>
    obtain ⟨turn,ht,rfl⟩ := map_eq_some_iff.mp hs
    have hset := total_set (emits t) hr (.returned true)
    have hturn := h.turns t turn ht
    exact h.cancelMove ht hr rfl rfl (fun _ _ => rfl) (fun _ _ => rfl) id
      (hturn.withTurn rfl hset rfl rfl hturn.dropping) (by simp)
  | returned => cases hs

theorem init : Ordered {} :=
  ⟨fun t turn ht => by simp at ht,fun t _ => ⟨rfl,rfl⟩,fun t ht => by simp at ht⟩

theorem begin (h : Ordered c) (hs : c.begin = .ok c') : Ordered c' := by
  unfold TurnController.begin at hs
  split_ifs at hs
  cases hs
  refine ⟨?_,?_,?_⟩
  · intro t turn ht
    by_cases hlt : t < c.turns.length
    · rw [List.getElem?_append_left hlt] at ht
      exact (h.turns t turn ht).frame rfl rfl
    · obtain ⟨hstatuses,hemits⟩ := h.unborn t (getElem?_eq_none (by omega))
      obtain ⟨-,rfl⟩ : t-c.turns.length=0 ∧ turn = {} := by
        rw [getElem?_append_right (by omega),getElem?_singleton] at ht
        split_ifs at ht with hzero
        exact ⟨hzero,(some.inj ht).symm⟩
      refine ⟨⟨[],hstatuses,by simp,?_⟩,by simp,by simp [Turn.ended]⟩
      simpa [isCancelled] using hemits
  · intro t ht
    rw [getElem?_eq_none_iff,length_append] at ht
    exact h.unborn t (getElem?_eq_none (by omega))
  · intro t ht
    obtain ⟨turn,hturn,hc⟩ := h.checked t ht
    refine ⟨turn,?_,hc⟩
    rw [List.getElem?_append_left (List.getElem?_eq_some_iff.mp hturn).1,hturn]

theorem cancelWith (h : Ordered c) : Ordered c.cancelWith := by
  have hquiet : ∀ t, total (emits t) c.cancelWith.cancels =
      total (emits t) c.cancels := by
    cases hactive : c.active <;> simp [TurnController.cancelWith,hactive,emits]
  refine ⟨?_,?_,?_⟩
  · intro t turn ht
    exact (h.turns t turn ht).frame rfl (hquiet t)
  · intro t ht
    rw [hquiet]
    exact h.unborn t ht
  · intro t ht
    refine h.checked t ?_
    cases hactive : c.active <;> simpa [TurnController.cancelWith,hactive] using ht

theorem step {a : TurnAction} (h : Ordered c) (hok : c.stepOk a)
    (hs : c.step a = some c') : Ordered c' := by
  cases a with
  | begin =>
    cases hb : c.begin with
    | error => simp [TurnController.step,hb,Except.toOption] at hs
    | ok c₁ =>
      obtain rfl : c₁=c' := by simpa [TurnController.step,hb,Except.toOption] using hs
      exact h.begin hb
  | move =>
    obtain ⟨turn,ht,hs⟩ := bind_eq_some_iff.mp hs
    exact h.turnStep ht hok hs
  | cancel =>
    cases hs
    exact h.cancelWith
  | advance =>
    obtain ⟨r,hr,hs⟩ := bind_eq_some_iff.mp hs
    exact h.cancelStep hr hok hs

theorem of_reaches (h : TurnController.system.Reaches (fun c a => c.stepOk a) c) :
    Ordered c :=
  h.invariant init fun _ _ _ hc hok hs => hc.step hok hs

end Ordered

/-- What a consumer may rely on for the statuses of one turn. -/
structure TurnStatusesOk (turn : Turn) (l : List TurnStatus) : Prop where
  cancellingOnce : l.count .cancelling ≤ 1
  cancellingFirst : ∀ before status after, l=before++status::after → status.isTerminal →
    .cancelling ∉ after
  terminalOnce : l.countP TurnStatus.isTerminal = if turn.ended then 1 else 0
  terminalOutcome : ∀ status∈l, status.isTerminal →
    (status=.cancelled ↔ turn.signal.outcome=.cancelled)

theorem TurnOk.statusesOk {c : TurnController} (h : TurnOk c t turn) :
    TurnStatusesOk turn (Session.statuses t c.stream) := by
  obtain ⟨body,heq,hnone,hcount⟩ := h.statuses
  have hlast : ∀ status∈turn.terminal, status = turn.signal.terminalStatus := by
    intro status hstatus
    unfold Turn.terminal at hstatus
    split_ifs at hstatus with he
    · exact mem_singleton.mp hstatus
    · cases hstatus
  have hterminal : turn.signal.terminalStatus.isTerminal ∧
      turn.signal.terminalStatus ≠ .cancelling := by
    unfold terminalStatus
    split_ifs <;> simp [TurnStatus.isTerminal]
  rw [heq]
  refine ⟨?_,?_,?_,?_⟩
  · have hzero : turn.terminal.count .cancelling = 0 :=
      count_eq_zero.mpr fun hmem => hterminal.2 (hlast _ hmem).symm
    rw [count_append,hzero]
    split_ifs at hcount <;> omega
  · intro before status after hsplit hstatus hmem
    have hbody : status ∉ body := fun hb => by simp [hnone status hb] at hstatus
    rcases append_eq_append_iff.mp hsplit with ⟨rest,-,hrest⟩ | ⟨rest,hpre,hrest⟩
    · exact hterminal.2 (hlast _ (by simp [hrest,hmem])).symm
    · cases rest with
      | nil =>
        rw [nil_append] at hrest
        exact hterminal.2 (hlast _ (hrest ▸ mem_cons_of_mem status hmem)).symm
      | cons x xs =>
        rw [cons_append,List.cons.injEq] at hrest
        exact hbody (by simp [hpre,hrest.1])
  · rw [countP_append,countP_eq_zero.mpr fun status hb => by simp [hnone status hb]]
    unfold Turn.terminal
    split_ifs with he
    · simp [hterminal.1]
    · rfl
  · intro status hmem hstatus
    rcases mem_append.mp hmem with hb | ht
    · rw [hnone status hb] at hstatus
      cases hstatus
    · rw [hlast status ht]
      simp [terminalStatus,isCancelled]

/-- While no two cancels race for the claim and no drop overtakes a winning cancel, every turn's
statuses are in order. -/
theorem turnStatuses_ok {c : TurnController}
    (h : TurnController.system.Reaches (fun c a => c.stepOk a) c) (t : Nat) (turn : Turn)
    (ht : c.turns[t]? = some turn) : TurnStatusesOk turn (statuses t c.stream) :=
  ((Ordered.of_reaches h).turns t turn ht).statusesOk

def cancelledTurn : List TurnAction :=
  [.begin, .move 0 (.recheck false), .move 0 .announce, .cancel, .advance 0, .advance 0, .advance 0,
    .advance 0, .cancel, .advance 1, .advance 1, .advance 1, .move 0 .cancelled, .move 0 .complete,
    .move 0 .readOutcome, .move 0 .emitTerminal, .move 0 .release]

/-- A turn that is cancelled while it runs. -/
theorem turnStatuses_ok_cancelledTurn : ∃ c turn,
    TurnController.system.Reaches (fun c a => c.stepOk a) c ∧ c.turns[0]? = some turn ∧
    statuses 0 c.stream = [.running, .cancelling, .cancelled] ∧
    TurnStatusesOk turn (statuses 0 c.stream) := by
  obtain ⟨c,-,hreach,hturn,hstatuses⟩ := System.exists_of_replay TurnController.system
    (fun c a => c.stepOk a) cancelledTurn
    (fun c => c.turns[0]? = some ⟨⟨.cancelled,false⟩,.over⟩ ∧
      statuses 0 c.stream = [.running, .cancelling, .cancelled]) (by decide)
  exact ⟨c,_,hreach,hturn,hstatuses,turnStatuses_ok hreach 0 _ hturn⟩

/-- Two cancels that both read the turn live, and a drop between their emissions. -/
def racingCancels : List TurnAction :=
  [.begin, .move 0 (.recheck false), .move 0 .announce, .cancel, .cancel, .advance 0, .advance 1,
    .advance 0, .advance 1, .advance 0, .move 0 .complete, .move 0 .readOutcome,
    .move 0 .emitTerminal, .advance 1]

/-- The second of two cancels announces itself after the turn has ended. -/
theorem turnStatuses_racingCancels :
    (TurnController.system.replay (fun _ _ => True) racingCancels).map
      (fun c => statuses 0 c.stream) = some [.running, .cancelling, .cancelled, .cancelling] ∧
    ∀ turn, ¬ TurnStatusesOk turn [.running, .cancelling, .cancelled, .cancelling] := by
  refine ⟨by decide,fun turn h => ?_⟩
  exact absurd h.cancellingOnce (by decide)

end Daimonos.Session
