import Daimonos.Framework.Keyed
import Daimonos.Framework.Transition

namespace Daimonos.Mcp

open Framework List

inductive PoolSlotState where
  | empty
  | shuttingDown
  | ready (client leases : Nat)
  deriving DecidableEq

/-- What the acquire does that keeps the slot locked while it connects. -/
inductive Connecting where
  | connecting
  | handshaking (client : Nat)
  | closing (client : Nat)
  deriving DecidableEq

structure PoolSlot (κ : Type) where
  key : κ
  state : PoolSlotState := .empty
  guard : Option Connecting := none
  /-- Acquires that are about to lock the state. -/
  queued : Nat := 0
  /-- Acquires that wait for the slot to change. -/
  waiting : Nat := 0
  /-- The clients of the leases that are out. -/
  leases : List Nat := []
  /-- The tasks that shut a client of this slot down, and whether the client has exited. -/
  shutdowns : List (Nat × Bool) := []
  /-- Acquires and releases that wait for a shutdown they have started. -/
  returning : Nat := 0
  /-- The detached tasks that shut a client down whose handshake failed. -/
  rejected : List Nat := []
  /-- The clients of this slot that are started and not shut down. -/
  started : List Nat := []

inductive SlotAction where
  | lock
  | connectFails
  | createClient
  | handshakeReady
  | handshakeSelf
  | handshakeFails
  | failureReturns
  | cancelQueued
  | cancelWaiting
  | cancelConnect
  | release (client : Nat)
  | returns
  | clientExits (client : Nat)
  | shutdownReports (client : Nat)
  | rejectedExits (client : Nat)
  deriving DecidableEq

namespace PoolSlot

variable {κ : Type}

def isAlive (slot : PoolSlot κ) : Bool :=
  decide (0 < slot.queued) || decide (0 < slot.waiting) || slot.guard.isSome ||
    !slot.leases.isEmpty || !slot.shutdowns.isEmpty || decide (0 < slot.returning)

def startShutdown (client : Nat) (slot : PoolSlot κ) : PoolSlot κ :=
  { slot with
    state := .shuttingDown
    shutdowns := (client, false) :: slot.shutdowns
    returning := slot.returning+1 }

/-- An acquire gets the lock. If the slot is empty it keeps it and connects. -/
def lock (slot : PoolSlot κ) : PoolSlot κ :=
  let slot := { slot with queued := slot.queued-1 }
  match slot.state with
  | .ready client leases =>
    { slot with state := .ready client (leases+1), leases := client::slot.leases }
  | .shuttingDown => { slot with waiting := slot.waiting+1 }
  | .empty => { slot with guard := some .connecting }

def releaseLease (client : Nat) (slot : PoolSlot κ) : PoolSlot κ :=
  let slot := { slot with leases := slot.leases.erase client }
  match slot.state with
  | .ready client leases =>
    if leases > 1 then { slot with state := .ready client (leases-1) }
    else slot.startShutdown client
  | .empty | .shuttingDown => slot

/-- The shutdown task reports: the slot is free, and whoever waits goes on to the lock. -/
def reportShutdown (client : Nat) (slot : PoolSlot κ) : PoolSlot κ :=
  { slot with
    state := if slot.state=.shuttingDown then .empty else slot.state
    shutdowns := slot.shutdowns.erase (client, true)
    queued := slot.queued+slot.waiting
    waiting := 0 }

def exitClient (client : Nat) (slot : PoolSlot κ) : PoolSlot κ :=
  { slot with
    shutdowns := slot.shutdowns.map fun t => if t.1=client then (client, true) else t
    started := slot.started.erase client }

/-- A step of a task that is about the slot; `next` numbers the client it may create. -/
def act (next : Nat) (slot : PoolSlot κ) : SlotAction → Option (PoolSlot κ)
  | .lock => if slot.guard=none ∧ 0 < slot.queued then some slot.lock else none
  | .connectFails =>
    if slot.guard = some .connecting then some { slot with guard := none } else none
  | .createClient =>
    if slot.guard = some .connecting then
      some { slot with guard := some (.handshaking next), started := next::slot.started }
    else none
  | .handshakeReady =>
    match slot.guard with
    | some (.handshaking client) =>
      some { slot with guard := none, state := .ready client 1, leases := client::slot.leases }
    | _ => none
  | .handshakeSelf =>
    match slot.guard with
    | some (.handshaking client) => some ({ slot with guard := none }.startShutdown client)
    | _ => none
  | .handshakeFails =>
    match slot.guard with
    | some (.handshaking client) =>
      some { slot with guard := some (.closing client), rejected := client::slot.rejected }
    | _ => none
  | .failureReturns =>
    match slot.guard with
    | some (.closing _) => some { slot with guard := none }
    | _ => none
  | .cancelQueued =>
    if 0 < slot.queued then some { slot with queued := slot.queued-1 } else none
  | .cancelWaiting =>
    if 0 < slot.waiting then some { slot with waiting := slot.waiting-1 } else none
  | .cancelConnect => if slot.guard.isSome then some { slot with guard := none } else none
  | .release client =>
    if slot.guard=none ∧ client∈slot.leases then some (slot.releaseLease client) else none
  | .returns =>
    if 0 < slot.returning then some { slot with returning := slot.returning-1 } else none
  | .clientExits client =>
    if (client, false) ∈ slot.shutdowns then some (slot.exitClient client) else none
  | .shutdownReports client =>
    if slot.guard=none ∧ (client, true) ∈ slot.shutdowns then some (slot.reportShutdown client)
    else none
  | .rejectedExits client =>
    if client∈slot.rejected then
      some { slot with
        rejected := slot.rejected.erase client
        started := slot.started.erase client }
    else none

end PoolSlot

structure ClientPool (κ : Type) where
  slots : List (PoolSlot κ) := []
  registry : List (κ × Nat) := []
  nextClient : Nat := 0

inductive PoolAction (κ : Type) where
  | lookUp (key : κ)
  | slot (i : Nat) (action : SlotAction)

namespace ClientPool

variable {κ : Type} [DecidableEq κ]

def lookUp (key : κ) (s : ClientPool κ) : ClientPool κ :=
  let registry := s.registry.filter fun c => s.slots[c.2]?.any PoolSlot.isAlive
  match lookupKey key registry with
  | some i =>
    { s with
      registry
      slots := s.slots.modify i fun slot => { slot with queued := slot.queued+1 } }
  | none =>
    { s with
      registry := insertKey key s.slots.length registry
      slots := s.slots ++ [{ key, queued := 1 }] }

def step (s : ClientPool κ) : PoolAction κ → Option (ClientPool κ)
  | .lookUp key => some (s.lookUp key)
  | .slot i action =>
    s.slots[i]?.bind fun slot =>
      (slot.act s.nextClient action).map fun slot =>
        { s with
          slots := s.slots.set i slot
          nextClient := if action=.createClient then s.nextClient+1 else s.nextClient }

def system (κ : Type) [DecidableEq κ] : System (ClientPool κ) (PoolAction κ) :=
  { init := {}, step := step }

end ClientPool

namespace PoolSlot

variable {κ : Type} {slot slot' : PoolSlot κ} {next : Nat}

/-- How the slot's state goes with its lock, leases, shutdown task and waiting acquires. -/
def Shaped (slot : PoolSlot κ) : Prop :=
  match slot.guard, slot.state with
  | _, .empty => slot.leases = [] ∧ slot.shutdowns = [] ∧ slot.waiting=0
  | none, .ready client leases =>
    slot.leases = List.replicate leases client ∧ 0 < leases ∧ slot.shutdowns = [] ∧ slot.waiting=0
  | none, .shuttingDown => slot.leases = [] ∧ ∃ client exited, slot.shutdowns = [(client, exited)]
  | some _, _ => False

def current (slot : PoolSlot κ) : Option Nat :=
  match slot.guard, slot.state with
  | some (.handshaking client), _ => some client
  | _, .ready client _ => some client
  | _, .shuttingDown => (slot.shutdowns.find? fun t => !t.2).map Prod.fst
  | _, .empty => none

structure Sound (next : Nat) (slot : PoolSlot κ) : Prop where
  shaped : slot.Shaped
  current : ∀ c∈slot.current, c∈slot.started ∧ c ∉ slot.rejected ∧ c<next
  rejected : ∀ c∈slot.rejected, c<next

theorem shaped_iff : slot.Shaped ↔
    (slot.state=.empty ∧ slot.leases = [] ∧ slot.shutdowns = [] ∧ slot.waiting=0) ∨
    slot.guard=none ∧ ((∃ client n, slot.state = .ready client (n+1) ∧
        slot.leases = List.replicate (n+1) client ∧ slot.shutdowns = [] ∧ slot.waiting=0) ∨
      slot.state=.shuttingDown ∧ slot.leases = [] ∧
        ∃ client exited, slot.shutdowns = [(client, exited)]) := by
  unfold Shaped
  cases slot.guard <;> cases slot.state with
    | ready client n => cases n <;> simp
    | _ => simp

theorem Sound.of_empty
    (hempty : slot.state=.empty ∧ slot.leases = [] ∧ slot.shutdowns = [] ∧ slot.waiting=0)
    (hguard : ∀ client, slot.guard ≠ some (.handshaking client))
    (hrejected : ∀ c∈slot.rejected, c<next) : Sound next slot := by
  refine ⟨shaped_iff.mpr (.inl hempty),fun c hc => ?_,hrejected⟩
  have hnone : slot.current=none := by
    rw [PoolSlot.current,hempty.1]
    split
    · rename_i client heq
      exact absurd heq (hguard client)
    all_goals first | rfl | contradiction
  rw [hnone] at hc
  cases hc

theorem Sound.of_guard (h : Sound next slot) (hguard : slot.guard.isSome=true) :
    slot.state=.empty ∧ slot.leases = [] ∧ slot.shutdowns = [] ∧ slot.waiting=0 := by
  refine (shaped_iff.mp h.shaped).resolve_right fun hfree => ?_
  rw [hfree.1] at hguard
  cases hguard

theorem Sound.lock (h : Sound next slot) (hguard : slot.guard=none) : Sound next slot.lock := by
  obtain ⟨_,state,guard,_,waiting,leases,shutdowns,_,rejected,started⟩ := slot
  obtain ⟨hshaped,hcurrent,hrejected⟩ := h
  subst hguard
  cases state with
  | empty =>
    refine ⟨hshaped,?_,hrejected⟩
    rintro c ⟨⟩
  | shuttingDown => exact ⟨hshaped,hcurrent,hrejected⟩
  | ready client n =>
    obtain ⟨hleases,hpositive,hnone,hwaiting⟩ := hshaped
    refine ⟨⟨?_,Nat.succ_pos n,hnone,hwaiting⟩,hcurrent,hrejected⟩
    rw [show leases = List.replicate n client from hleases]
    rfl

theorem Sound.unlock (h : Sound next slot) (hguard : slot.guard.isSome=true) :
    Sound next { slot with guard := none } :=
  .of_empty (h.of_guard hguard) nofun h.rejected

theorem Sound.createClient (h : Sound next slot) (hguard : slot.guard = some .connecting) :
    Sound (next+1)
      { slot with guard := some (.handshaking next), started := next::slot.started } := by
  refine ⟨shaped_iff.mpr (.inl (h.of_guard (by rw [hguard]; rfl))),?_,
    fun c hc => Nat.lt_succ_of_lt (h.rejected c hc)⟩
  rintro c ⟨⟩
  exact ⟨mem_cons_self,fun hmem => Nat.lt_irrefl _ (h.rejected _ hmem),Nat.lt_succ_self _⟩

section Handshake

variable {client : Nat}

theorem Sound.handshaken (h : Sound next slot) (hguard : slot.guard = some (.handshaking client)) :
    (slot.state=.empty ∧ slot.leases = [] ∧ slot.shutdowns = [] ∧ slot.waiting=0) ∧
      client∈slot.started ∧ client ∉ slot.rejected ∧ client<next := by
  refine ⟨h.of_guard (by rw [hguard]; rfl),h.current client ?_⟩
  rw [PoolSlot.current,hguard]
  rfl

theorem Sound.handshakeReady (h : Sound next slot)
    (hguard : slot.guard = some (.handshaking client)) :
    Sound next { slot with
      guard := none
      state := .ready client 1
      leases := client::slot.leases } := by
  obtain ⟨⟨-,hleases,hshutdowns,hwaiting⟩,hclient⟩ := h.handshaken hguard
  refine ⟨⟨?_,Nat.one_pos,hshutdowns,hwaiting⟩,?_,h.rejected⟩
  · rw [hleases]
    rfl
  · rintro c ⟨⟩
    exact hclient

theorem Sound.startShutdown (h : Sound next slot) (hclient : client∈slot.started)
    (hrejected : client ∉ slot.rejected) (hnext : client<next) (hguard : slot.guard=none)
    (hleases : slot.leases = []) (hshutdowns : slot.shutdowns = []) :
    Sound next (slot.startShutdown client) := by
  obtain ⟨_,state,guard,_,waiting,leases,shutdowns,_,rejected,started⟩ := slot
  subst hguard
  cases hleases
  cases hshutdowns
  refine ⟨⟨rfl,client,false,rfl⟩,?_,h.rejected⟩
  rintro c ⟨⟩
  exact ⟨hclient,hrejected,hnext⟩

theorem Sound.handshakeFails (h : Sound next slot)
    (hguard : slot.guard = some (.handshaking client)) :
    Sound next { slot with guard := some (.closing client), rejected := client::slot.rejected } := by
  obtain ⟨hempty,-,-,hnext⟩ := h.handshaken hguard
  refine .of_empty hempty nofun fun c hc => ?_
  rcases mem_cons.mp hc with rfl | hold
  · exact hnext
  · exact h.rejected c hold

end Handshake

variable {client : Nat}

theorem Sound.leased (h : Sound next slot) (hmem : client∈slot.leases) :
    ∃ n, slot.guard=none ∧ slot.state = .ready client (n+1) ∧
      slot.leases = List.replicate (n+1) client ∧ slot.shutdowns = [] ∧ slot.waiting=0 ∧
      client∈slot.started ∧ client ∉ slot.rejected ∧ client<next := by
  rcases shaped_iff.mp h.shaped with hempty | ⟨hguard,⟨other,n,hready⟩ | hshutting⟩
  · rw [hempty.2.1] at hmem
    cases hmem
  · rw [hready.2.1] at hmem
    obtain rfl := eq_of_mem_replicate hmem
    refine ⟨n,hguard,hready.1,hready.2.1,hready.2.2.1,hready.2.2.2,h.current client ?_⟩
    rw [PoolSlot.current,hguard,hready.1]
    rfl
  · rw [hshutting.2.1] at hmem
    cases hmem

theorem Sound.releaseLease_eq (h : Sound next slot) (hmem : client∈slot.leases) :
    slot.releaseLease client =
      if slot.leases = [client] then { slot with leases := [] }.startShutdown client
      else { slot with
        leases := slot.leases.erase client
        state := .ready client (slot.leases.length-1) } := by
  obtain ⟨n,-,hstate,hleases,-⟩ := h.leased hmem
  have hlength : slot.leases.length=n+1 := by rw [hleases,length_replicate]
  unfold PoolSlot.releaseLease
  rw [hstate,hlength]
  dsimp only
  cases n with
  | zero =>
    have hone : slot.leases = [client] := hleases
    rw [if_neg (Nat.lt_irrefl 1),if_pos hone,hone]
    simp
  | succ n =>
    have hne : slot.leases ≠ [client] := by
      intro heq
      rw [heq] at hlength
      simp at hlength
    rw [if_pos (by omega),if_neg hne]

theorem Sound.releaseLease (h : Sound next slot) (hmem : client∈slot.leases) :
    Sound next (slot.releaseLease client) := by
  rw [h.releaseLease_eq hmem]
  obtain ⟨n,hguard,-,hleases,hshutdowns,hwaiting,hstarted,hrejected,hnext⟩ := h.leased hmem
  obtain ⟨_,state,guard,_,waiting,leases,shutdowns,_,rejected,started⟩ := slot
  cases hguard
  cases hshutdowns
  split_ifs with hlast
  · refine ⟨⟨rfl,client,false,rfl⟩,?_,h.rejected⟩
    rintro c ⟨⟩
    exact ⟨hstarted,hrejected,hnext⟩
  · have hlength : leases.length=n+1 := by
      rw [show leases=_ from hleases,length_replicate]
    have hpositive : 0<n := by
      refine Nat.pos_of_ne_zero fun hzero => hlast ?_
      subst hzero
      exact hleases
    refine ⟨⟨?_,?_,rfl,hwaiting⟩,?_,h.rejected⟩
    · rw [hlength,show leases=_ from hleases]
      simp [erase_replicate_self]
    · change 0 < leases.length-1
      omega
    · rintro c ⟨⟩
      exact ⟨hstarted,hrejected,hnext⟩

theorem Sound.shutting (h : Sound next slot) {exited : Bool}
    (hmem : (client, exited) ∈ slot.shutdowns) :
    slot.guard=none ∧ slot.state=.shuttingDown ∧ slot.leases = [] ∧
      slot.shutdowns = [(client, exited)] := by
  rcases shaped_iff.mp h.shaped with hempty | ⟨hguard,⟨other,n,hready⟩ | hshutting⟩
  · rw [hempty.2.2.1] at hmem
    cases hmem
  · rw [hready.2.2.1] at hmem
    cases hmem
  · obtain ⟨hstate,hleases,other,exited',hshutdowns⟩ := hshutting
    rw [hshutdowns] at hmem ⊢
    exact ⟨hguard,hstate,hleases,by rw [mem_singleton.mp hmem]⟩

theorem Sound.reportShutdown (h : Sound next slot)
    (hmem : (client, true) ∈ slot.shutdowns) : Sound next (slot.reportShutdown client) := by
  obtain ⟨hguard,hstate,hleases,hshutdowns⟩ := h.shutting hmem
  obtain ⟨_,state,guard,_,waiting,leases,shutdowns,_,rejected,started⟩ := slot
  cases hguard
  cases hstate
  cases hshutdowns
  refine ⟨⟨hleases,?_,rfl⟩,?_,h.rejected⟩
  · exact erase_cons_head _ _
  · rintro c ⟨⟩

theorem Sound.exitClient (h : Sound next slot)
    (hmem : (client, false) ∈ slot.shutdowns) : Sound next (slot.exitClient client) := by
  obtain ⟨hguard,hstate,hleases,hshutdowns⟩ := h.shutting hmem
  obtain ⟨_,state,guard,_,waiting,leases,shutdowns,_,rejected,started⟩ := slot
  cases hguard
  cases hstate
  cases hshutdowns
  have hmap : [(client, false)].map (fun t => if t.1=client then (client, true) else t) =
      [(client, true)] := by simp
  refine ⟨⟨hleases,client,true,hmap⟩,fun c hc => ?_,h.rejected⟩
  change c ∈ (([(client, false)].map fun t => if t.1=client then (client, true) else t).find?
    fun t => !t.2).map Prod.fst at hc
  rw [hmap] at hc
  cases hc

theorem Sound.rejectedExits (h : Sound next slot) (hmem : client∈slot.rejected) :
    Sound next { slot with
      rejected := slot.rejected.erase client
      started := slot.started.erase client } := by
  refine ⟨h.shaped,fun c hc => ?_,fun c hc => h.rejected c (mem_of_mem_erase hc)⟩
  obtain ⟨hstarted,hrejected,hnext⟩ := h.current c hc
  have hne : c≠client := fun heq => hrejected (heq ▸ hmem)
  exact ⟨(mem_erase_of_ne hne).mpr hstarted,fun hold => hrejected (mem_of_mem_erase hold),hnext⟩

theorem Sound.mono {next' : Nat} (h : Sound next slot) (hle : next≤next') : Sound next' slot :=
  ⟨h.shaped,fun c hc => ⟨(h.current c hc).1,(h.current c hc).2.1,(h.current c hc).2.2.trans_le hle⟩,
    fun c hc => (h.rejected c hc).trans_le hle⟩

theorem of_guarded {c : Prop} [Decidable c] {a : PoolSlot κ}
    (hact : (if c then some a else none) = some slot') : c ∧ slot'=a := by
  rw [Option.ite_none_right_eq_some] at hact
  exact ⟨hact.1,(Option.some.inj hact.2).symm⟩

theorem of_handshake {f : Nat → PoolSlot κ} (hact : (match slot.guard with
      | some (.handshaking client) => some (f client)
      | _ => none) = some slot') :
    ∃ client, slot.guard = some (.handshaking client) ∧ slot' = f client := by
  split at hact
  · rename_i client hguard
    exact ⟨client,hguard,(Option.some.inj hact).symm⟩
  · cases hact

theorem of_closing (hact : (match slot.guard with
      | some (.closing _) => some { slot with guard := none }
      | _ => none) = some slot') :
    ∃ client, slot.guard = some (.closing client) ∧ slot' = { slot with guard := none } := by
  split at hact
  · rename_i client hguard
    exact ⟨client,hguard,(Option.some.inj hact).symm⟩
  · cases hact

def nextAfter (next : Nat) (action : SlotAction) : Nat :=
  if action=.createClient then next+1 else next

theorem Sound.cancelWaiting (h : Sound next slot) :
    Sound next { slot with waiting := slot.waiting-1 } := by
  refine ⟨shaped_iff.mpr ?_,h.current,h.rejected⟩
  rcases shaped_iff.mp h.shaped with hempty | ⟨hguard,⟨client,n,hready⟩ | hshutting⟩
  · exact .inl ⟨hempty.1,hempty.2.1,hempty.2.2.1,by simp [hempty.2.2.2]⟩
  · exact .inr ⟨hguard,.inl ⟨client,n,hready.1,hready.2.1,hready.2.2.1,by simp [hready.2.2.2]⟩⟩
  · exact .inr ⟨hguard,.inr hshutting⟩

theorem Sound.act (h : Sound next slot) {action : SlotAction}
    (hact : slot.act next action = some slot') : Sound (nextAfter next action) slot' := by
  cases action with
  | lock =>
    obtain ⟨hready,rfl⟩ := of_guarded hact
    exact h.lock hready.1
  | connectFails =>
    obtain ⟨hguard,rfl⟩ := of_guarded hact
    exact h.unlock (by rw [hguard]; rfl)
  | createClient =>
    obtain ⟨hguard,rfl⟩ := of_guarded hact
    exact h.createClient hguard
  | handshakeReady =>
    obtain ⟨client,hguard,rfl⟩ := of_handshake hact
    exact h.handshakeReady hguard
  | handshakeSelf =>
    obtain ⟨client,hguard,rfl⟩ := of_handshake hact
    obtain ⟨⟨-,hleases,hshutdowns,-⟩,hstarted,hrejected,hnext⟩ := h.handshaken hguard
    exact (h.unlock (by rw [hguard]; rfl)).startShutdown hstarted hrejected hnext rfl hleases hshutdowns
  | handshakeFails =>
    obtain ⟨client,hguard,rfl⟩ := of_handshake hact
    exact h.handshakeFails hguard
  | failureReturns =>
    obtain ⟨client,hguard,rfl⟩ := of_closing hact
    exact h.unlock (by rw [hguard]; rfl)
  | cancelQueued | returns =>
    obtain ⟨-,rfl⟩ := of_guarded hact
    exact ⟨h.shaped,h.current,h.rejected⟩
  | cancelWaiting =>
    obtain ⟨-,rfl⟩ := of_guarded hact
    exact h.cancelWaiting
  | cancelConnect =>
    obtain ⟨hguard,rfl⟩ := of_guarded hact
    exact h.unlock hguard
  | release =>
    obtain ⟨hlease,rfl⟩ := of_guarded hact
    exact h.releaseLease hlease.2
  | clientExits =>
    obtain ⟨hmem,rfl⟩ := of_guarded hact
    exact h.exitClient hmem
  | shutdownReports =>
    obtain ⟨hmem,rfl⟩ := of_guarded hact
    exact h.reportShutdown hmem.2
  | rejectedExits =>
    obtain ⟨hmem,rfl⟩ := of_guarded hact
    exact h.rejectedExits hmem

/-- No client of the slot is left behind if the acquire that holds the lock gives it up now. -/
def disposed (slot : PoolSlot κ) : Bool :=
  match slot.guard with
  | some (.handshaking _) => false
  | some (.closing client) => decide (client ∉ slot.rejected)
  | _ => true

def Exact (slot : PoolSlot κ) : Prop :=
  match slot.guard with
  | some (.closing client) =>
    slot.rejected = [client] ∧ slot.started = [client] ∨ slot.rejected = [] ∧ slot.started = []
  | _ => slot.rejected = [] ∧ slot.started = slot.current.toList

theorem Exact.started_eq (h : slot.Exact) (hguard : ∀ client, slot.guard ≠ some (.closing client)) :
    slot.rejected = [] ∧ slot.started = slot.current.toList := by
  unfold Exact at h
  split at h
  · rename_i client heq
    exact absurd heq (hguard client)
  · exact h

theorem Exact.unlock (h : slot.Exact) (hsound : Sound next slot) (hguard : slot.guard.isSome=true)
    (hdisposed : slot.disposed=true) : Exact { slot with guard := none } := by
  have hstate := (hsound.of_guard hguard).1
  obtain ⟨_,state,guard,_,waiting,leases,shutdowns,_,rejected,started⟩ := slot
  cases hstate
  cases guard with
  | none => cases hguard
  | some task =>
    cases task with
    | connecting => exact h
    | handshaking => cases hdisposed
    | closing client =>
      rcases h with ⟨hrejected,-⟩ | hnone
      · refine absurd ?_ (of_decide_eq_true hdisposed)
        rw [show rejected = [client] from hrejected]
        exact mem_singleton_self client
      · exact hnone

theorem Exact.lock (h : slot.Exact) (hguard : slot.guard=none) : slot.lock.Exact := by
  obtain ⟨_,state,guard,_,waiting,leases,shutdowns,_,rejected,started⟩ := slot
  subst hguard
  cases state with
  | empty | shuttingDown | ready => exact h

theorem Exact.createClient (h : slot.Exact) (hsound : Sound next slot)
    (hguard : slot.guard = some .connecting) :
    Exact { slot with guard := some (.handshaking next), started := next::slot.started } := by
  have hstate := (hsound.of_guard (by rw [hguard]; rfl)).1
  obtain ⟨hrejected,hstarted⟩ := h.started_eq (by simp [hguard])
  rw [PoolSlot.current,hguard,hstate] at hstarted
  exact ⟨hrejected,congrArg (next :: ·) hstarted⟩

section Handshake

variable {client : Nat}

theorem Exact.handshaken (h : slot.Exact) (hguard : slot.guard = some (.handshaking client)) :
    slot.rejected = [] ∧ slot.started = [client] := by
  simpa [PoolSlot.current,hguard] using h.started_eq (by simp [hguard])

theorem Exact.shutting (h : slot.Exact) (hguard : slot.guard=none)
    (hstate : slot.state=.shuttingDown) (hshutdowns : slot.shutdowns = [(client, false)]) :
    slot.rejected = [] ∧ slot.started = [client] := by
  simpa [PoolSlot.current,hguard,hstate,hshutdowns] using h.started_eq (by simp [hguard])

theorem Exact.leased (h : slot.Exact) {n : Nat} (hguard : slot.guard=none)
    (hstate : slot.state = .ready client n) : slot.rejected = [] ∧ slot.started = [client] := by
  simpa [PoolSlot.current,hguard,hstate] using h.started_eq (by simp [hguard])

theorem Exact.releaseLease (h : slot.Exact) (hsound : Sound next slot)
    (hmem : client∈slot.leases) : (slot.releaseLease client).Exact := by
  rw [hsound.releaseLease_eq hmem]
  obtain ⟨n,hguard,hstate,-⟩ := hsound.leased hmem
  have hstarted := h.leased hguard hstate
  obtain ⟨_,state,guard,_,waiting,leases,shutdowns,_,rejected,started⟩ := slot
  cases hguard
  split_ifs
  · exact hstarted
  · exact hstarted

theorem Exact.exitClient (h : slot.Exact) (hsound : Sound next slot)
    (hmem : (client, false) ∈ slot.shutdowns) : (slot.exitClient client).Exact := by
  obtain ⟨hguard,hstate,-,hshutdowns⟩ := hsound.shutting hmem
  obtain ⟨hrejected,hstarted⟩ := h.shutting hguard hstate hshutdowns
  obtain ⟨_,state,guard,_,waiting,leases,shutdowns,_,rejected,started⟩ := slot
  cases hguard
  cases hstate
  cases hshutdowns
  cases hstarted
  refine ⟨hrejected,?_⟩
  simp [PoolSlot.exitClient,PoolSlot.current]

theorem Exact.reportShutdown (h : slot.Exact) (hsound : Sound next slot)
    (hmem : (client, true) ∈ slot.shutdowns) : (slot.reportShutdown client).Exact := by
  obtain ⟨hguard,hstate,-,hshutdowns⟩ := hsound.shutting hmem
  obtain ⟨_,state,guard,_,waiting,leases,shutdowns,_,rejected,started⟩ := slot
  cases hguard
  cases hstate
  cases hshutdowns
  exact h

theorem Exact.rejectedExits (h : slot.Exact) (hmem : client∈slot.rejected) :
    Exact { slot with
      rejected := slot.rejected.erase client
      started := slot.started.erase client } := by
  obtain ⟨_,state,guard,_,waiting,leases,shutdowns,_,rejected,started⟩ := slot
  by_cases hclosing : ∃ c, guard = some (.closing c)
  · obtain ⟨c,rfl⟩ := hclosing
    rcases h with ⟨hrejected,hstarted⟩ | ⟨hrejected,-⟩
    · cases hrejected
      cases hstarted
      obtain rfl := mem_singleton.mp hmem
      exact .inr ⟨erase_cons_head _ _,erase_cons_head _ _⟩
    · cases hrejected
      cases hmem
  · obtain ⟨hrejected,-⟩ := h.started_eq fun c hc => hclosing ⟨c,hc⟩
    cases hrejected
    cases hmem

end Handshake

def disposes (slot : PoolSlot κ) (action : SlotAction) : Prop :=
  action=.failureReturns ∨ action=.cancelConnect → slot.disposed=true

instance (slot : PoolSlot κ) (action : SlotAction) : Decidable (slot.disposes action) :=
  inferInstanceAs (Decidable (_ → _))

theorem Exact.act (h : slot.Exact) (hsound : Sound next slot) {action : SlotAction}
    (hok : slot.disposes action) (hact : slot.act next action = some slot') : slot'.Exact := by
  cases action with
  | lock =>
    obtain ⟨hready,rfl⟩ := of_guarded hact
    exact h.lock hready.1
  | connectFails =>
    obtain ⟨hguard,rfl⟩ := of_guarded hact
    exact h.unlock hsound (by rw [hguard]; rfl) (by rw [disposed,hguard])
  | createClient =>
    obtain ⟨hguard,rfl⟩ := of_guarded hact
    exact h.createClient hsound hguard
  | handshakeReady | handshakeSelf =>
    obtain ⟨client,hguard,rfl⟩ := of_handshake hact
    exact h.handshaken hguard
  | handshakeFails =>
    obtain ⟨client,hguard,rfl⟩ := of_handshake hact
    obtain ⟨hrejected,hstarted⟩ := h.handshaken hguard
    exact .inl ⟨congrArg (client :: ·) hrejected,hstarted⟩
  | failureReturns =>
    obtain ⟨client,hguard,rfl⟩ := of_closing hact
    exact h.unlock hsound (by rw [hguard]; rfl) (hok (.inl rfl))
  | cancelQueued | cancelWaiting | returns =>
    obtain ⟨-,rfl⟩ := of_guarded hact
    exact h
  | cancelConnect =>
    obtain ⟨hguard,rfl⟩ := of_guarded hact
    exact h.unlock hsound hguard (hok (.inr rfl))
  | release =>
    obtain ⟨hlease,rfl⟩ := of_guarded hact
    exact h.releaseLease hsound hlease.2
  | clientExits =>
    obtain ⟨hmem,rfl⟩ := of_guarded hact
    exact h.exitClient hsound hmem
  | shutdownReports =>
    obtain ⟨hmem,rfl⟩ := of_guarded hact
    exact h.reportShutdown hsound hmem.2
  | rejectedExits =>
    obtain ⟨hmem,rfl⟩ := of_guarded hact
    exact h.rejectedExits hmem

end PoolSlot

end Daimonos.Mcp
