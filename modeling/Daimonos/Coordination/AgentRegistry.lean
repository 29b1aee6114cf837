import Daimonos.Framework.Transition

namespace Daimonos.Coordination

open Framework List

/-- A row of the `agent` table, whose names are unique. -/
structure AgentRecord where
  name : String
  sessionId : Option String
  program : Option String
  model : Option String
  task : Option String
  inceptionTs : Nat
  lastSeenTs : Nat
  deriving DecidableEq

structure Registration where
  name : String
  sessionId : Option String := none
  program : Option String := none
  model : Option String := none
  task : Option String := none
  now : Nat

/-- The first statement: the session id is taken from the other names. -/
def Registration.unbind (call : Registration) (agents : List AgentRecord) : List AgentRecord :=
  match call.sessionId with
  | none => agents
  | some id => agents.map fun r =>
      if r.sessionId = some id ∧ r.name≠call.name then { r with sessionId := none } else r

/-- The second statement; a field that is not given keeps its value. -/
def Registration.upsert (call : Registration) (agents : List AgentRecord) : List AgentRecord :=
  if agents.any (·.name=call.name) then
    agents.map fun r =>
      if r.name=call.name then
        { r with
          sessionId := call.sessionId.or r.sessionId
          program := call.program.or r.program
          model := call.model.or r.model
          task := call.task.or r.task
          lastSeenTs := call.now }
      else r
  else
    agents ++ [⟨call.name,call.sessionId,call.program,call.model,call.task,call.now,call.now⟩]

/-- The table, and the registrations whose second statement is still to come. -/
structure AgentRegistry where
  agents : List AgentRecord := []
  unbound : List Registration := []

inductive RegisterAction where
  | unbind (call : Registration)
  | upsert (i : Nat)
  | fail (i : Nat)

/-- `register_agent` of any number of processes, one statement at a time. A call may end between its
statements, by an error of the second or with its process. -/
def registerStep (s : AgentRegistry) : RegisterAction → Option AgentRegistry
  | .unbind call => some ⟨call.unbind s.agents,s.unbound ++ [call]⟩
  | .upsert i => s.unbound[i]?.map fun call => ⟨call.upsert s.agents,s.unbound.eraseIdx i⟩
  | .fail i => if i < s.unbound.length then some { s with unbound := s.unbound.eraseIdx i } else none

def agentRegistry : System AgentRegistry RegisterAction where
  init := {}
  step := registerStep

/-- The session id is bound to the name. -/
def Binds (agents : List AgentRecord) (id name : String) : Prop :=
  ∃ r∈agents, r.sessionId = some id ∧ r.name=name

def Unambiguous (agents : List AgentRecord) : Prop :=
  ∀ id name name', Binds agents id name → Binds agents id name' → name=name'

instance (agents : List AgentRecord) (id name : String) : Decidable (Binds agents id name) := by
  unfold Binds
  infer_instance

variable {agents : List AgentRecord} {call : Registration} {id name : String} {s s' : AgentRegistry}

theorem binds_unbind (h : Binds (call.unbind agents) id name) :
    Binds agents id name ∧ (call.sessionId = some id → name=call.name) := by
  obtain ⟨r,hr,hid,hname⟩ := h
  simp only [Registration.unbind] at hr
  split at hr
  · rename_i hnone
    exact ⟨⟨r,hr,hid,hname⟩,fun hsome => by simp [hnone] at hsome⟩
  · rename_i own hown
    obtain ⟨r₀,hr₀,rfl⟩ := mem_map.mp hr
    split_ifs at hid hname with htaken
    refine ⟨⟨r₀,hr₀,hid,hname⟩,fun hsome => ?_⟩
    obtain rfl : own=id := by simpa [hown] using hsome
    rw [← hname]
    by_contra hne
    exact htaken ⟨hid,hne⟩

theorem binds_upsert (h : Binds (call.upsert agents) id name) :
    Binds agents id name ∨ call.sessionId = some id ∧ call.name=name := by
  obtain ⟨r,hr,hid,hname⟩ := h
  simp only [Registration.upsert] at hr
  split_ifs at hr
  · obtain ⟨r₀,hr₀,rfl⟩ := mem_map.mp hr
    split_ifs at hid hname with heq
    · rcases Option.or_eq_some_iff.mp hid with hcall | ⟨-,hrow⟩
      · exact .inr ⟨hcall,heq ▸ hname⟩
      · exact .inl ⟨r₀,hr₀,hrow,hname⟩
    · exact .inl ⟨r₀,hr₀,hid,hname⟩
  · rcases mem_append.mp hr with hr | hr
    · exact .inl ⟨r,hr,hid,hname⟩
    · cases mem_singleton.mp hr
      exact .inr ⟨hid,hname⟩

def AgentRegistry.stepOk (s : AgentRegistry) : RegisterAction → Prop
  | .unbind call => ∀ p∈s.unbound,
      p.sessionId=call.sessionId → p.name=call.name ∨ p.sessionId=none
  | .upsert _ | .fail _ => True

instance (s : AgentRegistry) (action : RegisterAction) : Decidable (s.stepOk action) := by
  cases action <;> unfold AgentRegistry.stepOk <;> infer_instance

/-- A registration between its statements is the only one that may bind its session id. -/
structure AgentRegistry.Sound (s : AgentRegistry) : Prop where
  unambiguous : Unambiguous s.agents
  taken : ∀ p∈s.unbound, ∀ id name, p.sessionId = some id → Binds s.agents id name → name=p.name
  agree : ∀ p∈s.unbound, ∀ q∈s.unbound, ∀ id,
    p.sessionId = some id → q.sessionId = some id → p.name=q.name

theorem AgentRegistry.Sound.step (h : s.Sound) {action : RegisterAction} (hok : s.stepOk action)
    (hs : registerStep s action = some s') : s'.Sound := by
  cases action with
  | unbind call =>
    cases hs
    have hmem : ∀ p ∈ s.unbound ++ [call], p∈s.unbound ∨ p=call := by simp
    refine ⟨?_,?_,?_⟩
    · intro id name name' hname hname'
      exact h.unambiguous id name name' (binds_unbind hname).1 (binds_unbind hname').1
    · intro p hp id name hid hname
      rcases hmem p hp with hp | rfl
      · exact h.taken p hp id name hid (binds_unbind hname).1
      · exact (binds_unbind hname).2 hid
    · have hcall : ∀ p∈s.unbound, ∀ id, p.sessionId = some id → call.sessionId = some id →
          p.name=call.name := by
        intro p hp id hid hcallId
        exact (hok p hp (hid.trans hcallId.symm)).resolve_right (by simp [hid])
      intro p hp q hq id hpid hqid
      rcases hmem p hp with hold | rfl <;> rcases hmem q hq with hold' | rfl
      · exact h.agree p hold q hold' id hpid hqid
      · exact hcall p hold id hpid hqid
      · exact (hcall q hold' id hqid hpid).symm
      · rfl
  | upsert i =>
    obtain ⟨call,hcall,rfl⟩ := Option.map_eq_some_iff.mp hs
    have hmem := mem_of_getElem? hcall
    have hrest : ∀ p ∈ s.unbound.eraseIdx i, p∈s.unbound := fun p hp => mem_of_mem_eraseIdx hp
    have hnew : ∀ id name, call.sessionId = some id → Binds (call.upsert s.agents) id name →
        name=call.name := by
      intro id name hid hname
      rcases binds_upsert hname with hold | ⟨-,hname⟩
      · exact h.taken call hmem id name hid hold
      · exact hname.symm
    refine ⟨?_,?_,fun p hp q hq => h.agree p (hrest p hp) q (hrest q hq)⟩
    · intro id name name' hname hname'
      by_cases hid : call.sessionId = some id
      · rw [hnew id name hid hname,hnew id name' hid hname']
      · have hold : ¬(call.sessionId = some id ∧ call.name=name) ∧
            ¬(call.sessionId = some id ∧ call.name=name') := by simp [hid]
        exact h.unambiguous id name name' ((binds_upsert hname).resolve_right hold.1)
          ((binds_upsert hname').resolve_right hold.2)
    · intro p hp id name hid hname
      rcases binds_upsert hname with hold | ⟨hcallId,hname⟩
      · exact h.taken p (hrest p hp) id name hid hold
      · rw [← hname]
        exact h.agree call hmem p (hrest p hp) id hcallId hid
  | fail i =>
    obtain ⟨-,hs⟩ := Option.ite_none_right_eq_some.mp hs
    cases hs
    have hrest : ∀ p ∈ s.unbound.eraseIdx i, p∈s.unbound := fun p hp => mem_of_mem_eraseIdx hp
    exact ⟨h.unambiguous,fun p hp => h.taken p (hrest p hp),
      fun p hp q hq => h.agree p (hrest p hp) q (hrest q hq)⟩

/-- While registrations of one session id under different names do not overlap, every session id is
bound to one name at most. -/
theorem unambiguous_of_reaches (h : agentRegistry.Reaches AgentRegistry.stepOk s) :
    Unambiguous s.agents := by
  have hsound : s.Sound := by
    refine h.invariant ?_ fun _ _ _ hsound hok hs => hsound.step hok hs
    refine ⟨?_,nofun,nofun⟩
    intro _ _ _ hname
    obtain ⟨_,hr,-⟩ := hname
    exact absurd hr not_mem_nil
  exact hsound.unambiguous

/-- A session moves from one name to another, after an attempt that ended halfway, while another
session registers. -/
theorem unambiguous_of_reaches_moved :
    ∃ s, agentRegistry.replay AgentRegistry.stepOk
        [.unbind { name := "a", sessionId := some "1", now := 0 }, .upsert 0,
          .unbind { name := "d", sessionId := some "1", now := 0 }, .fail 0,
          .unbind { name := "c", sessionId := some "2", now := 1 },
          .unbind { name := "b", sessionId := some "1", now := 2 }, .upsert 1, .upsert 0] = some s ∧
      Unambiguous s.agents :=
  System.exists_replay_and (fun _ => True) (by decide) fun _ h _ => unambiguous_of_reaches h

/-- Two processes unbind the session id from other names before either binds it. -/
theorem session_bound_twice :
    ∃ s, agentRegistry.Reaches (fun _ _ => True) s ∧
      Binds s.agents "1" "a" ∧ Binds s.agents "1" "b" := by
  obtain ⟨s,-,hreach,hbinds⟩ := System.exists_of_replay agentRegistry (fun _ _ => True)
    [.unbind { name := "a", sessionId := some "1", now := 0 },
      .unbind { name := "b", sessionId := some "1", now := 0 }, .upsert 0, .upsert 0]
    (fun s => Binds s.agents "1" "a" ∧ Binds s.agents "1" "b") (by decide)
  exact ⟨s,hreach,hbinds⟩

end Daimonos.Coordination
