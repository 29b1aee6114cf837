import Daimonos.Framework.Transition

namespace Daimonos.Coordination

open Framework List

/-- A row of the table; the store compares timestamps as texts, in the order of the moments. -/
structure ReservationRecord where
  id : Nat
  agentName : String
  pattern : String
  exclusive : Bool
  reason : Option String
  createdTs : Nat
  expiresTs : Nat
  releasedTs : Option Nat
  deriving DecidableEq

structure ReservationConflict where
  pattern : String
  heldBy : String
  conflictingPattern : String
  reservationId : Nat
  deriving DecidableEq

def ReservationRecord.activeAt (now : Nat) (r : ReservationRecord) : Bool :=
  r.releasedTs.isNone && decide (now < r.expiresTs)

/-- `globMatches a b`: `a` is a glob pattern and matches the text `b`. -/
def patternsOverlap (globMatches : String → String → Bool) (a b : String) : Bool :=
  if a=b then true else globMatches a b || globMatches b a

/-- The newest rows of other agents, one more than the cap being asked for. -/
def activeReservationsExcluding (rows : List ReservationRecord) (agent : String) (now : Nat)
    (scanCap : Int) : List ReservationRecord × Bool :=
  let scanCap := (max scanCap 1).toNat
  let out := (rows.reverse.filter fun r => decide (r.agentName≠agent) && r.activeAt now).take
    (scanCap+1)
  if scanCap < out.length then (out.take scanCap, true) else (out, false)

def conflictsWith (globMatches : String → String → Bool) (patterns : List String)
    (existing : List ReservationRecord) : List ReservationConflict :=
  patterns.flatMap fun pat =>
    (existing.filter fun other => other.exclusive && patternsOverlap globMatches pat other.pattern).map
      fun other => ⟨pat,other.agentName,other.pattern,other.id⟩

/-- How far a call of `reserve_paths` has come: it reads the table once and writes to it once. -/
inductive Progress where
  | started
  | scanned (conflicts : List ReservationConflict) (scanTruncated : Bool)
  | returned (granted : List ReservationRecord) (conflicts : List ReservationConflict)
      (scanTruncated : Bool)
  | failed
  deriving DecidableEq

structure Call where
  agent : String
  patterns : List String
  exclusive : Bool
  reason : Option String
  createdTs : Nat
  expiresTs : Nat
  scanCap : Int
  progress : Progress
  deriving DecidableEq

namespace Call

def report? (c : Call) : Option (List ReservationConflict × Bool) :=
  match c.progress with
  | .scanned conflicts truncated => some (conflicts, truncated)
  | .returned _ conflicts truncated => some (conflicts, truncated)
  | .started | .failed => none

def granted? (c : Call) : Option (List ReservationRecord) :=
  match c.progress with
  | .returned granted _ _ => some granted
  | .started | .scanned .. | .failed => none

def newRows (c : Call) (count : Nat) : List ReservationRecord :=
  c.patterns.zipIdx.map fun (pat, k) =>
    ⟨count+k+1,c.agent,pat,c.exclusive,c.reason,c.createdTs,c.expiresTs,none⟩

end Call

structure Reservations where
  clock : Nat
  rows : List ReservationRecord
  calls : List Call
  deriving DecidableEq

inductive ReservationAction where
  | start (agent : String) (patterns : List String) (exclusive : Bool) (reason : Option String)
      (expiresTs : Nat) (scanCap : Int)
  | scan (i : Nat)
  | insert (i : Nat)
  | fail (i : Nat)
  | release (agent : String) (patterns : List String) (now : Nat)
  | tick (n : Nat)

namespace Reservations

def releaseRows (named : ReservationRecord → Bool) (now : Nat) (rows : List ReservationRecord) :
    List ReservationRecord :=
  rows.map fun r => if named r && r.releasedTs.isNone then { r with releasedTs := some now } else r

def releaseReservations (rows : List ReservationRecord) (agent : String) (patterns : List String)
    (now : Nat) : List ReservationRecord :=
  if patterns = [] then releaseRows (fun r => decide (r.agentName=agent)) now rows
  else patterns.foldl
    (fun rows pat => releaseRows (fun r => decide (r.agentName=agent ∧ r.pattern=pat)) now rows)
    rows

def setProgress (s : Reservations) (i : Nat) (c : Call) (progress : Progress) : Reservations :=
  { s with calls := s.calls.set i { c with progress := progress } }

def step (globMatches : String → String → Bool) (s : Reservations) :
    ReservationAction → Option Reservations
  | .start agent patterns exclusive reason expiresTs scanCap =>
    some { s with
      calls := s.calls ++
        [⟨agent,patterns,exclusive,reason,s.clock,expiresTs,scanCap,.started⟩] }
  | .scan i =>
    s.calls[i]?.bind fun c =>
      match c.progress with
      | .started =>
        let (existing, truncated) :=
          activeReservationsExcluding s.rows c.agent c.createdTs c.scanCap
        some (s.setProgress i c
          (.scanned (conflictsWith globMatches c.patterns existing) truncated))
      | _ => none
  | .insert i =>
    s.calls[i]?.bind fun c =>
      match c.progress with
      | .scanned conflicts truncated =>
        let granted := c.newRows s.rows.length
        some { s.setProgress i c (.returned granted conflicts truncated) with
          rows := s.rows++granted }
      | _ => none
  | .fail i =>
    s.calls[i]?.bind fun c =>
      match c.progress with
      | .started | .scanned .. => some (s.setProgress i c .failed)
      | _ => none
  | .release agent patterns now =>
    some { s with rows := releaseReservations s.rows agent patterns now }
  | .tick n => some { s with clock := s.clock+n }

def system (globMatches : String → String → Bool) : System Reservations ReservationAction where
  init := ⟨0,[],[]⟩
  step := step globMatches

/-- What a step does: to the rows, to the clock, and to one call. -/
inductive Steps (globMatches : String → String → Bool) (s : Reservations) :
    ReservationAction → Reservations → Prop
  | start {agent patterns exclusive reason expiresTs scanCap} (c : Call)
      (hnew : c.progress=.started) (hts : c.createdTs=s.clock) :
    Steps globMatches s (.start agent patterns exclusive reason expiresTs scanCap)
      { s with calls := s.calls ++ [c] }
  | scan (i : Nat) (c : Call) (hcall : s.calls[i]? = some c) (hat : c.progress=.started) :
    Steps globMatches s (.scan i) (s.setProgress i c (.scanned
      (conflictsWith globMatches c.patterns
        (activeReservationsExcluding s.rows c.agent c.createdTs c.scanCap).1)
      (activeReservationsExcluding s.rows c.agent c.createdTs c.scanCap).2))
  | insert (i : Nat) (c : Call) (conflicts : List ReservationConflict) (truncated : Bool)
      (hcall : s.calls[i]? = some c) (hat : c.progress = .scanned conflicts truncated) :
    Steps globMatches s (.insert i)
      { s.setProgress i c (.returned (c.newRows s.rows.length) conflicts truncated) with
        rows := s.rows ++ c.newRows s.rows.length }
  | fail (i : Nat) (c : Call) (hcall : s.calls[i]? = some c) :
    Steps globMatches s (.fail i) (s.setProgress i c .failed)
  | release (agent : String) (patterns : List String) (now : Nat) :
    Steps globMatches s (.release agent patterns now)
      { s with rows := releaseReservations s.rows agent patterns now }
  | tick (n : Nat) : Steps globMatches s (.tick n) { s with clock := s.clock+n }

variable {globMatches : String → String → Bool} {s s' : Reservations} {a : ReservationAction}

theorem steps_of_step (h : step globMatches s a = some s') : Steps globMatches s a s' := by
  cases a with
  | start =>
    cases h
    exact .start _ rfl rfl
  | scan i =>
    obtain ⟨c,hcall,hstep⟩ := Option.bind_eq_some_iff.mp h
    split at hstep
    · rename_i hat
      cases hstep
      exact .scan i c hcall hat
    · cases hstep
  | insert i =>
    obtain ⟨c,hcall,hstep⟩ := Option.bind_eq_some_iff.mp h
    split at hstep
    · rename_i conflicts truncated hat
      cases hstep
      exact .insert i c conflicts truncated hcall hat
    · cases hstep
  | fail i =>
    obtain ⟨c,hcall,hstep⟩ := Option.bind_eq_some_iff.mp h
    split at hstep <;> cases hstep <;> exact .fail i c hcall
  | release agent patterns now =>
    cases h
    exact .release agent patterns now
  | tick n =>
    cases h
    exact .tick n

def Active (s : Reservations) (id : Nat) : Prop :=
  ∃ r∈s.rows, r.id=id ∧ r.activeAt s.clock = true

variable {r : ReservationRecord}

theorem activeAt_iff {now : Nat} :
    r.activeAt now = true ↔ r.releasedTs=none ∧ now < r.expiresTs := by
  simp [ReservationRecord.activeAt]

theorem activeAt_mono {now later : Nat} (hle : now ≤ later)
    (h : r.activeAt later = true) : r.activeAt now = true :=
  activeAt_iff.mpr ((activeAt_iff.mp h).imp_right hle.trans_lt)

theorem mem_activeReservationsExcluding {rows : List ReservationRecord} {agent : String} {now : Nat}
    {scanCap : Int} (hwhole : (activeReservationsExcluding rows agent now scanCap).2 = false)
    (hr : r∈rows) (hagent : r.agentName≠agent) (hactive : r.activeAt now = true) :
    r ∈ (activeReservationsExcluding rows agent now scanCap).1 := by
  unfold activeReservationsExcluding at hwhole ⊢
  simp only at hwhole ⊢
  split_ifs at hwhole ⊢ with hcut
  rw [length_take] at hcut
  rw [take_of_length_le (by omega)]
  simp [hr,hagent,hactive]

theorem patternsOverlap_self (pat : String) : patternsOverlap globMatches pat pat = true := by
  simp [patternsOverlap]

theorem mem_conflictsWith {patterns : List String} {existing : List ReservationRecord}
    {other : ReservationRecord} (hmem : other∈existing) (hexclusive : other.exclusive=true)
    (hpattern : other.pattern∈patterns) :
    ⟨other.pattern,other.agentName,other.pattern,other.id⟩ ∈
      conflictsWith globMatches patterns existing := by
  refine mem_flatMap.mpr ⟨other.pattern,hpattern,mem_map.mpr ⟨other,?_,rfl⟩⟩
  simp [hmem,hexclusive,patternsOverlap_self]

/-- When the action releases the row: its own agent names the pattern, or all its reservations. -/
def releaseOf (r : ReservationRecord) : ReservationAction → Option Nat
  | .release agent patterns now =>
    if r.agentName=agent ∧ (patterns = [] ∨ r.pattern∈patterns) then some now else none
  | _ => none

def stamp (r : ReservationRecord) (released : Option Nat) : ReservationRecord :=
  { r with releasedTs := r.releasedTs.or released }

theorem releaseRows_eq (named : ReservationRecord → Bool) (now : Nat)
    (rows : List ReservationRecord) :
    releaseRows named now rows = rows.map fun r => stamp r (if named r then some now else none) := by
  refine map_congr_left fun r _ => ?_
  obtain ⟨id,agentName,pattern,exclusive,reason,createdTs,expiresTs,released⟩ := r
  cases named _ <;> cases released <;> rfl

theorem releaseReservations_eq (rows : List ReservationRecord) (agent : String)
    (patterns : List String) (now : Nat) : releaseReservations rows agent patterns now =
      rows.map fun r => stamp r (releaseOf r (.release agent patterns now)) := by
  unfold releaseReservations
  split_ifs with hall
  · simp [hall,releaseRows_eq,releaseOf]
  · simp only [releaseOf,hall,false_or]
    clear hall
    induction patterns generalizing rows with
    | nil => simp [stamp]
    | cons pat patterns ih =>
      rw [foldl_cons,ih,releaseRows_eq,map_map]
      refine map_congr_left fun r _ => ?_
      by_cases hagent : r.agentName=agent <;> by_cases hpat : r.pattern=pat <;>
        simp [stamp,hagent,hpat]

theorem releaseReservations_eq_map (rows : List ReservationRecord) (agent : String)
    (patterns : List String) (now : Nat) :
    ∃ released : ReservationRecord → Option Nat,
      releaseReservations rows agent patterns now =
          rows.map (fun r => { r with releasedTs := released r }) ∧
        ∀ r, released r = none → r.releasedTs=none := by
  refine ⟨_,releaseReservations_eq rows agent patterns now,fun r hnone => ?_⟩
  exact (Option.or_eq_none_iff.mp hnone).1

def Rivals (c d : Call) : Prop :=
  c.agent≠d.agent ∧ c.exclusive=true ∧ d.exclusive=true ∧ ∃ pat∈c.patterns, pat∈d.patterns

instance (c d : Call) : Decidable (Rivals c d) :=
  inferInstanceAs (Decidable (_ ∧ _ ∧ _ ∧ ∃ pat∈c.patterns, pat∈d.patterns))

def Between (c : Call) : Prop := c.report?.isSome=true ∧ c.granted?=none

instance (c : Call) : Decidable (Between c) := inferInstanceAs (Decidable (_ ∧ _))

/-- A call scans when no rival stands between its scan and its insertion. -/
def Alone (s : Reservations) : ReservationAction → Prop
  | .scan i => ∀ c ∈ s.calls[i]?.toList, ∀ d∈s.calls, Rivals c d → ¬ Between d
  | _ => True

instance (s : Reservations) : (a : ReservationAction) → Decidable (s.Alone a)
  | .scan i =>
    inferInstanceAs
      (Decidable (∀ c ∈ s.calls[i]?.toList, ∀ d∈s.calls, Rivals c d → ¬ Between d))
  | .start .. | .insert _ | .fail _ | .release .. | .tick _ => .isTrue trivial

/-- All that the other call was granted and still holds is in the report, or the scan was cut off. -/
def Sees (s : Reservations) (c d : Call) : Prop :=
  ∀ report granted, c.report? = some report → d.granted? = some granted → report.2=true ∨
    ∀ g∈granted, g.pattern∈c.patterns → s.Active g.id →
      (⟨g.pattern,d.agent,g.pattern,g.id⟩ : ReservationConflict) ∈ report.1

def Recorded (s : Reservations) (c : Call) (g : ReservationRecord) : Prop :=
  g.id ≤ s.rows.length ∧ g.exclusive=c.exclusive ∧ g.pattern∈c.patterns ∧
    ∀ r∈s.rows, r.id=g.id →
      r.agentName=c.agent ∧ r.pattern=g.pattern ∧ r.exclusive=g.exclusive

structure Sound (s : Reservations) : Prop where
  ids : s.rows.map ReservationRecord.id = List.range' 1 s.rows.length
  clocks : ∀ c∈s.calls, c.createdTs ≤ s.clock
  recorded : ∀ c∈s.calls, ∀ granted, c.granted? = some granted → ∀ g∈granted, s.Recorded c g

structure Watched (s : Reservations) : Prop where
  alone : ∀ c∈s.calls, ∀ d∈s.calls, Rivals c d → Between c → ¬ Between d
  seen : ∀ c∈s.calls, ∀ d∈s.calls, Rivals c d → ∀ report granted, c.report? = some report →
    d.granted? = some granted → s.Sees c d ∨ c.granted?.isSome=true ∧ s.Sees d c

variable {c : Call}

theorem Rivals.symm {d : Call} (h : Rivals c d) : Rivals d c := by
  obtain ⟨hagent,hc,hd,pat,hpc,hpd⟩ := h
  exact ⟨hagent.symm,hd,hc,pat,hpd,hpc⟩

theorem mem_calls_setProgress {i : Nat} {d : Call} {progress : Progress}
    (h : d ∈ (s.setProgress i c progress).calls) :
    d = { c with progress := progress } ∨ d∈s.calls := by
  exact (mem_or_eq_of_mem_set h).symm

theorem map_id_newRows (c : Call) (count : Nat) :
    (c.newRows count).map ReservationRecord.id = List.range' (count+1) c.patterns.length := by
  rw [Call.newRows,map_map]
  apply ext_getElem
  · simp
  · simp only [getElem_map,getElem_zipIdx,getElem_range',Function.comp_apply]
    omega

theorem of_mem_newRows {count : Nat} {g : ReservationRecord} (h : g ∈ c.newRows count) :
    count<g.id ∧ g.id ≤ count + (c.newRows count).length ∧ g.agentName=c.agent ∧
      g.exclusive=c.exclusive ∧ g.pattern∈c.patterns := by
  obtain ⟨⟨pat,k⟩,hk,rfl⟩ := mem_map.mp h
  have hlt := snd_lt_of_mem_zipIdx hk
  have hmem := fst_mem_of_mem_zipIdx hk
  simp only [Call.newRows,length_map,length_zipIdx]
  exact ⟨by omega,by omega,trivial,trivial,hmem⟩

theorem eq_of_id_eq {rows : List ReservationRecord} {n k : Nat}
    (hids : rows.map ReservationRecord.id = List.range' n k) {r' : ReservationRecord}
    (hr : r∈rows) (hr' : r'∈rows) (heq : r.id=r'.id) : r=r' := by
  have hnodup : (rows.map ReservationRecord.id).Nodup := by
    rw [hids]
    exact nodup_range'
  exact inj_on_of_nodup_map hnodup hr hr' heq

theorem Recorded.mono {g : ReservationRecord} (h : s.Recorded c g)
    (hlength : s.rows.length ≤ s'.rows.length)
    (hrows : ∀ r∈s'.rows, r.id ≤ s.rows.length → ∃ r₀∈s.rows, r₀.id=r.id ∧
      r₀.agentName=r.agentName ∧ r₀.pattern=r.pattern ∧ r₀.exclusive=r.exclusive) :
    s'.Recorded c g := by
  obtain ⟨hid,hexclusive,hpattern,hsame⟩ := h
  refine ⟨by omega,hexclusive,hpattern,fun r hr hrid => ?_⟩
  obtain ⟨r₀,hr₀,heq,hagent,hpat,hexcl⟩ := hrows r hr (by omega)
  rw [← hagent,← hpat,← hexcl]
  exact hsame r₀ hr₀ (by omega)

theorem sound_init : Sound ⟨0,[],[]⟩ := ⟨rfl,by simp,by simp⟩

theorem Sound.setProgress (h : s.Sound) {i : Nat} (hcall : s.calls[i]? = some c)
    {progress : Progress} (hprogress : ∀ granted conflicts truncated,
      progress = .returned granted conflicts truncated → False) :
    (s.setProgress i c progress).Sound := by
  refine ⟨h.ids,fun d hd => ?_,fun d hd granted hgranted => ?_⟩
  · obtain rfl | hd := mem_calls_setProgress hd
    · exact h.clocks c (mem_of_getElem? hcall)
    · exact h.clocks d hd
  · obtain rfl | hd := mem_calls_setProgress hd
    · cases progress with
      | returned => exact (hprogress _ _ _ rfl).elim
      | _ => cases hgranted
    · exact h.recorded d hd granted hgranted

theorem sound_step (h : s.Sound) (hstep : Steps globMatches s a s') : s'.Sound := by
  cases hstep with
  | start c hnew hts =>
    refine ⟨h.ids,fun d hd => ?_,fun d hd granted hgranted => ?_⟩
    · obtain hd | hd := mem_append.mp hd
      · exact h.clocks d hd
      · rw [mem_singleton.mp hd,hts]
    · obtain hd | hd := mem_append.mp hd
      · exact h.recorded d hd granted hgranted
      · rw [mem_singleton.mp hd,Call.granted?,hnew] at hgranted
        cases hgranted
  | scan i c hcall _ | fail i c hcall => exact h.setProgress hcall (by simp)
  | insert i c conflicts truncated hcall =>
    have hmem := mem_of_getElem? hcall
    have hids : (s.rows ++ c.newRows s.rows.length).map ReservationRecord.id =
        List.range' 1 (s.rows ++ c.newRows s.rows.length).length := by
      rw [map_append,h.ids,map_id_newRows,length_append,Call.newRows,length_map,
        length_zipIdx,Nat.add_comm s.rows.length 1,range'_append_1]
    refine ⟨hids,fun d hd => ?_,fun d hd granted hgranted g hg => ?_⟩
    · obtain rfl | hd := mem_calls_setProgress hd
      · exact h.clocks c hmem
      · exact h.clocks d hd
    · obtain rfl | hd := mem_calls_setProgress hd
      · cases hgranted
        obtain ⟨-,hle,hagent,hexclusive,hpattern⟩ := of_mem_newRows hg
        refine ⟨?_,hexclusive,hpattern,fun r hr hid => ?_⟩
        · rw [length_append]
          exact hle
        · rw [eq_of_id_eq hids hr (mem_append_right _ hg) hid]
          exact ⟨hagent,rfl,rfl⟩
      · refine (h.recorded d hd granted hgranted g hg).mono ?_ fun r hr hid => ?_
        · simp
        · obtain hr | hr := mem_append.mp hr
          · exact ⟨r,hr,rfl,rfl,rfl,rfl⟩
          · have := (of_mem_newRows hr).1
            omega
  | release agent patterns now =>
    obtain ⟨released,heq,-⟩ := releaseReservations_eq_map s.rows agent patterns now
    rw [heq]
    refine ⟨?_,h.clocks,fun d hd granted hgranted g hg => ?_⟩
    · rw [map_map,length_map]
      exact h.ids
    · refine (h.recorded d hd granted hgranted g hg).mono (length_map _).ge fun r hr _ => ?_
      obtain ⟨r₀,hr₀,rfl⟩ := mem_map.mp hr
      exact ⟨r₀,hr₀,rfl,rfl,rfl,rfl⟩
  | tick =>
    exact ⟨h.ids,fun d hd => Nat.le_add_right_of_le (h.clocks d hd),h.recorded⟩

theorem active_of_step (hstep : Steps globMatches s a s') {id : Nat} (hid : id ≤ s.rows.length)
    (h : s'.Active id) : s.Active id := by
  obtain ⟨r,hr,rfl,hactive⟩ := h
  cases hstep with
  | start | scan | fail => exact ⟨r,hr,rfl,hactive⟩
  | insert =>
    obtain hr | hr := mem_append.mp hr
    · exact ⟨r,hr,rfl,hactive⟩
    · have := (of_mem_newRows hr).1
      omega
  | release agent patterns now =>
    obtain ⟨released,heq,hnone⟩ := releaseReservations_eq_map s.rows agent patterns now
    rw [heq] at hr
    obtain ⟨r₀,hr₀,rfl⟩ := mem_map.mp hr
    exact ⟨r₀,hr₀,rfl,activeAt_iff.mpr ((activeAt_iff.mp hactive).imp_left (hnone r₀))⟩
  | tick n => exact ⟨r,hr,rfl,activeAt_mono (Nat.le_add_right s.clock n) hactive⟩

theorem Sees.of_step {d : Call} (h : s.Sees c d) (hstep : Steps globMatches s a s')
    (hrecorded : ∀ granted, d.granted? = some granted → ∀ g∈granted, s.Recorded d g) :
    s'.Sees c d := by
  intro report granted hreport hgranted
  refine (h report granted hreport hgranted).imp_right fun hall g hg hpattern hactive => ?_
  exact hall g hg hpattern (active_of_step hstep (hrecorded granted hgranted g hg).1 hactive)

theorem sees_of_scan (h : s.Sound) {d : Call} (hc : c∈s.calls) (hd : d∈s.calls)
    (hrivals : Rivals c d) :
    s.Sees { c with progress := (.scanned (conflictsWith globMatches c.patterns
        (activeReservationsExcluding s.rows c.agent c.createdTs c.scanCap).1)
      (activeReservationsExcluding s.rows c.agent c.createdTs c.scanCap).2) } d := by
  intro report granted hreport hgranted
  cases hreport
  cases hwhole : (activeReservationsExcluding s.rows c.agent c.createdTs c.scanCap).2 with
  | true => exact Or.inl rfl
  | false =>
    refine Or.inr fun g hg hpattern hactive => ?_
    obtain ⟨-,hexclusive,-,hsame⟩ := h.recorded d hd granted hgranted g hg
    obtain ⟨r,hr,hid,hnow⟩ := hactive
    obtain ⟨hagent,hpat,hexcl⟩ := hsame r hr hid
    -- the row had not expired when the call began
    have hthen : r.activeAt c.createdTs = true := activeAt_mono (h.clocks c hc) hnow
    have hforeign : r.agentName≠c.agent := by
      rw [hagent]
      exact hrivals.1.symm
    rw [← hpat,← hagent,← hid]
    apply mem_conflictsWith (mem_activeReservationsExcluding hwhole hr hforeign hthen)
    · rw [hexcl,hexclusive,hrivals.2.2.1]
    · rw [hpat]
      exact hpattern

theorem watched_init : Watched ⟨0,[],[]⟩ := ⟨by simp,by simp⟩

theorem Watched.seen_of_step (h : s.Watched) (hsound : s.Sound) (hstep : Steps globMatches s a s')
    {d : Call} (hc : c∈s.calls) (hd : d∈s.calls) (hrivals : Rivals c d)
    {report : List ReservationConflict × Bool} {granted : List ReservationRecord}
    (hreport : c.report? = some report) (hgranted : d.granted? = some granted) :
    s'.Sees c d ∨ c.granted?.isSome=true ∧ s'.Sees d c := by
  obtain hsees | ⟨hreturned,hsees⟩ := h.seen c hc d hd hrivals report granted hreport hgranted
  · exact Or.inl (hsees.of_step hstep (hsound.recorded d hd))
  · exact Or.inr ⟨hreturned,hsees.of_step hstep (hsound.recorded c hc)⟩

theorem Watched.of_silent (h : s.Watched) (hsound : s.Sound) (hstep : Steps globMatches s a s')
    (hcalls : ∀ c∈s'.calls, c∈s.calls ∨ c.report?=none) : s'.Watched := by
  have hsilent : ∀ {c : Call}, c.report?=none → ¬ Between c ∧ c.granted?=none := by
    intro c hnone
    refine ⟨fun hbetween => by simp [Between,hnone] at hbetween,?_⟩
    cases hprogress : c.progress <;> simp [Call.report?,Call.granted?,hprogress] at hnone ⊢
  refine ⟨fun c hc d hd hrivals hbetween => ?_,fun c hc d hd hrivals report granted hr hg => ?_⟩
  · obtain hc | hnone := hcalls c hc
    · obtain hd | hnone := hcalls d hd
      · exact h.alone c hc d hd hrivals hbetween
      · exact (hsilent hnone).1
    · exact ((hsilent hnone).1 hbetween).elim
  · obtain hc | hnone := hcalls c hc
    · obtain hd | hnone := hcalls d hd
      · exact h.seen_of_step hsound hstep hc hd hrivals hr hg
      · rw [(hsilent hnone).2] at hg
        cases hg
    · rw [hnone] at hr
      cases hr

/-- Scans of rivals never meet, so of two reservations the later call has seen the earlier. -/
theorem watched_step (h : s.Watched) (hsound : s.Sound) (hok : s.Alone a)
    (hstep : Steps globMatches s a s') : s'.Watched := by
  have hsteps := hstep
  cases hstep with
  | start c hnew =>
    refine h.of_silent hsound hsteps fun d hd => ?_
    refine (mem_append.mp hd).imp_right fun hd => ?_
    rw [mem_singleton.mp hd,Call.report?,hnew]
  | fail =>
    refine h.of_silent hsound hsteps fun d hd => ?_
    obtain rfl | hd := mem_calls_setProgress hd
    · exact Or.inr rfl
    · exact Or.inl hd
  | release | tick => exact h.of_silent hsound hsteps fun d hd => Or.inl hd
  | scan i c hcall =>
    have hmem := mem_of_getElem? hcall
    have halone := hok c (by simp [hcall])
    refine ⟨fun x hx y hy hrivals hbetween => ?_,fun x hx y hy hrivals report granted hr hg => ?_⟩
    · obtain rfl | hx := mem_calls_setProgress hx
      · obtain rfl | hy := mem_calls_setProgress hy
        · exact (hrivals.1 rfl).elim
        · exact halone y hy hrivals
      · obtain rfl | hy := mem_calls_setProgress hy
        · exact (halone x hx hrivals.symm hbetween).elim
        · exact h.alone x hx y hy hrivals hbetween
    · obtain rfl | hy := mem_calls_setProgress hy
      · cases hg
      · obtain rfl | hx := mem_calls_setProgress hx
        · exact Or.inl ((sees_of_scan hsound hmem hy hrivals).of_step hsteps (hsound.recorded y hy))
        · exact h.seen_of_step hsound hsteps hx hy hrivals hr hg
  | insert i c conflicts truncated hcall hat =>
    have hmem := mem_of_getElem? hcall
    have hreport : c.report? = some (conflicts, truncated) := by rw [Call.report?,hat]
    have hungranted : c.granted?=none := by rw [Call.granted?,hat]
    have hbetween : Between c := ⟨by rw [hreport]; rfl,hungranted⟩
    -- what the call saw, before and after it returns
    have hsees : ∀ y∈s.calls, Rivals c y → ∀ granted, y.granted? = some granted →
        Sees { s.setProgress i c (.returned (c.newRows s.rows.length) conflicts truncated) with
            rows := s.rows ++ c.newRows s.rows.length }
          { c with progress := .returned (c.newRows s.rows.length) conflicts truncated } y := by
      intro y hy hrivals granted hgranted report granted' hr hg
      obtain hsees | ⟨hreturned,-⟩ :=
        h.seen_of_step hsound hsteps hmem hy hrivals hreport hgranted
      · exact hsees report granted' (hreport.trans hr) hg
      · rw [hungranted] at hreturned
        cases hreturned
    refine ⟨fun x hx y hy hrivals hx' => ?_,fun x hx y hy hrivals report granted hr hg => ?_⟩
    · obtain rfl | hx := mem_calls_setProgress hx
      · cases hx'.2
      · obtain rfl | hy := mem_calls_setProgress hy
        · intro hy'
          cases hy'.2
        · exact h.alone x hx y hy hrivals hx'
    · obtain rfl | hx := mem_calls_setProgress hx
      · obtain rfl | hy := mem_calls_setProgress hy
        · exact (hrivals.1 rfl).elim
        · exact Or.inl (hsees y hy hrivals granted hg)
      · obtain rfl | hy := mem_calls_setProgress hy
        · cases hreturned : x.granted? with
          | some granted' => exact Or.inr ⟨rfl,hsees x hx hrivals.symm granted' hreturned⟩
          | none =>
            exact (h.alone x hx c hmem hrivals ⟨by rw [hr]; rfl,hreturned⟩ hbetween).elim
        · exact h.seen_of_step hsound hsteps hx hy hrivals hr hg

/-- The call was granted an exclusive reservation of the pattern that is in force. -/
def Holds (s : Reservations) (c : Call) (pat : String) : Prop :=
  ∃ granted, c.granted? = some granted ∧
    ∃ g∈granted, g.pattern=pat ∧ g.exclusive=true ∧ s.Active g.id

/-- The call told its agent that another one holds the pattern. -/
def Reports (c : Call) (other pat : String) : Prop :=
  ∃ report, c.report? = some report ∧ ∃ conflict∈report.1,
    conflict.pattern=pat ∧ conflict.heldBy=other ∧ conflict.conflictingPattern = pat

def Truncated (c : Call) : Prop := ∃ report, c.report? = some report ∧ report.2=true

theorem exists_report (h : c.granted?.isSome=true) :
    ∃ report, c.report? = some report := by
  cases hprogress : c.progress <;> simp [Call.granted?,Call.report?,hprogress] at h ⊢

theorem reports_of_sees {d : Call} (h : s.Sees c d) {pat : String} (hpattern : pat∈c.patterns)
    (hc : c.granted?.isSome=true) (hd : s.Holds d pat) :
    Reports c d.agent pat ∨ Truncated c := by
  obtain ⟨granted,hgranted,g,hg,rfl,-,hactive⟩ := hd
  obtain ⟨report,hreport⟩ := exists_report hc
  obtain htruncated | hall := h report granted hreport hgranted
  · exact Or.inr ⟨report,hreport,htruncated⟩
  · exact Or.inl ⟨report,hreport,_,hall g hg hpattern hactive,rfl,rfl,rfl⟩

/-- When rivals scan one after the other's insertion, of two agents that hold a pattern one was told
of the other, or that its scan was cut off. -/
theorem conflict_reported {s : Reservations} (h : (system globMatches).Reaches Alone s) {c d : Call}
    (hc : c∈s.calls) (hd : d∈s.calls) (hagents : c.agent≠d.agent) {pat : String}
    (hholds : s.Holds c pat) (hholds' : s.Holds d pat) :
    Reports c d.agent pat ∨ Reports d c.agent pat ∨ Truncated c ∨ Truncated d := by
  have hinv : s.Sound ∧ s.Watched := by
    refine System.Reaches.invariant (I := fun s => s.Sound ∧ s.Watched)
      ⟨sound_init,watched_init⟩ (fun s a s' hinv hok hstep => ?_) h
    have hsteps := steps_of_step hstep
    exact ⟨sound_step hinv.1 hsteps,watched_step hinv.2 hinv.1 hok hsteps⟩
  obtain ⟨hsound,hwatched⟩ := hinv
  have hwants : ∀ e∈s.calls, s.Holds e pat → pat∈e.patterns ∧ e.exclusive=true ∧
      e.granted?.isSome=true := by
    rintro e he ⟨granted,hgranted,g,hg,rfl,hexclusive,-⟩
    obtain ⟨-,heq,hmem,-⟩ := hsound.recorded e he granted hgranted g hg
    exact ⟨hmem,heq ▸ hexclusive,by rw [hgranted]; rfl⟩
  obtain ⟨hpc,hec,hgc⟩ := hwants c hc hholds
  obtain ⟨hpd,hed,hgd⟩ := hwants d hd hholds'
  have hrivals : Rivals c d := ⟨hagents,hec,hed,pat,hpc,hpd⟩
  obtain ⟨granted,hgranted⟩ := Option.isSome_iff_exists.mp hgd
  obtain ⟨report,hreport⟩ := exists_report hgc
  obtain hsees | ⟨-,hsees⟩ := hwatched.seen c hc d hd hrivals report granted hreport hgranted
  · obtain hreports | htruncated := reports_of_sees hsees hpc hgc hholds'
    · exact Or.inl hreports
    · exact Or.inr (Or.inr (Or.inl htruncated))
  · obtain hreports | htruncated := reports_of_sees hsees hpd hgd hholds
    · exact Or.inr (Or.inl hreports)
    · exact Or.inr (Or.inr (Or.inr htruncated))

def finishedCall (agent : String) (id : Nat) (conflicts : List ReservationConflict) : Call :=
  ⟨agent,["p"],true,none,0,9,500,
    .returned [⟨id,agent,"p",true,none,0,9,none⟩] conflicts false⟩

def finishedCalls (toldA toldB : List ReservationConflict) : Reservations :=
  ⟨0,[⟨1,"A","p",true,none,0,9,none⟩, ⟨2,"B","p",true,none,0,9,none⟩],
    [finishedCall "A" 1 toldA, finishedCall "B" 2 toldB]⟩

theorem holds_finishedCalls (toldA toldB : List ReservationConflict) :
    (finishedCalls toldA toldB).Holds (finishedCall "A" 1 toldA) "p" ∧
      (finishedCalls toldA toldB).Holds (finishedCall "B" 2 toldB) "p" :=
  ⟨⟨_,rfl,_,mem_singleton_self _,rfl,rfl,_,mem_cons_self,rfl,rfl⟩,
    ⟨_,rfl,_,mem_singleton_self _,rfl,rfl,_,
      mem_cons_of_mem _ mem_cons_self,rfl,rfl⟩⟩

/-- One agent after the other. -/
theorem conflict_reported_in_turn :
    ∃ s : Reservations, (system fun _ _ => false).Reaches Alone s ∧
      ∃ c∈s.calls, ∃ d∈s.calls, s.Holds c "p" ∧ s.Holds d "p" ∧
        (Reports c d.agent "p" ∨ Reports d c.agent "p" ∨ Truncated c ∨ Truncated d) := by
  have hreplay : (system fun _ _ => false).replay Alone
      [.start "A" ["p"] true none 9 500, .scan 0, .insert 0, .start "B" ["p"] true none 9 500,
        .scan 1, .insert 1] = some (finishedCalls [] [⟨"p","A","p",1⟩]) := by decide
  have hreaches := System.reaches_of_replay hreplay
  obtain ⟨hA,hB⟩ := holds_finishedCalls [] [⟨"p","A","p",1⟩]
  exact ⟨_,hreaches,_,mem_cons_self,_,mem_cons_of_mem _ mem_cons_self,hA,hB,
    conflict_reported hreaches mem_cons_self (mem_cons_of_mem _ mem_cons_self)
      (by decide) hA hB⟩

/-- Both agents scan before either inserts, and neither learns of the other. -/
theorem conflict_unreported :
    ∃ s : Reservations, (system fun _ _ => false).Reaches (fun _ _ => True) s ∧
      ∃ c∈s.calls, ∃ d∈s.calls, c.agent≠d.agent ∧ s.Holds c "p" ∧ s.Holds d "p" ∧
        ¬ (Reports c d.agent "p" ∨ Reports d c.agent "p" ∨ Truncated c ∨ Truncated d) := by
  have hreplay : (system fun _ _ => false).replay (fun _ _ => True)
      [.start "A" ["p"] true none 9 500, .start "B" ["p"] true none 9 500, .scan 0, .scan 1,
        .insert 0, .insert 1] = some (finishedCalls [] []) := by decide
  obtain ⟨hA,hB⟩ := holds_finishedCalls [] []
  refine ⟨_,System.reaches_of_replay hreplay,_,mem_cons_self,_,
    mem_cons_of_mem _ mem_cons_self,by decide,hA,hB,?_⟩
  simp [Reports,Truncated,Call.report?,finishedCall]

inductive LifecycleAction where
  | call (action : ReservationAction)
  | renew (agent : String) (now newExpiresTs : Nat)

def renewed (agent : String) (now newExpiresTs : Nat) (r : ReservationRecord) : ReservationRecord :=
  if r.agentName=agent ∧ r.activeAt now = true then { r with expiresTs := newExpiresTs } else r

/-- The calls with `renew_reservations` among them. -/
def lifecycle (globMatches : String → String → Bool) : System Reservations LifecycleAction where
  init := ⟨0,[],[]⟩
  step s
    | .call action => step globMatches s action
    | .renew agent now newExpiresTs =>
      some { s with rows := s.rows.map (renewed agent now newExpiresTs) }

def releasedBy (r : ReservationRecord) : LifecycleAction → Option Nat
  | .call action => releaseOf r action
  | .renew .. => none

variable {act : LifecycleAction}

theorem sound_lifecycle (h : s.Sound) (hstep : (lifecycle globMatches).step s act = some s') :
    s'.Sound := by
  cases act with
  | call action => exact sound_step h (steps_of_step hstep)
  | renew agent now newExpiresTs =>
    cases hstep
    have hsame : ∀ r, (renewed agent now newExpiresTs r).id = r.id ∧
        r.agentName = (renewed agent now newExpiresTs r).agentName ∧
        r.pattern = (renewed agent now newExpiresTs r).pattern ∧
        r.exclusive = (renewed agent now newExpiresTs r).exclusive := by
      intro r
      unfold renewed
      split_ifs <;> simp
    refine ⟨?_,h.clocks,fun d hd granted hgranted g hg => ?_⟩
    · rw [map_map,length_map,← h.ids]
      exact map_congr_left fun r _ => (hsame r).1
    · refine (h.recorded d hd granted hgranted g hg).mono (length_map _).ge fun r hr _ => ?_
      obtain ⟨r₀,hr₀,rfl⟩ := mem_map.mp hr
      exact ⟨r₀,hr₀,(hsame r₀).1.symm,(hsame r₀).2⟩

/-- A row stays as it is, but for the stamp of a release and the expiry its agent sets. -/
theorem mem_lifecycle (hstep : (lifecycle globMatches).step s act = some s') (hr : r∈s.rows) :
    ∃ expiresTs, (expiresTs=r.expiresTs ∨ ∃ now, act = .renew r.agentName now expiresTs) ∧
      { stamp r (releasedBy r act) with expiresTs } ∈ s'.rows := by
  cases act with
  | call action =>
    refine ⟨_,Or.inl rfl,?_⟩
    cases steps_of_step hstep with
    | release agent patterns now =>
      rw [releaseReservations_eq]
      exact mem_map_of_mem hr
    | insert => simp [stamp,releasedBy,releaseOf,hr]
    | _ => simpa [stamp,releasedBy,releaseOf,setProgress] using hr
  | renew agent now newExpiresTs =>
    cases hstep
    have hmem := mem_map_of_mem (f := renewed agent now newExpiresTs) hr
    by_cases hown : r.agentName=agent ∧ r.activeAt now = true
    · refine ⟨_,Or.inr ⟨now,by rw [hown.1]⟩,?_⟩
      simpa [renewed,hown,stamp,releasedBy] using hmem
    · refine ⟨_,Or.inl rfl,?_⟩
      simpa [renewed,hown,stamp,releasedBy] using hmem

theorem mem_run {acts : List LifecycleAction} (hsound : s.Sound)
    (hrun : (lifecycle globMatches).replayFrom (fun _ _ => True) s acts = some s') :
    s'.Sound ∧ ∀ r∈s.rows, ∃ expiresTs,
      (expiresTs=r.expiresTs ∨ ∃ now, .renew r.agentName now expiresTs ∈ acts) ∧
        { stamp r (acts.findSome? (releasedBy r)) with expiresTs } ∈ s'.rows := by
  induction acts generalizing s with
  | nil =>
    cases hrun
    exact ⟨hsound,fun r hr => ⟨_,Or.inl rfl,by simpa [stamp] using hr⟩⟩
  | cons act acts ih =>
    simp only [System.replayFrom,if_true] at hrun
    obtain ⟨t,hstep,hrest⟩ := Option.bind_eq_some_iff.mp hrun
    obtain ⟨hsound',hall⟩ := ih (sound_lifecycle hsound hstep) hrest
    refine ⟨hsound',fun r hr => ?_⟩
    obtain ⟨e₁,he₁,hmem₁⟩ := mem_lifecycle hstep hr
    obtain ⟨e₂,he₂,hmem₂⟩ := hall _ hmem₁
    refine ⟨e₂,?_,?_⟩
    · obtain rfl | ⟨now,hnow⟩ := he₂
      · refine he₁.imp_right fun hact => ?_
        obtain ⟨now,rfl⟩ := hact
        exact ⟨now,mem_cons_self⟩
      · exact Or.inr ⟨now,mem_cons_of_mem act hnow⟩
    · have hsame : releasedBy { stamp r (releasedBy r act) with expiresTs := e₁ } = releasedBy r := by
        funext b
        rcases b with b | _
        · cases b <;> rfl
        · rfl
      rw [hsame] at hmem₂
      cases hrelease : releasedBy r act <;>
        simpa [stamp,hrelease,findSome?_cons,Option.or_assoc] using hmem₂

/-- Whatever else happens, a granted row keeps its id to itself and stays in the table as granted,
but for what its own agent does: the first release sets its time, and renewals the expiry. -/
theorem granted_until_released {ok : Reservations → LifecycleAction → Prop} {i : Nat}
    {t : Reservations} {acts : List LifecycleAction} {granted : List ReservationRecord}
    (hreach : (lifecycle globMatches).Reaches ok s)
    (hinsert : step globMatches s (.insert i) = some t)
    (hgranted : t.calls[i]?.bind Call.granted? = some granted)
    (hrun : (lifecycle globMatches).replayFrom (fun _ _ => True) t acts = some s') :
    (∃ c ∈ s.calls[i]?, granted.map (fun r => (r.agentName, r.pattern)) =
        c.patterns.map fun pat => (c.agent, pat)) ∧
      ∀ r∈granted, ∃ expiresTs,
        (expiresTs=r.expiresTs ∨ ∃ now, .renew r.agentName now expiresTs ∈ acts) ∧
          ∀ r', r'∈s'.rows ∧ r'.id=r.id ↔
            r' = { r with releasedTs := acts.findSome? (releasedBy r), expiresTs } := by
  have hsound := System.Reaches.invariant (I := Sound) sound_init
    (fun _ _ _ h _ hstep => sound_lifecycle h hstep) hreach
  have hsteps := steps_of_step hinsert
  obtain ⟨hsound',hall⟩ := mem_run (sound_step hsound hsteps) hrun
  cases hsteps with
  | insert i c conflicts truncated hcall =>
    have hlt : i < s.calls.length := (List.getElem?_eq_some_iff.mp hcall).1
    obtain rfl : c.newRows s.rows.length = granted := by
      simpa [setProgress,hlt,Call.granted?] using hgranted
    refine ⟨⟨c,hcall,?_⟩,fun r hr => ?_⟩
    · have hfst := congrArg (map fun pat => (c.agent, pat)) (zipIdx_map_fst 0 c.patterns)
      rw [map_map] at hfst
      rw [Call.newRows,map_map]
      exact hfst
    · have hopen : r.releasedTs=none := by
        obtain ⟨_,-,rfl⟩ := mem_map.mp hr
        rfl
      obtain ⟨expiresTs,hexpires,hmem⟩ := hall r (mem_append_right _ hr)
      rw [stamp,hopen,Option.none_or] at hmem
      refine ⟨expiresTs,hexpires,fun r' => ⟨fun h => ?_,fun h => ?_⟩⟩
      · exact eq_of_id_eq hsound'.ids h.1 hmem h.2
      · exact h ▸ ⟨hmem,rfl⟩

/-- `B` can neither renew nor release the row, and the first of the releases of `A` counts. -/
theorem granted_until_released_once :
    ∃ s', (lifecycle fun _ _ => false).replay (fun _ _ => True)
        [.call (.start "A" ["p"] true none 9 500), .call (.scan 0), .call (.insert 0),
          .renew "B" 2 20, .call (.release "B" [] 3), .call (.release "A" ["p"] 4),
          .call (.release "A" [] 5)] = some s' ∧
      ∃ expiresTs, ∀ r', r'∈s'.rows ∧ r'.id=1 ↔
        r' = ⟨1,"A","p",true,none,0,expiresTs,some 4⟩ := by
  have hscanned : (lifecycle fun _ _ => false).replay (fun _ _ => True)
      [.call (.start "A" ["p"] true none 9 500), .call (.scan 0)] =
        some ⟨0,[],[{ finishedCall "A" 1 [] with progress := .scanned [] false }]⟩ := by decide
  have hrun : (lifecycle fun _ _ => false).replayFrom (fun _ _ => True)
      ⟨0,[⟨1,"A","p",true,none,0,9,none⟩],[finishedCall "A" 1 []]⟩
      [.renew "B" 2 20, .call (.release "B" [] 3), .call (.release "A" ["p"] 4),
        .call (.release "A" [] 5)] =
        some ⟨0,[⟨1,"A","p",true,none,0,9,some 4⟩],[finishedCall "A" 1 []]⟩ := by decide
  obtain ⟨expiresTs,-,h⟩ := (granted_until_released (System.reaches_of_replay hscanned) (i := 0)
    (by decide) rfl hrun).2 _ (mem_singleton_self _)
  exact ⟨_,by decide,expiresTs,h⟩

end Reservations

end Daimonos.Coordination
