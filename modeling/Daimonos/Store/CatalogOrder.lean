import Mathlib
import Daimonos.Store.SessionStore

namespace Daimonos.Store

open List

structure CatalogMutation where
  sessionId : String
  workspaceId : String
  model : Option String
  updatedAtUnixNs : Nat
  preview : Option String
  messageCount : Option Nat
  writerInstanceId : String
  generation : Nat
  deleted : Bool
  observedAtUnixMs : Nat
  authoritativeObservation : Bool

def toSqlU64 (value : Nat) : Nat := min value i64Max

namespace CatalogMutation

/-- The row that a mutation inserts: SQLite's integers are signed. -/
def excluded (mutation : CatalogMutation) : CatalogMutation :=
  { mutation with
    updatedAtUnixNs := toSqlU64 mutation.updatedAtUnixNs
    messageCount := mutation.messageCount.map toSqlU64
    generation := toSqlU64 mutation.generation
    observedAtUnixMs := toSqlU64 mutation.observedAtUnixMs }

/-- The `WHERE` of the upsert: the mutation replaces the stored row. -/
def Replaces (mutation stored : CatalogMutation) : Prop :=
  (mutation.writerInstanceId = stored.writerInstanceId ∧
      stored.generation ≤ mutation.generation) ∨
    (mutation.writerInstanceId ≠ stored.writerInstanceId ∧
      (stored.updatedAtUnixNs < mutation.updatedAtUnixNs ∨
        (mutation.updatedAtUnixNs = stored.updatedAtUnixNs ∧
          stored.deleted=false ∧ mutation.deleted=true))) ∨
    mutation.authoritativeObservation = true

instance (mutation stored : CatalogMutation) : Decidable (mutation.Replaces stored) :=
  inferInstanceAs (Decidable (_ ∨ _))

/-- The row of a session after a mutation; a row holds what the mutation it came from held. -/
def apply (row : Option CatalogMutation) (mutation : CatalogMutation) : Option CatalogMutation :=
  match row with
  | none => some mutation.excluded
  | some stored =>
    if mutation.excluded.Replaces stored then some mutation.excluded else some stored

/-- Nothing of the mutation is cut to SQLite's integers, whose times last until the year 2262. -/
def InRange (mutation : CatalogMutation) : Prop :=
  mutation.updatedAtUnixNs ≤ i64Max ∧ (∀ count∈mutation.messageCount, count ≤ i64Max) ∧
    mutation.generation ≤ i64Max ∧ mutation.observedAtUnixMs ≤ i64Max

theorem InRange.excluded_eq {mutation : CatalogMutation} (h : mutation.InRange) :
    mutation.excluded=mutation := by
  obtain ⟨htime,hcount,hgeneration,hobserved⟩ := h
  have hcounts : mutation.messageCount.map toSqlU64 = mutation.messageCount := by
    cases hmessages : mutation.messageCount with
    | none => rfl
    | some count => exact congrArg some (min_eq_left (hcount count hmessages))
  rw [excluded,toSqlU64,toSqlU64,toSqlU64,min_eq_left htime,min_eq_left hgeneration,
    min_eq_left hobserved,hcounts]

theorem apply_some {mutation stored : CatalogMutation} (h : mutation.InRange) :
    mutation.apply (some stored) =
      if mutation.Replaces stored then some mutation else some stored := by
  rw [apply,h.excluded_eq]

end CatalogMutation

def listed (row : Option CatalogMutation) : Bool := row.any fun stored => !stored.deleted

/-- The time that `enqueue_saved` and `enqueue_deleted` put on what happened at `time`: a delete is
timed in whole milliseconds. -/
def recordedNs (deleted : Bool) (time : Nat) : Nat :=
  if deleted then time/1000000*1000000 else time

/-- A save or a delete, the time it happened and the mutation it was queued as. -/
structure CatalogEvent where
  time : Nat
  mutation : CatalogMutation

namespace CatalogEvent

def deleted (e : CatalogEvent) : Bool := e.mutation.deleted

def writer (e : CatalogEvent) : String := e.mutation.writerInstanceId

end CatalogEvent

/-- What different processes saved and deleted of one session. A process does one thing at a time;
what two processes do may happen at the very same time. -/
structure Schedule (events : List CatalogEvent) : Prop where
  inRange : ∀ e∈events, e.mutation.InRange
  recorded : ∀ e∈events, e.mutation.updatedAtUnixNs = recordedNs e.deleted e.time
  observed : ∀ e∈events, e.mutation.authoritativeObservation = false
  oneAtATime : ∀ e∈events, ∀ e'∈events, e.writer=e'.writer → e.time=e'.time → e=e'
  generations : ∀ e∈events, ∀ e'∈events, e.writer=e'.writer → e.time<e'.time →
    e.mutation.generation < e'.mutation.generation

def applyAll (queue : List CatalogEvent) : Option CatalogMutation :=
  queue.foldl (fun row e => e.mutation.apply row) none

def DistinctTimes (queue : List CatalogEvent) : Prop :=
  ∀ e∈queue, ∀ e'∈queue, e.time=e'.time → e=e'

/-- No save at or before the time of an applied delete lists the session again, and the row does
not depend on the order in which a queue of distinct times is applied. -/
structure Settles (events : List CatalogEvent) : Prop where
  staysDeleted : ∀ queue ⊆ events, ∀ d∈queue, ∀ s∈events, d.deleted=true →
    s.deleted=false → s.time≤d.time → listed (applyAll queue) = false →
      listed (applyAll (queue ++ [s])) = false
  sameRow : ∀ queue ⊆ events, DistinctTimes queue → ∀ queue', queue.Perm queue' →
    applyAll queue = applyAll queue'

/-- A delete is timed after an earlier delete by another process, and not before a save that
another process made at or before its time. -/
def timedInOrder (events : List CatalogEvent) : Prop :=
  ∀ e∈events, ∀ d∈events, d.deleted=true → e.writer≠d.writer →
    if e.deleted then e.time<d.time → recordedNs true e.time < recordedNs true d.time
    else e.time≤d.time → e.time ≤ recordedNs true d.time

section Order

open CatalogMutation (apply_some)

variable {events queue : List CatalogEvent} {e e' : CatalogEvent}

theorem recordedNs_le (deleted : Bool) (time : Nat) : recordedNs deleted time ≤ time := by
  unfold recordedNs
  split_ifs
  · exact Nat.div_mul_le_self time 1000000
  · exact le_rfl

theorem apply_later (h : Schedule events) (horder : timedInOrder events) (he : e∈events)
    (he' : e'∈events) (hlt : e.time<e'.time) :
    e'.mutation.apply (some e.mutation) = some e'.mutation ∧
      e.mutation.apply (some e'.mutation) = some e'.mutation := by
  have htime := h.recorded e he
  have htime' := h.recorded e' he'
  have hobserved := h.observed e he
  rw [apply_some (h.inRange e he),apply_some (h.inRange e' he')]
  by_cases hwriter : e.writer=e'.writer
  · have hgeneration := h.generations e he e' he' hwriter hlt
    refine ⟨if_pos (.inl ⟨hwriter.symm,hgeneration.le⟩),if_neg ?_⟩
    rintro (⟨-,hle⟩ | ⟨hne,-⟩ | hauthoritative)
    · omega
    · exact hne hwriter
    · rw [hobserved] at hauthoritative
      cases hauthoritative
  · -- the recorded times are in order, or equal with the delete later
    have hrecorded : recordedNs e.deleted e.time < recordedNs e'.deleted e'.time ∨
        recordedNs e'.deleted e'.time = recordedNs e.deleted e.time ∧
          e.deleted=false ∧ e'.deleted=true := by
      cases hdeleted' : e'.deleted with
      | false =>
        have hle := recordedNs_le e.deleted e.time
        exact .inl (lt_of_le_of_lt hle hlt)
      | true =>
        have hpair := horder e he e' he' hdeleted' hwriter
        cases hdeleted : e.deleted with
        | true =>
          rw [hdeleted,if_pos rfl] at hpair
          exact .inl (hpair hlt)
        | false =>
          rw [hdeleted,if_neg (by decide)] at hpair
          rcases Nat.lt_or_eq_of_le (hpair hlt.le) with hless | hequal
          · exact .inl hless
          · exact .inr ⟨hequal.symm,rfl,rfl⟩
    refine ⟨if_pos (.inr (.inl ⟨Ne.symm hwriter,htime ▸ htime' ▸ hrecorded⟩)),if_neg ?_⟩
    · rintro (⟨hsame,-⟩ | ⟨-,hnewer⟩ | hauthoritative)
      · exact hwriter hsame
      · rcases hnewer with hnewer | ⟨hequal,-,hdeleted⟩
        · omega
        · rcases hrecorded with hless | ⟨-,hsaved,-⟩
          · omega
          · rw [show e.mutation.deleted=false from hsaved] at hdeleted
            cases hdeleted
      · rw [hobserved] at hauthoritative
        cases hauthoritative

theorem apply_sameTime (h : Schedule events) (horder : timedInOrder events) (he : e∈events)
    (he' : e'∈events) (hsaved : e.deleted=false) (hdeleted : e'.deleted=true)
    (htimes : e.time=e'.time) : e.mutation.apply (some e'.mutation) = some e'.mutation := by
  have hwriter : e.writer≠e'.writer := by
    intro hsame
    rw [h.oneAtATime e he e' he' hsame htimes,hdeleted] at hsaved
    cases hsaved
  have hpair := horder e he e' he' hdeleted hwriter
  rw [hsaved,if_neg (by decide)] at hpair
  have htime := h.recorded e he
  have htime' := h.recorded e' he'
  rw [hsaved,recordedNs,if_neg (by decide)] at htime
  rw [hdeleted] at htime'
  rw [apply_some (h.inRange e he)]
  refine if_neg ?_
  rintro (⟨hsame,-⟩ | ⟨-,hnewer | ⟨-,hstored,-⟩⟩ | hauthoritative)
  · exact hwriter hsame
  · have hle := hpair htimes.le
    omega
  · rw [show e'.mutation.deleted=true from hdeleted] at hstored
    cases hstored
  · rw [h.observed e he] at hauthoritative
    cases hauthoritative

theorem applyAll_snoc (queue : List CatalogEvent) (e : CatalogEvent) :
    applyAll (queue ++ [e]) = e.mutation.apply (applyAll queue) := by
  rw [applyAll,foldl_append]
  rfl

theorem applyAll_singleton (h : Schedule events) (he : e∈events) : applyAll [e] = some e.mutation :=
  congrArg some (h.inRange e he).excluded_eq

theorem applyAll_latest (h : Schedule events) (horder : timedInOrder events)
    (hqueue : queue ⊆ events) (hne : queue ≠ []) :
    ∃ e∈queue, applyAll queue = some e.mutation ∧ ∀ x∈queue, x.time≤e.time := by
  induction queue using List.reverseRecOn with
  | nil => exact absurd rfl hne
  | append_singleton queue last ih =>
    have hlast : last∈events := hqueue (by simp)
    rw [applyAll_snoc]
    by_cases hempty : queue = []
    · subst hempty
      exact ⟨last,by simp,applyAll_singleton h hlast,by simp⟩
    · obtain ⟨e,he,hrow,hlatest⟩ := ih (fun x hx => hqueue (mem_append_left _ hx)) hempty
      have heEvents : e∈events := hqueue (mem_append_left _ he)
      have hle : ∀ time, e.time≤time → last.time≤time →
          ∀ x ∈ queue ++ [last], x.time≤time := by
        intro time hetime hlasttime x hx
        rcases mem_append.mp hx with hx | hx
        · exact (hlatest x hx).trans hetime
        · rw [mem_singleton.mp hx]
          exact hlasttime
      rw [hrow]
      rcases Nat.lt_trichotomy e.time last.time with hlt | heq | hgt
      · exact ⟨last,by simp,(apply_later h horder heEvents hlast hlt).1,hle _ hlt.le le_rfl⟩
      · -- two processes at the same time: whichever row stays is a latest one
        rw [apply_some (h.inRange last hlast)]
        split_ifs
        · exact ⟨last,by simp,rfl,hle _ heq.le le_rfl⟩
        · exact ⟨e,mem_append_left _ he,rfl,hle _ le_rfl heq.ge⟩
      · exact ⟨e,mem_append_left _ he,(apply_later h horder hlast heEvents hgt).2,
          hle _ le_rfl hgt.le⟩

theorem settles_of_timedInOrder (h : Schedule events) (horder : timedInOrder events) :
    Settles events where
  staysDeleted queue hqueue d hd s hs _ hsaved hle hlisted := by
    obtain ⟨e,he,hrow,hlatest⟩ := applyAll_latest h horder hqueue (ne_nil_of_mem hd)
    have heEvents := hqueue he
    have hdeleted : e.deleted=true := by
      rw [hrow,listed,Option.any_some,Bool.not_eq_false'] at hlisted
      exact hlisted
    have hstays : s.mutation.apply (some e.mutation) = some e.mutation := by
      rcases (hle.trans (hlatest d hd)).lt_or_eq with hlt | heq
      · exact (apply_later h horder hs heEvents hlt).2
      · exact apply_sameTime h horder hs heEvents hsaved hdeleted heq
    rw [applyAll_snoc,hrow,hstays,← hrow]
    exact hlisted
  sameRow queue hqueue hdistinct queue' hperm := by
    by_cases hempty : queue = []
    · subst hempty
      rw [nil_perm.mp hperm]
    · have hqueue' : queue' ⊆ queue := fun x hx => hperm.mem_iff.mpr hx
      obtain ⟨e,he,hrow,hlatest⟩ := applyAll_latest h horder hqueue hempty
      obtain ⟨e',he',hrow',hlatest'⟩ := applyAll_latest h horder
        (List.Subset.trans hqueue' hqueue) (ne_nil_of_mem (hperm.mem_iff.mp he))
      have htime := Nat.le_antisymm (hlatest' e (hperm.mem_iff.mp he)) (hlatest e' (hqueue' he'))
      rw [hrow,hrow',hdistinct e he e' (hqueue' he') htime]

/-- The catalog settles exactly if every delete is timed after what other processes did before. -/
theorem settles_iff (events : List CatalogEvent) (h : Schedule events) :
    Settles events ↔ timedInOrder events := by
  refine ⟨fun hsettles e he d hd hdeleted hwriter => ?_,settles_of_timedInOrder h⟩
  have hdtime := h.recorded d hd
  have hetime := h.recorded e he
  rw [hdeleted] at hdtime
  cases hedeleted : e.deleted with
  | false =>
    -- else the save is recorded after the delete and lists the session again
    rw [if_neg (by decide)]
    intro hle
    by_contra hnot
    rw [Nat.not_le] at hnot
    have hlisted : listed (applyAll [d]) = false := by
      rw [applyAll_singleton h hd]
      exact congrArg (!·) hdeleted
    have hagain := hsettles.staysDeleted [d] (by simpa using hd) d (by simp) e he hdeleted hedeleted
      hle hlisted
    have hrow : applyAll ([d] ++ [e]) = some e.mutation := by
      rw [applyAll_snoc,applyAll_singleton h hd,apply_some (h.inRange e he)]
      refine if_pos (.inr (.inl ⟨hwriter,.inl ?_⟩))
      rw [hdtime,hetime,hedeleted]
      exact hnot
    rw [hrow,listed,Option.any_some,show e.mutation.deleted=false from hedeleted] at hagain
    cases hagain
  | true =>
    -- else two deletes fall in one millisecond and the first to be applied stays
    rw [if_pos rfl]
    intro hlt
    by_contra hnot
    rw [Nat.not_lt] at hnot
    have hequal : recordedNs true e.time = recordedNs true d.time := by
      refine Nat.le_antisymm ?_ hnot
      exact Nat.mul_le_mul_right _ (Nat.div_le_div_right hlt.le)
    have hstays : ∀ a∈events, ∀ b∈events, a.writer≠b.writer → a.deleted=true →
        b.mutation.updatedAtUnixNs = a.mutation.updatedAtUnixNs →
        applyAll [a, b] = some a.mutation := by
      intro a ha b hb hne hadeleted htimes
      rw [show [a, b] = [a] ++ [b] from rfl,applyAll_snoc,applyAll_singleton h ha,
        apply_some (h.inRange b hb)]
      refine if_neg ?_
      rintro (⟨hsame,-⟩ | ⟨-,hnewer | ⟨-,hsaved,-⟩⟩ | hauthoritative)
      · exact hne hsame.symm
      · omega
      · rw [show a.mutation.deleted=true from hadeleted] at hsaved
        cases hsaved
      · rw [h.observed b hb] at hauthoritative
        cases hauthoritative
    rw [hedeleted] at hetime
    have hfirst := hstays e he d hd hwriter hedeleted (by omega)
    have hsecond := hstays d hd e he (Ne.symm hwriter) hdeleted (by omega)
    have hdistinct : DistinctTimes [e, d] := by
      simp [DistinctTimes,hlt.ne,hlt.ne']
    have hsame := hsettles.sameRow [e, d] (by simp [he,hd]) hdistinct [d, e]
      (List.Perm.swap d e [])
    rw [hfirst,hsecond,Option.some.injEq] at hsame
    exact hwriter (congrArg CatalogMutation.writerInstanceId hsame)

/-- What a process queues about the session at a time. -/
def eventOf (writer : String) (generation time : Nat) (deleted : Bool) : CatalogEvent where
  time
  mutation :=
    { sessionId := "s", workspaceId := "w", model := none, updatedAtUnixNs := recordedNs deleted time
      preview := none, messageCount := none, writerInstanceId := writer, generation, deleted
      observedAtUnixMs := time/1000000, authoritativeObservation := false }

theorem schedule_of_two {a b : String} (hne : a≠b) {time time' : Nat} (hle : time≤time')
    (hrange : time' ≤ i64Max) (deleted deleted' : Bool) :
    Schedule [eventOf a 1 time deleted, eventOf b 1 time' deleted'] := by
  have hinRange : ∀ writer deleted, ∀ time ≤ i64Max,
      (eventOf writer 1 time deleted).mutation.InRange :=
    fun _ deleted time htime => ⟨(recordedNs_le deleted time).trans htime,nofun,
      show 1 ≤ i64Max by decide,(Nat.div_le_self _ _).trans htime⟩
  constructor <;> simp only [forall_mem_cons,not_mem_nil,false_implies,implies_true,
    and_true]
  · exact ⟨hinRange a deleted time (hle.trans hrange),hinRange b deleted' time' hrange⟩
  · exact ⟨rfl,rfl⟩
  · exact ⟨rfl,rfl⟩
  · exact ⟨⟨trivial,fun h => absurd h hne⟩,fun h => absurd h hne.symm⟩
  · exact ⟨⟨fun _ h => absurd h (Nat.lt_irrefl _),fun h => absurd h hne⟩,
      fun h => absurd h hne.symm,fun _ h => absurd h (Nat.lt_irrefl _)⟩

/-- A save, and a delete by another process more than a millisecond later. -/
theorem settles_iff_apart :
    Settles [eventOf "a" 1 4000000 false, eventOf "b" 1 5500000 true] :=
  (settles_iff _ (schedule_of_two (by decide) (by decide) (by decide) _ _)).mpr
    (by unfold timedInOrder; decide)

/-- A save half a millisecond before another process's delete lists the session again. -/
theorem deleted_listed_again : ∃ s d : CatalogEvent, Schedule [s, d] ∧ s.time<d.time ∧
    d.deleted=true ∧ listed (applyAll [d]) = false ∧ listed (applyAll [d, s]) = true :=
  ⟨eventOf "a" 1 5000001 false,eventOf "b" 1 5500000 true,
    schedule_of_two (by decide) (by decide) (by decide) _ _,by decide,rfl,by decide,by decide⟩

end Order

end Daimonos.Store
