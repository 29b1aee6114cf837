import Daimonos.Session.Persistence

namespace Daimonos.Session

open Framework Store List SessionPersistence

namespace SessionPersistence

structure SaveSpec (p : SessionPersistence) (capture : PersistenceCapture)
    (result : Except ErrorKind PersistenceSaveOutcome) (p' : SessionPersistence) : Prop where
  writer : p'.writer=p.writer
  writers : p'.store.writers = p.store.writers
  deleted : p'.state.deleted = p.state.deleted
  superseded : p.state.superseded=true → p'.state.superseded=true
  reported : result = .ok .superseded →
    p'.state.superseded=true ∧ p'.state.deleted=false
  stored : p'.store=p.store ∨ p.Holds ∧ (∀ g∈p.storedGeneration, g < capture.generation) ∧
    p'.storedGeneration = some capture.generation

theorem save_spec (capture : PersistenceCapture) (failure : Option ErrorKind) (now : Nat)
    (p : SessionPersistence) :
    SaveSpec p capture (p.save capture failure now).1 (p.save capture failure now).2 := by
  rcases save_cases capture failure now p with ⟨result,hsave,-,-,hreported⟩ | ⟨stored,hsave⟩ |
    ⟨hsave,hdeleted,-⟩ | ⟨store,row,hsave,hholds,hraise,hrow,hwrote⟩
  · rw [hsave]
    exact ⟨rfl,rfl,rfl,id,hreported,.inl rfl⟩
  · rw [hsave]
    exact ⟨rfl,rfl,rfl,id,by simp,.inl rfl⟩
  · rw [hsave]
    exact ⟨rfl,rfl,rfl,fun _ => rfl,fun _ => ⟨rfl,hdeleted⟩,.inl rfl⟩
  · rw [hsave]
    refine ⟨rfl,hwrote.writers,rfl,id,by simp,.inr ⟨hholds,hraise,?_⟩⟩
    rw [← hrow]
    exact storedGeneration_wrote p rfl hwrote

end SessionPersistence

/-- The runtimes that have opened one session, on one store. For the theorems the run records how
many there were at each delete that was committed, and which were told that they are superseded. -/
structure SessionRuntimes where
  store : SessionStore
  runtimes : List SessionPersistence := []
  deletes : List Nat := []
  reported : List Nat := []

inductive RuntimeAction where
  | claim (expectedGeneration : Option Nat) (epoch : String) (maxPreviewBytes attempts : Nat)
  | save (runtime : Nat) (capture : PersistenceCapture) (failure : Option ErrorKind) (now : Nat)
  | delete (runtime : Nat)

namespace SessionRuntimes

variable {sessionId : String} {s s' : SessionRuntimes}

def epochs (s : SessionRuntimes) : List String := s.runtimes.map (·.writer.epoch)

def current (s : SessionRuntimes) (p : SessionPersistence) : SessionPersistence :=
  { p with store := s.store }

def setRuntime (s : SessionRuntimes) (i : Nat) (p : SessionPersistence) : SessionRuntimes :=
  { s with store := p.store, runtimes := s.runtimes.set i p }

/-- Each step is one call under its runtime's state lock, with its transaction. An epoch is drawn
anew for each claim. -/
def step (sessionId : String) (s : SessionRuntimes) : RuntimeAction → Option SessionRuntimes
  | .claim expectedGeneration epoch maxPreviewBytes attempts =>
    if epoch∈s.epochs then none
    else
      match s.store.claimWriter sessionId expectedGeneration epoch with
      | .error _ => none
      | .ok (writer, store) =>
        some { s with
          store, runtimes := s.runtimes ++ [{ writer, store, maxPreviewBytes, attempts }] }
  | .save i capture failure now =>
    (s.runtimes[i]?).map fun p =>
      let (result, p) := (s.current p).save capture failure now
      { s.setRuntime i p with
        reported := match result with
          | .ok .superseded => s.reported ++ [i]
          | _ => s.reported }
  | .delete i =>
    (s.runtimes[i]?).map fun p =>
      { s.setRuntime i (s.current p).delete with
        deletes :=
          if p.retired=false ∧ (s.store.deleteWriter p.writer).1.isSome then
            s.deletes ++ [s.runtimes.length]
          else s.deletes }

def system (sessionId : String) (store : SessionStore) : System SessionRuntimes RuntimeAction :=
  { init := { store }, step := step sessionId }

structure Retired (sessionId : String) (s : SessionRuntimes) : Prop where
  sessions : ∀ p∈s.runtimes, p.writer.sessionId=sessionId
  opened : ∀ n∈s.deletes, n ≤ s.runtimes.length
  deleted : ∀ n∈s.deletes, ∀ i<n, ∀ p ∈ s.runtimes[i]?,
    s.store.writerEpoch? sessionId ≠ some p.writer.epoch
  superseded : ∀ i∈s.reported, ∃ p, s.runtimes[i]? = some p ∧
    p.state.superseded=true ∧ p.state.deleted=false

namespace Retired

variable {i : Nat} {p p' : SessionPersistence}

theorem setRuntime (h : Retired sessionId s) (hi : s.runtimes[i]? = some p)
    (hwriter : p'.writer=p.writer) (hstate : p.state.superseded=true → p.state.deleted=false →
      p'.state.superseded=true ∧ p'.state.deleted=false)
    (hepoch : ∀ q∈s.runtimes, s.store.writerEpoch? sessionId ≠ some q.writer.epoch →
      p'.store.writerEpoch? sessionId ≠ some q.writer.epoch) :
    Retired sessionId (s.setRuntime i p') where
  sessions q hq := by
    rcases mem_or_eq_of_mem_set hq with hq | rfl
    · exact h.sessions q hq
    · rw [hwriter]
      exact h.sessions p (mem_of_getElem? hi)
  opened n hn := by
    change n ≤ (s.runtimes.set i p').length
    rw [length_set]
    exact h.opened n hn
  deleted n hn j hj q hq := by
    change q ∈ (s.runtimes.set i p')[j]? at hq
    by_cases hji : i=j
    · subst hji
      rw [List.getElem?_set_self (List.getElem?_eq_some_iff.mp hi).1] at hq
      obtain rfl := Option.some.inj hq
      rw [hwriter]
      exact hepoch p (mem_of_getElem? hi) (h.deleted n hn i hj p hi)
    · rw [List.getElem?_set_ne hji] at hq
      exact hepoch q (mem_of_getElem? hq) (h.deleted n hn j hj q hq)
  superseded j hj := by
    obtain ⟨q,hq,hsup,hdel⟩ := h.superseded j hj
    by_cases hji : i=j
    · subst hji
      obtain rfl : p=q := Option.some.inj (hi.symm.trans hq)
      exact ⟨p',List.getElem?_set_self (List.getElem?_eq_some_iff.mp hi).1,hstate hsup hdel⟩
    · exact ⟨q,(List.getElem?_set_ne hji).trans hq,hsup,hdel⟩

theorem claim (h : Retired sessionId s) {expectedGeneration : Option Nat} {epoch : String}
    {maxPreviewBytes attempts : Nat}
    (hs : s.step sessionId (.claim expectedGeneration epoch maxPreviewBytes attempts) = some s') :
    Retired sessionId s' := by
  simp only [step] at hs
  split_ifs at hs with hused
  split at hs
  · cases hs
  rename_i writer store hclaim
  obtain ⟨rfl,-,rfl⟩ := SessionStore.of_claimWriter hclaim
  cases hs
  refine ⟨?_,?_,?_,?_⟩
  · intro p hp
    rcases mem_append.mp hp with hp | hp
    · exact h.sessions p hp
    · rw [List.mem_singleton.mp hp]
  · intro n hn
    rw [length_append]
    exact (h.opened n hn).trans (Nat.le_add_right _ _)
  · intro n hn i hi p hp
    have hlt : i < s.runtimes.length := Nat.lt_of_lt_of_le hi (h.opened n hn)
    rw [List.getElem?_append_left hlt] at hp
    change (s.store.writers.insert sessionId epoch).lookup sessionId ≠ _
    rw [AList.lookup_insert]
    rintro ⟨⟩
    exact hused (mem_map_of_mem (mem_of_getElem? hp))
  · intro i hi
    obtain ⟨p,hp,hstate⟩ := h.superseded i hi
    have hlt := (List.getElem?_eq_some_iff.mp hp).1
    exact ⟨p,(List.getElem?_append_left hlt).trans hp,hstate⟩

theorem save (h : Retired sessionId s) {capture : PersistenceCapture} {failure : Option ErrorKind}
    {now : Nat} (hs : s.step sessionId (.save i capture failure now) = some s') :
    Retired sessionId s' := by
  obtain ⟨p,hi,rfl⟩ := Option.map_eq_some_iff.mp hs
  have hspec := save_spec capture failure now (s.current p)
  generalize (s.current p).save capture failure now = saved at hspec
  obtain ⟨result,p'⟩ := saved
  have hset : Retired sessionId (s.setRuntime i p') := by
    refine h.setRuntime hi hspec.writer
      (fun hsup hdel => ⟨hspec.superseded hsup,hspec.deleted.trans hdel⟩) fun q _ hq => ?_
    unfold SessionStore.writerEpoch?
    rw [hspec.writers]
    exact hq
  refine ⟨hset.sessions,hset.opened,hset.deleted,fun j hj => ?_⟩
  dsimp only at hj
  split at hj
  · rcases mem_append.mp hj with hj | hj
    · exact hset.superseded j hj
    · rw [List.mem_singleton.mp hj]
      exact ⟨p',List.getElem?_set_self (List.getElem?_eq_some_iff.mp hi).1,hspec.reported rfl⟩
  · exact hset.superseded j hj

theorem delete (h : Retired sessionId s) (hs : s.step sessionId (.delete i) = some s') :
    Retired sessionId s' := by
  obtain ⟨p,hi,rfl⟩ := Option.map_eq_some_iff.mp hs
  have hsession := h.sessions p (mem_of_getElem? hi)
  have hdelete : ¬ p.retired=true → (s.current p).delete =
      { s.current p with
        store := (s.store.deleteWriter p.writer).2
        state := { p.state with deleted := true } } := fun hretired => if_neg hretired
  -- a committed delete leaves no epoch in force, any other call the one that was
  have hepoch : (s.store.deleteWriter p.writer).1.isSome = true →
      (s.store.deleteWriter p.writer).2.writerEpoch? sessionId = none := by
    unfold SessionStore.deleteWriter
    split_ifs with hother
    · nofun
    · intro _
      change (s.store.writers.erase p.writer.sessionId).lookup sessionId = none
      rw [hsession,AList.lookup_erase]
  have hlost : (s.store.deleteWriter p.writer).1.isSome ≠ true →
      (s.store.deleteWriter p.writer).2 = s.store := by
    unfold SessionStore.deleteWriter
    split_ifs
    · exact fun _ => rfl
    · exact fun hnot => absurd rfl hnot
  have hset : Retired sessionId (s.setRuntime i (s.current p).delete) := by
    by_cases hretired : p.retired=true
    · rw [show (s.current p).delete = s.current p from if_pos hretired]
      exact h.setRuntime hi rfl (fun hsup hdel => ⟨hsup,hdel⟩) fun _ _ hq => hq
    · rw [hdelete hretired]
      refine h.setRuntime hi rfl (fun hsup _ => ?_) fun q _ hq => ?_
      · exact absurd (by rw [retired,hsup,Bool.or_true]) hretired
      · by_cases hcommitted : (s.store.deleteWriter p.writer).1.isSome = true
        · exact fun heq => absurd ((hepoch hcommitted).symm.trans heq) nofun
        · rw [hlost hcommitted]
          exact hq
  refine ⟨hset.sessions,fun n hn => ?_,fun n hn j hj q hq => ?_,hset.superseded⟩
  · split_ifs at hn
    · rcases mem_append.mp hn with hn | hn
      · exact hset.opened n hn
      · rw [List.mem_singleton.mp hn]
        exact length_set.ge
    · exact hset.opened n hn
  · split_ifs at hn with hcommitted
    · rcases mem_append.mp hn with hn | hn
      · exact hset.deleted n hn j hj q hq
      · have hnone := hepoch hcommitted.2
        rw [hdelete (by rw [hcommitted.1]; nofun)]
        exact fun heq => absurd (hnone.symm.trans heq) nofun
    · exact hset.deleted n hn j hj q hq

theorem of_reaches {store : SessionStore}
    (h : (system sessionId store).Reaches (fun _ _ => True) s) : Retired sessionId s := by
  refine h.invariant ⟨nofun,nofun,nofun,nofun⟩ fun s a s' hs _ hstep => ?_
  cases a with
  | claim => exact hs.claim hstep
  | save => exact hs.save hstep
  | delete => exact hs.delete hstep

end Retired

/-- What later saves do: those of runtimes that a committed delete found open write nothing, no
save replaces a newer generation, and a runtime that was told so once stays superseded. -/
structure LateSaves (sessionId : String) (s : SessionRuntimes) : Prop where
  afterDelete : ∀ n∈s.deletes, ∀ i<n, ∀ capture failure now s',
    s.step sessionId (.save i capture failure now) = some s' → s'.store=s.store
  newer : ∀ i capture failure now s', s.step sessionId (.save i capture failure now) = some s' →
    s'.store=s.store ∨ (∀ g ∈ s.store.generation? sessionId, g < capture.generation) ∧
      s'.store.generation? sessionId = some capture.generation
  refused : ∀ i∈s.reported, ∃ p, s.runtimes[i]? = some p ∧ ∀ capture failure now,
    (s.current p).save capture failure now = (.ok .superseded, s.current p)

/-- In every interleaving of runtimes on one store, late saves are refused. -/
theorem late_saves {store : SessionStore}
    (h : (system sessionId store).Reaches (fun _ _ => True) s) : LateSaves sessionId s := by
  have hs := Retired.of_reaches h
  refine ⟨?_,?_,?_⟩
  · intro n hn i hi capture failure now s' hstep
    obtain ⟨p,hp,rfl⟩ := Option.map_eq_some_iff.mp hstep
    rcases (save_spec capture failure now (s.current p)).stored with
      hsame | ⟨hholds,-⟩
    · exact hsame
    · unfold SessionPersistence.Holds at hholds
      rw [show (s.current p).writer.sessionId = sessionId from
        hs.sessions p (mem_of_getElem? hp)] at hholds
      exact absurd hholds (hs.deleted n hn i hi p hp)
  · intro i capture failure now s' hstep
    obtain ⟨p,hp,rfl⟩ := Option.map_eq_some_iff.mp hstep
    have hspec := save_spec capture failure now (s.current p)
    have hstored := hspec.stored
    simp only [storedGeneration,hspec.writer,
      show (s.current p).writer.sessionId = sessionId from
        hs.sessions p (mem_of_getElem? hp)] at hstored
    exact hstored.imp_right And.right
  · intro i hi
    obtain ⟨p,hp,hsup,hdel⟩ := hs.superseded i hi
    refine ⟨p,hp,fun capture failure now => ?_⟩
    unfold save
    rw [if_neg (by simp [current,hdel]),if_pos (by exact hsup)]

/-- Two runtimes open the session. The first learns that it is superseded, the second deletes. -/
def reopenedAndDeleted : List RuntimeAction :=
  [.claim none "a" 80 1, .claim none "b" 80 1, .save 0 ⟨1,⟨"m",none,[],none,[],[]⟩,0⟩ none 5,
    .save 1 ⟨1,⟨"m",none,[],none,[],[]⟩,0⟩ none 6, .delete 1]

/-- A second runtime takes the session over and deletes it. -/
theorem late_saves_reopened : ∃ s, (system "s" .empty).replay (fun _ _ => True)
      reopenedAndDeleted = some s ∧ s.deletes = [2] ∧ s.reported = [0] ∧ LateSaves "s" s := by
  refine System.exists_replay_and (fun s => s.deletes = [2] ∧ s.reported = [0]) (by decide +kernel) ?_
  intro s hreach ⟨hdeletes,hreported⟩
  exact ⟨hdeletes,hreported,late_saves hreach⟩

end SessionRuntimes

end Daimonos.Session
