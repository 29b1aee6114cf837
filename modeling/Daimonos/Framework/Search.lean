import Mathlib

namespace Daimonos.Framework

open List Relation

variable {α : Type} [DecidableEq α]

def isFull (cap : Option Nat) (found : List α) : Bool := cap.any (· ≤ found.length)

/-- Take what is not found yet into the found and the queue, up to the cap. -/
def discover (cap : Option Nat) : List α → List α → List α → List α × List α
  | [], found, queue => (found, queue)
  | x::xs, found, queue =>
    if isFull cap found then (found, queue)
    else if x∈found then discover cap xs found queue
    else discover cap xs (found ++ [x]) (queue ++ [x])

/-- Breadth-first search for what satisfies `hit`, or for all there is up to the cap; `none` if it
has not ended after `rounds` rounds. -/
def search (next : α → List α) (cap : Option Nat) (hit : α → Bool) :
    Nat → List α → List α → Option (Bool × List α)
  | _, found, [] => some (false, found)
  | 0, _, _::_ => none
  | rounds+1, found, x::queue =>
    if isFull cap found then some (false, found)
    else if hit x then some (true, found)
    else
      let (found, queue) := discover cap (next x) found queue
      search next cap hit rounds found queue

def Reach (next : α → List α) : α → α → Prop := ReflTransGen fun a b => b ∈ next a

variable {next : α → List α} {cap : Option Nat} {hit : α → Bool} {start : α} {found : List α}

theorem discover_spec (xs queue : List α) (hnodup : found.Nodup)
    (hroom : ∀ c∈cap, found.length ≤ c) :
    ∃ new, discover cap xs found queue = (found++new, queue++new) ∧ (found++new).Nodup ∧
      (∀ c∈cap, (found++new).length ≤ c) ∧ new ⊆ xs ∧
      (isFull cap (found++new) = true ∨ xs ⊆ found ++ new) := by
  induction xs generalizing found queue with
  | nil => exact ⟨[],by simp [discover],by simpa using hnodup,by simpa using hroom,by simp,by simp⟩
  | cons x xs ih =>
    rw [discover]
    split_ifs with hfull hmem
    · exact ⟨[],by simp,by simpa using hnodup,by simpa using hroom,by simp,by simp [hfull]⟩
    · obtain ⟨new,heq,hnew,hroom,hsub,hdone⟩ := ih queue hnodup hroom
      refine ⟨new,heq,hnew,hroom,subset_cons_of_subset x hsub,hdone.imp_right fun h => ?_⟩
      exact cons_subset.mpr ⟨mem_append_left new hmem,h⟩
    · have hnodup' : (found ++ [x]).Nodup :=
        nodup_append_comm.mp (nodup_cons.mpr ⟨hmem,hnodup⟩)
      have hroom' : ∀ c∈cap, (found ++ [x]).length ≤ c := by
        intro c hc
        have hlt : ¬ c≤found.length := fun hle => hfull (by simp [isFull,Option.mem_def.mp hc,hle])
        simpa using hlt
      obtain ⟨new,heq,hnew,hroom,hsub,hdone⟩ := ih (queue ++ [x]) hnodup' hroom'
      simp only [append_assoc,singleton_append] at heq hnew hroom hdone
      refine ⟨x::new,heq,hnew,hroom,cons_subset_cons x hsub,hdone.imp_right fun h => ?_⟩
      exact cons_subset.mpr ⟨by simp,h⟩

/-- What is found can be reached. Unless the search is full, what has left the queue is done. -/
structure Searching (next : α → List α) (cap : Option Nat) (hit : α → Bool) (start : α)
    (found queue : List α) : Prop where
  nodup : found.Nodup
  room : ∀ c∈cap, found.length ≤ c
  head : [start] <+: found
  queued : queue ⊆ found
  reached : ∀ x∈found, Reach next start x
  done : isFull cap found = true ∨ ∀ x∈found, x ∉ queue → hit x = false ∧ next x ⊆ found

/-- A search ends at a hit, full, or with all that can be reached and no hit among it. -/
structure Searched (next : α → List α) (cap : Option Nat) (hit : α → Bool) (start : α)
    (r : Bool × List α) : Prop where
  nodup : r.2.Nodup
  room : ∀ c∈cap, r.2.length ≤ c
  head : [start] <+: r.2
  reached : ∀ x∈r.2, Reach next start x
  stopped : r.1=true → ∃ x∈r.2, hit x = true
  all : r.1=false → isFull cap r.2 = true ∨ ∀ x, Reach next start x → x∈r.2 ∧ hit x = false

omit [DecidableEq α] in
theorem searching_start (hroom : ∀ c∈cap, 1 ≤ c) :
    Searching next cap hit start [start] [start] :=
  ⟨nodup_singleton start,hroom,List.prefix_rfl,Subset.refl _,
    fun _ hx => mem_singleton.mp hx ▸ .refl,.inr fun _ hx hnot => absurd hx hnot⟩

omit [DecidableEq α] in
theorem Searching.searched (h : Searching next cap hit start found []) :
    Searched next cap hit start (false, found) := by
  refine ⟨h.nodup,h.room,h.head,h.reached,nofun,fun _ => h.done.imp_right fun hdone x hx => ?_⟩
  have hmem : x∈found := by
    induction hx with
    | refl => exact h.head.subset mem_cons_self
    | tail _ hstep ih => exact (hdone _ ih not_mem_nil).2 hstep
  exact ⟨hmem,(hdone x hmem not_mem_nil).1⟩

/-- As many rounds as there are things to reach are enough. -/
theorem search_spec {rounds : Nat} {queue all : List α} (hall : ∀ x, Reach next start x → x∈all)
    (h : Searching next cap hit start found queue)
    (hrounds : queue.length+all.length ≤ rounds+found.length) :
    ∃ r, search next cap hit rounds found queue = some r ∧ Searched next cap hit start r := by
  induction rounds generalizing found queue with
  | zero =>
    have hle := (h.nodup.subperm fun x hx => hall x (h.reached x hx)).length_le
    obtain rfl : queue = [] := length_eq_zero_iff.mp (by omega)
    exact ⟨_,rfl,h.searched⟩
  | succ rounds ih =>
    cases queue with
    | nil => exact ⟨_,rfl,h.searched⟩
    | cons x queue =>
      have hx := h.queued mem_cons_self
      rw [search]
      split_ifs with hfull hhit
      · exact ⟨_,rfl,h.nodup,h.room,h.head,h.reached,nofun,fun _ => .inl hfull⟩
      · exact ⟨_,rfl,h.nodup,h.room,h.head,h.reached,fun _ => ⟨x,hx,hhit⟩,nofun⟩
      · obtain ⟨new,heq,hnew,hroom,hsub,hdone⟩ := discover_spec (next x) queue h.nodup h.room
        rw [heq]
        apply ih ⟨hnew,hroom,h.head.trans (List.prefix_append _ _),?_,?_,?_⟩
        · simp only [length_append,length_cons] at hrounds ⊢
          omega
        · exact append_subset.mpr
            ⟨subset_append_of_subset_left _ (cons_subset.mp h.queued).2,subset_append_right _ _⟩
        · intro y hy
          rcases mem_append.mp hy with hy | hy
          · exact h.reached y hy
          · exact (h.reached x hx).tail (hsub hy)
        · -- what is not in the queue any more is `x`, or was not in it before
          refine hdone.imp_right fun hnext y hy hqueue => ?_
          rw [mem_append,not_or] at hqueue
          have hy : y∈found := (mem_append.mp hy).resolve_right hqueue.2
          by_cases heq : y=x
          · exact heq ▸ ⟨Bool.eq_false_iff.mpr hhit,hnext⟩
          · obtain ⟨hmiss,hclosed⟩ := h.done.resolve_left hfull y hy (by simp [heq,hqueue.1])
            exact ⟨hmiss,subset_append_of_subset_left _ hclosed⟩

end Daimonos.Framework
