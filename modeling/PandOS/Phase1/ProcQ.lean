import PandOS.Headers.Listx
import PandOS.Lib.Priority
import PandOS.Lib.Run

/-!
# Phase 1 — process queues, as linked lists

The queue functions of `pcb.c` over the pointers of the `p_list` links, for any PCBs and any
number of queues.  A process queue is a stable priority queue (`queue_of_run`): in every run in
which a PCB is in no queue when it is inserted, and its priority does not change while it is in
one, a queue holds what was inserted and not taken out since, by priority and in the order of the
insertions.
-/

namespace PandOS

namespace Links

variable {κ ι : Type*} [DecidableEq κ] [DecidableEq ι] [Fintype ι]

/-- `mkEmptyProcQ`. -/
def mkEmptyProcQ (m : Links (Node κ ι)) (head : κ) : Links (Node κ ι) :=
  m.INIT_LIST_HEAD (.head head)

/-- `emptyProcQ`. -/
def emptyProcQ (m : Links (Node κ ι)) (head : κ) : Prop := m.listEmpty (.head head)

instance (m : Links (Node κ ι)) (head : κ) : Decidable (m.emptyProcQ head) :=
  inferInstanceAs (Decidable (_ = _))

/-- `insertProcQ`: before the first process of smaller priority, else at the end. -/
def insertProcQ (m : Links (Node κ ι)) (p_prio : ι → ℤ) (head : κ) (p : ι) :
    Option (Links (Node κ ι)) :=
  if m.emptyProcQ head then some (m.listAdd (.link p) (.head head))
  else
    match m.listForEach head (fun (_ : Unit) current =>
        if p_prio p > p_prio current then none else some ()) () with
    | none => none
    | some (_, some pos) =>
        some (m.listAddBetween (.link p) (m.prev (.link pos)) (.link pos))
    | some (_, none) => some (m.listAddTail (.link p) (.head head))

/-- `headProcQ`: the first process, if there is one; it stays in the queue. -/
def headProcQ (m : Links (Node κ ι)) (head : κ) : Option ι :=
  if m.emptyProcQ head then none else containerOf (m.next (.head head))

/-- `removeProcQ`: the first process, if there is one, leaves the queue. -/
def removeProcQ (m : Links (Node κ ι)) (head : κ) : Option ι × Links (Node κ ι) :=
  if m.emptyProcQ head then (none, m)
  else (containerOf (m.next (.head head)), m.listDel (m.next (.head head)))

/-- `outProcQ`, of a pointer that may be NULL. -/
def outProcQ (m : Links (Node κ ι)) (head : κ) (p : Option ι) :
    Option (Option ι × Links (Node κ ι)) :=
  if m.emptyProcQ head then some (none, m)
  else
    match m.listForEach head (fun (_ : Unit) current =>
        if some current = p then none else some ()) () with
    | none => none
    | some (_, some pos) => some (some pos, m.listDel (.link pos))
    | some (_, none) => some (none, m)

/-! ### What they do to the queues -/

namespace Rings

variable {m : Links (Node κ ι)} {l : κ → Option (List ι)} {k : κ} {p : ι} {xs : List ι}
  {p_prio : ι → ℤ}

/-- `insertProcQ` inserts by priority, behind those of the same priority. -/
theorem insertProcQ (h : m.Rings l) (hk : l k = some xs) (hp : Out l p) (p_prio : ι → ℤ) :
    ∃ t, m.insertProcQ p_prio k p = some t ∧
      t.Rings (Function.update l k (some (enqueue p_prio xs p))) := by
  unfold Links.insertProcQ
  by_cases he : m.emptyProcQ k
  · have hnil : xs = [] := (h.listEmpty_iff hk).mp he
    rw [if_pos he, hnil]
    exact ⟨_, rfl, h.listAdd (hnil ▸ hk) hp⟩
  · rw [if_neg he, h.listForEach_find hk]
    cases hf : xs.find? fun current => p_prio p > p_prio current with
    | none =>
        have hle : ∀ x ∈ xs, p_prio p ≤ p_prio x := by simpa using List.find?_eq_none.mp hf
        rw [enqueue_last hle]
        exact ⟨_, rfl, h.listAddTail hk hp⟩
    | some pos =>
        obtain ⟨hlt, as, bs, rfl, hle⟩ := List.find?_eq_some_iff_append.mp hf
        rw [enqueue_before (by simpa using hle) (by simpa using hlt)]
        exact ⟨_, rfl, h.listAddBetween hk hp⟩

omit [Fintype ι] in
theorem headProcQ (h : m.Rings l) (hk : l k = some xs) : m.headProcQ k = xs.head? := by
  unfold Links.headProcQ
  split
  · rename_i he
    rw [(h.listEmpty_iff hk).mp he]
    rfl
  · exact h.containerOf_next hk

omit [Fintype ι] in
/-- `removeProcQ` returns the first process and leaves the others. -/
theorem removeProcQ (h : m.Rings l) (hk : l k = some xs) : (m.removeProcQ k).1 = xs.head? ∧
    (m.removeProcQ k).2.Rings (Function.update l k (some xs.tail)) := by
  unfold Links.removeProcQ
  cases xs with
  | nil =>
      have he : m.emptyProcQ k := (h.listEmpty_iff hk).mpr rfl
      rw [if_pos he, List.tail_nil, ← hk, Function.update_eq_self]
      exact ⟨rfl, h⟩
  | cons p xs =>
      have he : ¬ m.emptyProcQ k := fun he => List.cons_ne_nil p xs ((h.listEmpty_iff hk).mp he)
      have hnext : m.next (.head k) = .link p := h.head_next hk
      rw [if_neg he, hnext]
      have hd := h.listDel hk List.mem_cons_self
      rw [List.erase_cons_head] at hd
      exact ⟨rfl, hd⟩

/-- The process is in the queue. -/
theorem outProcQ_mem (h : m.Rings l) (hk : l k = some xs) (hp : p ∈ xs) :
    ∃ t, m.outProcQ k (some p) = some (some p, t) ∧
      t.Rings (Function.update l k (some (xs.erase p))) := by
  have he : ¬ m.emptyProcQ k := fun he => List.ne_nil_of_mem hp ((h.listEmpty_iff hk).mp he)
  have hf : (xs.find? fun current => some current = some p) = some p := by
    obtain ⟨y, hy⟩ := Option.isSome_iff_exists.mp
      (List.find?_isSome (p := fun current => some current = some p) |>.mpr ⟨p, hp, by simp⟩)
    rw [hy]
    simpa using List.find?_some hy
  unfold Links.outProcQ
  rw [if_neg he, h.listForEach_find hk, hf]
  exact ⟨_, rfl, h.listDel hk hp⟩

/-- It is not. -/
theorem outProcQ_notMem (h : m.Rings l) (hk : l k = some xs) {o : Option ι}
    (ho : ∀ p ∈ xs, some p ≠ o) : m.outProcQ k o = some (none, m) := by
  unfold Links.outProcQ
  split
  · rfl
  · have hf : (xs.find? fun current => some current = o) = none :=
      List.find?_eq_none.mpr fun x hx => by simpa using ho x hx
    rw [h.listForEach_find hk, hf]

end Rings

end Links

/-! ### Histories of calls -/

/-- The process queues with the heads `κ`, and the priorities of the PCBs. -/
structure ProcQs (κ ι : Type*) where
  links : Links (Node κ ι)
  p_prio : ι → ℤ

/-- A call, or a priority that is given to a PCB. -/
inductive QueueCall (κ ι : Type*) where
  | mkEmptyProcQ (head : κ)
  | insertProcQ (head : κ) (p : ι)
  | removeProcQ (head : κ)
  | outProcQ (head : κ) (p : ι)
  | setPrio (p : ι) (prio : ℤ)

namespace ProcQs

variable {κ ι : Type*} [DecidableEq κ] [DecidableEq ι]

section
variable [Fintype ι]

/-- What a call returns, and what it leaves. -/
def call (s : ProcQs κ ι) : QueueCall κ ι → Option (Option ι × ProcQs κ ι)
  | .mkEmptyProcQ head => some (none, { s with links := s.links.mkEmptyProcQ head })
  | .insertProcQ head p =>
      (s.links.insertProcQ s.p_prio head p).map fun m => (none, { s with links := m })
  | .removeProcQ head =>
      let (p, m) := s.links.removeProcQ head
      some (p, { s with links := m })
  | .outProcQ head p =>
      (s.links.outProcQ head (some p)).map fun (q, m) => (q, { s with links := m })
  | .setPrio p prio => some (none, { s with p_prio := Function.update s.p_prio p prio })

/-- What a call leaves. -/
def step (s : ProcQs κ ι) (e : QueueCall κ ι) : Option (ProcQs κ ι) := (s.call e).map Prod.snd

/-- The process a call returns, if any. -/
def returned (s : ProcQs κ ι) (e : QueueCall κ ι) : Option ι := (s.call e).bind Prod.fst

/-- The history: who was inserted and not taken out since, in the order of the insertions. -/
def arrive (s : ProcQs κ ι) (e : QueueCall κ ι) (_ : ProcQs κ ι) (a : κ → Option (List ι)) :
    κ → Option (List ι) :=
  match e with
  | .mkEmptyProcQ head => Function.update a head (some [])
  | .insertProcQ head p => Function.update a head ((a head).map (· ++ [p]))
  | .removeProcQ head | .outProcQ head _ =>
      match s.returned e with
      | some p => Function.update a head ((a head).map (·.erase p))
      | none => a
  | .setPrio _ _ => a

end

/-- `p` is in no queue. -/
def Absent (a : κ → Option (List ι)) (p : ι) : Prop := ∀ k, p ∉ (a k).getD []

instance [Fintype κ] (a : κ → Option (List ι)) (p : ι) : Decidable (Absent a p) :=
  inferInstanceAs (Decidable (∀ _, _))

/-- The calls are on queues made by `mkEmptyProcQ`, a PCB is in no queue when it is inserted, and
its priority does not change while it is in one. -/
def Proper (x : ProcQs κ ι × (κ → Option (List ι))) : QueueCall κ ι → Prop
  | .mkEmptyProcQ _ => True
  | .insertProcQ head p => x.2 head ≠ none ∧ Absent x.2 p
  | .removeProcQ head | .outProcQ head _ => x.2 head ≠ none
  | .setPrio p _ => Absent x.2 p

instance [Fintype κ] (x : ProcQs κ ι × (κ → Option (List ι))) (e : QueueCall κ ι) :
    Decidable (Proper x e) := by
  cases e <;> unfold Proper <;> infer_instance

/-! ### The queues hold what the history says -/

section
variable {κ ι : Type*} {s : ProcQs κ ι} {a l : κ → Option (List ι)} {k : κ} {p : ι}
  {as xs : List ι}

/-- The lists are the queues, and hold what the history says. -/
structure Holds (s : ProcQs κ ι) (l a : κ → Option (List ι)) : Prop where
  rings : s.links.Rings l
  made : ∀ k, l k = none ↔ a k = none
  stable : ∀ k as xs, a k = some as → l k = some xs → Stable s.p_prio as xs

/-- The queue of a history. -/
theorem Holds.queue (h : Holds s l a) (ha : a k = some as) :
    ∃ xs, l k = some xs ∧ Stable s.p_prio as xs ∧ xs.Nodup ∧ as.Nodup := by
  cases hl : l k with
  | none =>
      rw [(h.made k).mp hl] at ha
      cases ha
  | some xs =>
      have hs := h.stable k as xs ha hl
      exact ⟨xs, rfl, hs, h.rings.nodup hl, hs.perm.nodup_iff.mp (h.rings.nodup hl)⟩

theorem Holds.out (h : Holds s l a) (hp : Absent a p) : Links.Out l p := by
  intro c ys hc hpy
  cases ha : a c with
  | none =>
      rw [(h.made c).mpr ha] at hc
      cases hc
  | some as =>
      refine hp c ?_
      rw [ha]
      exact (h.stable c as ys ha hc).perm.mem_iff.mp hpy

/-- One queue is changed. -/
theorem Holds.update [DecidableEq κ] {m : Links (Node κ ι)} (h : Holds s l a)
    (hr : m.Rings (Function.update l k (some xs))) (hs : Stable s.p_prio as xs) :
    Holds { s with links := m } (Function.update l k (some xs)) (Function.update a k (some as)) := by
  refine ⟨hr, fun c => ?_, fun c bs ys hb hy => ?_⟩
  · by_cases hc : c = k
    · subst hc
      simp
    · rw [Function.update_of_ne hc, Function.update_of_ne hc]
      exact h.made c
  · by_cases hc : c = k
    · subst hc
      rw [Function.update_self] at hb hy
      obtain rfl := Option.some.inj hb
      obtain rfl := Option.some.inj hy
      exact hs
    · rw [Function.update_of_ne hc] at hb hy
      exact h.stable c bs ys hb hy

end

namespace Holds

variable [Fintype ι] {s t : ProcQs κ ι} {a l : κ → Option (List ι)} {k : κ} {p q : ι}
  {as xs : List ι} {e : QueueCall κ ι}

/-! ### What a call does -/

theorem call_insertProcQ (h : Holds s l a) (ha : a k = some as) (hl : l k = some xs)
    (hp : Absent a p) : ∃ t, s.call (.insertProcQ k p) = some (none, t) ∧
      Holds t (Function.update l k (some (enqueue s.p_prio xs p)))
        (Function.update a k (some (as ++ [p]))) := by
  obtain ⟨m, hm, hr⟩ := h.rings.insertProcQ hl (h.out hp) s.p_prio
  refine ⟨{ s with links := m }, ?_, h.update hr ((h.stable k as xs ha hl).enqueue p)⟩
  simp [call, hm]

theorem call_removeProcQ (h : Holds s l a) (ha : a k = some as) (hl : l k = some xs) :
    ∃ t, s.call (.removeProcQ k) = some (xs.head?, t) ∧
      Holds t (Function.update l k (some xs.tail)) (Function.update a k (some
        (xs.head?.elim as as.erase))) := by
  obtain ⟨hfst, hr⟩ := h.rings.removeProcQ hl
  obtain ⟨xs', hl', hs, hnx, hna⟩ := h.queue ha
  obtain rfl : xs = xs' := Option.some.inj (hl.symm.trans hl')
  refine ⟨{ s with links := (s.links.removeProcQ k).2 }, ?_, h.update hr ?_⟩
  · simp [call, hfst]
  · cases xs with
    | nil => exact hs
    | cons p xs => simpa using hs.erase hna p

theorem call_outProcQ_mem (h : Holds s l a) (ha : a k = some as) (hl : l k = some xs)
    (hp : p ∈ xs) : ∃ t, s.call (.outProcQ k p) = some (some p, t) ∧
      Holds t (Function.update l k (some (xs.erase p)))
        (Function.update a k (some (as.erase p))) := by
  obtain ⟨m, hm, hr⟩ := h.rings.outProcQ_mem hl hp
  obtain ⟨xs', hl', hs, hnx, hna⟩ := h.queue ha
  obtain rfl : xs = xs' := Option.some.inj (hl.symm.trans hl')
  refine ⟨{ s with links := m }, ?_, h.update hr (hs.erase hna p)⟩
  simp [call, hm]

theorem call_outProcQ_notMem (h : Holds s l a) (hl : l k = some xs) (hp : p ∉ xs) :
    s.call (.outProcQ k p) = some (none, s) := by
  have hm := h.rings.outProcQ_notMem hl (o := some p) fun q hq he =>
    hp (Option.some.inj he ▸ hq)
  simp [call, hm]

/-- **A proper call keeps the queues as the history says.** -/
theorem step (h : Holds s l a) (hp : Proper (s, a) e) (hst : s.step e = some t) :
    ∃ l', Holds t l' (arrive s e t a) := by
  cases e with
  | mkEmptyProcQ k =>
      cases hst
      exact ⟨_, h.update (h.rings.INIT_LIST_HEAD k) (.nil _)⟩
  | insertProcQ k p =>
      obtain ⟨hk, hp⟩ := hp
      obtain ⟨as, ha⟩ := Option.ne_none_iff_exists'.mp hk
      have ha : a k = some as := ha
      obtain ⟨xs, hl, -⟩ := h.queue ha
      obtain ⟨u, hu, hh⟩ := h.call_insertProcQ ha hl hp
      have harr : s.arrive (.insertProcQ k p) u a = Function.update a k (some (as ++ [p])) := by
        simp [arrive, ha]
      rw [ProcQs.step, hu] at hst
      cases hst
      exact ⟨_, harr ▸ hh⟩
  | removeProcQ k =>
      obtain ⟨as, ha⟩ := Option.ne_none_iff_exists'.mp hp
      have ha : a k = some as := ha
      obtain ⟨xs, hl, -⟩ := h.queue ha
      obtain ⟨u, hu, hh⟩ := h.call_removeProcQ ha hl
      -- the history loses the process that `removeProcQ` returns
      have hret : s.returned (.removeProcQ k) = xs.head? := by simp [returned, hu]
      have harr : s.arrive (.removeProcQ k) u a =
          Function.update a k (some (xs.head?.elim as as.erase)) := by
        cases xs with
        | nil => simp [arrive, hret, ← ha]
        | cons p xs => simp [arrive, hret, ha]
      rw [ProcQs.step, hu] at hst
      cases hst
      exact ⟨_, harr ▸ hh⟩
  | outProcQ k p =>
      obtain ⟨as, ha⟩ := Option.ne_none_iff_exists'.mp hp
      have ha : a k = some as := ha
      obtain ⟨xs, hl, -⟩ := h.queue ha
      by_cases hpx : p ∈ xs
      · obtain ⟨u, hu, hh⟩ := h.call_outProcQ_mem ha hl hpx
        have hret : s.returned (.outProcQ k p) = some p := by simp [returned, hu]
        have harr : s.arrive (.outProcQ k p) u a = Function.update a k (some (as.erase p)) := by
          simp [arrive, hret, ha]
        rw [ProcQs.step, hu] at hst
        cases hst
        exact ⟨_, harr ▸ hh⟩
      · have hu := h.call_outProcQ_notMem hl hpx
        have hret : s.returned (.outProcQ k p) = none := by simp [returned, hu]
        rw [ProcQs.step, hu] at hst
        cases hst
        have harr : s.arrive (.outProcQ k p) s a = a := by simp [arrive, hret]
        exact ⟨l, harr.symm ▸ h⟩
  | setPrio p v =>
      cases hst
      refine ⟨l, h.rings, h.made, fun c as xs ha hl => (h.stable c as xs ha hl).congr ?_⟩
      -- `p` is in no queue, so all of them are still in order
      intro x hx
      refine Function.update_of_ne ?_ ..
      rintro rfl
      refine hp c ?_
      rw [show (s, a).2 c = some as from ha]
      exact hx

end Holds

/-! ### A stable priority queue -/

variable [Fintype ι] {s : ProcQs κ ι} {a l : κ → Option (List ι)} {k : κ} {as xs : List ι}

/-- The queue `k`, in which `as` were inserted, in this order, and not taken out since, is `xs`:
what it holds, and what the calls do. -/
structure PriorityQueue (s : ProcQs κ ι) (a : κ → Option (List ι)) (k : κ) (as xs : List ι) :
    Prop where
  elems : s.links.elems k = some xs
  once : as.Nodup
  stable : Stable s.p_prio as xs
  insert : ∀ p, Absent a p → ∃ t, s.call (.insertProcQ k p) = some (none, t) ∧
    t.links.elems k = some (enqueue s.p_prio xs p)
  remove : ∃ t, s.call (.removeProcQ k) = some (xs.head?, t) ∧ t.links.elems k = some xs.tail
  null : xs.head? = none ↔ as = []
  /-- The one removed is the earliest of the highest priority. -/
  first : ∀ p, xs.head? = some p → ∃ bs cs, as = bs ++ p :: cs ∧
    (∀ q ∈ bs, s.p_prio q < s.p_prio p) ∧ ∀ q ∈ cs, s.p_prio q ≤ s.p_prio p
  /-- No later one of the same or a lower priority is removed before an earlier one. -/
  fair : ∀ bs p cs q, as = bs ++ p :: cs → q ∈ cs → s.p_prio q ≤ s.p_prio p →
    xs.head? ≠ some q
  out : ∀ p ∈ as, ∃ t, s.call (.outProcQ k p) = some (some p, t) ∧
    t.links.elems k = some (xs.erase p)
  absent : ∀ p, p ∉ as → s.call (.outProcQ k p) = some (none, s)

/-- The lists and the history make a priority queue of each queue. -/
theorem Holds.priorityQueue (h : Holds s l a) (ha : a k = some as) (hl : l k = some xs) :
    PriorityQueue s a k as xs := by
  obtain ⟨xs', hl', hs, hnx, hna⟩ := h.queue ha
  obtain rfl : xs = xs' := Option.some.inj (hl.symm.trans hl')
  have hfirst : ∀ p, xs.head? = some p → ∃ bs cs, as = bs ++ p :: cs ∧
      (∀ q ∈ bs, s.p_prio q < s.p_prio p) ∧ ∀ q ∈ cs, s.p_prio q ≤ s.p_prio p := by
    intro p hp
    obtain ⟨rest, rfl⟩ := List.head?_eq_some_iff.mp hp
    exact hs.head hna
  refine ⟨h.rings.elems hl, hna, hs, fun p hp => ?_, ?_, ?_, hfirst, ?_, fun p hp => ?_,
    fun p hp => ?_⟩
  · obtain ⟨t, ht, hh⟩ := h.call_insertProcQ ha hl hp
    exact ⟨t, ht, hh.rings.elems (Function.update_self ..)⟩
  · obtain ⟨t, ht, hh⟩ := h.call_removeProcQ ha hl
    exact ⟨t, ht, hh.rings.elems (Function.update_self ..)⟩
  · rw [List.head?_eq_none_iff]
    constructor
    · rintro rfl
      exact List.nil_perm.mp hs.perm
    · rintro rfl
      exact List.perm_nil.mp hs.perm
  · intro bs p cs q he hq hle hhead
    obtain ⟨rest, rfl⟩ := List.head?_eq_some_iff.mp hhead
    rw [he, List.append_cons] at hs hna
    exact absurd (hs.first hna hq (List.mem_append_right bs List.mem_cons_self)) (not_lt.mpr hle)
  · obtain ⟨t, ht, hh⟩ := h.call_outProcQ_mem ha hl (hs.perm.mem_iff.mpr hp)
    exact ⟨t, ht, hh.rings.elems (Function.update_self ..)⟩
  · exact h.call_outProcQ_notMem hl fun hpx => hp (hs.perm.mem_iff.mp hpx)

/-- **Process queues are stable priority queues**, in every state reached from any pointers and
priorities: with any number of queues, PCBs that go from one to another, and priorities that
change outside the queues. -/
theorem queue_of_run {s₀ : ProcQs κ ι} {es : List (QueueCall κ ι)}
    (hr : Run (record step arrive) Proper (s₀, fun _ => none) es (s, a)) (ha : a k = some as) :
    ∃ xs, PriorityQueue s a k as xs := by
  have h : ∃ l, Holds s l a := by
    refine hr.inv (I := fun x => ∃ l, Holds x.1 l x.2) ⟨fun _ => none, ⟨nofun, nofun⟩,
      fun _ => Iff.rfl, nofun⟩ fun x e y ⟨l, hl⟩ hp hs => ?_
    obtain ⟨hst, hnote⟩ := record_eq_some hs
    rw [hnote]
    exact hl.step hp hst
  obtain ⟨l, hl⟩ := h
  obtain ⟨xs, hx, -⟩ := hl.queue ha
  exact ⟨xs, hl.priorityQueue ha hx⟩

/-- Three PCBs, the last of which has a higher priority than the others. -/
theorem queue_of_run_three : ∃ (s : ProcQs Unit (Fin 3)) (a : Unit → Option (List (Fin 3))),
    Run (record step arrive) Proper (⟨⟨id, id⟩, fun p => if p = 2 then 1 else 0⟩, fun _ => none)
      [.mkEmptyProcQ (), .insertProcQ () 0, .insertProcQ () 1, .insertProcQ () 2] (s, a) ∧
    a () = some [0, 1, 2] ∧ ∃ xs, PriorityQueue s a () [0, 1, 2] xs := by
  obtain ⟨⟨s, a⟩, hr, ha⟩ := exists_run (record step arrive) Proper
    (fun x => x.2 () = some [0, 1, 2])
    ((⟨⟨id, id⟩, fun p => if p = 2 then 1 else 0⟩, fun _ => none) :
      ProcQs Unit (Fin 3) × (Unit → Option (List (Fin 3))))
    [.mkEmptyProcQ (), .insertProcQ () 0, .insertProcQ () 1, .insertProcQ () 2] (by decide +kernel)
  exact ⟨s, a, hr, ha, queue_of_run hr ha⟩

end ProcQs

end PandOS
