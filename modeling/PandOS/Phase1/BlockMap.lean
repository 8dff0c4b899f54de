import PandOS.Phase1.AslLinks

/-!
# Phase 1 — the ASL as a map

The calls to the ASL as a machine, and the abstract map that they implement: from the address of a
semaphore to the processes blocked on it, by priority and in the order of their arrivals.
`Refines` relates the two, `Refines.call` is what one call does, and `map_of_run` what a run of
calls does: unless a call finds no descriptor left, everything returned is what the map returns.
-/

namespace PandOS

/-- A call to the ASL, or a field that is given to a PCB. -/
inductive AslCall (ι : Type) where
  | insertBlocked (semAdd : Word) (p : ι)
  | removeBlocked (semAdd : Word)
  | outBlocked (p : ι)
  | headBlocked (semAdd : Word)
  | blockedCount (semAdd : Word)
  | setSemAdd (p : ι) (semAdd : Word)
  | setPrio (p : ι) (prio : ℤ)

/-- What a call returns. -/
inductive AslResult (ι : Type) where
  | bool (full : Bool)
  | pcb (p : Option ι)
  | count (n : ℕ)
  | nothing
  deriving DecidableEq

/-! ### The calls -/

namespace AslLinks

section
variable {ι : Type} [DecidableEq ι] [Fintype ι]

/-- What a call returns, and what it leaves. -/
def call (m : AslLinks ι) : AslCall ι → Option (AslResult ι × AslLinks ι)
  | .insertBlocked semAdd p => (m.insertBlocked semAdd p).map fun (b, t) => (.bool b, t)
  | .removeBlocked semAdd => (m.removeBlocked semAdd).map fun (q, t) => (.pcb q, t)
  | .outBlocked p => (m.outBlocked p).map fun (q, t) => (.pcb q, t)
  | .headBlocked semAdd => (m.headBlocked semAdd).map fun q => (.pcb q, m)
  | .blockedCount semAdd => (m.blockedCount semAdd).map fun n => (.count n, m)
  | .setSemAdd p semAdd =>
      some (.nothing, { m with p_semAdd := Function.update m.p_semAdd p semAdd })
  | .setPrio p prio => some (.nothing, { m with p_prio := Function.update m.p_prio p prio })

/-- What a call leaves. -/
def step (m : AslLinks ι) (e : AslCall ι) : Option (AslLinks ι) := (m.call e).map Prod.snd

/-- What a call returns. -/
def returned (m : AslLinks ι) (e : AslCall ι) : Option (AslResult ι) := (m.call e).map Prod.fst

/-- The processes blocked on the semaphore at `semAdd`, as the pointers have them. -/
def blocked (m : AslLinks ι) (semAdd : Word) : Option (List ι) := do
  match ← m.findSemd semAdd with
  | none => return []
  | some semd => m.p_list.elems semd

/-- The PCB is in no process queue. -/
def Unqueued (m : AslLinks ι) (p : ι) : Prop :=
  ∀ d ∈ (m.s_link.elems .semd_h).getD [], p ∉ (m.p_list.elems d).getD []

instance (m : AslLinks ι) (p : ι) : Decidable (m.Unqueued p) :=
  inferInstanceAs (Decidable (∀ _ ∈ _, _))

/-- A PCB is in no process queue when it is inserted, and its priority does not change while it is
in one. -/
def Proper (m : AslLinks ι) : AslCall ι → Prop
  | .insertBlocked _ p | .setPrio p _ => m.Unqueued p
  | _ => True

instance (m : AslLinks ι) : (e : AslCall ι) → Decidable (m.Proper e)
  | .insertBlocked _ p | .setPrio p _ => inferInstanceAs (Decidable (m.Unqueued p))
  | .removeBlocked _ | .outBlocked _ | .headBlocked _ | .blockedCount _ | .setSemAdd _ _ =>
      .isTrue trivial

end

end AslLinks

/-! ### The map -/

/-- From the address of a semaphore to the processes blocked on it. -/
structure BlockMap (ι : Type) where
  queue : Word → List ι
  p_semAdd : ι → Word
  p_prio : ι → ℤ

namespace BlockMap

variable {ι : Type}

/-- The queue of the semaphore is written. -/
def setQueue (b : BlockMap ι) (semAdd : Word) (xs : List ι) : BlockMap ι :=
  { b with queue := Function.update b.queue semAdd xs }

theorem setQueue_self (b : BlockMap ι) (semAdd : Word) :
    b.setQueue semAdd (b.queue semAdd) = b := by
  rw [setQueue, Function.update_eq_self]

/-- Nobody is blocked. -/
def empty (m : AslLinks ι) : BlockMap ι := ⟨fun _ => [], m.p_semAdd, m.p_prio⟩

/-- The semaphore whose queue a call may change. -/
def key (b : BlockMap ι) : AslCall ι → Option Word
  | .insertBlocked semAdd _ | .removeBlocked semAdd => some semAdd
  | .outBlocked p => some (b.p_semAdd p)
  | _ => none

variable [DecidableEq ι]

/-- The field `p_semAdd` of `p` is written. -/
def setSemAdd (b : BlockMap ι) (p : ι) (semAdd : Word) : BlockMap ι :=
  { b with p_semAdd := Function.update b.p_semAdd p semAdd }

/-- What a call returns, and what it leaves: there is always a queue for the semaphore. -/
def call (b : BlockMap ι) : AslCall ι → AslResult ι × BlockMap ι
  | .insertBlocked semAdd p => (.bool false,
      (b.setQueue semAdd (enqueue b.p_prio (b.queue semAdd) p)).setSemAdd p semAdd)
  | .removeBlocked semAdd =>
      (.pcb (b.queue semAdd).head?, b.setQueue semAdd (b.queue semAdd).tail)
  | .outBlocked p =>
      if p ∈ b.queue (b.p_semAdd p) then
        (.pcb (some p), b.setQueue (b.p_semAdd p) ((b.queue (b.p_semAdd p)).erase p))
      else (.pcb none, b)
  | .headBlocked semAdd => (.pcb (b.queue semAdd).head?, b)
  | .blockedCount semAdd => (.count (b.queue semAdd).length, b)
  | .setSemAdd p semAdd => (.nothing, b.setSemAdd p semAdd)
  | .setPrio p prio => (.nothing, { b with p_prio := Function.update b.p_prio p prio })

/-- A call changes one queue at most. -/
theorem call_queue_of_ne {b : BlockMap ι} {e : AslCall ι} {semAdd : Word}
    (h : b.key e ≠ some semAdd) : (b.call e).2.queue semAdd = b.queue semAdd := by
  have hne : ∀ a, b.key e = some a → semAdd ≠ a := by
    rintro a ha rfl
    exact h ha
  cases e with
  | insertBlocked a p => exact Function.update_of_ne (hne a rfl) ..
  | removeBlocked a => exact Function.update_of_ne (hne a rfl) ..
  | outBlocked p =>
      simp only [call]
      split
      · exact Function.update_of_ne (hne _ rfl) ..
      · rfl
  | headBlocked | blockedCount | setSemAdd | setPrio => rfl

end BlockMap

namespace AslLinks

variable {ι : Type} {m t : AslLinks ι} {free free' act act' : List SemdId}
  {l l' : SemdId → Option (List ι)} {b b' : BlockMap ι} {semAdd : Word} {d : SemdId} {p q : ι}
  {xs : List ι} {e : AslCall ι}

/-! ### The lists hold the map -/

/-- The queues of the active descriptors are those of the map, and the others of the map are
empty. -/
structure MapsTo (m : AslLinks ι) (free act : List SemdId) (l : SemdId → Option (List ι))
    (b : BlockMap ι) : Prop where
  holds : m.Holds free act l
  queue : ∀ d ∈ act, l d = some (b.queue (m.s_key d))
  absent : ∀ semAdd, (∀ d ∈ act, m.s_key d ≠ semAdd) → b.queue semAdd = []
  p_semAdd : m.p_semAdd = b.p_semAdd
  p_prio : m.p_prio = b.p_prio

/-- The pointers refine the map. -/
def Refines (m : AslLinks ι) (b : BlockMap ι) : Prop := ∃ free act l, MapsTo m free act l b

/-- The queue of one semaphore changes; its descriptor may come or go. -/
theorem MapsTo.update (h : MapsTo m free act l b) (h' : t.Holds free' act' l')
    (hto : ∀ c ∈ act, m.s_key c ≠ semAdd → c ∈ act' ∧ t.s_key c = m.s_key c)
    (hat : ∀ c ∈ act', t.s_key c = semAdd → l' c = some xs)
    (hother : ∀ c ∈ act', t.s_key c ≠ semAdd → c ∈ act ∧ t.s_key c = m.s_key c ∧ l' c = l c)
    (habs : (∀ c ∈ act', t.s_key c ≠ semAdd) → xs = [])
    (hq : b'.queue = Function.update b.queue semAdd xs) (hs : t.p_semAdd = b'.p_semAdd)
    (hp : t.p_prio = b'.p_prio) : MapsTo t free' act' l' b' where
  holds := h'
  queue c hc := by
    rw [hq]
    by_cases hk : t.s_key c = semAdd
    · rw [hk, Function.update_self]
      exact hat c hc hk
    · obtain ⟨hca, hkey, hl⟩ := hother c hc hk
      rw [Function.update_of_ne hk, hl, hkey]
      exact h.queue c hca
  absent a ha := by
    rw [hq]
    by_cases hsem : a = semAdd
    · rw [hsem] at ha ⊢
      rw [Function.update_self]
      exact habs ha
    · rw [Function.update_of_ne hsem]
      refine h.absent a fun c hc hk => ?_
      obtain ⟨hc', hkey⟩ := hto c hc (hk.symm ▸ hsem)
      exact ha c hc' (hkey.trans hk)
  p_semAdd := hs
  p_prio := hp

/-- The queue of an active descriptor changes. -/
theorem MapsTo.setQueue (h : MapsTo m free act l b)
    (h' : t.Holds free act (Function.update l d (some xs))) (hd : d ∈ act)
    (hk : t.s_key = m.s_key) (hq : b'.queue = Function.update b.queue (m.s_key d) xs)
    (hs : t.p_semAdd = b'.p_semAdd) (hp : t.p_prio = b'.p_prio) :
    MapsTo t free act (Function.update l d (some xs)) b' := by
  refine h.update h' (fun c hc _ => ⟨hc, congrFun hk c⟩) ?_ ?_ ?_ hq hs hp
  · intro c hc hkc
    rw [hk] at hkc
    rw [h.holds.keys c hc d hd hkc, Function.update_self]
  · intro c hc hkc
    refine ⟨hc, congrFun hk c, Function.update_of_ne ?_ ..⟩
    rintro rfl
    exact hkc (congrFun hk c)
  · intro hno
    exact absurd (congrFun hk d) (hno d hd)

/-- A queue that is not empty is that of an active descriptor. -/
theorem MapsTo.slot (h : MapsTo m free act l b) (semAdd : Word) : b.queue semAdd = [] ∨
    ∃ d ∈ act, m.s_key d = semAdd ∧ l d = some (b.queue semAdd) := by
  by_cases hno : ∀ d ∈ act, m.s_key d ≠ semAdd
  · exact .inl (h.absent semAdd hno)
  · push Not at hno
    obtain ⟨d, hd, rfl⟩ := hno
    exact .inr ⟨d, hd, rfl, h.queue d hd⟩

theorem Refines.nodup (h : m.Refines b) (semAdd : Word) : (b.queue semAdd).Nodup := by
  obtain ⟨free, act, l, h⟩ := h
  rcases h.slot semAdd with hnil | ⟨d, hd, -, hl⟩
  · rw [hnil]
    exact .nil
  · exact h.holds.procs.nodup hl

theorem Refines.p_prio (h : m.Refines b) : m.p_prio = b.p_prio := by
  obtain ⟨free, act, l, h⟩ := h
  exact h.p_prio

theorem Refines.p_semAdd (h : m.Refines b) : m.p_semAdd = b.p_semAdd := by
  obtain ⟨free, act, l, h⟩ := h
  exact h.p_semAdd

theorem Refines.init (m : AslLinks ι) : m.initASL.Refines (BlockMap.empty m) :=
  ⟨_, _, _, Holds.initASL m, nofun, fun _ _ => rfl, rfl, rfl⟩

section
variable [Fintype ι]

/-- A PCB is in no queue of the ASL when it is in no queue at all. -/
theorem Holds.unqueued_iff (h : m.Holds free act l) :
    m.Unqueued p ↔ Links.Out l p := by
  unfold Unqueued
  rw [h.semds.elems semds_semd_h]
  constructor
  · intro hp c ys hc hpy
    by_cases hca : c ∈ act
    · exact hp c hca (by rwa [h.procs.elems hc])
    · have hidle := h.idle c hca
      rw [hc] at hidle
      exact List.ne_nil_of_mem hpy hidle
  · intro hp c hca hpy
    obtain ⟨ys, hys⟩ := Option.ne_none_iff_exists'.mp (h.made c hca)
    rw [h.procs.elems hys] at hpy
    exact hp c ys hys hpy

theorem Holds.blocked_eq (h : m.Holds free act l) (hd : d ∈ act) (hl : l d = some xs) :
    m.blocked (m.s_key d) = some xs := by
  rcases h.findSemd_cases (m.s_key d) with ⟨c, ys, hc, hk, hy, hf⟩ | ⟨hno, -⟩
  · have hcd := h.keys c hc d hd hk
    subst hcd
    simp [blocked, hf, h.procs.elems hl]
  · exact absurd rfl (hno d hd)

theorem Holds.blocked_nil (h : m.Holds free act l) (hno : ∀ d ∈ act, m.s_key d ≠ semAdd) :
    m.blocked semAdd = some [] := by
  rcases h.findSemd_cases semAdd with ⟨c, ys, hc, hk, -⟩ | ⟨-, hf⟩
  · exact absurd hk (hno c hc)
  · simp [blocked, hf]

theorem Refines.blocked (h : m.Refines b) (semAdd : Word) :
    m.blocked semAdd = some (b.queue semAdd) := by
  obtain ⟨free, act, l, h⟩ := h
  by_cases hno : ∀ d ∈ act, m.s_key d ≠ semAdd
  · rw [h.holds.blocked_nil hno, h.absent semAdd hno]
  · push Not at hno
    obtain ⟨d, hd, rfl⟩ := hno
    exact h.holds.blocked_eq hd (h.queue d hd)

/-- A PCB that is in no queue is in none of the map's. -/
theorem Refines.notMem (h : m.Refines b) (hp : m.Unqueued p) (semAdd : Word) :
    p ∉ b.queue semAdd := by
  obtain ⟨free, act, l, h⟩ := h
  rcases h.slot semAdd with hnil | ⟨d, hd, -, hl⟩
  · rw [hnil]
    exact List.not_mem_nil
  · exact h.holds.unqueued_iff.mp hp d _ hl

/-! ### What a call does -/

variable [DecidableEq ι]

/-- `insertBlocked`, of a PCB that is in no queue: the map's, unless no descriptor is left. -/
theorem MapsTo.insertBlocked (h : MapsTo m free act l b) (hp : m.Unqueued p) (semAdd : Word) :
    ((∀ d ∈ act, m.s_key d ≠ semAdd) ∧ free = [] ∧ m.insertBlocked semAdd p = some (true, m)) ∨
    ∃ t, m.insertBlocked semAdd p = some (false, t) ∧
      t.Refines (b.call (.insertBlocked semAdd p)).2 := by
  have hout := h.holds.unqueued_iff.mp hp
  rcases h.holds.insertBlocked_cases hout semAdd with ⟨d, xs, lk, hd, rfl, hl, hr, hh⟩ | hfull |
    ⟨hno, d, rest, sk, lk, rfl, hr, hh⟩
  · obtain rfl := Option.some.inj (hl.symm.trans (h.queue d hd))
    refine .inr ⟨_, hr, _, _, _, h.setQueue hh hd rfl ?_ ?_ h.p_prio⟩
    · rw [h.p_prio]
      rfl
    · simp only [BlockMap.call, BlockMap.setSemAdd, BlockMap.setQueue, h.p_semAdd]
  · exact .inl hfull
  · right
    have hact := h.holds.first_notMem
    have hkey : ∀ c ∈ act, Function.update m.s_key d semAdd c = m.s_key c := fun c hc =>
      update_key hact hc
    have hq : (b.call (.insertBlocked semAdd p)).2.queue = Function.update b.queue semAdd [p] := by
      show Function.update b.queue semAdd (enqueue b.p_prio (b.queue semAdd) p) = _
      rw [h.absent semAdd hno]
      rfl
    refine ⟨_, hr, _, _, _, h.update hh ?_ ?_ ?_ ?_ hq ?_ h.p_prio⟩
    · intro c hc _
      exact ⟨linkAt_perm.mem_iff.mpr (List.mem_cons_of_mem d hc), hkey c hc⟩
    · intro c hc hk
      rcases List.mem_cons.mp (linkAt_perm.mem_iff.mp hc) with rfl | hca
      · exact Function.update_self ..
      · exact absurd ((hkey c hca).symm.trans hk) (hno c hca)
    · intro c hc hk
      rcases List.mem_cons.mp (linkAt_perm.mem_iff.mp hc) with rfl | hca
      · exact absurd (Function.update_self ..) hk
      · refine ⟨hca, hkey c hca, Function.update_of_ne ?_ ..⟩
        rintro rfl
        exact hact hca
    · intro hcs
      exact absurd (Function.update_self ..) (hcs d (linkAt_perm.mem_iff.mpr List.mem_cons_self))
    · simp only [BlockMap.call, BlockMap.setSemAdd, BlockMap.setQueue, h.p_semAdd]

/-- `removeBlocked` takes the head of the queue of the map. -/
theorem MapsTo.removeBlocked (h : MapsTo m free act l b) (semAdd : Word) :
    ∃ t, m.removeBlocked semAdd = some ((b.queue semAdd).head?, t) ∧
      t.Refines (b.setQueue semAdd (b.queue semAdd).tail) := by
  rcases h.holds.removeBlocked_cases semAdd with ⟨hno, hr⟩ | ⟨d, xs, sk, lk, hd, rfl, hl, hr, hh⟩
  · have hq := h.absent semAdd hno
    refine ⟨m, by rw [hr, hq]; rfl, ?_⟩
    rw [show (b.queue semAdd).tail = b.queue semAdd by rw [hq]; rfl, BlockMap.setQueue_self]
    exact ⟨free, act, l, h⟩
  · obtain rfl := Option.some.inj (hl.symm.trans (h.queue d hd))
    by_cases hx : (b.queue (m.s_key d)).tail = []
    · have hna : act.Nodup := h.holds.semds.nodup semds_semd_h
      rw [if_pos hx, if_pos hx] at hh
      refine ⟨_, hr, _, _, _, h.update hh ?_ ?_ ?_ (fun _ => hx) rfl h.p_semAdd h.p_prio⟩
      · intro c hc hk
        exact ⟨(List.mem_erase_of_ne fun he => hk (by rw [he])).mpr hc, rfl⟩
      · intro c hc hk
        have hcd := h.holds.keys c (List.mem_of_mem_erase hc) d hd hk
        exact absurd (hcd ▸ hc) hna.not_mem_erase
      · intro c hc hk
        exact ⟨List.mem_of_mem_erase hc, rfl, Function.update_of_ne (fun he => hk (by rw [he])) ..⟩
    · rw [if_neg hx, if_neg hx] at hh
      exact ⟨_, hr, _, _, _, h.setQueue hh hd rfl rfl h.p_semAdd h.p_prio⟩

/-- `outBlocked` takes `p` out of the queue of the map, if it is there. -/
theorem MapsTo.outBlocked (h : MapsTo m free act l b) (p : ι) :
    ∃ t, m.outBlocked p = some (if p ∈ b.queue (b.p_semAdd p) then some p else none, t) ∧
      t.Refines (b.call (.outBlocked p)).2 := by
  have hsame : p ∉ b.queue (b.p_semAdd p) → m.Refines (b.call (.outBlocked p)).2 := by
    intro hp
    simp only [BlockMap.call, if_neg hp]
    exact ⟨free, act, l, h⟩
  rcases h.holds.outBlocked_cases p with ⟨hno, hr⟩ | ⟨d, xs, hd, hk, hl, hcase⟩
  · have hp : p ∉ b.queue (b.p_semAdd p) := by
      rw [← h.p_semAdd, h.absent _ hno]
      exact List.not_mem_nil
    exact ⟨m, by rw [hr, if_neg hp], hsame hp⟩
  · obtain rfl := Option.some.inj (hl.symm.trans (h.queue d hd))
    have hk : m.s_key d = b.p_semAdd p := by rw [hk, h.p_semAdd]
    rw [hk] at hcase
    rcases hcase with ⟨hp, hr⟩ | ⟨hp, lk, hr, hh⟩
    · exact ⟨m, by rw [hr, if_neg hp], hsame hp⟩
    · refine ⟨_, by rw [hr, if_pos hp], _, _, _, h.setQueue hh hd rfl ?_ ?_ ?_⟩
      · simp only [BlockMap.call, if_pos hp, BlockMap.setQueue, hk]
      · simp only [BlockMap.call, if_pos hp]
        exact h.p_semAdd
      · simp only [BlockMap.call, if_pos hp]
        exact h.p_prio

theorem MapsTo.read (h : MapsTo m free act l b) (semAdd : Word) :
    m.headBlocked semAdd = some (b.queue semAdd).head? ∧
      m.blockedCount semAdd = some (b.queue semAdd).length := by
  rcases h.holds.read_cases semAdd with ⟨hno, hr⟩ | ⟨d, xs, hd, rfl, hl, hr⟩
  · rw [h.absent semAdd hno]
    exact hr
  · obtain rfl := Option.some.inj (hl.symm.trans (h.queue d hd))
    exact hr

/-- **One call**: what it returns and leaves is what the map returns and leaves, or it is an
`insertBlocked` that finds no descriptor. -/
theorem MapsTo.call (h : MapsTo m free act l b) (hp : m.Proper e) :
    (∃ semAdd p, e = .insertBlocked semAdd p ∧ (∀ d ∈ act, m.s_key d ≠ semAdd) ∧ free = [] ∧
      m.call e = some (.bool true, m)) ∨
    ∃ t, m.call e = some ((b.call e).1, t) ∧ t.Refines (b.call e).2 := by
  cases e with
  | insertBlocked semAdd p =>
      rcases h.insertBlocked hp semAdd with ⟨hno, hf, hr⟩ | ⟨t, hr, ht⟩
      · exact .inl ⟨semAdd, p, rfl, hno, hf, by simp [AslLinks.call, hr]⟩
      · exact .inr ⟨t, by simp [AslLinks.call, hr, BlockMap.call], ht⟩
  | removeBlocked semAdd =>
      obtain ⟨t, hr, ht⟩ := h.removeBlocked semAdd
      exact .inr ⟨t, by simp [AslLinks.call, hr, BlockMap.call], ht⟩
  | outBlocked p =>
      obtain ⟨t, hr, ht⟩ := h.outBlocked p
      refine .inr ⟨t, ?_, ht⟩
      by_cases hpq : p ∈ b.queue (b.p_semAdd p) <;> simp [AslLinks.call, hr, BlockMap.call, hpq]
  | headBlocked semAdd =>
      exact .inr ⟨m, by simp [AslLinks.call, (h.read semAdd).1, BlockMap.call], free, act, l, h⟩
  | blockedCount semAdd =>
      exact .inr ⟨m, by simp [AslLinks.call, (h.read semAdd).2, BlockMap.call], free, act, l, h⟩
  | setSemAdd p semAdd =>
      refine .inr ⟨_, rfl, free, act, l, ?_⟩
      have hs : Function.update m.p_semAdd p semAdd = Function.update b.p_semAdd p semAdd := by
        rw [h.p_semAdd]
      exact ⟨⟨h.holds.semds, h.holds.procs, h.holds.all, h.holds.keys, h.holds.made,
        h.holds.idle⟩, h.queue, h.absent, hs, h.p_prio⟩
  | setPrio p prio =>
      refine .inr ⟨_, rfl, free, act, l, ?_⟩
      have hv : Function.update m.p_prio p prio = Function.update b.p_prio p prio := by
        rw [h.p_prio]
      exact ⟨⟨h.holds.semds, h.holds.procs, h.holds.all, h.holds.keys, h.holds.made,
        h.holds.idle⟩, h.queue, h.absent, h.p_semAdd, hv⟩

/-- A call that does not find the descriptors used up. -/
theorem Refines.call (h : m.Refines b) (hp : m.Proper e)
    (hr : m.returned e ≠ some (.bool true)) :
    ∃ t, m.call e = some ((b.call e).1, t) ∧ t.Refines (b.call e).2 := by
  obtain ⟨free, act, l, h⟩ := h
  rcases h.call hp with ⟨semAdd, p, -, -, -, hfull⟩ | ht
  · exact absurd (by simp [returned, hfull]) hr
  · exact ht

theorem Refines.proper_step (h : m.Refines b) (hp : m.Proper e) (hs : m.step e = some t) :
    ∃ b, t.Refines b := by
  obtain ⟨free, act, l, h⟩ := h
  rw [AslLinks.step] at hs
  rcases h.call hp with ⟨semAdd, p, -, -, -, hr⟩ | ⟨u, hr, hu⟩
  all_goals
    rw [hr] at hs
    obtain rfl := Option.some.inj hs
  · exact ⟨b, free, act, l, h⟩
  · exact ⟨_, hu⟩

/-! ### Runs -/

/-- The history of a run: what the map holds. -/
def follow (_ : AslLinks ι) (e : AslCall ι) (_ : AslLinks ι) (b : BlockMap ι) : BlockMap ι :=
  (b.call e).2

/-- A proper call, and no `insertBlocked` returns `TRUE`. -/
def Served (x : AslLinks ι × BlockMap ι) (e : AslCall ι) : Prop :=
  x.1.Proper e ∧ x.1.returned e ≠ some (.bool true)

instance (x : AslLinks ι × BlockMap ι) (e : AslCall ι) : Decidable (Served x e) :=
  inferInstanceAs (Decidable (_ ∧ _))

theorem Refines.step (h : m.Refines b) (hc : Served (m, b) e) (hs : m.step e = some t) :
    t.Refines (b.call e).2 := by
  obtain ⟨u, hu, href⟩ := h.call hc.1 hc.2
  rw [AslLinks.step, hu] at hs
  obtain rfl := Option.some.inj hs
  exact href

/-- The ASL is the map `b`. -/
structure IsMap (m : AslLinks ι) (b : BlockMap ι) : Prop where
  blocked : ∀ semAdd, m.blocked semAdd = some (b.queue semAdd)
  p_semAdd : m.p_semAdd = b.p_semAdd
  /-- A call ends, returns what the map returns and leaves what the map leaves. -/
  call : ∀ e, Served (m, b) e → ∃ t, m.call e = some ((b.call e).1, t) ∧
    ∀ semAdd, t.blocked semAdd = some ((b.call e).2.queue semAdd)
  /-- The queues of the other semaphores do not change. -/
  other : ∀ e t, Served (m, b) e → m.step e = some t → ∀ semAdd, b.key e ≠ some semAdd →
    t.blocked semAdd = m.blocked semAdd
  noted : ∀ semAdd p t, Served (m, b) (.insertBlocked semAdd p) →
    m.step (.insertBlocked semAdd p) = some t → t.p_semAdd p = semAdd

theorem Refines.isMap (h : m.Refines b) : IsMap m b := by
  refine ⟨h.blocked, h.p_semAdd, fun e hc => ?_, fun e t hc hs a ha => ?_, fun a p t hc hs => ?_⟩
  · obtain ⟨t, ht, href⟩ := h.call hc.1 hc.2
    exact ⟨t, ht, href.blocked⟩
  · rw [(h.step hc hs).blocked, h.blocked, BlockMap.call_queue_of_ne ha]
  · rw [(h.step hc hs).p_semAdd]
    exact Function.update_self ..

/-- **The ASL is a map from addresses to queues**, after `initASL` and any calls none of which
finds the descriptors used up. -/
theorem map_of_run {m₀ : AslLinks ι} {es : List (AslCall ι)}
    (hr : Run (record step follow) Served (m₀.initASL, BlockMap.empty m₀) es (m, b)) :
    IsMap m b := by
  have h : m.Refines b := by
    refine hr.inv (I := fun x => x.1.Refines x.2) (Refines.init m₀) fun x e y hx hc hs => ?_
    obtain ⟨hst, hnote⟩ := record_eq_some hs
    rw [hnote]
    exact hx.step hc hst
  exact h.isMap

/-- Some memory, before `initASL`. -/
def memory (p_prio : ι → ℤ) : AslLinks ι := ⟨⟨id, id⟩, fun _ => 0, ⟨id, id⟩, fun _ => 0, p_prio⟩

/-- Two semaphores share the descriptors, and one of the queues is emptied. -/
theorem map_of_run_two : ∃ (m : AslLinks (Fin 3)) (b : BlockMap (Fin 3)),
    Run (record step follow) Served
      ((memory fun p => if p = 2 then 1 else 0).initASL,
        BlockMap.empty (memory fun p => if p = 2 then 1 else 0))
      [.insertBlocked 0x1000 0, .insertBlocked 0x2000 1, .insertBlocked 0x1000 2, .outBlocked 1]
      (m, b) ∧ b.queue 0x1000 = [2, 0] ∧ IsMap m b := by
  obtain ⟨⟨m, b⟩, hr, hb⟩ := exists_run (record step follow) Served
    (fun x => x.2.queue 0x1000 = [2, 0])
    (((memory fun p => if p = 2 then 1 else 0).initASL,
        BlockMap.empty (memory fun p => if p = 2 then 1 else 0)) :
      AslLinks (Fin 3) × BlockMap (Fin 3))
    [.insertBlocked 0x1000 0, .insertBlocked 0x2000 1, .insertBlocked 0x1000 2, .outBlocked 1]
    (by decide +kernel)
  exact ⟨m, b, hr, hb, map_of_run hr⟩

end

end AslLinks

end PandOS
