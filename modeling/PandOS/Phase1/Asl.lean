import PandOS.Phase1.Pcb

/-!
# Phase 1 — the active semaphore list

The data of `asl.c` and its functions.  A descriptor is an index of `semd_table`; `semd_h` is the
list of the active ones, `semdFree_h` the list of the free ones.  `insertBlocked` takes a
descriptor when the semaphore has none, `removeBlocked` gives it back when its queue is empty,
`outBlocked` does not.
-/

namespace PandOS

/-- A semaphore descriptor, as an index of `semd_table`. -/
abbrev SemdId := Fin maxProc

/-- `semd_t`. -/
structure Semd where
  s_key : Word
  s_procq : List PcbId

/-- The static data of `asl.c`. -/
structure Asl where
  semd_table : SemdId → Semd
  semdFree_h : List SemdId
  semd_h : List SemdId

/-- `initASL`: each descriptor is added at the head. -/
def initASL : Asl where
  semd_table _ := ⟨0, []⟩
  semdFree_h := (List.finRange maxProc).reverse
  semd_h := []

/-! ### The place of a new descriptor -/

/-- Where `insertBlocked` links a new descriptor `d`: `insert_pos` is the last one of the initial
stretch of keys that are not larger, or the list's head, and the descriptor goes before it. -/
def linkAt (key : SemdId → Word) (act : List SemdId) (semAdd : Word) (d : SemdId) : List SemdId :=
  match (act.takeWhile fun c => key c ≤ semAdd).length with
  | 0 => act ++ [d]
  | k + 1 => act.insertIdx k d

section
variable {key : SemdId → Word} {act : List SemdId} {semAdd : Word} {d : SemdId}

theorem insertIdx_length {as bs : List SemdId} :
    (as ++ bs).insertIdx as.length d = as ++ d :: bs := by
  induction as with
  | nil => rfl
  | cons x as ih => simp [ih]

/-- The two ways `linkAt` goes. -/
theorem linkAt_cases (key : SemdId → Word) (act : List SemdId) (semAdd : Word) (d : SemdId) :
    ((act.takeWhile fun c => key c ≤ semAdd) = [] ∧ linkAt key act semAdd d = act ++ [d]) ∨
    ∃ as x bs, (act.takeWhile fun c => key c ≤ semAdd) = as ++ [x] ∧ act = as ++ x :: bs ∧
      linkAt key act semAdd d = as ++ d :: x :: bs := by
  rcases List.eq_nil_or_concat' (act.takeWhile fun c => key c ≤ semAdd) with hw | ⟨as, x, hw⟩
  · refine .inl ⟨hw, ?_⟩
    rw [linkAt, hw]
    rfl
  · have hact : act = as ++ x :: act.dropWhile fun c => key c ≤ semAdd := by
      rw [List.append_cons, ← hw, List.takeWhile_append_dropWhile]
    refine .inr ⟨as, x, _, hw, hact, ?_⟩
    have hlen : (act.takeWhile fun c => key c ≤ semAdd).length = as.length + 1 := by simp [hw]
    rw [linkAt, hlen]
    show act.insertIdx as.length d = _
    nth_rewrite 1 [hact]
    exact insertIdx_length

theorem linkAt_perm : (linkAt key act semAdd d).Perm (d :: act) := by
  rcases linkAt_cases key act semAdd d with ⟨-, he⟩ | ⟨as, x, bs, -, hact, he⟩
  · rw [he]
    exact List.perm_append_singleton d act
  · rw [he, hact]
    exact List.perm_middle

theorem linkAt_congr {key key' : SemdId → Word} (h : ∀ c ∈ act, key' c = key c) :
    linkAt key' act semAdd d = linkAt key act semAdd d := by
  have hw : (act.takeWhile fun c => key' c ≤ semAdd) = act.takeWhile fun c => key c ≤ semAdd := by
    induction act with
    | nil => rfl
    | cons c act ih => simp [List.takeWhile_cons, h c (by simp), ih fun x hx => h x (by simp [hx])]
  unfold linkAt
  rw [hw]

end

namespace Asl

variable {s : Asl} {d d' : SemdId} {semAdd : Word}

/-- The first active descriptor of the semaphore. -/
def find (s : Asl) (semAdd : Word) : Option SemdId :=
  s.semd_h.find? fun d => (s.semd_table d).s_key = semAdd

/-- The process queue of descriptor `d` is written. -/
def setProcq (s : Asl) (d : SemdId) (q : List PcbId) : Asl :=
  { s with semd_table := Function.update s.semd_table d { s.semd_table d with s_procq := q } }

theorem setProcq_self {q : List PcbId} :
    (s.setProcq d q).semd_table d = ⟨(s.semd_table d).s_key, q⟩ := Function.update_self ..

theorem setProcq_of_ne {q : List PcbId} (h : d' ≠ d) :
    (s.setProcq d q).semd_table d' = s.semd_table d' := Function.update_of_ne h ..

theorem setProcq_key {q : List PcbId} :
    ((s.setProcq d q).semd_table d').s_key = (s.semd_table d').s_key := by
  by_cases h : d' = d
  · rw [h, setProcq_self]
  · rw [setProcq_of_ne h]

theorem setProcq_eq {q : List PcbId} (h : (s.semd_table d).s_procq = q) : s.setProcq d q = s := by
  unfold setProcq
  rw [show ({ s.semd_table d with s_procq := q } : Semd) = s.semd_table d by rw [← h],
    Function.update_eq_self]

/-- `semd_h` with a new descriptor. -/
def link (s : Asl) (semAdd : Word) (d : SemdId) : List SemdId :=
  linkAt (fun c => (s.semd_table c).s_key) s.semd_h semAdd d

theorem link_perm (s : Asl) (semAdd : Word) (d : SemdId) : (s.link semAdd d).Perm (d :: s.semd_h) :=
  linkAt_perm

/-- A free descriptor is taken for the semaphore. -/
def take (s : Asl) (semAdd : Word) (d : SemdId) (rest : List SemdId) : Asl where
  semd_table := Function.update s.semd_table d ⟨semAdd, []⟩
  semdFree_h := rest
  semd_h := s.link semAdd d

theorem take_self {rest : List SemdId} : (s.take semAdd d rest).semd_table d = ⟨semAdd, []⟩ :=
  Function.update_self ..

theorem take_of_ne {rest : List SemdId} (h : d' ≠ d) :
    (s.take semAdd d rest).semd_table d' = s.semd_table d' := Function.update_of_ne h ..

/-- The descriptor goes back to `semdFree_h`. -/
def giveBack (s : Asl) (d : SemdId) : Asl :=
  { s with semd_h := s.semd_h.erase d, semdFree_h := d :: s.semdFree_h }

/-! ### Descriptors are conserved -/

/-- Each descriptor is free or active, the active ones have different keys, and a descriptor that
is not active has no queue. -/
structure Ok (s : Asl) : Prop where
  split : ∀ d, s.semdFree_h.count d + s.semd_h.count d = 1
  keys : ∀ d ∈ s.semd_h, ∀ d' ∈ s.semd_h,
    (s.semd_table d).s_key = (s.semd_table d').s_key → d = d'
  idle : ∀ d, d ∉ s.semd_h → (s.semd_table d).s_procq = []

theorem find_some (h : s.find semAdd = some d) :
    d ∈ s.semd_h ∧ (s.semd_table d).s_key = semAdd :=
  ⟨List.mem_of_find?_eq_some h, by simpa using List.find?_some h⟩

theorem find_none (h : s.find semAdd = none) (hd : d ∈ s.semd_h) :
    (s.semd_table d).s_key ≠ semAdd := by
  simpa using List.find?_eq_none.mp h d hd

theorem Ok.find_key (h : s.Ok) (hd : d ∈ s.semd_h) : s.find (s.semd_table d).s_key = some d := by
  cases hf : s.find (s.semd_table d).s_key with
  | none => exact absurd rfl (find_none hf hd)
  | some d' =>
      obtain ⟨hd', hk⟩ := find_some hf
      rw [h.keys d' hd' d hd hk]

theorem Ok.init : initASL.Ok where
  split d := by
    have h : ((List.finRange maxProc).reverse).count d = 1 := by
      rw [List.count_reverse]
      exact List.count_eq_one_of_mem (List.nodup_finRange _) (List.mem_finRange d)
    simp [initASL, h]
  keys := by rintro d ⟨⟩
  idle _ _ := rfl

/-- A free descriptor is not active. -/
theorem Ok.first_notMem (h : s.Ok) {rest : List SemdId} (hl : s.semdFree_h = d :: rest) :
    d ∉ s.semd_h := by
  have hd := h.split d
  rw [hl, List.count_cons_self] at hd
  exact List.count_eq_zero.mp (by omega)

/-- The queue of an active descriptor changes. -/
theorem Ok.setProcq (h : s.Ok) (hd : d ∈ s.semd_h) (q : List PcbId) : (s.setProcq d q).Ok where
  split := h.split
  keys d₁ h₁ d₂ h₂ hk := h.keys d₁ h₁ d₂ h₂ (by rwa [setProcq_key, setProcq_key] at hk)
  idle d' hd' := by
    have hne : d' ≠ d := by rintro rfl; exact hd' hd
    rw [setProcq_of_ne hne]
    exact h.idle d' hd'

/-- A descriptor is taken for a semaphore that has none. -/
theorem Ok.take (h : s.Ok) (hf : s.find semAdd = none) {rest : List SemdId}
    (hl : s.semdFree_h = d :: rest) : (s.take semAdd d rest).Ok := by
  have hfree := h.first_notMem hl
  have hmem : ∀ {d'}, d' ∈ (s.take semAdd d rest).semd_h ↔ d' = d ∨ d' ∈ s.semd_h :=
    fun {d'} => by rw [show (s.take semAdd d rest).semd_h = s.link semAdd d from rfl,
      (link_perm s semAdd d).mem_iff, List.mem_cons]
  have hkey : ∀ {d'}, d' ∈ s.semd_h → (s.take semAdd d rest).semd_table d' = s.semd_table d' :=
    fun hd' => take_of_ne (by rintro rfl; exact hfree hd')
  refine ⟨fun d' => ?_, fun d₁ h₁ d₂ h₂ hk => ?_, fun d' hd' => ?_⟩
  · have h₀ := h.split d'
    have h₁ := (link_perm s semAdd d).count_eq d'
    rw [hl, List.count_cons] at h₀
    rw [List.count_cons] at h₁
    show rest.count d' + (s.link semAdd d).count d' = 1
    omega
  · rcases hmem.mp h₁ with he₁ | ho₁ <;> rcases hmem.mp h₂ with he₂ | ho₂
    · rw [he₁, he₂]
    · rw [he₁, take_self, hkey ho₂] at hk
      exact absurd hk.symm (find_none hf ho₂)
    · rw [he₂, take_self, hkey ho₁] at hk
      exact absurd hk (find_none hf ho₁)
    · rw [hkey ho₁, hkey ho₂] at hk
      exact h.keys d₁ ho₁ d₂ ho₂ hk
  · have hne : d' ≠ d := fun he => hd' (hmem.mpr (.inl he))
    rw [take_of_ne hne]
    exact h.idle d' fun hm => hd' (hmem.mpr (.inr hm))

/-- A descriptor whose queue is empty is given back. -/
theorem Ok.giveBack (h : s.Ok) (hd : d ∈ s.semd_h) (hq : (s.semd_table d).s_procq = []) :
    (s.giveBack d).Ok := by
  have hsub : ∀ {d'}, d' ∈ s.semd_h.erase d → d' ∈ s.semd_h := List.mem_of_mem_erase
  refine ⟨fun d' => ?_, fun d₁ h₁ d₂ h₂ => h.keys d₁ (hsub h₁) d₂ (hsub h₂), fun d' hd' => ?_⟩
  · have h₀ := h.split d'
    show (d :: s.semdFree_h).count d' + (s.semd_h.erase d).count d' = 1
    by_cases he : d' = d
    · subst he
      have hpos : 0 < s.semd_h.count d' := List.count_pos_iff.mpr hd
      rw [List.count_cons_self, List.count_erase_self]
      omega
    · rw [List.count_cons_of_ne (Ne.symm he), List.count_erase_of_ne he]
      exact h₀
  · by_cases he : d' = d
    · rw [he]; exact hq
    · exact h.idle d' fun hm => hd' ((List.mem_erase_of_ne he).mpr hm)

/-! ### The queues, by address -/

/-- The processes blocked on the semaphore at `semAdd`. -/
def queue (s : Asl) (semAdd : Word) : List PcbId :=
  match s.find semAdd with
  | some d => (s.semd_table d).s_procq
  | none => []

theorem queue_of_find (h : s.find semAdd = some d) : s.queue semAdd = (s.semd_table d).s_procq := by
  rw [queue, h]

theorem queue_none (h : ∀ d ∈ s.semd_h, (s.semd_table d).s_key ≠ semAdd) : s.queue semAdd = [] := by
  cases hf : s.find semAdd with
  | none => rw [queue, hf]
  | some d => exact absurd (find_some hf).2 (h d (find_some hf).1)

theorem Ok.queue_key (h : s.Ok) (hd : d ∈ s.semd_h) :
    s.queue (s.semd_table d).s_key = (s.semd_table d).s_procq :=
  queue_of_find (h.find_key hd)

theorem Ok.mem_queue (h : s.Ok) {p : PcbId} : p ∈ s.queue semAdd ↔
    ∃ d, p ∈ (s.semd_table d).s_procq ∧ (s.semd_table d).s_key = semAdd := by
  constructor
  · intro hp
    cases hf : s.find semAdd with
    | none => rw [queue, hf] at hp; cases hp
    | some d => exact ⟨d, by rwa [queue, hf] at hp, (find_some hf).2⟩
  · rintro ⟨d, hp, rfl⟩
    by_cases hd : d ∈ s.semd_h
    · rwa [h.queue_key hd]
    · rw [h.idle d hd] at hp
      cases hp

/-- Writing the process queue of the descriptor of `semAdd` writes the queue of `semAdd`. -/
theorem queue_setProcq (hd : s.find semAdd = some d) (q : List PcbId) (a : Word) :
    (s.setProcq d q).queue a = if a = semAdd then q else s.queue a := by
  have hfind : (s.setProcq d q).find a = s.find a := by
    unfold find
    simp only [setProcq_key]
    rfl
  by_cases ha : a = semAdd
  · rw [if_pos ha, queue, hfind, ha, hd]
    exact congrArg Semd.s_procq setProcq_self
  · rw [if_neg ha, queue, queue, hfind]
    cases hf : s.find a with
    | none => rfl
    | some c =>
        have hne : c ≠ d := by
          rintro rfl
          exact ha ((find_some hf).2.symm.trans (find_some hd).2)
        simp only [setProcq_of_ne hne]

/-- A fresh descriptor has an empty queue. -/
theorem Ok.queue_take (h : s.Ok) (hf : s.find semAdd = none) {rest : List SemdId}
    (hl : s.semdFree_h = d :: rest) (a : Word) : (s.take semAdd d rest).queue a = s.queue a := by
  have ht := h.take hf hl
  have hmem : ∀ {c}, c ∈ (s.take semAdd d rest).semd_h ↔ c = d ∨ c ∈ s.semd_h :=
    fun {c} => by rw [show (s.take semAdd d rest).semd_h = s.link semAdd d from rfl,
      (link_perm s semAdd d).mem_iff, List.mem_cons]
  have hfree := h.first_notMem hl
  have hkey : ∀ {c}, c ∈ s.semd_h → (s.take semAdd d rest).semd_table c = s.semd_table c :=
    fun hc => take_of_ne (by rintro rfl; exact hfree hc)
  cases ha : s.find a with
  | some c =>
      obtain ⟨hc, rfl⟩ := find_some ha
      rw [queue_of_find ha, ← hkey hc]
      exact ht.queue_key (hmem.mpr (.inr hc))
  | none =>
      rw [show s.queue a = [] by rw [queue, ha]]
      by_cases he : a = semAdd
      · have hk := ht.queue_key (hmem.mpr (.inl rfl))
        rw [take_self] at hk
        rw [he]
        exact hk
      · refine queue_none fun c hc => ?_
        rcases hmem.mp hc with rfl | hc
        · rw [take_self]
          exact Ne.symm he
        · rw [hkey hc]
          exact find_none ha hc

/-- The queue of a descriptor that is given back was empty. -/
theorem Ok.queue_giveBack (h : s.Ok) (hd : d ∈ s.semd_h) (hq : (s.semd_table d).s_procq = [])
    (a : Word) : (s.giveBack d).queue a = s.queue a := by
  have ht := h.giveBack hd hq
  have hmem : ∀ {c}, c ∈ s.semd_h → c ≠ d → c ∈ (s.giveBack d).semd_h :=
    fun hc hne => (List.mem_erase_of_ne hne).mpr hc
  cases ha : s.find a with
  | none =>
      rw [show s.queue a = [] by rw [queue, ha]]
      refine queue_none fun c hc => ?_
      exact find_none (s := s) ha (List.mem_of_mem_erase hc)
  | some c =>
      obtain ⟨hc, rfl⟩ := find_some ha
      rw [queue_of_find ha]
      by_cases he : c = d
      · rw [he, hq]
        refine queue_none fun c' hc' hk => ?_
        have hcc := h.keys c' (List.mem_of_mem_erase hc') d hd hk
        have hcount := ht.split d
        rw [hcc] at hc'
        have h₁ : 0 < (s.giveBack d).semd_h.count d := List.count_pos_iff.mpr hc'
        have h₂ : 0 < (s.giveBack d).semdFree_h.count d :=
          List.count_pos_iff.mpr List.mem_cons_self
        omega
      · exact ht.queue_key (hmem hc he)

end Asl

/-- The data of Phase 1. -/
structure Phase1 extends Pcbs, Asl

namespace Phase1

variable {s : Phase1} {d : SemdId} {p q : PcbId} {semAdd : Word}

/-- The PCB `p` is rewritten. -/
def modify (s : Phase1) (p : PcbId) (f : Pcb → Pcb) : Phase1 :=
  { s with toPcbs := s.toPcbs.modify p f }

/-- The end of `insertBlocked`. -/
def enqueue (s : Phase1) (d : SemdId) (semAdd : Word) (p : PcbId) : Phase1 :=
  { s with toAsl := s.toAsl.setProcq d (s.insertProcQ (s.semd_table d).s_procq p) }.modify p
    fun pcb => { pcb with p_semAdd := semAdd }

theorem enqueue_of_ne (h : q ≠ p) : (s.enqueue d semAdd p).pcbFree_table q = s.pcbFree_table q :=
  Function.update_of_ne h ..

theorem enqueue_table : (s.enqueue d semAdd p).pcbFree_table p =
    { s.pcbFree_table p with p_semAdd := semAdd } := Function.update_self ..

theorem enqueue_self : (s.enqueue d semAdd p).semd_table d =
    ⟨(s.semd_table d).s_key, s.insertProcQ (s.semd_table d).s_procq p⟩ := Function.update_self ..

/-- `insertBlocked`; `true` is the source's `TRUE`, no descriptor is left. -/
def insertBlocked (s : Phase1) (semAdd : Word) (p : PcbId) : Bool × Phase1 :=
  match s.find semAdd with
  | some d => (false, s.enqueue d semAdd p)
  | none =>
      match s.semdFree_h with
      | [] => (true, s)
      | d :: rest => (false, { s with toAsl := s.toAsl.take semAdd d rest }.enqueue d semAdd p)

/-- `removeBlocked`: the head of the queue; an empty queue gives its descriptor back. -/
def removeBlocked (s : Phase1) (semAdd : Word) : Option PcbId × Phase1 :=
  match s.find semAdd with
  | none => (none, s)
  | some d =>
      let q := (s.semd_table d).s_procq
      let t := s.toAsl.setProcq d q.tail
      (q.head?, { s with toAsl := if q.tail = [] then t.giveBack d else t })

/-- `outBlocked`: `p` leaves the queue of its semaphore. -/
def outBlocked (s : Phase1) (p : PcbId) : Option PcbId × Phase1 :=
  match s.find (s.pcbFree_table p).p_semAdd with
  | none => (none, s)
  | some d =>
      let out := Pcbs.outProcQ (s.semd_table d).s_procq p
      (out.1, { s with toAsl := s.toAsl.setProcq d out.2 })

/-- `blockedCount`. -/
def blockedCount (s : Phase1) (semAdd : Word) : ℕ :=
  match s.find semAdd with
  | none => 0
  | some d => (s.semd_table d).s_procq.length

theorem blockedCount_eq (s : Phase1) (semAdd : Word) :
    s.blockedCount semAdd = (s.queue semAdd).length := by
  unfold blockedCount Asl.queue
  cases s.find semAdd <;> rfl

/-- The three ways `removeBlocked` goes. -/
theorem removeBlocked_cases (s : Phase1) (semAdd : Word) :
    (s.find semAdd = none ∧ s.removeBlocked semAdd = (none, s)) ∨
    ∃ d, s.find semAdd = some d ∧
      (((s.semd_table d).s_procq = [] ∧ s.removeBlocked semAdd =
          (none, { s with toAsl := (s.toAsl.setProcq d []).giveBack d })) ∨
        ∃ p rest, (s.semd_table d).s_procq = p :: rest ∧ s.removeBlocked semAdd =
          (some p, { s with toAsl :=
            if rest = [] then (s.toAsl.setProcq d rest).giveBack d else s.toAsl.setProcq d rest })) := by
  unfold removeBlocked
  cases hf : s.find semAdd with
  | none => exact .inl ⟨rfl, rfl⟩
  | some d =>
      refine .inr ⟨d, rfl, ?_⟩
      cases hq : (s.semd_table d).s_procq with
      | nil => exact .inl ⟨rfl, by simp [hq]⟩
      | cons p rest => exact .inr ⟨p, rest, rfl, by simp [hq]⟩

/-- `insertBlocked` fails when the semaphore has no descriptor and none is free. -/
theorem insertBlocked_cases (s : Phase1) (semAdd : Word) (p : PcbId) :
    (∃ d, s.find semAdd = some d ∧ s.insertBlocked semAdd p = (false, s.enqueue d semAdd p)) ∨
    (s.find semAdd = none ∧ ∃ d rest, s.semdFree_h = d :: rest ∧ s.insertBlocked semAdd p =
      (false, { s with toAsl := s.toAsl.take semAdd d rest }.enqueue d semAdd p)) ∨
    (s.find semAdd = none ∧ s.semdFree_h = [] ∧ s.insertBlocked semAdd p = (true, s)) := by
  unfold insertBlocked
  cases hf : s.find semAdd with
  | some d => exact .inl ⟨d, rfl, rfl⟩
  | none =>
      right
      cases hl : s.semdFree_h with
      | nil => exact .inr ⟨rfl, rfl, rfl⟩
      | cons d rest => exact .inl ⟨rfl, d, rest, rfl, rfl⟩

/-! ### What the operations do to the queues -/

theorem insertBlocked_true (h : (s.insertBlocked semAdd p).1 = true) :
    (s.insertBlocked semAdd p).2 = s := by
  rcases s.insertBlocked_cases semAdd p with ⟨d, -, he⟩ | ⟨-, d, rest, -, he⟩ | ⟨-, -, he⟩
  · rw [he] at h; cases h
  · rw [he] at h; cases h
  · rw [he]

/-- `insertBlocked` puts the process in the queue of the semaphore, by priority. -/
theorem insertBlocked_queue (hok : s.toAsl.Ok) (h : (s.insertBlocked semAdd p).1 = false)
    (a : Word) : (s.insertBlocked semAdd p).2.queue a =
      if a = semAdd then s.insertProcQ (s.queue semAdd) p else s.queue a := by
  rcases s.insertBlocked_cases semAdd p with ⟨d, hf, he⟩ | ⟨hf, d, rest, hl, he⟩ | ⟨-, -, he⟩
  · rw [he, Asl.queue_of_find hf]
    exact Asl.queue_setProcq hf _ a
  · have hd : (s.take semAdd d rest).find semAdd = some d := by
      have hk := (hok.take hf hl).find_key
        ((Asl.link_perm s.toAsl semAdd d).mem_iff.mpr List.mem_cons_self)
      rwa [Asl.take_self] at hk
    rw [he]
    refine (Asl.queue_setProcq hd _ a).trans ?_
    rw [hok.queue_take hf hl, ← Asl.queue_of_find hd, hok.queue_take hf hl]
  · rw [he] at h; cases h

/-- `removeBlocked` takes the head of the queue of the semaphore. -/
theorem removeBlocked_queue (hok : s.toAsl.Ok) (semAdd a : Word) :
    (s.removeBlocked semAdd).1 = (s.queue semAdd).head? ∧
    (s.removeBlocked semAdd).2.queue a =
      if a = semAdd then (s.queue semAdd).tail else s.queue a := by
  rcases s.removeBlocked_cases semAdd with ⟨hf, he⟩ | ⟨d, hf, ⟨hq, he⟩ | ⟨p, rest, hq, he⟩⟩
  · have hnil : s.queue semAdd = [] := by rw [Asl.queue, hf]
    rw [he, hnil]
    refine ⟨rfl, ?_⟩
    split
    · rename_i ha
      rw [ha, hnil]
      rfl
    · rfl
  · rw [he, Asl.queue_of_find hf, hq]
    refine ⟨rfl, ?_⟩
    show ((s.setProcq d []).giveBack d).queue a = _
    rw [Asl.setProcq_eq hq, hok.queue_giveBack (Asl.find_some hf).1 hq]
    split
    · rename_i ha
      rw [ha, Asl.queue_of_find hf, hq]
      rfl
    · rfl
  · rw [he, Asl.queue_of_find hf, hq]
    refine ⟨rfl, ?_⟩
    have hd := (Asl.find_some hf).1
    show (if rest = [] then (s.setProcq d rest).giveBack d else s.setProcq d rest).queue a = _
    split
    · rename_i hr
      rw [(hok.setProcq hd rest).queue_giveBack hd (by rw [Asl.setProcq_self, hr])]
      exact Asl.queue_setProcq hf _ a
    · exact Asl.queue_setProcq hf _ a

end Phase1

end PandOS
