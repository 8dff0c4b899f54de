import Mathlib.Data.List.Sort
import Mathlib.Logic.Function.Basic
import PandOS.Headers.Const

/-!
# Phase 1 — process control blocks

The data of `pcb.c` and its functions.  A PCB is an index of `pcbFree_table`, a NULL pointer is
`none`, and the intrusive lists are lists of indices: the siblings of a process are the child list
of its parent, so `p_sib` has no field of its own.  `p_semAdd` and `p_supportStruct` are
addresses, 0 for NULL.
-/

namespace PandOS

/-- `state_t`: the registers the nucleus names, and the others. -/
structure State where
  entry_hi : Word
  cause : Word
  status : Word
  pc_epc : Word
  mie : Word
  reg_sp : Word
  reg_a0 : Word
  reg_a1 : Word
  reg_a2 : Word
  reg_a3 : Word
  gpr : ℕ → Word

/-- `(state_t){0}`. -/
def State.zero : State := ⟨0, 0, 0, 0, 0, 0, 0, 0, 0, 0, fun _ => 0⟩

/-- A PCB, as an index of `pcbFree_table`. -/
abbrev PcbId := Fin maxProc

instance : LawfulBEq PcbId := inferInstance

/-- `pcb_t`. -/
structure Pcb where
  p_parent : Option PcbId
  p_child : List PcbId
  p_s : State
  p_time : Word
  p_semAdd : Word
  p_supportStruct : Word
  p_prio : ℤ
  p_pid : Word

/-- What `allocPcb` leaves in a PCB, its pid apart. -/
def Pcb.zero : Pcb := ⟨none, [], .zero, 0, 0, 0, 0, 0⟩

/-- The static data of `pcb.c`. -/
structure Pcbs where
  pcbFree_table : PcbId → Pcb
  pcbFree_h : List PcbId
  next_pid : Word

/-- `initPcbs`: each PCB is added at the head. -/
def initPcbs : Pcbs where
  pcbFree_table _ := .zero
  pcbFree_h := (List.finRange maxProc).reverse
  next_pid := 1

namespace Pcbs

variable {s : Pcbs} {p q : PcbId} {f : Pcb → Pcb}

/-- The PCB `p` is rewritten. -/
def modify (s : Pcbs) (p : PcbId) (f : Pcb → Pcb) : Pcbs :=
  { s with pcbFree_table := Function.update s.pcbFree_table p (f (s.pcbFree_table p)) }

/-- `freePcb`: `p` becomes the first free PCB. -/
def freePcb (s : Pcbs) (p : PcbId) : Pcbs := { s with pcbFree_h := p :: s.pcbFree_h }

/-- `allocPcb`: the first free PCB, with its fields reset and the next PID. -/
def allocPcb (s : Pcbs) : Option (PcbId × Pcbs) :=
  match s.pcbFree_h with
  | [] => none
  | first :: rest => some (first,
      { pcbFree_table := Function.update s.pcbFree_table first { Pcb.zero with p_pid := s.next_pid }
        pcbFree_h := rest
        next_pid := s.next_pid + 1 })

/-! ### Process queues -/

/-- `insertProcQ`: before the first process of smaller priority, else at the end. -/
def insertProcQ (s : Pcbs) (head : List PcbId) (p : PcbId) : List PcbId :=
  head.orderedInsert
    (fun p current => (s.pcbFree_table current).p_prio < (s.pcbFree_table p).p_prio) p

/-- `outProcQ`: the process, if it is there, and the queue without it. -/
def outProcQ (head : List PcbId) (p : PcbId) : Option PcbId × List PcbId :=
  if p ∈ head then (some p, head.erase p) else (none, head)

theorem outProcQ_snd (head : List PcbId) (p : PcbId) : (outProcQ head p).2 = head.erase p := by
  unfold outProcQ
  split
  · rfl
  · rename_i h
    exact (List.erase_of_not_mem h).symm

/-! ### The process tree -/

/-- `insertChild`: `p` becomes the last child of `prnt`. -/
def insertChild (s : Pcbs) (prnt p : PcbId) : Pcbs :=
  (s.modify p fun pcb => { pcb with p_parent := some prnt }).modify prnt fun pcb =>
    { pcb with p_child := pcb.p_child ++ [p] }

/-- `removeChild`: the first child of `p`, if any, is unlinked and returned. -/
def removeChild (s : Pcbs) (p : PcbId) : Option PcbId × Pcbs :=
  match (s.pcbFree_table p).p_child with
  | [] => (none, s)
  | first :: rest => (some first,
      (s.modify p fun pcb => { pcb with p_child := rest }).modify first fun pcb =>
        { pcb with p_parent := none })

/-- `outChild`: `p` leaves the child list of its parent, if it has one. -/
def outChild (s : Pcbs) (p : PcbId) : Pcbs :=
  match (s.pcbFree_table p).p_parent with
  | none => s
  | some prnt =>
      (s.modify prnt fun pcb => { pcb with p_child := pcb.p_child.erase p }).modify p fun pcb =>
        { pcb with p_parent := none }

/-! ### What the operations do to a PCB -/

theorem modify_self : (s.modify p f).pcbFree_table p = f (s.pcbFree_table p) :=
  Function.update_self ..

theorem modify_of_ne (h : q ≠ p) : (s.modify p f).pcbFree_table q = s.pcbFree_table q :=
  Function.update_of_ne h ..

/-- A field that `f` keeps is kept. -/
theorem modify_field {α : Type*} {g : Pcb → α} (h : ∀ x, g (f x) = g x) (q : PcbId) :
    g ((s.modify p f).pcbFree_table q) = g (s.pcbFree_table q) := by
  by_cases hq : q = p
  · subst hq; rw [modify_self, h]
  · rw [modify_of_ne hq]

theorem insertChild_table (s : Pcbs) (prnt p q : PcbId) :
    (s.insertChild prnt p).pcbFree_table q = { s.pcbFree_table q with
      p_parent := if q = p then some prnt else (s.pcbFree_table q).p_parent
      p_child := if q = prnt then (s.pcbFree_table q).p_child ++ [p]
        else (s.pcbFree_table q).p_child } := by
  unfold insertChild
  by_cases h₁ : q = prnt <;> by_cases h₂ : q = p
  · subst h₁; subst h₂; simp only [modify_self, if_true]
  · subst h₁; rw [modify_self, modify_of_ne h₂, if_neg h₂, if_pos rfl]
  · subst h₂; rw [modify_of_ne h₁, modify_self, if_neg h₁, if_pos rfl]
  · rw [modify_of_ne h₁, modify_of_ne h₂, if_neg h₁, if_neg h₂]

theorem removeChild_nil (h : (s.pcbFree_table p).p_child = []) : s.removeChild p = (none, s) := by
  unfold removeChild
  rw [h]

/-- What `removeChild` does when there is a child. -/
theorem removeChild_cons {c : PcbId} {rest : List PcbId}
    (h : (s.pcbFree_table p).p_child = c :: rest) :
    (s.removeChild p).1 = some c ∧ (s.removeChild p).2.pcbFree_h = s.pcbFree_h ∧
      (s.removeChild p).2.next_pid = s.next_pid ∧
      ∀ q, (s.removeChild p).2.pcbFree_table q = { s.pcbFree_table q with
        p_parent := if q = c then none else (s.pcbFree_table q).p_parent
        p_child := if q = p then rest else (s.pcbFree_table q).p_child } := by
  unfold removeChild
  rw [h]
  refine ⟨rfl, rfl, rfl, fun q => ?_⟩
  by_cases h₁ : q = c <;> by_cases h₂ : q = p
  · subst h₁; subst h₂; simp only [modify_self, if_true]
  · subst h₁; simp only [modify_self, if_true, modify_of_ne h₂, if_neg h₂]
  · subst h₂; simp only [modify_of_ne h₁, modify_self, if_neg h₁, if_true]
  · simp only [modify_of_ne h₁, modify_of_ne h₂, if_neg h₁, if_neg h₂]

/-- What `outChild` does to a PCB. -/
theorem outChild_table (s : Pcbs) (p q : PcbId) :
    (s.outChild p).pcbFree_table q = { s.pcbFree_table q with
      p_parent := if q = p then none else (s.pcbFree_table q).p_parent
      p_child := if (s.pcbFree_table p).p_parent = some q then (s.pcbFree_table q).p_child.erase p
        else (s.pcbFree_table q).p_child } := by
  unfold outChild
  cases hp : (s.pcbFree_table p).p_parent with
  | none =>
      by_cases h : q = p
      · subst h
        simp only [hp, if_true, reduceCtorEq, if_false]
        rw [← hp]
      · simp [h]
  | some prnt =>
      simp only [Option.some.injEq]
      by_cases h₁ : q = prnt <;> by_cases h₂ : q = p
      · subst h₁; subst h₂; simp only [modify_self, if_true]
      · subst h₁; simp only [modify_of_ne h₂, modify_self, if_neg h₂, if_true]
      · subst h₂; simp only [modify_self, modify_of_ne h₁, if_true, if_neg (Ne.symm h₁)]
      · simp only [modify_of_ne h₁, modify_of_ne h₂, if_neg h₂, if_neg (Ne.symm h₁)]

theorem outChild_free (s : Pcbs) (p : PcbId) : (s.outChild p).pcbFree_h = s.pcbFree_h := by
  unfold outChild
  split <;> rfl

theorem outChild_next (s : Pcbs) (p : PcbId) : (s.outChild p).next_pid = s.next_pid := by
  unfold outChild
  split <;> rfl

theorem allocPcb_none (h : s.allocPcb = none) : s.pcbFree_h = [] := by
  unfold allocPcb at h
  split at h
  · assumption
  · cases h

theorem allocPcb_some {t : Pcbs} (h : s.allocPcb = some (p, t)) :
    s.pcbFree_h = p :: t.pcbFree_h ∧ (∀ q, q ≠ p → t.pcbFree_table q = s.pcbFree_table q) ∧
      t.pcbFree_table p = { Pcb.zero with p_pid := s.next_pid } ∧ t.next_pid = s.next_pid + 1 := by
  unfold allocPcb at h
  split at h
  · cases h
  · rename_i first rest hf
    cases h
    exact ⟨hf, fun q hq => Function.update_of_ne hq .., Function.update_self .., rfl⟩

end Pcbs

end PandOS
