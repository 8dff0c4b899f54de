import PandOS.Lib.Run
import PandOS.Phase2.Tree
import PandOS.Phase2.Acts

/-!
# Phase 2 — the links, the tree and the count in every state between steps

`Kernel.Sound lossy s`: `Linked`, `Tree` and `Counted` together.  `Sound.step`: a step keeps them;
where `lossy` does not hold, if there is a descriptor for the semaphore a process blocks on and no
marked process is killed.
-/

namespace PandOS

namespace Kernel

variable {L : Layout} {s t u : Kernel} {lossy : Prop} {p q cur target : PcbId} {semAdd : Word}

/-- The links, the tree and the count. -/
structure Sound (lossy : Prop) (s : Kernel) : Prop where
  links : Linked lossy s none
  tree : s.Tree
  count : s.Counted

/-! ### Changes that do not concern the tree -/

/-- The tree and the count are the same. -/
structure SameTree (s t : Kernel) : Prop where
  free : t.pcbFree_h = s.pcbFree_h
  next : t.next_pid = s.next_pid
  root : t.rootProcess = s.rootProcess
  processes : t.processCount = s.processCount
  pcb : ∀ p, t.child p = s.child p ∧ t.parent p = s.parent p ∧
    (t.pcbFree_table p).p_pid = (s.pcbFree_table p).p_pid

theorem SameTree.refl (s : Kernel) : SameTree s s := ⟨rfl, rfl, rfl, rfl, fun _ => ⟨rfl, rfl, rfl⟩⟩

theorem SameTree.trans (h₁ : SameTree s t) (h₂ : SameTree t u) : SameTree s u where
  free := h₂.free.trans h₁.free
  next := h₂.next.trans h₁.next
  root := h₂.root.trans h₁.root
  processes := h₂.processes.trans h₁.processes
  pcb p := ⟨(h₂.pcb p).1.trans (h₁.pcb p).1, (h₂.pcb p).2.1.trans (h₁.pcb p).2.1,
    (h₂.pcb p).2.2.trans (h₁.pcb p).2.2⟩

theorem SameTree.live (h : SameTree s t) : t.Live p ↔ s.Live p := by
  unfold Live
  rw [h.free]

theorem SameTree.named (h : SameTree s t) : t.Named p ↔ s.Named p := by
  unfold Named
  rw [(h.pcb p).2.2]

/-- A step that leaves the tree alone. -/
theorem Tree.same (h : s.Tree) (hs : SameTree s t) : t.Tree where
  down q hq x hx := by
    rw [(hs.pcb q).1] at hx
    rw [hs.live, (hs.pcb x).2.1]
    exact h.down q (hs.live.mp hq) x hx
  up x hx q hq := by
    rw [(hs.pcb x).2.1] at hq
    rw [hs.live, (hs.pcb q).1]
    exact h.up x (hs.live.mp hx) q hq
  simple q := by
    rw [(hs.pcb q).1]
    exact h.simple q
  dead q hq := by
    rw [(hs.pcb q).1, (hs.pcb q).2.1]
    exact h.dead q fun hl => hq (hs.live.mpr hl)
  root hr := by
    rw [hs.root, hs.named] at hr
    rw [hs.root, hs.live]
    exact h.root hr

theorem Counted.same (h : s.Counted) (hs : SameTree s t) : t.Counted := by
  unfold Counted
  rw [hs.processes, hs.free]
  exact h

theorem Quiet.tree (h : Quiet s t) : SameTree s t :=
  ⟨h.free, h.next, h.root, h.processes, fun p => ⟨h.field (g := Pcb.p_child) (fun _ _ _ => rfl) p,
    h.field (g := Pcb.p_parent) (fun _ _ _ => rfl) p, h.field (fun _ _ _ => rfl) p⟩⟩

theorem Quiet.links (h : Quiet s t) : SameLinks s t :=
  ⟨h.free, h.ready, h.current, h.asl, h.field (fun _ _ _ => rfl)⟩

/-- Some fields of PCBs that are not of the tree are different. -/
theorem tree_modify {f : Pcb → Pcb} (hf : ∀ x, (f x).p_child = x.p_child ∧
    (f x).p_parent = x.p_parent ∧ (f x).p_pid = x.p_pid) (s : Kernel) (p : PcbId) :
    SameTree s (s.modify p f) := by
  refine ⟨rfl, rfl, rfl, rfl, fun q => ?_⟩
  by_cases hq : q = p
  · unfold child parent
    rw [hq, modify_self]
    exact hf _
  · unfold child parent
    rw [modify_of_ne hq]
    exact ⟨rfl, rfl, rfl⟩

theorem Sound.quiet (h : Sound lossy s) (hq : Quiet s t) : Sound lossy t :=
  ⟨h.links.same hq.links, h.tree.same hq.tree, h.count.same hq.tree⟩

theorem Sound.setMem (h : Sound lossy s) (a v : Word) : Sound lossy (s.setMem a v) :=
  ⟨h.links.same ⟨rfl, rfl, rfl, rfl, fun _ => rfl⟩,
    h.tree.same ⟨rfl, rfl, rfl, rfl, fun _ => ⟨rfl, rfl, rfl⟩⟩, h.count⟩

theorem Sound.setSoft (h : Sound lossy s) (k : ℤ) : Sound lossy { s with softBlockCount := k } :=
  ⟨h.links.same ⟨rfl, rfl, rfl, rfl, fun _ => rfl⟩,
    h.tree.same ⟨rfl, rfl, rfl, rfl, fun _ => ⟨rfl, rfl, rfl⟩⟩, h.count⟩

/-! ### The scheduler -/

theorem tree_scheduler (s : Kernel) (tod : Word) : SameTree s (s.scheduler tod) := by
  unfold Kernel.scheduler
  split
  · exact ⟨rfl, rfl, rfl, rfl, fun _ => ⟨rfl, rfl, rfl⟩⟩
  · split
    · exact ⟨rfl, rfl, rfl, rfl, fun _ => ⟨rfl, rfl, rfl⟩⟩
    · split
      · exact ⟨rfl, rfl, rfl, rfl, fun _ => ⟨rfl, rfl, rfl⟩⟩
      · split <;> exact ⟨rfl, rfl, rfl, rfl, fun _ => ⟨rfl, rfl, rfl⟩⟩

theorem Sound.scheduler (h : Sound lossy s) (hc : s.currentProcess = none) (tod : Word) :
    Sound lossy (s.scheduler tod) :=
  ⟨h.links.scheduler hc tod, h.tree.same (tree_scheduler s tod),
    h.count.same (tree_scheduler s tod)⟩

theorem Sound.resumes (h : Sound lossy s) (hr : Resumes s t) : Sound lossy t := by
  unfold Resumes at hr
  split at hr
  · rename_i hc
    obtain ⟨tod, rfl⟩ := hr
    exact h.scheduler hc tod
  · exact h.quiet hr.1

/-- The process that runs becomes ready, or is lost or gone. -/
theorem Sound.requeue (h : Sound lossy s) (hc : s.currentProcess = some cur) (tod : Word) :
    Sound lossy ({ s.ready cur with currentProcess := none }.scheduler tod) := by
  have hsem := h.links.awake cur (.inl hc)
  have hl : Linked lossy { s.ready cur with currentProcess := none } none :=
    (h.links.take hc).ready hsem
  have ht : SameTree s { s.ready cur with currentProcess := none } :=
    ⟨rfl, rfl, rfl, rfl, fun _ => ⟨rfl, rfl, rfl⟩⟩
  exact Sound.scheduler ⟨hl, h.tree.same ht, h.count.same ht⟩ rfl tod

/-! ### Blocking -/

/-- `insertBlocked` leaves the tree alone. -/
theorem tree_insertBlocked (s : Kernel) (semAdd : Word) (p : PcbId) :
    SameTree s { s with toPhase1 := (s.toPhase1.insertBlocked semAdd p).2 } := by
  have henq : ∀ (x : Phase1) (d : SemdId), x.pcbFree_h = s.pcbFree_h → x.next_pid = s.next_pid →
      (∀ q, x.pcbFree_table q = s.pcbFree_table q) →
      SameTree s { s with toPhase1 := x.enqueue d semAdd p } := by
    intro x d hx hn ht
    refine ⟨hx, hn, rfl, rfl, fun q => ?_⟩
    show ((x.enqueue d semAdd p).pcbFree_table q).p_child = (s.pcbFree_table q).p_child ∧
      ((x.enqueue d semAdd p).pcbFree_table q).p_parent = (s.pcbFree_table q).p_parent ∧
      ((x.enqueue d semAdd p).pcbFree_table q).p_pid = (s.pcbFree_table q).p_pid
    by_cases hq : q = p
    · rw [hq, Phase1.enqueue_table, ht]
      exact ⟨rfl, rfl, rfl⟩
    · rw [Phase1.enqueue_of_ne hq, ht]
      exact ⟨rfl, rfl, rfl⟩
  rcases s.toPhase1.insertBlocked_cases semAdd p with
    ⟨d, -, he⟩ | ⟨-, d, rest, -, he⟩ | ⟨-, -, he⟩
  · rw [he]
    exact henq _ d rfl rfl fun _ => rfl
  · rw [he]
    exact henq _ d rfl rfl fun _ => rfl
  · rw [he]
    exact ⟨rfl, rfl, rfl, rfl, fun _ => ⟨rfl, rfl, rfl⟩⟩

/-- The state in which `blockCurrentProcess` calls the scheduler. -/
def blocked (L : Layout) (s : Kernel) (cur : PcbId) (sem : Word) (tod : Word) : Kernel :=
  let s := (s.updateCPUTime cur tod).modify cur fun pcb => { pcb with p_semAdd := sem }
  let s := if isSoftBlockSemaphore L sem then { s with softBlockCount := s.softBlockCount + 1 } else s
  { s with toPhase1 := (s.toPhase1.insertBlocked sem cur).2, currentProcess := none }

theorem blockCurrentProcess_eq (L : Layout) (s : Kernel) (cur : PcbId) (sem tod₁ tod₂ : Word) :
    s.blockCurrentProcess L cur sem tod₁ tod₂ = (s.blocked L cur sem tod₁).scheduler tod₂ := rfl

theorem tree_blocked (L : Layout) (s : Kernel) (cur : PcbId) (sem tod : Word) :
    SameTree s (s.blocked L cur sem tod) := by
  have h := ((quiet_updateCPUTime s cur tod).tree.trans (tree_modify
    (f := fun pcb => { pcb with p_semAdd := sem }) (fun _ => ⟨rfl, rfl, rfl⟩) _ cur)).trans
    (tree_insertBlocked _ sem cur)
  unfold blocked
  dsimp only
  split <;> exact ⟨h.free, h.next, h.root, h.processes, h.pcb⟩

theorem Sound.blockCurrentProcess (h : Sound lossy s) (hc : s.currentProcess = some cur)
    (h0 : semAdd ≠ 0) (hd : lossy ∨ s.HasSemd semAdd) (tod₁ tod₂ : Word) :
    Sound lossy (s.blockCurrentProcess L cur semAdd tod₁ tod₂) := by
  have h₁ := h.quiet (quiet_updateCPUTime s cur tod₁)
  have hl := ((h₁.links.take (p := cur) hc).modify_hand fun pcb =>
    { pcb with p_semAdd := semAdd }).insertBlocked h0 hd
  have ht := tree_blocked L s cur semAdd tod₁
  rw [blockCurrentProcess_eq]
  refine Sound.scheduler ⟨?_, h.tree.same ht, h.count.same ht⟩ rfl tod₂
  unfold blocked
  dsimp only
  split <;> exact hl.same ⟨rfl, rfl, rfl, rfl, fun _ => rfl⟩

/-! ### Releasing -/

theorem removeBlocked_pcbs (s : Phase1) (semAdd : Word) :
    (s.removeBlocked semAdd).2.toPcbs = s.toPcbs := by
  rcases s.removeBlocked_cases semAdd with ⟨-, he⟩ | ⟨d, -, ⟨-, he⟩ | ⟨p, rest, -, he⟩⟩ <;> rw [he]

/-- A release leaves the tree alone. -/
theorem tree_release (s : Kernel) (semAdd : Word) (f : State → State) :
    SameTree s (s.release semAdd f).2 := by
  have hp := removeBlocked_pcbs s.toPhase1 semAdd
  unfold Kernel.release
  generalize s.toPhase1.removeBlocked semAdd = r at hp ⊢
  obtain ⟨x, t⟩ := r
  have ht : SameTree s { s with toPhase1 := t } := by
    refine ⟨congrArg Pcbs.pcbFree_h hp, congrArg Pcbs.next_pid hp, rfl, rfl, fun q => ?_⟩
    have hq : t.pcbFree_table q = s.pcbFree_table q := congrFun (congrArg Pcbs.pcbFree_table hp) q
    unfold child parent
    rw [hq]
    exact ⟨rfl, rfl, rfl⟩
  cases x with
  | none => exact ht
  | some p =>
      have ht' := ht.trans (tree_modify (f := fun pcb => { pcb with p_semAdd := 0, p_s := f pcb.p_s })
        (fun _ => ⟨rfl, rfl, rfl⟩) { s with toPhase1 := t } p)
      exact ⟨ht'.free, ht'.next, ht'.root, ht'.processes, ht'.pcb⟩

theorem Linked.release (h : Linked lossy s none) (semAdd : Word) (f : State → State) :
    Linked lossy (s.release semAdd f).2 none := by
  have hl := h.removeBlocked semAdd
  unfold Kernel.release
  generalize s.toPhase1.removeBlocked semAdd = r at hl ⊢
  obtain ⟨x, t⟩ := r
  cases x with
  | none => exact hl
  | some p =>
      refine (hl.modify_hand _).ready ?_
      rw [modify_self]

theorem Sound.release (h : Sound lossy s) (semAdd : Word) (f : State → State) :
    Sound lossy (s.release semAdd f).2 :=
  ⟨h.links.release semAdd f, h.tree.same (tree_release s semAdd f),
    h.count.same (tree_release s semAdd f)⟩

theorem same_setMem (s : Kernel) (a v : Word) : SameTree s (s.setMem a v) :=
  ⟨rfl, rfl, rfl, rfl, fun _ => ⟨rfl, rfl, rfl⟩⟩

/-- The `V` of a device leaves the tree alone. -/
theorem tree_wake (L : Layout) (s : Kernel) (j : Fin semDevLen) (status : Word) :
    SameTree s (s.wake L j status) := by
  unfold Kernel.wake
  split
  · have hr := (same_setMem s (L.sem j) (s.mem (L.sem j) + 1)).trans
      (tree_release _ (L.sem j) fun st => { st with reg_a0 := status })
    split
    · rename_i t he
      rw [he] at hr
      exact hr
    · rename_i t he
      rw [he] at hr
      exact ⟨hr.free, hr.next, hr.root, hr.processes, hr.pcb⟩
  · exact .refl s

/-- The `V` of a device keeps the nucleus sound. -/
theorem Sound.wake (h : Sound lossy s) (j : Fin semDevLen) (status : Word) :
    Sound lossy (s.wake L j status) := by
  have ht := tree_wake L s j status
  refine ⟨?_, h.tree.same ht, h.count.same ht⟩
  unfold Kernel.wake
  split
  · have hr := ((h.setMem (L.sem j) (s.mem (L.sem j) + 1)).release (L.sem j)
      fun st => { st with reg_a0 := status }).links
    split
    · rename_i t he
      rw [he] at hr
      exact hr
    · rename_i t he
      rw [he] at hr
      exact hr.same ⟨rfl, rfl, rfl, rfl, fun _ => rfl⟩
  · exact h.links

theorem tree_wakes {l : List (Fin semDevLen × Word)} (hw : Wakes L l s t) : SameTree s t := by
  induction l generalizing s with
  | nil => exact Quiet.tree hw
  | cons x l ih =>
      obtain ⟨u, hu, hw⟩ := hw
      exact (hu.tree.trans (tree_wake L u x.1 x.2)).trans (ih hw)

theorem Sound.wakes {l : List (Fin semDevLen × Word)} (h : Sound lossy s) (hw : Wakes L l s t) :
    Sound lossy t := by
  induction l generalizing s with
  | nil => exact h.quiet hw
  | cons x l ih =>
      obtain ⟨u, hu, hw⟩ := hw
      exact ih ((h.quiet hu).wake x.1 x.2) hw

/-- What holds after every turn of the interval timer's loop holds after the loop. -/
theorem wakeClock_rule {P : Kernel → Prop}
    (hrel : ∀ u, P u → P (u.release (L.sem pseudoClock) fun st => { st with reg_a0 := 0 }).2)
    (hsoft : ∀ u k, P u → P { u with softBlockCount := k }) (h : P s) (k : ℕ) :
    P (s.wakeClock L k) := by
  induction k generalizing s with
  | zero => exact h
  | succ k ih =>
      unfold Kernel.wakeClock
      have hr := hrel s h
      split
      · rename_i t he
        rw [he] at hr
        exact hr
      · rename_i t he
        rw [he] at hr
        exact ih (hsoft _ _ hr)

theorem tree_wakeClock (L : Layout) (s : Kernel) (k : ℕ) : SameTree s (s.wakeClock L k) := by
  refine wakeClock_rule (P := SameTree s) (fun u hu => ?_) (fun u k hu => ?_) (.refl s) k
  · exact hu.trans (tree_release u _ _)
  · exact ⟨hu.free, hu.next, hu.root, hu.processes, hu.pcb⟩

theorem Linked.wakeClock (h : Linked lossy s none) (k : ℕ) :
    Linked lossy (s.wakeClock L k) none := by
  refine wakeClock_rule (P := fun u => Linked lossy u none) (fun u hu => ?_) (fun u k hu => ?_) h k
  · exact hu.release _ _
  · exact hu.same ⟨rfl, rfl, rfl, rfl, fun _ => rfl⟩

theorem Sound.wakeClock (h : Sound lossy s) (k : ℕ) : Sound lossy (s.wakeClock L k) :=
  ⟨h.links.wakeClock k, h.tree.same (tree_wakeClock L s k), h.count.same (tree_wakeClock L s k)⟩

/-! ### Creation -/

/-- What is left of `s` once the new process is the child of `cur`. -/
structure Adopted (s t : Kernel) (cur newPcb : PcbId) : Prop where
  free : s.pcbFree_h = newPcb :: t.pcbFree_h
  child : ∀ q, t.child q = if q = cur then s.child cur ++ [newPcb]
    else if q = newPcb then [] else s.child q
  parent : ∀ q, t.parent q = if q = newPcb then some cur else s.parent q
  pid : ∀ q, (t.pcbFree_table q).p_pid =
    if q = newPcb then s.next_pid else (s.pcbFree_table q).p_pid
  next : t.next_pid = s.next_pid + 1
  root : t.rootProcess = s.rootProcess
  processes : t.processCount = s.processCount + 1

variable {newPcb : PcbId} {v : Pcbs} {f : Pcb → Pcb}

/-- What `createProcess` does to the links. -/
theorem adopt_spec (ha : s.toPcbs.allocPcb = some (newPcb, v)) (hcur : s.Live cur)
    (hf : ∀ x, (f x).p_parent = x.p_parent ∧ (f x).p_child = x.p_child ∧ (f x).p_pid = x.p_pid ∧
      (f x).p_semAdd = 0) : Adopted s ((s.withPcbs v).adopt cur newPcb f) cur newPcb := by
  obtain ⟨hfree, hold, hnew, hnext⟩ := Pcbs.allocPcb_some ha
  have hne : cur ≠ newPcb := by
    rintro rfl
    exact hcur (by rw [hfree]; exact List.mem_cons_self)
  have htable : ∀ q, ((s.withPcbs v).adopt cur newPcb f).pcbFree_table q =
      { ((s.withPcbs v).modify newPcb f).pcbFree_table q with
        p_parent := if q = newPcb then some cur
          else (((s.withPcbs v).modify newPcb f).pcbFree_table q).p_parent
        p_child := if q = cur then (((s.withPcbs v).modify newPcb f).pcbFree_table q).p_child ++
          [newPcb] else (((s.withPcbs v).modify newPcb f).pcbFree_table q).p_child } :=
    fun q => Pcbs.insertChild_table _ cur newPcb q
  have hother : ∀ q, q ≠ newPcb →
      ((s.withPcbs v).modify newPcb f).pcbFree_table q = s.pcbFree_table q := fun q hq => by
    rw [modify_of_ne hq]
    exact hold q hq
  have hself : ((s.withPcbs v).modify newPcb f).pcbFree_table newPcb =
      f { Pcb.zero with p_pid := s.next_pid } := by
    rw [modify_self]
    exact congrArg f hnew
  refine ⟨hfree, fun q => ?_, fun q => ?_, fun q => ?_, hnext, rfl, rfl⟩
  · unfold Kernel.child
    rw [htable]
    by_cases hq : q = newPcb
    · simp only [hq, if_neg (Ne.symm hne), if_true, hself, (hf _).2.1]
      rfl
    · rw [hother q hq]
      by_cases hqc : q = cur
      · simp only [hqc, if_true]
      · simp only [if_neg hqc, if_neg hq]
  · unfold Kernel.parent
    rw [htable]
    by_cases hq : q = newPcb
    · rw [if_pos hq, if_pos hq]
    · rw [if_neg hq, if_neg hq, hother q hq]
  · rw [htable]
    by_cases hq : q = newPcb
    · simp only [hq, if_true, hself, (hf _).2.2.1]
    · rw [hother q hq]
      simp only [if_neg hq]

/-- The new process is live. -/
theorem Adopted.new_live (ha : Adopted s t cur newPcb) (hn : s.pcbFree_h.Nodup) :
    t.Live newPcb := by
  rw [ha.free] at hn
  exact (List.nodup_cons.mp hn).1

/-- A leaf is added to the tree. -/
theorem Tree.adopt (h : s.Tree) (hcur : s.Live cur) (hn : s.pcbFree_h.Nodup)
    (ha : Adopted s t cur newPcb) : t.Tree := by
  have hnew := ha.new_live hn
  have hdead : ¬ s.Live newPcb := fun hl => hl (by rw [ha.free]; exact List.mem_cons_self)
  -- the new PCB is live and a leaf
  have hlive : ∀ q, t.Live q ↔ q = newPcb ∨ s.Live q := by
    intro q
    unfold Live
    rw [ha.free, List.mem_cons, not_or]
    constructor
    · intro hq
      by_cases hqn : q = newPcb
      · exact .inl hqn
      · exact .inr ⟨hqn, hq⟩
    · rintro (rfl | ⟨-, hq⟩)
      · exact hnew
      · exact hq
  have hne : cur ≠ newPcb := by rintro rfl; exact hdead hcur
  refine ⟨fun q hq x hx => ?_, fun x hx q hq => ?_, fun q => ?_, fun q hq => ?_, fun hr => ?_⟩
  · rw [ha.child] at hx
    rw [hlive, ha.parent]
    have hold : ∀ y, s.Live y → x ∈ s.child y → (x = newPcb ∨ s.Live x) ∧
        (if x = newPcb then some cur else s.parent x) = some y := fun y hy hxy => by
      obtain ⟨hlx, hpx⟩ := h.down y hy x hxy
      have hxn : x ≠ newPcb := by rintro rfl; exact hdead hlx
      exact ⟨.inr hlx, by rw [if_neg hxn]; exact hpx⟩
    split at hx
    · rename_i hqc
      rcases List.mem_append.mp hx with hx | hx
      · rw [hqc]
        exact hold cur hcur hx
      · obtain rfl := List.mem_singleton.mp hx
        exact ⟨.inl rfl, by rw [if_pos rfl, hqc]⟩
    · split at hx
      · cases hx
      · rename_i hqn
        exact hold q (((hlive q).mp hq).resolve_left hqn) hx
  · rw [ha.parent] at hq
    rw [hlive, ha.child]
    split at hq
    · rename_i hxn
      obtain rfl := Option.some.inj hq
      rw [if_pos rfl, hxn]
      exact ⟨.inr hcur, List.mem_append_right _ List.mem_cons_self⟩
    · rename_i hxn
      obtain ⟨hlq, hmem⟩ := h.up x (((hlive x).mp hx).resolve_left hxn) q hq
      refine ⟨.inr hlq, ?_⟩
      split
      · rename_i hqc
        rw [hqc] at hmem
        exact List.mem_append_left _ hmem
      · have hqn : q ≠ newPcb := by rintro rfl; exact hdead hlq
        rw [if_neg hqn]
        exact hmem
  · rw [ha.child]
    split
    · refine List.nodup_append.mpr ⟨h.simple cur, List.nodup_singleton newPcb, ?_⟩
      rintro x hx y hy rfl
      obtain rfl := List.mem_singleton.mp hy
      exact hdead (h.down cur hcur _ hx).1
    · split
      · exact List.nodup_nil
      · exact h.simple q
  · rw [hlive, not_or] at hq
    have hqc : q ≠ cur := by rintro rfl; exact hq.2 hcur
    rw [ha.child, if_neg hqc, if_neg hq.1, ha.parent, if_neg hq.1]
    exact h.dead q hq.2
  · rw [ha.root] at hr ⊢
    rw [hlive]
    by_cases hrn : s.rootProcess = newPcb
    · exact .inl hrn
    · refine .inr (h.root ?_)
      unfold Named at hr ⊢
      rwa [ha.pid, if_neg hrn] at hr

/-- `createProcess` keeps the nucleus sound. -/
theorem Sound.adopt (h : Sound lossy s) (hc : s.currentProcess = some cur)
    (ha : s.toPcbs.allocPcb = some (newPcb, v))
    (hf : ∀ x, (f x).p_parent = x.p_parent ∧ (f x).p_child = x.p_child ∧ (f x).p_pid = x.p_pid ∧
      (f x).p_semAdd = 0) : Sound lossy ((s.withPcbs v).adopt cur newPcb f) := by
  have hcur : s.Live cur := (h.links.current hc).1
  have hsp := adopt_spec ha hcur hf
  refine ⟨?_, h.tree.adopt hcur h.links.nodup_free hsp, ?_⟩
  · have hl := (h.links.alloc ha).modify_hand f
    have hsem : ∀ q, (((s.withPcbs v).modify newPcb f).toPcbs.insertChild cur newPcb
        |>.pcbFree_table q).p_semAdd = (((s.withPcbs v).modify newPcb f).pcbFree_table q).p_semAdd :=
      fun q => by rw [Pcbs.insertChild_table]
    have hl' := hl.same (t := ((s.withPcbs v).modify newPcb f).withPcbs
      (((s.withPcbs v).modify newPcb f).toPcbs.insertChild cur newPcb))
      ⟨rfl, rfl, rfl, rfl, hsem⟩
    have h0 : (((s.withPcbs v).modify newPcb f).toPcbs.insertChild cur newPcb
        |>.pcbFree_table newPcb).p_semAdd = 0 := by
      rw [hsem, modify_self]
      exact (hf _).2.2.2
    exact (hl'.ready h0).same ⟨rfl, rfl, rfl, rfl, fun _ => rfl⟩
  · have hcount := h.count
    unfold Counted at hcount ⊢
    rw [hsp.free, List.length_cons] at hcount
    rw [hsp.processes]
    push_cast at hcount
    omega

/-! ### Termination -/

/-- A kill leaves the process that runs, or nobody. -/
theorem current_kills (L : Layout) (K : PcbId → Prop) (c : Option PcbId) :
    Kills L K fun s => s.currentProcess = none ∨ s.currentProcess = c where
  mark _ _ h _ _ _ := h
  detach _ _ _ _ h _ _ _ := h
  bury s p h _ _ _ _ := by
    have hb : (s.bury L p).currentProcess =
        if s.currentProcess = some p then none else s.currentProcess := by
      obtain ⟨asl, n, m, he⟩ := leaveSemaphore_frame L s p
      unfold Kernel.bury
      rw [he]
      rfl
    rw [hb]
    split
    · exact .inl rfl
    · exact h

theorem Sound.kills (L : Layout) (lossy : Prop) (K : PcbId → Prop) :
    Kills L K (Sound lossy) := by
  have h := ((Linked.kills L lossy K).and (Tree.kills L K)).and (Counted.kills L K)
  exact ⟨fun s p hs hK hl hn =>
      let r := h.mark s p ⟨⟨hs.links, hs.tree⟩, hs.count⟩ hK hl hn
      ⟨r.1.1, r.1.2, r.2⟩,
    fun s p c rest hs hK hl hc =>
      let r := h.detach s p c rest ⟨⟨hs.links, hs.tree⟩, hs.count⟩ hK hl hc
      ⟨r.1.1, r.1.2, r.2⟩,
    fun s p hs hK hl hn hnil =>
      let r := h.bury s p ⟨⟨hs.links, hs.tree⟩, hs.count⟩ hK hl hn hnil
      ⟨r.1.1, r.1.2, r.2⟩⟩

/-- `recursiveTerminateProcess`, with what is left of the tree. -/
theorem Sound.terminate (h : Sound lossy s) (hl : s.Named target → s.Live target) :
    Sound lossy (recursiveTerminateProcess L maxProc s target) ∧
    Culls s (recursiveTerminateProcess L maxProc s target) ∧
    ¬ (recursiveTerminateProcess L maxProc s target).Named target ∧
    ((recursiveTerminateProcess L maxProc s target).currentProcess = none ∨
      (recursiveTerminateProcess L maxProc s target).currentProcess = s.currentProcess) := by
  have hP := (Sound.kills L lossy fun _ => True).and (current_kills L (fun _ => True)
    s.currentProcess)
  obtain ⟨⟨h₁, h₂⟩, h₃, h₄⟩ := terminate_rule hP (h.tree.called ⟨h, .inr rfl⟩) hl
    fun _ _ => trivial
  exact ⟨h₁, h₃, h₄, h₂⟩

/-- A killed process does not run. -/
theorem Sound.terminate_current (h : Sound lossy s) (hl : s.Named target → s.Live target)
    (hn : s.Named target) :
    (recursiveTerminateProcess L maxProc s target).currentProcess ≠ some target := by
  obtain ⟨h₁, h₂, h₃, -⟩ := h.terminate (L := L) hl
  intro hc
  exact (h₂.gone target hn h₃).2 (h₁.links.current hc).1

/-- The process that runs is dropped: nobody runs, or it is lost. -/
theorem Sound.drop (h : Sound lossy s) (hc : s.currentProcess = none ∨ lossy) :
    Sound lossy { s with currentProcess := none } := by
  refine ⟨?_, h.tree.same ⟨rfl, rfl, rfl, rfl, fun _ => ⟨rfl, rfl, rfl⟩⟩, h.count⟩
  cases hs : s.currentProcess with
  | none =>
      refine h.links.same ⟨rfl, rfl, ?_, rfl, fun _ => rfl⟩
      exact hs.symm
  | some cur =>
      rcases hc with hc | hc
      · rw [hs] at hc
        cases hc
      · exact (h.links.take hs).lose hc

/-! ### Who is killed -/

/-- Who is found has the PID, and is the node or the child of one. -/
theorem findInTree_some {n : ℕ} {node : PcbId} {pid : Word}
    (h : s.findInTree n node pid = some p) :
    (s.pcbFree_table p).p_pid = pid ∧ s.Named p ∧ (p = node ∨ ∃ q, p ∈ s.child q) := by
  induction n generalizing node with
  | zero => cases h
  | succ n ih =>
      unfold findInTree at h
      split at h
      · cases h
      · rename_i hneg
        split at h
        · rename_i hpid
          obtain rfl := Option.some.inj h
          exact ⟨hpid, not_lt.mp hneg, .inl rfl⟩
        · obtain ⟨c, hc, hf⟩ := List.exists_of_findSome?_eq_some h
          obtain ⟨hpid, hn, hor⟩ := ih hf
          refine ⟨hpid, hn, .inr ?_⟩
          rcases hor with rfl | hor
          · exact ⟨node, hc⟩
          · exact hor

theorem serviceAct_kill {saved : State} {c : SysCall} (h : s.serviceAct cur saved c = .kill p) :
    s.termTarget cur saved.reg_a1 = some p := by
  cases c with
  | termProcess =>
      simp only [serviceAct] at h
      split at h
      case h_1 => cases h
      case h_2 ht =>
        cases h
        exact ht
  | createProcess | passeren | doIO => simp only [serviceAct] at h; split at h <;> cases h
  | _ => cases h

/-- The target of a kill: the process that runs, or the one found. -/
theorem act_kill {e : KernelEvent} (h : s.act e = .kill p) :
    s.currentProcess = some p ∨ ∃ pid, pid ≠ 0 ∧ s.findInTree maxProc s.rootProcess pid = some p := by
  have hfrom := act_from s e
  generalize s.act e = x at hfrom h
  cases hfrom with
  | store | nobody => cases h
  | @interrupt saved i hint =>
      rcases s.interruptAct_cases saved i.reg with hi | hi | ⟨l, hi⟩ <;> rw [hi] at h <;> cases h
  | passUp i hint hc =>
      split at h <;> cases h
      exact .inl hc
  | @service saved cur c i hint hc hs =>
      have ht := serviceAct_kill h
      unfold termTarget at ht
      split at ht
      · exact .inl (hc.trans ht)
      · rename_i ha
        exact .inr ⟨_, ha, ht⟩

theorem Sound.kill_live {e : KernelEvent} (h : Sound lossy s) (ha : s.act e = .kill p) :
    s.Live p := by
  rcases act_kill ha with hc | ⟨pid, -, hf⟩
  · exact (h.links.current hc).1
  · obtain ⟨-, hn, rfl | ⟨q, hq⟩⟩ := findInTree_some hf
    · exact h.tree.root hn
    · exact h.tree.tracked q p hq hn

/-! ### Steps -/

/-- The semaphore on which the process that runs blocks. -/
def Act.blocksOn (L : Layout) : Act → Option Word
  | .block semAdd => some semAdd
  | .io j => some (L.sem j)
  | .clockWait => some (L.sem pseudoClock)
  | _ => none

theorem Sound.blocks (h : Sound lossy s) (hb : Blocks L s semAdd t) (h0 : semAdd ≠ 0)
    (hd : lossy ∨ s.HasSemd semAdd) : Sound lossy t := by
  obtain ⟨cur, u, tod₁, tod₂, hc, hq, rfl⟩ := hb
  have hu := (h.setMem semAdd (s.mem semAdd - 1)).quiet hq
  refine hu.blockCurrentProcess (hq.current.trans hc) h0 (hd.imp_right fun hs => ?_) tod₁ tod₂
  unfold HasSemd
  rw [hq.asl]
  exact hs

/-- Each act keeps the nucleus sound. -/
theorem Sound.did {a : Act} (h : Sound lossy s) (hd : Did L s a t)
    (hb : ∀ w, a.blocksOn L = some w → w ≠ 0 ∧ (lossy ∨ s.HasSemd w))
    (hk : ∀ p, a = .kill p → s.Live p ∧ (lossy ∨ s.Named p)) : Sound lossy t := by
  cases a with
  | quiet => exact h.quiet hd.1
  | store a v => exact (h.setMem a v).quiet hd.1
  | create =>
      obtain ⟨cur, newPcb, v, f, hc, ha, hf, hq, -⟩ := hd
      exact (h.adopt hc ha hf).quiet hq
  | kill target =>
      obtain ⟨u, hq, hd⟩ := hd
      obtain ⟨hl, hn⟩ := hk target rfl
      have hu := h.quiet hq
      have hlu : u.Live target := hq.tree.live.mpr hl
      obtain ⟨hv, -, -, hcur⟩ := hu.terminate (L := L) fun _ => hlu
      rcases hd with ⟨hc, tod, rfl⟩ | ⟨-, -, hq', -⟩
      · refine Sound.scheduler (hv.drop ?_) rfl tod
        -- the process that ran is dropped: it is lost, or it has been killed
        rcases hn with hn | hn
        · exact .inr hn
        · left
          rcases hc with hc | hc
          · refine hcur.resolve_right fun he => ?_
            rw [hq.current, hc] at he
            exact hu.terminate_current (L := L) (fun _ => hlu) (hq.tree.named.mpr hn) he
          · exact hc
      · exact hv.quiet hq'
  | pass semAdd => exact (h.setMem _ _).quiet hd.1
  | block semAdd =>
      obtain ⟨h0, hs⟩ := hb semAdd rfl
      exact h.blocks hd.1 h0 hs
  | io j =>
      obtain ⟨h0, hs⟩ := hb (L.sem j) rfl
      exact h.blocks hd h0 hs
  | clockWait =>
      obtain ⟨h0, hs⟩ := hb (L.sem pseudoClock) rfl
      exact h.blocks hd h0 hs
  | signal semAdd =>
      obtain ⟨-, u, hq, hq', -⟩ := hd
      have hu := (h.setMem semAdd _).quiet hq
      split at hq'
      · exact (hu.release semAdd id).quiet hq'
      · exact hu.quiet hq'
  | requeue =>
      obtain ⟨cur, u, tod, hc, hq, rfl⟩ := hd
      exact (h.quiet hq).requeue (hq.current.trans hc) tod
  | wake l =>
      obtain ⟨u, hw, hr⟩ := hd
      exact (h.wakes hw).resumes hr
  | tick =>
      obtain ⟨u, hq, hr⟩ := hd
      exact (((h.quiet hq).wakeClock _).setMem _ _).resumes hr

theorem tree_resumes (h : Resumes s t) : SameTree s t := by
  unfold Resumes at h
  split at h
  · obtain ⟨tod, rfl⟩ := h
    exact tree_scheduler s tod
  · exact h.1.tree

theorem tree_blocks (h : Blocks L s semAdd t) : SameTree s t := by
  obtain ⟨cur, u, tod₁, tod₂, -, hq, rfl⟩ := h
  rw [blockCurrentProcess_eq]
  exact ((same_setMem s _ _).trans hq.tree).trans
    ((tree_blocked L u cur semAdd tod₁).trans (tree_scheduler _ tod₂))

/-- What a step does with the tree: only creation and termination change it. -/
inductive TreeStep (L : Layout) (s t : Kernel) : Act → Prop where
  | same (a : Act) (hc : a ≠ .create) (hk : ∀ p, a ≠ .kill p) (h : SameTree s t) :
      TreeStep L s t a
  | create (u : Kernel) (cur newPcb : PcbId) (hc : s.currentProcess = some cur)
      (h : Adopted s u cur newPcb) (ht : SameTree u t) : TreeStep L s t .create
  | kill (u : Kernel) (target : PcbId) (hq : Quiet s u)
      (h : SameTree (recursiveTerminateProcess L maxProc u target) t) :
      TreeStep L s t (.kill target)

/-- What each act does to the tree. -/
theorem Sound.treeStep {a : Act} (h : Sound lossy s) (hd : Did L s a t) : TreeStep L s t a := by
  cases a with
  | quiet => exact .same _ nofun (fun _ => nofun) hd.1.tree
  | store a v => exact .same _ nofun (fun _ => nofun) ((same_setMem s a v).trans hd.1.tree)
  | create =>
      obtain ⟨cur, newPcb, v, f, hc, ha, hf, hq, -⟩ := hd
      exact .create _ cur newPcb hc (adopt_spec ha (h.links.current hc).1 hf) hq.tree
  | kill target =>
      obtain ⟨u, hq, ⟨-, tod, rfl⟩ | ⟨-, -, hq', -⟩⟩ := hd
      · refine .kill u target hq (SameTree.trans ?_ (tree_scheduler _ tod))
        exact ⟨rfl, rfl, rfl, rfl, fun _ => ⟨rfl, rfl, rfl⟩⟩
      · exact .kill u target hq hq'.tree
  | pass semAdd => exact .same _ nofun (fun _ => nofun) ((same_setMem s _ _).trans hd.1.tree)
  | block semAdd => exact .same _ nofun (fun _ => nofun) (tree_blocks hd.1)
  | io j => exact .same _ nofun (fun _ => nofun) (tree_blocks hd)
  | clockWait => exact .same _ nofun (fun _ => nofun) (tree_blocks hd)
  | signal semAdd =>
      obtain ⟨-, u, hq, hq', -⟩ := hd
      have hu := (same_setMem s _ _).trans hq.tree
      split at hq'
      · exact .same _ nofun (fun _ => nofun) ((hu.trans (tree_release u semAdd id)).trans hq'.tree)
      · exact .same _ nofun (fun _ => nofun) (hu.trans hq'.tree)
  | requeue =>
      obtain ⟨cur, u, tod, -, hq, rfl⟩ := hd
      refine .same _ nofun (fun _ => nofun) (hq.tree.trans (SameTree.trans ?_ (tree_scheduler _ tod)))
      exact ⟨rfl, rfl, rfl, rfl, fun _ => ⟨rfl, rfl, rfl⟩⟩
  | wake l =>
      obtain ⟨u, hw, hr⟩ := hd
      exact .same _ nofun (fun _ => nofun) ((tree_wakes hw).trans (tree_resumes hr))
  | tick =>
      obtain ⟨u, hq, hr⟩ := hd
      have hu := hq.tree.trans (tree_wakeClock L u (maxProc + 1))
      exact .same _ nofun (fun _ => nofun)
        ((hu.trans (same_setMem _ _ _)).trans (tree_resumes hr))

/-- A semaphore of the nucleus is not at NULL. -/
theorem sem_ne_zero (L : Layout) (j : Fin semDevLen) : L.sem j ≠ 0 := by
  intro h
  have hj := j.isLt
  have hp := L.pos
  have hf := L.fits
  have h' := congrArg BitVec.toNat h
  unfold Layout.sem at h'
  rw [BitVec.toNat_add, BitVec.toNat_ofNat] at h'
  unfold wordLen semDevLen at *
  have h0 : (0 : Word).toNat = 0 := rfl
  omega

/-- **A step keeps the links, the tree and the count.** -/
theorem Sound.step {e : KernelEvent} (h : Sound lossy s) (hs : s.step L e = some t)
    (hb : ∀ w, (s.act e).blocksOn L = some w → lossy ∨ s.HasSemd w)
    (hk : ∀ p, s.act e = .kill p → lossy ∨ s.Named p) : Sound lossy t := by
  refine h.did (did_step hs) (fun w hw => ⟨?_, hb w hw⟩) fun p hp => ⟨h.kill_live hp, hk p hp⟩
  cases ha : s.act e with
  | block semAdd =>
      rw [ha] at hw
      obtain rfl := Option.some.inj hw
      exact (step_valid hs (.inl ha)).1
  | io j =>
      rw [ha] at hw
      obtain rfl := Option.some.inj hw
      exact sem_ne_zero L j
  | clockWait =>
      rw [ha] at hw
      obtain rfl := Option.some.inj hw
      exact sem_ne_zero L pseudoClock
  | _ => rw [ha] at hw; cases hw

/-! ### The first state -/

section
variable (L : Layout) (mem : Word → Word) (support : Word → SupportT) (test ramtop tod : Word)

/-- The PCB `initKernel` takes. -/
def first : PcbId := ⟨19, by decide⟩

theorem init_free : (initKernel L mem support test ramtop tod).pcbFree_h =
    (List.finRange maxProc).reverse.tail := rfl

theorem init_table (p : PcbId) : (initKernel L mem support test ramtop tod).pcbFree_table p =
    if p = first then { Pcb.zero with p_pid := 1, p_s := initState test ramtop } else .zero := by
  by_cases hp : p = first
  · rw [if_pos hp, hp]
    rfl
  · rw [if_neg hp]
    exact (Function.update_of_ne hp ..).trans (Function.update_of_ne hp ..)

theorem init_live (p : PcbId) : (initKernel L mem support test ramtop tod).Live p ↔ p = first := by
  unfold Live
  rw [init_free]
  revert p
  decide

theorem init_child (p : PcbId) : (initKernel L mem support test ramtop tod).child p = [] := by
  unfold child
  rw [init_table]
  split <;> rfl

theorem init_queuedCount (p : PcbId) :
    (initKernel L mem support test ramtop tod).queuedCount p = 0 :=
  Asl.queuedCount_eq_zero fun d hd => by cases hd

/-- **The first state is sound.** -/
theorem Sound.init (lossy : Prop) : Sound lossy (initKernel L mem support test ramtop tod) := by
  have htable := init_table L mem support test ramtop tod
  refine ⟨⟨fun p => .inl ?_, .init, fun d p hp => ?_, fun p _ => ?_⟩, ⟨fun p _ c hc => ?_,
    fun c _ p hp => ?_, fun p => ?_, fun p _ => ⟨init_child L mem support test ramtop tod p, ?_⟩,
    fun _ => (init_live L mem support test ramtop tod _).mpr rfl⟩, ?_⟩
  · unfold places
    rw [init_queuedCount, init_free]
    show (List.finRange maxProc).reverse.tail.count p + 0 + 0 + isAt (some first) p + 0 = 1
    revert p
    decide
  · cases hp
  · rw [htable]
    split <;> rfl
  · rw [init_child] at hc
    cases hc
  · unfold parent at hp
    rw [htable] at hp
    split at hp <;> cases hp
  · rw [init_child]
    exact List.nodup_nil
  · unfold parent
    rw [htable]
    split <;> rfl
  · unfold Counted
    rw [init_free]
    rfl

end

end Kernel

end PandOS
