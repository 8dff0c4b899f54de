import PandOS.Phase2.Sound

/-!
# Phase 2 — no PCB is used after it is freed, none is in two places

`unique_of_run`: in every state between steps of any run.
-/

namespace PandOS

namespace Kernel

variable {L : Layout} {mem : Word → Word} {support : Word → SupportT} {test ramtop tod : Word}
  {s : Kernel} {es : List KernelEvent}

/-- Every run keeps the links, the tree and the count. -/
theorem sound_of_run (h : Run (step L) anyStep
    (initKernel L mem support test ramtop tod) es s) : Sound True s :=
  h.inv (.init L mem support test ramtop tod True) fun _ _ _ hu _ hs =>
    hu.step hs (fun _ _ => .inl trivial) fun _ _ => .inl trivial

/-- **PCBs are never used after free and never in two places.**  A PCB is linked at most once in
the free list, the ready queue and the queues of semaphores; the process that runs is live and in
none of them; no free PCB is ready, or the parent or a child of a live one; and `processCount` is
the number of PCBs that are not free. -/
theorem unique_of_run (h : Run (step L) anyStep
    (initKernel L mem support test ramtop tod) es s) :
    (∀ p, s.pcbFree_h.count p + s.readyQueue.count p + s.queuedCount p ≤ 1) ∧
    (∀ p, s.currentProcess = some p → s.Live p ∧ p ∉ s.readyQueue ∧
      ∀ d, p ∉ (s.semd_table d).s_procq) ∧
    (∀ p ∈ s.readyQueue, s.Live p) ∧
    (∀ p, s.Live p → (∀ c ∈ s.child p, s.Live c) ∧ ∀ q, s.parent p = some q → s.Live q) ∧
    s.processCount = maxProc - s.pcbFree_h.length := by
  have hs := sound_of_run h
  refine ⟨fun p => ?_, fun p hp => hs.links.current hp, fun p hp => (hs.links.in_ready hp).1,
    fun p hp => ⟨fun c hc => (hs.tree.down p hp c hc).1, fun q hq => (hs.tree.up p hp q hq).1⟩, ?_⟩
  · have := hs.links.le_one p
    unfold places at this
    omega
  · have := hs.count
    unfold Counted at this
    omega

/-- A run: a child is created and blocks, and its parent kills it. -/
theorem unique_of_run_kill : ∃ es s, Run (step layout₀) anyStep boot₀ es s ∧
    s.processCount = 1 ∧ s.processCount = maxProc - s.pcbFree_h.length := by
  obtain ⟨s, hr, hc⟩ := exists_run (step layout₀) anyStep
    (fun s => s.processCount = 1) boot₀
    [call (-1) 0 0 0, call (-10) 0 0 0, call (-3) 0x1000 0 0, call (-2) 2 0 0] (by decide +kernel)
  exact ⟨_, s, hr, hc, (unique_of_run hr).2.2.2.2⟩

end Kernel

end PandOS
