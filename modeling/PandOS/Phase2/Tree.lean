import PandOS.Phase2.Terminate

/-!
# Phase 2 — the process tree and the number of processes

`Kernel.Tree`: among the live processes child lists and parent pointers agree, and a PCB that is
not live has neither.  `Kernel.Counted`: `processCount` is the number of live PCBs.  Both are
kept by `recursiveTerminateProcess` (`Tree.kills`, `Counted.kills`), so that `Called` holds
wherever it is called.
-/

namespace PandOS

namespace Kernel

variable {L : Layout} {s t : Kernel} {p q c : PcbId}

/-- The links of the process tree. -/
structure Tree (s : Kernel) : Prop where
  down : ∀ p, s.Live p → ∀ c ∈ s.child p, s.Live c ∧ s.parent c = some p
  up : ∀ c, s.Live c → ∀ p, s.parent c = some p → s.Live p ∧ c ∈ s.child p
  simple : ∀ p, (s.child p).Nodup
  dead : ∀ p, ¬ s.Live p → s.child p = [] ∧ s.parent p = none
  root : s.Named s.rootProcess → s.Live s.rootProcess

/-- `processCount` is the number of PCBs that are not free. -/
def Counted (s : Kernel) : Prop := s.processCount + s.pcbFree_h.length = maxProc

theorem Tree.tracked (h : s.Tree) : s.Tracked := fun p c hc _ => by
  by_cases hp : s.Live p
  · exact (h.down p hp c hc).1
  · rw [(h.dead p hp).1] at hc
    cases hc

theorem Tree.short (h : s.Tree) : s.Short := fun p => by
  have := (h.simple p).length_le_card
  rwa [Fintype.card_fin] at this

theorem unmarked_le_maxProc (s : Kernel) : s.unmarked ≤ maxProc := by
  have := Finset.card_le_univ (Finset.univ.filter s.Named)
  rwa [Fintype.card_fin] at this

/-- The recursion may be called. -/
theorem Tree.called {P : Kernel → Prop} (h : s.Tree) (hP : P s) : Called P maxProc s :=
  ⟨hP, h.tracked, h.short, s.unmarked_le_maxProc⟩

/-- Marking a process leaves the tree. -/
theorem Tree.mark (h : s.Tree) (p : PcbId) : (s.mark p).Tree where
  down q hq x hx := by
    rw [mark_child] at hx
    obtain ⟨hl, hp⟩ := h.down q hq x hx
    refine ⟨hl, ?_⟩
    rw [parent, mark_table]
    exact hp
  up x hx q hq := by
    rw [parent, mark_table] at hq
    rw [mark_child]
    exact h.up x hx q hq
  simple q := by
    rw [mark_child]
    exact h.simple q
  dead q hq := by
    rw [mark_child, parent, mark_table]
    exact h.dead q hq
  root hr := h.root (mark_named.mp hr).2

/-- The first child is taken from the list. -/
theorem Tree.detach (h : s.Tree) (hl : s.Live p) {rest : List PcbId}
    (hc : s.child p = c :: rest) : (s.withPcbs (s.toPcbs.removeChild p).2).Tree := by
  have hpar : ∀ q, (s.withPcbs (s.toPcbs.removeChild p).2).parent q =
      if q = c then none else s.parent q := by
    intro q
    obtain ⟨-, -, -, ht⟩ := Pcbs.removeChild_cons hc
    show ((s.toPcbs.removeChild p).2.pcbFree_table q).p_parent = _
    rw [ht]
    rfl
  have hcp : s.parent c = some p := (h.down p hl c (hc ▸ List.mem_cons_self)).2
  have hnc : c ∉ rest := (List.nodup_cons.mp (hc ▸ h.simple p)).1
  refine ⟨fun q hq x hx => ?_, fun x hx q hq => ?_, fun q => ?_, fun q hq => ?_, fun hr => ?_⟩
  · rw [detach_live hc] at hq ⊢
    obtain ⟨hlx, hpx⟩ := h.down q hq x ((detach_sublist hc q).mem hx)
    have hxc : x ≠ c := by
      rintro rfl
      obtain rfl : q = p := Option.some.inj (hpx.symm.trans hcp)
      rw [detach_child hc, if_pos rfl] at hx
      exact hnc hx
    rw [hpar, if_neg hxc]
    exact ⟨hlx, hpx⟩
  · rw [detach_live hc] at hx ⊢
    rw [hpar] at hq
    split at hq
    · cases hq
    · rename_i hxc
      obtain ⟨hlq, hmem⟩ := h.up x hx q hq
      refine ⟨hlq, ?_⟩
      rw [detach_child hc]
      split
      · rename_i hqp
        rw [hqp, hc] at hmem
        exact (List.mem_cons.mp hmem).resolve_left hxc
      · exact hmem
  · exact (h.simple q).sublist (detach_sublist hc q)
  · rw [detach_live hc] at hq
    refine ⟨List.sublist_nil.mp ((h.dead q hq).1 ▸ detach_sublist hc q), ?_⟩
    rw [hpar, (h.dead q hq).2]
    split <;> rfl
  · exact (detach_live hc).mpr (h.root ((detach_named hc).mp hr))

theorem bury_parent (L : Layout) (s : Kernel) (p q : PcbId) :
    (s.bury L p).parent q = if q = p then none else s.parent q := by
  rw [parent, bury_table]

theorem bury_root (L : Layout) (s : Kernel) (p : PcbId) :
    (s.bury L p).rootProcess = s.rootProcess := by
  obtain ⟨asl, n, m, he⟩ := leaveSemaphore_frame L s p
  unfold bury
  rw [he]
  rfl

/-- A marked process without children is buried. -/
theorem Tree.bury (h : s.Tree) (hn : ¬ s.Named p) (hnil : s.child p = []) :
    (s.bury L p).Tree := by
  refine ⟨fun q hq x hx => ?_, fun x hx q hq => ?_, fun q => ?_, fun q hq => ?_, fun hr => ?_⟩
  · rw [bury_live] at hq ⊢
    obtain ⟨hlx, hpx⟩ := h.down q hq.2 x ((bury_sublist L s p q).mem hx)
    have hxp : x ≠ p := by
      rintro rfl
      rw [bury_child, if_pos hpx] at hx
      exact (h.simple q).not_mem_erase hx
    rw [bury_parent, if_neg hxp]
    exact ⟨⟨hxp, hlx⟩, hpx⟩
  · rw [bury_live] at hx ⊢
    rw [bury_parent, if_neg hx.1] at hq
    obtain ⟨hlq, hmem⟩ := h.up x hx.2 q hq
    have hqp : q ≠ p := by
      rintro rfl
      rw [hnil] at hmem
      cases hmem
    refine ⟨⟨hqp, hlq⟩, ?_⟩
    rw [bury_child]
    split
    · exact (List.mem_erase_of_ne hx.1).mpr hmem
    · exact hmem
  · exact (h.simple q).sublist (bury_sublist L s p q)
  · have hs := bury_sublist L s p q
    rw [bury_live] at hq
    rw [bury_parent]
    by_cases hqp : q = p
    · rw [hqp, hnil] at hs
      rw [if_pos hqp, hqp]
      exact ⟨List.sublist_nil.mp hs, rfl⟩
    · obtain ⟨hc, hp⟩ := h.dead q fun hl => hq ⟨hqp, hl⟩
      rw [hc] at hs
      rw [if_neg hqp]
      exact ⟨List.sublist_nil.mp hs, hp⟩
  · rw [bury_root, bury_named] at hr
    rw [bury_root, bury_live]
    refine ⟨?_, h.root hr⟩
    rintro rfl
    exact hn hr

/-- **The tree is kept by the recursion.** -/
theorem Tree.kills (L : Layout) (K : PcbId → Prop) : Kills L K Tree where
  mark _ p h _ _ _ := h.mark p
  detach _ _ _ _ h _ hl hc := h.detach hl hc
  bury _ _ h _ _ hn hnil := h.bury hn hnil

/-- A kill keeps `processCount` the number of live processes. -/
theorem Counted.kills (L : Layout) (K : PcbId → Prop) : Kills L K Counted where
  mark _ _ h _ _ _ := h
  detach s p c rest h _ _ hc := by
    obtain ⟨-, hf, -, -⟩ := Pcbs.removeChild_cons hc
    show s.processCount + ((s.toPcbs.removeChild p).2.pcbFree_h.length : ℤ) = _
    rw [hf]
    exact h
  bury s p h _ _ _ _ := by
    have hc : (s.bury L p).processCount = s.processCount - 1 := by
      obtain ⟨asl, n, m, he⟩ := leaveSemaphore_frame L s p
      unfold Kernel.bury
      rw [he]
      rfl
    unfold Counted at h ⊢
    rw [hc, bury_free, List.length_cons]
    push_cast
    omega

/-- Two laws kept by the recursion are kept together. -/
theorem Kills.and {K : PcbId → Prop} {P Q : Kernel → Prop} (hP : Kills L K P)
    (hQ : Kills L K Q) : Kills L K fun s => P s ∧ Q s where
  mark s p h hK hl hn := ⟨hP.mark s p h.1 hK hl hn, hQ.mark s p h.2 hK hl hn⟩
  detach s p c rest h hK hl hc :=
    ⟨hP.detach s p c rest h.1 hK hl hc, hQ.detach s p c rest h.2 hK hl hc⟩
  bury s p h hK hl hn hnil :=
    ⟨hP.bury s p h.1 hK hl hn hnil, hQ.bury s p h.2 hK hl hn hnil⟩

end Kernel

end PandOS
