import PandOS.Phase1.Descriptors

/-!
# Phase 1 — the lists of the ASL are its pointers

The nucleus is modelled over the lists of `Phase1`.  `Stores m s l`: the pointers of `m` make the
lists of `s`.  The operations keep it and return the same (`Stores.insertBlocked`,
`Stores.removeBlocked`, `Stores.outBlocked`), so what is proved about the pointers holds of the
lists.
-/

namespace PandOS.AslLinks

variable {m t : AslLinks PcbId} {s : Phase1} {l : SemdId → Option (List PcbId)} {semAdd : Word}
  {d : SemdId} {p : PcbId}

/-- The pointers make the lists of `s`. -/
structure Stores (m : AslLinks PcbId) (s : Phase1) (l : SemdId → Option (List PcbId)) : Prop where
  holds : m.Holds s.semdFree_h s.semd_h l
  procq : ∀ d ∈ s.semd_h, l d = some (s.semd_table d).s_procq
  key : ∀ d ∈ s.semd_h, m.s_key d = (s.semd_table d).s_key
  p_semAdd : ∀ p, m.p_semAdd p = (s.pcbFree_table p).p_semAdd
  p_prio : ∀ p, m.p_prio p = (s.pcbFree_table p).p_prio

namespace Stores

theorem find_some (h : Stores m s l) (hd : d ∈ s.semd_h) (hk : m.s_key d = semAdd) :
    s.find semAdd = some d := by
  cases hf : s.find semAdd with
  | none => exact absurd ((h.key d hd).symm.trans hk) (Asl.find_none hf hd)
  | some c =>
      obtain ⟨hc, hkc⟩ := Asl.find_some hf
      rw [h.holds.keys c hc d hd ((h.key c hc).trans (hkc.trans hk.symm))]

theorem find_none (h : Stores m s l) (hno : ∀ d ∈ s.semd_h, m.s_key d ≠ semAdd) :
    s.find semAdd = none := by
  cases hf : s.find semAdd with
  | none => rfl
  | some c =>
      obtain ⟨hc, hkc⟩ := Asl.find_some hf
      exact absurd ((h.key c hc).trans hkc) (hno c hc)

/-- `initASL` at the pointers makes the empty ASL of the lists. -/
theorem initASL (m : AslLinks PcbId) (s : Phase1) (ha : s.toAsl = PandOS.initASL)
    (hs : ∀ p, m.p_semAdd p = (s.pcbFree_table p).p_semAdd)
    (hp : ∀ p, m.p_prio p = (s.pcbFree_table p).p_prio) :
    Stores m.initASL s fun _ => none := by
  have hfree : s.semdFree_h = (List.finRange maxProc).reverse := by rw [ha]; rfl
  have hact : s.semd_h = [] := by rw [ha]; rfl
  refine ⟨?_, ?_, ?_, hs, hp⟩
  · rw [hfree, hact]
    exact Holds.initASL m
  · rw [hact]
    nofun
  · rw [hact]
    nofun

/-- What `insertBlocked` writes to the PCBs. -/
theorem fields (h : Stores m s l) (semAdd : Word) {u : Phase1}
    (hu : u.pcbFree_table = s.pcbFree_table) (d : SemdId) (q : PcbId) :
    Function.update m.p_semAdd p semAdd q = ((u.enqueue d semAdd p).pcbFree_table q).p_semAdd ∧
      m.p_prio q = ((u.enqueue d semAdd p).pcbFree_table q).p_prio := by
  by_cases hq : q = p
  · subst hq
    rw [Function.update_self, Phase1.enqueue_table, hu]
    exact ⟨rfl, h.p_prio q⟩
  · rw [Function.update_of_ne hq, Phase1.enqueue_of_ne hq, hu]
    exact ⟨h.p_semAdd q, h.p_prio q⟩

/-- `insertBlocked` at the pointers does what it does to the lists. -/
theorem insertBlocked (h : Stores m s l) (hp : m.Unqueued p) (semAdd : Word) :
    ∃ t l, m.insertBlocked semAdd p = some ((s.insertBlocked semAdd p).1, t) ∧
      Stores t (s.insertBlocked semAdd p).2 l := by
  have hprio : m.p_prio = fun q => (s.pcbFree_table q).p_prio := funext h.p_prio
  rcases h.holds.insertBlocked_cases (h.holds.unqueued_iff.mp hp) semAdd with
    ⟨d, xs, lk, hd, hk, hl, hr, hh⟩ | ⟨hno, hf, hr⟩ | ⟨hno, d, rest, sk, lk, hf, hr, hh⟩
  -- the semaphore has a descriptor: only its queue changes
  · obtain rfl := Option.some.inj (hl.symm.trans (h.procq d hd))
    have hs : s.insertBlocked semAdd p = (false, s.enqueue d semAdd p) := by
      rw [Phase1.insertBlocked, h.find_some hd hk]
    rw [hs]
    refine ⟨_, _, hr, hh, fun c hc => ?_, fun c hc => ?_, fun q => (h.fields semAdd rfl d q).1,
      fun q => (h.fields semAdd rfl d q).2⟩
    · by_cases hcd : c = d
      · rw [hcd, Function.update_self, hprio, Phase1.enqueue_self]
        rfl
      · rw [Function.update_of_ne hcd, h.procq c hc]
        exact congrArg (fun x => some (Semd.s_procq x)) (Asl.setProcq_of_ne hcd).symm
    · exact (h.key c hc).trans Asl.setProcq_key.symm
  -- no descriptor is free
  · have hs : s.insertBlocked semAdd p = (true, s) := by
      rw [Phase1.insertBlocked, h.find_none hno, hf]
    rw [hs]
    exact ⟨m, l, hr, h⟩
  · have hs : s.insertBlocked semAdd p =
        (false, { s with toAsl := s.toAsl.take semAdd d rest }.enqueue d semAdd p) := by
      rw [Phase1.insertBlocked, h.find_none hno, hf]
    -- the new descriptor goes to the same place on both levels
    have hlink : linkAt m.s_key s.semd_h semAdd d = s.toAsl.link semAdd d :=
      linkAt_congr h.key
    rw [hlink] at hh
    rw [hs]
    refine ⟨_, _, hr, hh, fun c hc => ?_, fun c hc => ?_, fun q => (h.fields semAdd rfl d q).1,
      fun q => (h.fields semAdd rfl d q).2⟩
    all_goals
      have hmem : c = d ∨ c ∈ s.semd_h :=
        List.mem_cons.mp ((Asl.link_perm s.toAsl semAdd d).mem_iff.mp hc)
    · by_cases hcd : c = d
      · rw [hcd, Function.update_self, Phase1.enqueue_self]
        exact congrArg some (by rw [Asl.take_self]; rfl)
      · rw [Function.update_of_ne hcd, h.procq c (hmem.resolve_left hcd)]
        exact congrArg (fun x => some (Semd.s_procq x))
          ((Asl.setProcq_of_ne hcd).trans (Asl.take_of_ne hcd)).symm
    · refine Eq.trans ?_ Asl.setProcq_key.symm
      by_cases hcd : c = d
      · rw [hcd]
        exact (Function.update_self ..).trans (congrArg Semd.s_key Asl.take_self.symm)
      · refine (Function.update_of_ne hcd ..).trans ?_
        rw [h.key c (hmem.resolve_left hcd)]
        exact congrArg Semd.s_key (Asl.take_of_ne hcd).symm

/-- Rewriting the queue of one descriptor, at both levels. -/
theorem setProcq (h : Stores m s l) {xs : List PcbId} {lk : Links (Node SemdId PcbId)}
    {sk : Links (Node SemdHead SemdId)} {free act : List SemdId}
    (hh : Holds { m with s_link := sk, p_list := lk } free act (Function.update l d (some xs)))
    (hact : ∀ c ∈ act, c ∈ s.semd_h) :
    Stores { m with s_link := sk, p_list := lk } { s with
      toAsl := { s.toAsl.setProcq d xs with semdFree_h := free, semd_h := act } }
      (Function.update l d (some xs)) := by
  refine ⟨hh, fun c hc => ?_, fun c hc => ?_, h.p_semAdd, h.p_prio⟩
  · by_cases hcd : c = d
    · rw [hcd, Function.update_self]
      exact congrArg (fun x => some (Semd.s_procq x)) Asl.setProcq_self.symm
    · rw [Function.update_of_ne hcd, h.procq c (hact c hc)]
      exact congrArg (fun x => some (Semd.s_procq x)) (Asl.setProcq_of_ne hcd).symm
  · exact (h.key c (hact c hc)).trans Asl.setProcq_key.symm

/-- `removeBlocked` at the pointers does what it does to the lists. -/
theorem removeBlocked (h : Stores m s l) (semAdd : Word) :
    ∃ t l, m.removeBlocked semAdd = some ((s.removeBlocked semAdd).1, t) ∧
      Stores t (s.removeBlocked semAdd).2 l := by
  rcases h.holds.removeBlocked_cases semAdd with ⟨hno, hr⟩ | ⟨d, xs, sk, lk, hd, hk, hl, hr, hh⟩
  · have hs : s.removeBlocked semAdd = (none, s) := by
      rw [Phase1.removeBlocked, h.find_none hno]
    rw [hs]
    exact ⟨m, l, hr, h⟩
  · obtain rfl := Option.some.inj (hl.symm.trans (h.procq d hd))
    have hfind := h.find_some hd hk
    by_cases hx : (s.semd_table d).s_procq.tail = []
    · rw [if_pos hx, if_pos hx] at hh
      have hs : s.removeBlocked semAdd = ((s.semd_table d).s_procq.head?,
          { s with toAsl := (s.toAsl.setProcq d (s.semd_table d).s_procq.tail).giveBack d }) := by
        simp only [Phase1.removeBlocked, hfind, if_pos hx]
      rw [hs]
      exact ⟨_, _, hr, h.setProcq hh fun c hc => List.mem_of_mem_erase hc⟩
    · rw [if_neg hx, if_neg hx] at hh
      have hs : s.removeBlocked semAdd = ((s.semd_table d).s_procq.head?,
          { s with toAsl := s.toAsl.setProcq d (s.semd_table d).s_procq.tail }) := by
        simp only [Phase1.removeBlocked, hfind, if_neg hx]
      rw [hs]
      exact ⟨_, _, hr, h.setProcq hh fun c hc => hc⟩

/-- `outBlocked` at the pointers does what it does to the lists. -/
theorem outBlocked (h : Stores m s l) (p : PcbId) :
    ∃ t l, m.outBlocked p = some ((s.outBlocked p).1, t) ∧ Stores t (s.outBlocked p).2 l := by
  rcases h.holds.outBlocked_cases p with ⟨hno, hr⟩ | ⟨d, xs, hd, hk, hl, hcase⟩
  · rw [h.p_semAdd] at hno
    have hs : s.outBlocked p = (none, s) := by rw [Phase1.outBlocked, h.find_none hno]
    rw [hs]
    exact ⟨m, l, hr, h⟩
  · obtain rfl := Option.some.inj (hl.symm.trans (h.procq d hd))
    have hfind := h.find_some hd (hk.trans (h.p_semAdd p))
    rcases hcase with ⟨hp, hr⟩ | ⟨hp, lk, hr, hh⟩
    · have hs : s.outBlocked p = (none, s) := by
        simp only [Phase1.outBlocked, hfind, Pcbs.outProcQ, if_neg hp]
        rw [Asl.setProcq_eq rfl]
      rw [hs]
      exact ⟨m, l, hr, h⟩
    · have hs : s.outBlocked p = (some p,
          { s with toAsl := s.toAsl.setProcq d ((s.semd_table d).s_procq.erase p) }) := by
        simp only [Phase1.outBlocked, hfind, Pcbs.outProcQ, if_pos hp]
      rw [hs]
      exact ⟨_, _, hr, h.setProcq hh fun c hc => hc⟩

end Stores

end PandOS.AslLinks
