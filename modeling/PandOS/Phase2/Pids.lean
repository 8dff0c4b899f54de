import PandOS.Phase2.Allocation

/-!
# Phase 2 — pids

`Kernel.Pids`: while `next_pid` has not wrapped the live processes have different positive pids,
and a child has a larger pid than its parent.  `Fresh`, the condition on a step, lets a process be
created only while `next_pid` is positive.
-/

namespace PandOS

namespace Kernel

variable {L : Layout} {s t : Kernel} {lossy : Prop} {p q cur newPcb target : PcbId}

/-- The pid, as a number. -/
def pidNat (s : Kernel) (p : PcbId) : ℕ := (s.pcbFree_table p).p_pid.toNat

/-- The pids of the live processes. -/
structure Pids (s : Kernel) : Prop where
  pos : 0 < s.next_pid.toNat
  bound : s.next_pid.toNat ≤ 2 ^ 31
  range : ∀ p, s.Live p → 0 < s.pidNat p ∧ s.pidNat p < s.next_pid.toNat
  unique : ∀ p q, s.Live p → s.Live q → s.pidNat p = s.pidNat q → p = q
  below : ∀ p, s.Live p → ∀ c ∈ s.child p, s.pidNat p < s.pidNat c

/-- The step creates a process. -/
def Creates (s : Kernel) (e : KernelEvent) : Prop := s.act e = .create

instance (s : Kernel) (e : KernelEvent) : Decidable (s.Creates e) :=
  inferInstanceAs (Decidable (_ = _))

/-- A process is created only while `next_pid` is positive. -/
def Fresh (s : Kernel) (e : KernelEvent) : Prop := s.Creates e → 0 < s.next_pid.toInt

instance (s : Kernel) (e : KernelEvent) : Decidable (s.Fresh e) :=
  inferInstanceAs (Decidable (_ → _))

theorem Pids.toInt (h : s.Pids) (hl : s.Live p) :
    (s.pcbFree_table p).p_pid.toInt = s.pidNat p := by
  have h₁ := (h.range p hl).2
  have h₂ := h.bound
  unfold pidNat at *
  exact BitVec.toInt_eq_toNat_of_lt (by omega)

theorem Pids.named (h : s.Pids) (hl : s.Live p) : s.Named p := by
  unfold Named
  rw [h.toInt hl]
  exact Int.natCast_nonneg _

theorem SameTree.pidNat (h : SameTree s t) (p : PcbId) : t.pidNat p = s.pidNat p := by
  unfold Kernel.pidNat
  rw [(h.pcb p).2.2]

/-- A step that leaves tree and PIDs alone. -/
theorem Pids.same (h : s.Pids) (hs : SameTree s t) : t.Pids where
  pos := by rw [hs.next]; exact h.pos
  bound := by rw [hs.next]; exact h.bound
  range p hp := by
    rw [hs.pidNat, hs.next]
    exact h.range p (hs.live.mp hp)
  unique p q hp hq he := by
    rw [hs.pidNat, hs.pidNat] at he
    exact h.unique p q (hs.live.mp hp) (hs.live.mp hq) he
  below p hp c hc := by
    rw [(hs.pcb p).1] at hc
    rw [hs.pidNat, hs.pidNat]
    exact h.below p (hs.live.mp hp) c hc

/-- `p` is live once it is adopted. -/
theorem Adopted.live (h : Adopted s t cur newPcb) (hp : t.Live p) : p = newPcb ∨ s.Live p := by
  by_cases hpn : p = newPcb
  · exact .inl hpn
  · right
    unfold Live
    rw [h.free, List.mem_cons, not_or]
    exact ⟨hpn, hp⟩

theorem Adopted.pidNat (h : Adopted s t cur newPcb) (p : PcbId) :
    t.pidNat p = if p = newPcb then s.next_pid.toNat else s.pidNat p := by
  unfold Kernel.pidNat
  rw [h.pid]
  split <;> rfl

/-- The new process gets a PID nobody has, as long as the counter has not wrapped. -/
theorem Pids.adopt (h : s.Pids) (ht : s.Tree) (hcur : s.Live cur) (ha : Adopted s t cur newPcb)
    (hf : 0 < s.next_pid.toInt) : t.Pids := by
  -- the counter has not reached the sign bit
  have hlt : s.next_pid.toNat < 2 ^ 31 := by
    by_contra hn
    have he : s.next_pid.toNat = 2 ^ 31 := le_antisymm h.bound (not_lt.mp hn)
    rw [BitVec.toInt_eq_toNat_cond, he] at hf
    exact absurd hf (by decide)
  have hnext : t.next_pid.toNat = s.next_pid.toNat + 1 := by
    rw [ha.next, BitVec.toNat_add]
    have h1 : (1 : Word).toNat = 1 := rfl
    omega
  have hdead : ¬ s.Live newPcb := fun hl => hl (by rw [ha.free]; exact List.mem_cons_self)
  refine ⟨by omega, by omega, fun p hp => ?_, fun p q hp hq he => ?_, fun p hp c hc => ?_⟩
  · rw [ha.pidNat, hnext]
    split
    · have := h.pos
      omega
    · rename_i hpn
      have := h.range p ((ha.live hp).resolve_left hpn)
      omega
  · rw [ha.pidNat, ha.pidNat] at he
    have hold : ∀ {x}, t.Live x → x ≠ newPcb → s.Live x ∧ s.pidNat x < s.next_pid.toNat :=
      fun hx hxn => ⟨(ha.live hx).resolve_left hxn,
        (h.range _ ((ha.live hx).resolve_left hxn)).2⟩
    -- the new pid is larger than all others
    by_cases hpn : p = newPcb <;> by_cases hqn : q = newPcb
    · rw [hpn, hqn]
    · rw [if_pos hpn, if_neg hqn] at he
      have := (hold hq hqn).2
      omega
    · rw [if_neg hpn, if_pos hqn] at he
      have := (hold hp hpn).2
      omega
    · rw [if_neg hpn, if_neg hqn] at he
      exact h.unique p q (hold hp hpn).1 (hold hq hqn).1 he
  · rw [ha.child] at hc
    rw [ha.pidNat, ha.pidNat]
    have hcn : ∀ {x y}, s.Live x → y ∈ s.child x → y ≠ newPcb := fun hx hy he =>
      hdead (he ▸ (ht.down _ hx _ hy).1)
    have hcurn : cur ≠ newPcb := fun he => hdead (he ▸ hcur)
    split at hc
    · rename_i hpc
      rw [hpc, if_neg hcurn]
      rcases List.mem_append.mp hc with hc | hc
      · rw [if_neg (hcn hcur hc)]
        exact h.below cur hcur c hc
      · rw [List.mem_singleton.mp hc, if_pos rfl]
        exact (h.range cur hcur).2
    · split at hc
      · cases hc
      · rename_i hpn
        have hlp := (ha.live hp).resolve_left hpn
        rw [if_neg hpn, if_neg (hcn hlp hc)]
        exact h.below p hlp c hc

/-- `next_pid` is kept, and a pid unless it is marked. -/
theorem pid_kills (L : Layout) (K : PcbId → Prop) (s : Kernel) : Kills L K fun t =>
    t.next_pid = s.next_pid ∧ t.rootProcess = s.rootProcess ∧
      ∀ p, t.Named p → (t.pcbFree_table p).p_pid = (s.pcbFree_table p).p_pid where
  mark u p h _ _ _ := ⟨h.1, h.2.1, fun q hq => by
    obtain ⟨hne, hn⟩ := mark_named.mp hq
    rw [mark_table, ← h.2.2 q hn]
    exact if_neg hne⟩
  detach u p c rest h _ _ hc := by
    obtain ⟨-, -, hnext, ht⟩ := Pcbs.removeChild_cons hc
    refine ⟨hnext.trans h.1, h.2.1, fun q hq => ?_⟩
    rw [← h.2.2 q ((detach_named hc).mp hq)]
    show ((u.toPcbs.removeChild p).2.pcbFree_table q).p_pid = _
    rw [ht]
  bury u p h _ _ _ _ := by
    obtain ⟨asl, n, m, he⟩ := leaveSemaphore_frame L u p
    refine ⟨Eq.trans ?_ h.1, (bury_root L u p).trans h.2.1, fun q hq => ?_⟩
    · unfold Kernel.bury
      rw [he]
      exact Pcbs.outChild_next _ p
    · rw [← h.2.2 q (bury_named.mp hq), bury_table]

/-- After a kill the live processes are live processes of before, with their pids. -/
theorem Pids.terminate (h : s.Pids) (hs : Sound lossy s) (hl : s.Live target) :
    (recursiveTerminateProcess L maxProc s target).Pids := by
  obtain ⟨hv, hcul, -, -⟩ := hs.terminate (L := L) fun _ => hl
  obtain ⟨⟨hnext, -, hpid⟩, -, -⟩ := terminate_rule (pid_kills L (fun _ => True) s)
    (hs.tree.called ⟨rfl, rfl, fun _ _ => rfl⟩) (fun _ => hl) fun _ _ => trivial
  have hold : ∀ p, (recursiveTerminateProcess L maxProc s target).Live p →
      s.Live p ∧ (recursiveTerminateProcess L maxProc s target).pidNat p = s.pidNat p := by
    intro p hp
    have hlp := hcul.live p hp
    refine ⟨hlp, congrArg BitVec.toNat (hpid p ?_)⟩
    by_contra hn
    exact (hcul.gone p (h.named hlp) hn).2 hp
  refine ⟨by rw [hnext]; exact h.pos, by rw [hnext]; exact h.bound, fun p hp => ?_,
    fun p q hp hq he => ?_, fun p hp c hc => ?_⟩
  · rw [(hold p hp).2, hnext]
    exact h.range p (hold p hp).1
  · rw [(hold p hp).2, (hold q hq).2] at he
    exact h.unique p q (hold p hp).1 (hold q hq).1 he
  · rw [(hold p hp).2, (hold c (hv.tree.down p hp c hc).1).2]
    exact h.below p (hold p hp).1 c ((hcul.child p).mem hc)

theorem Pids.step {e : KernelEvent} (h : s.Pids) (hs : Sound lossy s) (hst : s.step L e = some t)
    (hf : s.Fresh e) : t.Pids := by
  have ht := hs.treeStep (did_step hst)
  generalize ha : s.act e = a at ht
  cases ht with
  | same _ _ _ hsame => exact h.same hsame
  | create u cur newPcb hc had hsame =>
      exact (h.adopt hs.tree (hs.links.current hc).1 had (hf ha)).same hsame
  | kill u target hq hsame =>
      have hl := hs.kill_live ha
      exact ((h.same hq.tree).terminate (hs.quiet hq) (hq.tree.live.mpr hl)).same hsame

theorem Pids.init (L : Layout) (mem : Word → Word) (support : Word → SupportT)
    (test ramtop tod : Word) : (initKernel L mem support test ramtop tod).Pids := by
  have hnext : (initKernel L mem support test ramtop tod).next_pid.toNat = 2 := rfl
  have hpid : (initKernel L mem support test ramtop tod).pidNat first = 1 := rfl
  have hl := fun {p} => (init_live L mem support test ramtop tod p).mp
  refine ⟨by omega, by omega, fun p hp => ?_, fun p q hp hq _ => (hl hp).trans (hl hq).symm,
    fun p _ c hc => ?_⟩
  · rw [hl hp, hpid, hnext]
    decide
  · rw [init_child] at hc
    cases hc

/-! ### Counting the creations -/

/-- The counter goes up by one exactly when a process is created. -/
theorem next_step {e : KernelEvent} (hs : Sound lossy s) (hst : s.step L e = some t) :
    t.next_pid = if s.Creates e then s.next_pid + 1 else s.next_pid := by
  have ht := hs.treeStep (did_step hst)
  have hnext : (s.act e = .create → t.next_pid = s.next_pid + 1) ∧
      (s.act e ≠ .create → t.next_pid = s.next_pid) := by
    generalize ha : s.act e = a at ht
    cases ht with
    | same _ hc _ hsame => exact ⟨fun he => absurd he hc, fun _ => hsame.next⟩
    | create u cur newPcb hc had hsame =>
        exact ⟨fun _ => by rw [hsame.next, had.next], fun hne => absurd rfl hne⟩
    | kill u target hq hsame =>
        have hl := hs.kill_live ha
        obtain ⟨⟨hkill, -, -⟩, -, -⟩ := terminate_rule (pid_kills L (fun _ => True) u)
          ((hs.quiet hq).tree.called ⟨rfl, rfl, fun _ _ => rfl⟩)
          (fun _ => hq.tree.live.mpr hl) fun _ _ => trivial
        exact ⟨nofun, fun _ => by rw [hsame.next, hkill, hq.next]⟩
  split
  · rename_i hc
    exact hnext.1 hc
  · rename_i hc
    exact hnext.2 hc

/-- **While few processes are created `next_pid` does not wrap.** -/
theorem fresh_of_few {C : Kernel → KernelEvent → Prop} {mem : Word → Word}
    {support : Word → SupportT} {test ramtop tod : Word} {es : List KernelEvent}
    (h : Run (step L) C (initKernel L mem support test ramtop tod) es s)
    (hn : 1 + tally (step L) Creates (initKernel L mem support test ramtop tod) es < 2 ^ 31 - 1) :
    Run (step L) (fun s e => C s e ∧ s.Fresh e) (initKernel L mem support test ramtop tod) es s ∧
      s.next_pid.toNat =
        2 + tally (step L) Creates (initKernel L mem support test ramtop tod) es := by
  induction h with
  | nil => exact ⟨.nil _, rfl⟩
  | snoc h hc hs ih =>
      rename_i u t es e
      rw [h.tally_snoc] at hn ⊢
      obtain ⟨hr, hnext⟩ := ih (by omega)
      have hsound := sound_of_run (h.mono fun _ _ _ => trivial)
      refine ⟨.snoc hr ⟨hc, fun hcr => ?_⟩ hs, ?_⟩
      · rw [if_pos hcr] at hn
        rw [BitVec.toInt_eq_toNat_of_lt (by omega)]
        omega
      · rw [next_step hsound hs]
        split
        · rename_i hcr
          rw [if_pos hcr] at hn
          have h1 : (1 : Word).toNat = 1 := rfl
          rw [BitVec.toNat_add]
          omega
        · omega

end Kernel

end PandOS
