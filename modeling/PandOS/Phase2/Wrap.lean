import PandOS.Phase2.Search

/-!
# Phase 2 — pids are unique until `next_pid` wraps

`pids_of_run`: on runs in which a process is created only while `next_pid` is positive, live
processes have different positive pids and a kill frees the process with that pid.  `pid_wraps`:
after 2^31 creations and terminations a live process has a negative pid, the mark of one that is
being terminated.
-/

namespace PandOS

namespace Kernel

variable {L : Layout} {s t u : Kernel} {p q c cur newPcb target : PcbId} {a1 a2 a3 : Word} {n : ℤ}

/-! ### Until it wraps -/

/-- A process that is killed is freed. -/
theorem killed (h : Sound True s) (hp : s.Pids) (hd : Did L s (.kill target) t)
    (hl : s.Live target) : ¬ t.Live target := by
  have hk := h.treeStep hd
  cases hk with
  | same _ _ hne _ => exact absurd rfl (hne target)
  | kill u _ hq hsame =>
      obtain ⟨-, hcul, hm, -⟩ := (h.quiet hq).terminate (L := L) fun _ => hq.tree.live.mpr hl
      rw [hsame.live]
      exact (hcul.gone target (hq.tree.named.mpr (hp.named hl)) hm).2

/-- **Every live pid is positive and unique** in runs in which a process is created only while
`next_pid` is positive; so `TERMPROCESS` is for the process that has the pid, or for the caller,
and the process it is for is freed. -/
theorem pids_of_run {mem : Word → Word} {support : Word → SupportT} {test ramtop tod : Word}
    {es : List KernelEvent} (h : Run (step L) Fresh (initKernel L mem support test ramtop tod) es s) :
    (∀ p, s.Live p → 0 < (s.pcbFree_table p).p_pid.toInt) ∧
    (∀ p q, s.Live p → s.Live q →
      (s.pcbFree_table p).p_pid = (s.pcbFree_table q).p_pid → p = q) ∧
    (∀ cur pid p, s.currentProcess = some cur → s.termTarget cur pid = some p →
      s.Live p ∧ (pid = 0 ∧ p = cur ∨ (s.pcbFree_table p).p_pid = pid)) ∧
    ∀ e t p, s.step L e = some t → s.act e = .kill p → ¬ t.Live p := by
  have hs := treed_of_run h
  refine ⟨fun p hp => ?_, fun p q hp hq he => ?_, fun cur pid p hc ht => ?_,
    fun e t p hst ha => ?_⟩
  · rw [hs.pids.toInt hp]
    exact_mod_cast (hs.pids.range p hp).1
  · exact hs.pids.unique p q hp hq (congrArg BitVec.toNat he)
  · unfold termTarget at ht
    have hcur := (hs.sound.links.current hc).1
    split at ht
    · rename_i h0
      obtain rfl := Option.some.inj ht
      exact ⟨hcur, .inl ⟨h0, rfl⟩⟩
    · have hr := hs.rooted.root_live hs.sound.tree hcur
      obtain ⟨hl, hpid⟩ := (hs.findInTree hr le_rfl pid p).mp ht
      exact ⟨hl, .inr hpid⟩
  · have hd := did_step hst
    rw [ha] at hd
    exact killed hs.sound hs.pids hd (hs.sound.kill_live ha)

/-- A child is created and killed. -/
theorem pids_of_run_kill : ∃ s, Run (step layout₀) Fresh boot₀ [call (-1) 0 0 0, call (-2) 2 0 0] s ∧
    ∀ p q, s.Live p → s.Live q →
      (s.pcbFree_table p).p_pid = (s.pcbFree_table q).p_pid → p = q := by
  obtain ⟨s, hr, -⟩ := exists_run (step layout₀) Fresh (fun _ => True) boot₀
    [call (-1) 0 0 0, call (-2) 2 0 0] (by decide +kernel)
  exact ⟨s, hr, (pids_of_run hr).2.1⟩

/-! ### System calls of the process that runs -/

theorem service_callState (h : n ≤ 0) (hn : -10 ≤ n) :
    service (callState n a1 a2 a3) = sysCall n := by
  have hi : (BitVec.ofInt 32 n).toInt = n :=
    BitVec.toInt_ofInt_eq_self (by decide) (by omega) (by omega)
  have hs : ¬ mstatusMppM &&& mstatusMppMask = mstatusMppU := by decide
  unfold service callState
  dsimp only
  rw [hi, if_pos ⟨by decide, by omega, hs⟩]

theorem act_call (hc : s.currentProcess = some cur) (h : n ≤ 0) (hn : -10 ≤ n) {c : SysCall}
    (hs : sysCall n = some c) :
    s.act (call n a1 a2 a3) = s.serviceAct cur (callState n a1 a2 a3) c := by
  have hint : ¬ causeIsInt (11 : Word) := by decide
  unfold act call
  dsimp only
  rw [show (callState n a1 a2 a3).cause = 11 from rfl, if_neg hint, hc, service_callState h hn, hs]

theorem step_call (hr : s.running) (hc : s.currentProcess = some cur)
    (hw : wellFormed (callState n a1 a2 a3)) : ∃ t, s.step L (call n a1 a2 a3) = some t := by
  have hint : ¬ causeIsInt (11 : Word) := by decide
  unfold step call
  dsimp only
  rw [show (callState n a1 a2 a3).cause = 11 from rfl, if_neg hint, hc, if_pos ⟨hr, hw⟩]
  exact ⟨_, rfl⟩

/-- The process that runs creates a child. -/
theorem step_create (hs : Sound True s) (hr : s.running) (hc : s.currentProcess = some cur)
    (hf : s.pcbFree_h ≠ []) : ∃ t u newPcb, s.step L (call (-1) 0 0 0) = some t ∧
      s.act (call (-1) 0 0 0) = .create ∧ Adopted s u cur newPcb ∧ SameTree u t ∧
      t.currentProcess = some cur ∧ t.running := by
  have ha : s.act (call (-1) 0 0 0) = .create := by
    rw [act_call hc (by omega) (by omega) (c := .createProcess) rfl]
    exact if_neg hf
  have hw : wellFormed (callState (-1) 0 0 0) := by decide
  obtain ⟨t, ht⟩ := step_call (L := L) hr hc hw
  have hd := did_step ht
  rw [ha] at hd
  obtain ⟨cur', newPcb, v, f, hc', hv, hff, hq, hrt⟩ := hd
  obtain rfl : cur = cur' := Option.some.inj (hc.symm.trans hc')
  exact ⟨t, _, newPcb, ht, ha, adopt_spec hv (hs.links.current hc).1 hff, hq.tree,
    hq.current.trans hc, hrt⟩

/-- Killing others leaves the process that runs. -/
theorem current_kept (L : Layout) (r : PcbId) :
    Kills L (fun p => p ≠ r) fun s => s.currentProcess = some r where
  mark _ _ h _ _ _ := h
  detach _ _ _ _ h _ _ _ := h
  bury s p h hp _ _ _ := by
    have hb : (s.bury L p).currentProcess =
        if s.currentProcess = some p then none else s.currentProcess := by
      obtain ⟨asl, k, m, he⟩ := leaveSemaphore_frame L s p
      unfold Kernel.bury
      rw [he]
      rfl
    rw [hb, if_neg fun hc => hp (Option.some.inj (hc.symm.trans h))]
    exact h

/-- The process that runs kills a process without children. -/
theorem step_kill (hs : s.Treed) (hr : s.running) (hc : s.currentProcess = some cur)
    (hl : s.Live c) (hne : c ≠ cur) (hnil : s.child c = []) : ∃ t,
      s.step L (call (-2) (s.pcbFree_table c).p_pid 0 0) = some t ∧
      s.act (call (-2) (s.pcbFree_table c).p_pid 0 0) = .kill c ∧
      t.currentProcess = some cur ∧ t.running := by
  have hcur := (hs.sound.links.current hc).1
  have hpid : (s.pcbFree_table c).p_pid ≠ 0 := by
    intro h0
    have := (hs.pids.range c hl).1
    unfold pidNat at this
    rw [h0] at this
    exact absurd this (by decide)
  have ha : s.act (call (-2) (s.pcbFree_table c).p_pid 0 0) = .kill c := by
    have ht : s.termTarget cur (s.pcbFree_table c).p_pid = some c := by
      unfold termTarget
      rw [if_neg hpid]
      exact (hs.findInTree (hs.rooted.root_live hs.sound.tree hcur) le_rfl _ c).mpr ⟨hl, rfl⟩
    rw [act_call hc (by omega) (by omega) (c := .termProcess) rfl]
    have harg : (callState (-2) (s.pcbFree_table c).p_pid 0 0).reg_a1 = (s.pcbFree_table c).p_pid := rfl
    unfold serviceAct
    dsimp only
    rw [harg, ht]
  have hw : wellFormed (callState (-2) (s.pcbFree_table c).p_pid 0 0) := by
    intro h
    rw [service_callState (by omega) (by omega)] at h
    rcases h with h | h <;> cases h
  obtain ⟨t, ht⟩ := step_call (L := L) hr hc hw
  refine ⟨t, ht, ha, ?_⟩
  have hd := did_step ht
  rw [ha] at hd
  obtain ⟨u, hq, hd⟩ := hd
  -- only `c` is killed
  have hpost : ∀ x ∈ postorder u.child maxProc c, x ≠ cur := by
    intro x hx
    rcases mem_postorder_succ.mp hx with ⟨y, hy, -⟩ | rfl
    · rw [(hq.tree.pcb c).1, hnil] at hy
      cases hy
    · exact hne
  obtain ⟨hcv, -, -⟩ := terminate_rule (current_kept L cur)
    ((hs.sound.quiet hq).tree.called (hq.current.trans hc))
    (fun _ => hq.tree.live.mpr hl) hpost
  rcases hd with ⟨hx, -⟩ | ⟨-, -, hq', hrt⟩
  · rcases hx with hx | hx
    · exact absurd (Option.some.inj (hx.symm.trans hc)) hne
    · rw [hcv] at hx
      cases hx
  · exact ⟨hq'.current.trans hcv, hrt⟩

/-! ### When it wraps -/

/-- The first process runs, some PCB is free. -/
structure Alone (s : Kernel) (k : ℕ) : Prop where
  treed : s.Treed
  running : s.running
  current : s.currentProcess = some s.rootProcess
  free : s.pcbFree_h ≠ []
  next : s.next_pid.toNat = k

/-- A child is created and killed: one more pid is gone. -/
theorem Alone.cycle {k : ℕ} (h : Alone s k) (hk : k < 2 ^ 31) :
    ∃ es t, Run (step L) anyStep s es t ∧ Alone t (k + 1) := by
  obtain ⟨u, x, c, hst, ha, had, hsame, hc, hr⟩ :=
    step_create (L := L) h.treed.sound h.running h.current h.free
  -- below 2^31 the counter has not wrapped, so the pid is fresh
  have hf : s.Fresh (call (-1) 0 0 0) := fun _ => by
    have hn := h.next
    rw [BitVec.toInt_eq_toNat_of_lt (by omega)]
    have := h.treed.pids.pos
    omega
  have hu := h.treed.step hst hf
  have hroot : u.rootProcess = s.rootProcess := hsame.root.trans had.root
  have hrl : s.Live s.rootProcess := (h.treed.sound.links.current h.current).1
  have hne : c ≠ s.rootProcess := by
    rintro he
    exact hrl (by rw [← he, had.free]; exact List.mem_cons_self)
  have hlc : u.Live c := by
    rw [hsame.live]
    exact had.new_live h.treed.sound.links.nodup_free
  have hnil : u.child c = [] := by
    rw [(hsame.pcb c).1, had.child, if_neg hne, if_pos rfl]
  obtain ⟨t, hst', ha', hc', hr'⟩ := step_kill (L := L) hu hr hc hlc hne hnil
  have ht := hu.step hst' fun hcr => by
    have : u.act (call (-2) (u.pcbFree_table c).p_pid 0 0) = .create := hcr
    rw [ha'] at this
    cases this
  have hd := did_step hst'
  rw [ha'] at hd
  -- the kill leaves the root and the pid counter as they were
  have hroot' : t.rootProcess = u.rootProcess ∧ t.next_pid = u.next_pid := by
    have hk := hu.sound.treeStep hd
    cases hk with
    | same _ _ hne _ => exact absurd rfl (hne c)
    | kill v _ hq hsame' =>
        obtain ⟨⟨hnext, hrt, -⟩, -, -⟩ := terminate_rule (pid_kills L (fun _ => True) v)
          ((hu.sound.quiet hq).tree.called ⟨rfl, rfl, fun _ _ => rfl⟩)
          (fun _ => hq.tree.live.mpr hlc) fun _ _ => trivial
        exact ⟨hsame'.root.trans (hrt.trans hq.root), hsame'.next.trans (hnext.trans hq.next)⟩
  refine ⟨_, t, .cons trivial hst (.one trivial hst'), ht, hr', ?_, ?_, ?_⟩
  · rw [hc', hroot'.1, hroot]
  · exact List.ne_nil_of_mem (not_not.mp (killed hu.sound hu.pids hd hlc))
  · have hn := h.next
    have h1 : (1 : Word).toNat = 1 := rfl
    rw [hroot'.2, hsame.next, had.next, BitVec.toNat_add]
    omega

theorem alone_of_cycles (k : ℕ) (hk : 2 + k ≤ 2 ^ 31) :
    ∃ es s, Run (step layout₀) anyStep boot₀ es s ∧ Alone s (2 + k) := by
  induction k with
  | zero =>
      exact ⟨[], boot₀, .nil _, .init .., trivial, rfl, by decide, rfl⟩
  | succ k ih =>
      obtain ⟨es, s, hr, ha⟩ := ih (by omega)
      obtain ⟨fs, t, hr', ha'⟩ := ha.cycle (L := layout₀) (by omega)
      exact ⟨es ++ fs, t, hr.append hr', ha'⟩

/-- **After 2^31 creations a live process has a negative pid.** -/
theorem pid_wraps : ∃ es s p, Run (step layout₀) anyStep boot₀ es s ∧ s.Live p ∧
    (s.pcbFree_table p).p_pid.toInt < 0 := by
  obtain ⟨es, s, hr, ha⟩ := alone_of_cycles (2 ^ 31 - 2) (by omega)
  obtain ⟨t, u, c, hst, -, had, hsame, -, -⟩ :=
    step_create (L := layout₀) ha.treed.sound ha.running ha.current ha.free
  have hpid : (t.pcbFree_table c).p_pid = s.next_pid := by
    rw [(hsame.pcb c).2.2, had.pid, if_pos rfl]
  have hlc : t.Live c := by
    rw [hsame.live]
    exact had.new_live ha.treed.sound.links.nodup_free
  refine ⟨_, t, c, .snoc hr trivial hst, hlc, ?_⟩
  have hn := ha.next
  rw [hpid, BitVec.toInt_eq_toNat_cond, hn]
  decide

end Kernel

end PandOS
