import PandOS.Phase3.AddressSpaces

/-!
# Phase 3 — the shell waits for its child

A program signals `shellSemaphore` in one system call and calls `TERMPROCESS` in the next.

* `Support.alone_of_run`: if the shell is not scheduled between the two, then on every run the shell
  is in user mode only when it is the only process, and no two live processes share a support
  structure.
* `Support.preempted_child_lives`: if it is, it runs on beside its child, and may launch a second
  process with the same ASID.
-/

namespace PandOS

variable {n : ℕ}

/-- The process an event is a statement of; the completion of a device, and a statement of `test`,
are no U-proc's. -/
def SupportEvent.owner : SupportEvent n → Option Pid
  | .mem e => Support.actor e
  | .ecall q _ _ _ | .trap q _ | .handler q | .noPcb q => some q
  | .test | .termDone _ _ => none

namespace Support

variable {s t : Support n} {e : SupportEvent n} {es : List (SupportEvent n)} {q : Pid} {a : Asid}

/-- The shell is not scheduled while a program is between its `V(shellSemaphore)` and its
`TERMPROCESS`. -/
def ShellHeld (s : Support n) (e : SupportEvent n) : Prop :=
  ∀ q < s.vm.nextPid, ∀ pr ∈ s.vm.proc q, pr.asid ≠ .shell → s.pc q = .term →
    ∀ h ∈ e.owner, ∀ pr' ∈ s.vm.proc h, pr'.asid ≠ .shell

instance : Decidable (s.ShellHeld e) :=
  inferInstanceAs (Decidable (∀ q < s.vm.nextPid, ∀ pr ∈ s.vm.proc q, pr.asid ≠ .shell →
    s.pc q = .term → ∀ h ∈ e.owner, ∀ pr' ∈ s.vm.proc h, pr'.asid ≠ .shell))

/-- The shell is where `EXECUTE` leaves it while its child lives: about to wait, waiting, or about
to return. -/
def GenPc.parked : GenPc → Prop
  | .sys6 .wait | .ldst => True
  | _ => False

/-- Only `LDST` takes it from there. -/
theorem Step.parked (h : Step s e t) (hx : s.vm.Excl) (hpl : s.Placed) {pr : Proc}
    (hq : s.vm.proc q = some pr) (hp : GenPc.parked (s.pc q)) :
    GenPc.parked (t.pc q) ∨ e = .handler q ∧ s.pc q = .ldst := by
  have same : t.pc = s.pc → GenPc.parked (t.pc q) := fun hpc => by rwa [hpc]
  -- whoever moves was not parked
  have move : ∀ {k : Pid} {g x : GenPc}, t.pc = Function.update s.pc k g → s.pc k = x →
      ¬ GenPc.parked x → GenPc.parked (t.pc q) := by
    intro k g x hpc hk hx
    by_cases hqk : q = k
    · subst hqk
      exact absurd (hk ▸ hp) hx
    · rwa [hpc, Function.update_of_ne hqk]
  have touch : ∀ {g : GenPc}, GenPc.touching g → ¬ GenPc.parked g := by
    intro g hg hpk
    unfold GenPc.touching at hg
    split at hg
    · exact hpk
    · exact hpk
    · exact hpk
    · exact hg
  have vm : ∀ {k : Pid} {u : VM n}, t = s.withVm k u → GenPc.touching (s.pc k) →
      GenPc.parked (t.pc q) := by
    rintro k u rfl hk
    rcases withVm_pc (s := s) (q := k) (u := u) with hpc | ⟨hpc, -⟩
    · exact same hpc
    · exact move hpc rfl (touch hk)
  have hqn : q ≠ s.vm.nextPid := hx.ne_next hq
  cases h with
  | testInit | testInitDone | testWait | load | store | refill | flashDone => exact .inl hp
  | testCreate =>
      left
      show GenPc.parked (Function.update s.pc s.vm.nextPid .user q)
      rwa [Function.update_of_ne hqn]
  | testTerm => exact .inl (same (foldl_remove _ s).1)
  | @sys4Load k _ _ _ _ _ j c _ hpc =>
      exact .inl (move (k := k) (g := .sys4 (.command j c)) rfl hpc id)
  | @sys5Store k _ _ _ _ _ j c _ hpc =>
      exact .inl (move (k := k) (g := sys5Loop (j + 1) (some c)) rfl hpc id)
  | fault _ hmt => exact .inl (vm rfl (mayTouch_touching hmt))
  | pager _ hu =>
      cases VM.step_view hu with
      | pager hk => exact .inl (vm rfl (hpl _ _ _ _ hk))
  | @ecall k _ _ _ _ _ hpc => exact .inl (move (k := k) (g := .handler) rfl hpc id)
  | @trap k _ _ _ hpc => exact .inl (move (k := k) (g := .handler) rfl hpc id)
  | @dispatch k b _ _ hpc =>
      exact .inl (move (k := k) (g := (supportGeneralExHandler b (s.saved b)).1) rfl hpc id)
  | @doom k b _ _ hpc => exact .inl (move (k := k) (g := .signal) rfl hpc id)
  | @sys4Acquire k b _ _ hpc =>
      exact .inl (move (k := k) (g := sys4Loop (s.saved b) 0) rfl hpc id)
  | @sys4Command k b j c _ _ hpc => exact .inl (move (k := k) (g := .sys4 (.busy j)) rfl hpc id)
  | @sys4Release k b a0 _ _ hpc => exact .inl (move (k := k) (g := .ldst) rfl hpc id)
  | @sys5Acquire k b _ _ hpc => exact .inl (move (k := k) (g := sys5Loop 0 none) rfl hpc id)
  | @sys5Command k b j _ _ hpc => exact .inl (move (k := k) (g := .sys5 (.busy j)) rfl hpc id)
  | @sys5Release k b a0 _ _ hpc => exact .inl (move (k := k) (g := .ldst) rfl hpc id)
  | @sys6Init k b asid j _ _ hpc =>
      exact .inl (move (k := k) (g := .sys6 (.init asid (j + 1))) rfl hpc id)
  | @sys6InitDone k b asid j _ _ hpc =>
      exact .inl (move (k := k) (g := .sys6 (.create asid)) rfl hpc id)
  | @sys6Create k b asid _ _ hpc =>
      left
      by_cases hqk : q = k
      · subst hqk
        rw [hpc] at hp
        exact hp.elim
      · show GenPc.parked (Function.update (Function.update s.pc s.vm.nextPid .user) k _ q)
        rwa [Function.update_of_ne hqk, Function.update_of_ne hqn]
  | @sys6Wait k =>
      left
      show GenPc.parked (Function.update s.pc k .ldst q)
      by_cases hqk : q = k
      · rw [hqk, Function.update_self]; trivial
      · rwa [Function.update_of_ne hqk]
  | @ldst k b _ _ hpc =>
      by_cases hqk : q = k
      · subst hqk
        exact .inr ⟨rfl, hpc⟩
      · left
        show GenPc.parked (Function.update s.pc k .user q)
        rwa [Function.update_of_ne hqk]
  | @signal k b _ _ hpc =>
      exact .inl (move (signal_setPc (a := b)).2 hpc id)
  | term => exact .inl (same (foldl_remove _ s).1)
  | @noPcb k b asid _ _ hpc => exact .inl (move (k := k) (g := .sys6 .wait) rfl hpc id)
  | @sys4Done k b j status _ hpc => exact .inl (move (k := k) rfl hpc id)
  | @sys5Done k b j status _ hpc => exact .inl (move (k := k) rfl hpc id)

/-- While a program lives the shell is parked, and there is one program at most. -/
structure Alone (s : Support n) : Prop where
  shell : ∀ h j c pr, s.vm.proc h = some ⟨.shell, c⟩ → s.vm.proc j = some pr → pr.asid ≠ .shell →
    GenPc.parked (s.pc h)
  one : ∀ i j pr pr', s.vm.proc i = some pr → s.vm.proc j = some pr' → pr.asid ≠ .shell →
    pr'.asid ≠ .shell → i = j

/-- A program is created at `CREATEPROCESS` of `sys6_execute`, whose process then waits; the shell
by `test`. -/
theorem Step.creator (h : Step s e t) (hc : s.vmEvent e = some (.create a)) :
    (a = .shell ∧ s.testPc = .create) ∨ ∃ q b, s.vm.proc q = some ⟨b, .run⟩ ∧
      s.pc q = .sys6 (.create a) ∧ t.pc q = .sys6 .wait := by
  cases e with
  | test =>
      rw [vmEvent] at hc
      split at hc
      · split at hc <;> cases hc
      · rename_i hpc; cases hc; exact .inl ⟨rfl, hpc⟩
      · cases hc
  | mem f => cases hc; cases h
  | handler q =>
      rw [vmEvent] at hc
      split at hc
      · split at hc <;> cases hc
      · split at hc <;> cases hc
      · rename_i hq hpc
        cases hc
        refine .inr ⟨q, _, hq, hpc, ?_⟩
        cases h with
        | sys6Create => exact Function.update_self ..
        | _ => simp_all
      · cases hc
  | _ => cases hc

/-- A step keeps at most one program alive, if it does not dispatch the shell too early. -/
theorem Alone.step (h : s.Alone) (hg : s.Good) (hs : Step s e t) (hc : s.ShellHeld e) :
    t.Alone := by
  have hu := hg.under hs
  -- when a process is created no program lives, and the creator is the shell
  have none : ∀ {b j pr}, s.vmEvent e = some (.create b) → s.vm.proc j = some pr →
      pr.asid = .shell := by
    intro b j pr hcr hj
    by_contra hne
    rcases hs.creator hcr with ⟨-, ht⟩ | ⟨k, d, hk, hpc, -⟩
    · rw [hg.test_alone (i := maxPages) (by rw [ht]; rfl)] at hj
      cases hj
    · have hst := stageOf_some hk
      rw [hpc] at hst
      obtain ⟨rfl, -⟩ := hg.sync.exec k d b hst
      have := h.shell k j _ pr hk hj hne
      rw [hpc] at this
      exact this
  refine ⟨fun i j c pr hi hj hne => ?_, fun i j pr pr' hi hj hne hne' => ?_⟩
  · rcases hu.live_from hi with ⟨c₀, hi₀⟩ | ⟨⟨b, hb⟩, rfl⟩
    · rcases hu.live_from hj with ⟨d, hj₀⟩ | ⟨⟨b, hb⟩, rfl⟩
      · rcases hs.parked hg.iso.excl hg.placed hi₀ (h.shell i j c₀ _ hi₀ hj₀ hne) with
          hp | ⟨rfl, hpc⟩
        · exact hp
        · exfalso
          -- the shell returns, so its child is past its `V`, and the shell was not to be scheduled
          have hst := stageOf_some hi₀
          rw [hpc] at hst
          have hb : ¬ s.blocked i := by
            cases hs <;> assumption
          obtain ⟨-, hno, -⟩ := hg.sync.idle hst hb (by simp [GenPc.stage])
          have hterm := GenPc.eq_term (hno j _ _ (stageOf_some hj₀) hne)
          have hlt := (hg.sync.live j _ (stageOf_some hj₀)).2
          exact hc j hlt _ hj₀ hne hterm i rfl _ hi₀ rfl
      · rcases hs.creator hb with ⟨-, ht⟩ | ⟨k, d, hk, -, hpc⟩
        · rw [hg.test_alone (i := maxPages) (by rw [ht]; rfl)] at hi₀
          cases hi₀
        · have hd : d = .shell := none hb hk
          subst hd
          obtain rfl := hg.sync.shell1 _ _ _ _ (stageOf_some hi₀) (stageOf_some hk)
          rw [hpc]
          trivial
    · rcases hu.live_from hj with ⟨d, hj₀⟩ | ⟨-, rfl⟩
      · exact absurd (none hb hj₀) hne
      · rw [hi] at hj
        cases hj
        exact absurd rfl hne
  · rcases hu.live_from hi with ⟨c, hi₀⟩ | ⟨⟨b, hb⟩, rfl⟩
    · rcases hu.live_from hj with ⟨d, hj₀⟩ | ⟨⟨b, hb⟩, rfl⟩
      · exact h.one i j _ _ hi₀ hj₀ hne hne'
      · exact absurd (none hb hi₀) hne
    · rcases hu.live_from hj with ⟨d, hj₀⟩ | ⟨-, rfl⟩
      · exact absurd (none hb hj₀) hne'
      · rfl

/-! ### Runs -/

/-- **The shell waits for its child.**  On every run on which the shell is not scheduled between a
program's `V(shellSemaphore)` and its `TERMPROCESS`: when the shell is in user mode it is the only
process, and no two live processes have one support structure. -/
theorem alone_of_run (flash : PageId → Page) (frame : FrameNo → Page) (reg : Asid → FlashReg)
    (hr : Run step ShellHeld (boot flash frame reg : Support n) es s) :
    (∀ h c, s.vm.proc h = some ⟨.shell, c⟩ → s.pc h = .user →
      ∀ j pr, s.vm.proc j = some pr → j = h) ∧
    ∀ i j pr pr', s.vm.proc i = some pr → s.vm.proc j = some pr' → pr.asid = pr'.asid → i = j := by
  have hrun : s.Good ∧ s.Alone := by
    refine hr.inv (I := fun u => u.Good ∧ u.Alone)
      ⟨.boot .., ⟨by rintro _ _ _ _ ⟨⟩, by rintro _ _ _ _ ⟨⟩⟩⟩ ?_
    rintro u e v ⟨hg, ha⟩ hc hs
    exact ⟨hg.step (step_view hs), ha.step hg (step_view hs) hc⟩
  obtain ⟨hg, ha⟩ := hrun
  have same : ∀ {i j c pr}, s.vm.proc i = some ⟨.shell, c⟩ → s.vm.proc j = some pr →
      pr.asid = .shell → j = i := by
    rintro i j c ⟨b, d⟩ hi hj rfl
    exact hg.sync.shell1 _ _ _ _ (stageOf_some hj) (stageOf_some hi)
  refine ⟨fun h c hh hu j pr hj => ?_, fun i j pr pr' hi hj he => ?_⟩
  · by_cases hne : pr.asid = .shell
    · exact same hh hj hne
    · have := ha.shell h j c pr hh hj hne
      rw [hu] at this
      exact this.elim
  · by_cases hne : pr.asid = .shell
    · obtain ⟨b, d⟩ := pr
      cases hne
      exact (same hi hj he.symm).symm
    · exact ha.one i j pr pr' hi hj hne fun h => hne (he.trans h)

/-- A program is executed and terminates, and the shell returns. -/
theorem alone_of_run_exit : ∃ s, Run step ShellHeld blank (firstRun ++ exit 2 ++ [.handler 1]) s ∧
    s.pc 1 = .user ∧ ∀ j pr, s.vm.proc j = some pr → j = 1 := by
  obtain ⟨s, hr, hq, hpc⟩ := exists_run step ShellHeld
    (fun s => s.vm.proc 1 = some ⟨.shell, .run⟩ ∧ s.pc 1 = .user)
    blank (firstRun ++ exit 2 ++ [.handler 1]) (by decide +kernel)
  exact ⟨s, hr, hpc, (alone_of_run _ _ _ hr).1 1 _ hq hpc⟩

/-- A program is executed, calls `TERMINATE` and does its `V(shellSemaphore)`; there its quantum
ends, and the shell returns. -/
def preempted : List (SupportEvent 16) :=
  firstRun ++ [.ecall 2 PandOS.terminate 0 0, .handler 2, .handler 2] ++ [.handler 1]

/-- **The shell beside its child.**  After `preempted` the shell is in user mode and its child
lives; it executes the same program again, and two processes live with one support structure. -/
theorem preempted_child_lives : ∃ s t, Run step anyStep blank preempted s ∧
    s.vm.proc 1 = some ⟨.shell, .run⟩ ∧ s.pc 1 = .user ∧ s.vm.proc 2 = some ⟨prog, .dying⟩ ∧
    Run step anyStep s (execute 1 2) t ∧
    t.vm.proc 2 = some ⟨prog, .dying⟩ ∧ t.vm.proc 3 = some ⟨prog, .run⟩ := by
  obtain ⟨s, hr, hs, ht⟩ := exists_run step anyStep
    (fun s => (s.vm.proc 1 = some ⟨.shell, .run⟩ ∧ s.pc 1 = .user ∧
      s.vm.proc 2 = some ⟨prog, .dying⟩) ∧
      (execIf step anyStep s (execute 1 2)).any (fun t =>
        decide (t.vm.proc 2 = some ⟨prog, .dying⟩ ∧ t.vm.proc 3 = some ⟨prog, .run⟩)) = true)
    blank preempted (by decide +kernel)
  obtain ⟨t, hr', ht⟩ := exists_run step anyStep _ s _ ht
  exact ⟨s, t, hr, hs.1, hs.2.1, hs.2.2, hr', ht⟩

end Support

end PandOS
