import PandOS.Phase3.Execute

/-!
# Phase 3 — what `EXECUTE` does with a program

The call of `EXECUTE` whose argument is the ASID of a program, along every run (`Launching`).  If the
child is created, the shell does not resume before somebody does the `V` on `shellSemaphore`, and it
resumes with the number of the service.  If it is not, no program is left that could do that `V`
(`Support.NoOpen`), and no other can be launched: once the shell waits, it waits in every later
state (`Support.launched_of_run`).
-/

namespace PandOS

variable {n : ℕ} {h l : List ExecAct}

theorem Signalled.append (hs : Signalled h) (l : List ExecAct) : Signalled (h ++ l) := by
  obtain ⟨h₁, h₂, rfl, hm⟩ := hs
  exact ⟨h₁, h₂ ++ l, by simp, List.mem_append_left _ hm⟩

theorem Signalled.of_created (hc : .created ∈ h) : Signalled (h ++ [.signalled]) := by
  obtain ⟨h₁, h₂, rfl⟩ := List.append_of_mem hc
  exact ⟨h₁, h₂ ++ [.signalled], by simp, by simp⟩

namespace Support

variable {s t s₁ : Support n} {e : SupportEvent n} {es : List (SupportEvent n)} {q i : Pid}
  {asid : Asid} {K : Kernel} {sv : Saved}

/-! ### The semaphore of the shell -/

/-- Only the handler does a `P` or a `V` on `shellSemaphore`. -/
theorem act_shell {x : SupportAct} (ha : s.act e = some (i, x))
    (hx : x = .passeren .shell ∨ x = .verhogen .shell) :
    e = .handler i ∧ ∃ pr, s.vm.proc i = some pr ∧ (s.pc i).act pr.asid = some x := by
  have flash : ∀ {d : Asid} {b : PageNo} {k : FrameNo} {rw : Word} {pc : FlashPc},
      pc.act d b k rw = some x → False := by
    intro d b k rw pc hp
    cases pc <;> cases hp <;> rcases hx with hx | hx <;> cases hx
  cases e with
  | test =>
      obtain ⟨y, hy, he⟩ := Option.map_eq_some_iff.mp ha
      cases he
      cases ht : s.testPc <;> rw [ht] at hy <;> cases hy <;> rcases hx with hx | hx <;> cases hx
  | mem f =>
      cases f with
      | pager j =>
          cases hp : s.vm.proc j with
          | none => rw [act, hp] at ha; cases ha
          | some pr =>
              obtain ⟨b, c⟩ := pr
              cases c with
              | pager p pc =>
                  rw [act_pager hp] at ha
                  obtain ⟨y, hy, he⟩ := Option.map_eq_some_iff.mp ha
                  cases he
                  cases pc with
                  | write => exact (flash hy).elim
                  | read => exact (flash hy).elim
                  | _ => cases hy <;> rcases hx with hx | hx <;> cases hx
              | _ => rw [act, hp] at ha; cases ha
      | _ => cases ha
  | handler j =>
      obtain ⟨pr, hpr, ha⟩ := Option.bind_eq_some_iff.mp ha
      obtain ⟨y, hy, he⟩ := Option.map_eq_some_iff.mp ha
      cases he
      exact ⟨rfl, pr, hpr, hy⟩
  | noPcb => cases ha; rcases hx with hx | hx <;> cases hx
  | _ => cases ha

/-- A `V` on it is done by a program that has not done it yet. -/
theorem act_verhogen_shell (ha : s.act e = some (i, .verhogen .shell)) :
    e = .handler i ∧ ∃ b, b ≠ .shell ∧ s.stageOf i = some (b, .plain) := by
  obtain ⟨he, pr, hpr, hact⟩ := act_shell ha (.inr rfl)
  have hst := stageOf_some hpr
  refine ⟨he, pr.asid, ?_⟩
  cases hg : s.pc i with
  | signal =>
      rw [hg] at hact hst
      refine ⟨fun hb => ?_, hst⟩
      have hact : some (SupportAct.verhogen pr.asid.signals) = some (.verhogen .shell) := hact
      rw [Asid.signals, if_pos hb] at hact
      cases hact
  | sys4 pc => rw [hg] at hact; cases pc <;> cases hact
  | sys5 pc => rw [hg] at hact; cases pc <;> cases hact
  | sys6 pc => rw [hg] at hact; cases pc <;> cases hact
  | _ => rw [hg] at hact; cases hact

/-- A `P` on it is done by the shell. -/
theorem act_passeren_shell (hg : s.Good) (ha : s.act e = some (i, .passeren .shell)) {c : Ctl}
    (hq : s.vm.proc q = some ⟨.shell, c⟩) : e = .handler q := by
  obtain ⟨he, pr, hpr, hact⟩ := act_shell ha (.inl rfl)
  have hst := stageOf_some hpr
  have hpc : s.pc i = .sys6 .wait := by
    cases hg : s.pc i with
    | sys6 pc =>
        rw [hg] at hact
        cases pc with
        | wait => rfl
        | _ => cases hact
    | sys4 pc => rw [hg] at hact; cases pc <;> cases hact
    | sys5 pc => rw [hg] at hact; cases pc <;> cases hact
    | signal =>
        rw [hg] at hact
        have hact : some (SupportAct.verhogen pr.asid.signals) = some (.passeren .shell) := hact
        cases hact
    | _ => rw [hg] at hact; cases hact
  rw [hpc] at hst
  have hb := hg.sync.wait _ _ hst
  rw [hb] at hst
  obtain rfl := hg.sync.shell1 _ _ _ _ hst (stageOf_some hq)
  exact he

/-- What the others do to it while the shell lives: a program signals, or nothing. -/
theorem others_shell (hg : s.Sane) (hs : Step s e t) (he : e.subject ≠ some q) {c : Ctl}
    (hq : s.vm.proc q = some ⟨.shell, c⟩) (hpc : s.pc q ≠ .term)
    (hsem : ∀ i ∈ s.shellSemaphore.queue, i = q) :
    t.shellSemaphore = s.shellSemaphore ∨
      execAct q s e = some .signalled ∧ ∃ i b, b ≠ .shell ∧ s.stageOf i = some (b, .plain) := by
  have hlive : s.vm.proc q ≠ none := by rw [hq]; simp
  cases hg.parked.moves hs with
  | plain _ _ _ _ _ sems =>
      cases sems .shell with
      | same hm => exact .inl hm
      | acquire i ha =>
          have := act_passeren_shell hg.good ha hq
          subst this
          exact absurd rfl he
      | release i ha =>
          obtain ⟨rfl, b, hb, hst⟩ := act_verhogen_shell ha
          have hne : i ≠ q := fun hi => he (congrArg some hi)
          refine .inr ⟨?_, i, b, hb, hst⟩
          rw [execAct, if_neg hne, if_pos ha]
  | terminates i _ ht =>
      left
      have hlive' := (hg.good.frame hg.parked hs hlive hpc he).1
      obtain ⟨tp, rfl⟩ := ht
      obtain ⟨-, -, -, -, -, hsh, hv⟩ := foldl_remove (s.progeny i) s
      have hno : q ∉ s.progeny i := by
        intro hm
        have hv' : (s.terminate i).vm.proc q = s.vm.proc q := hlive'
        rw [terminate, hv, if_pos hm] at hv'
        exact hlive hv'.symm
      show (s.terminate i).shellSemaphore = _
      rw [terminate, hsh]
      refine Sem.foldl_drop_of_not_mem fun j hj hm => ?_
      rw [hsem j hm] at hj
      exact hno hj

/-- While the shell builds no child, no program is launched. -/
theorem NoOpen.step (hk : s.NoOpen) (hg : s.Good) (hs : Step s e t) {c : Stage}
    (hq : s.stageOf q = some (.shell, c)) (hc : ∀ a, c ≠ .exec a) : t.NoOpen := by
  intro j b d hj hb
  -- the stage of `j` is an old one, or that of the shell
  have upd : ∀ {k : Pid} {b' : Asid} {d' : Stage},
      t.stageOf = Function.update s.stageOf k (some (b', d')) → (b' ≠ .shell → d' = .term) →
      d = .term := by
    intro k b' d' hst hd
    rw [hst] at hj
    rcases stage_update hj with ⟨-, hx⟩ | ⟨-, hj⟩
    · cases hx
      exact hd hb
    · exact hk j b d hj hb
  have old : t.stageOf = s.stageOf → d = .term := fun hst => hk j b d (hst ▸ hj) hb
  have gone : ∀ {k : Pid}, t.stageOf = (s.terminate k).stageOf → d = .term := by
    intro k hst
    rw [hst, stageOf_terminate] at hj
    split at hj
    · cases hj
    · exact hk j b d hj hb
  cases hs.syncMove hg.placed hg.iso.excl with
  | same hst => exact old hst
  | early _ _ hst => exact old hst
  | launch _ hst => exact upd hst fun hx => absurd rfl hx
  | testWait _ _ hst => exact old hst
  | testTerm _ _ ht => exact gone (by rw [ht]; rfl)
  | start _ _ _ _ _ hst => exact upd hst fun hx => absurd rfl hx
  | child k b' a' _ hk' =>
      obtain ⟨rfl, -⟩ := hg.sync.exec _ _ _ hk'
      obtain rfl := hg.sync.shell1 _ _ _ _ hq hk'
      rw [hq] at hk'
      cases hk'
      exact absurd rfl (hc a')
  | childless k b' a' _ hk' hst =>
      obtain ⟨rfl, -⟩ := hg.sync.exec _ _ _ hk'
      exact upd hst fun hx => absurd rfl hx
  | wait k b' _ hk' hst =>
      have := hg.sync.wait _ _ hk'
      subst this
      exact upd hst fun hx => absurd rfl hx
  | signal _ _ _ _ hst => exact upd hst fun _ => rfl
  | term _ _ _ _ ht => exact gone (by rw [ht])

/-- Nor is one by a statement of the shell that only moves it on. -/
theorem NoOpen.setPc {c : Ctl} {g : GenPc} (hk : s.NoOpen) (hq : s.vm.proc q = some ⟨.shell, c⟩)
    (hv : t.vm = s.vm) (hp : t.pc = Function.update s.pc q g) : t.NoOpen := by
  intro j b d hj hb
  rw [stageOf_setPc hq (fun _ => by rw [hv]) hp] at hj
  rcases stage_update hj with ⟨-, hx⟩ | ⟨-, hj⟩
  · cases hx
    exact absurd rfl hb
  · exact hk j b d hj hb

/-! ### A call, whatever the others do -/

/-- Before `CREATEPROCESS` of the program of `asid`. -/
def GenPc.building (asid : Asid) : GenPc → Prop
  | .sys6 (.init b _) | .sys6 (.create b) => b = asid
  | _ => False

/-- How far a call of the shell `q`, made with the registers `sv`, has come that launches the program
of `asid`. -/
inductive Launching (asid : Asid) (q : Pid) (sv : Saved) (s : Support n) (h : List ExecAct) :
    Prop where
  | handler (hq : s.vm.proc q = some ⟨.shell, .run⟩) (hpc : s.pc q = .handler)
      (hsv : s.saved .shell = sv) (hh : ∀ x ∈ h, x = .signalled)
  | building (hq : s.vm.proc q = some ⟨.shell, .run⟩) (hpc : GenPc.building asid (s.pc q))
      (ha : (s.saved .shell).reg_a0 = PandOS.execute) (hh : ∀ x ∈ h, x = .signalled)
  /-- The child is created, and the shell is about to wait. -/
  | opened (hq : s.vm.proc q = some ⟨.shell, .run⟩) (hpc : s.pc q = .sys6 .wait)
      (ha : (s.saved .shell).reg_a0 = PandOS.execute) (hc : .created ∈ h)
      (hh : ∀ x ∈ h, x = .created ∨ x = .waits ∨ x = .signalled)
      (hs : Signalled h ∨ s.shellSemaphore = ⟨0, []⟩)
  /-- The shell waits for it, or has waited. -/
  | asleep (hq : s.vm.proc q = some ⟨.shell, .run⟩) (hpc : s.pc q = .ldst)
      (ha : (s.saved .shell).reg_a0 = PandOS.execute) (hc : .created ∈ h)
      (hh : ∀ x ∈ h, x = .created ∨ x = .waits ∨ x = .signalled)
      (hs : Signalled h ∨ s.shellSemaphore = ⟨-1, [q]⟩)
  | returned (hpc : s.pc q = .user) (l : List ExecAct) (hl : h = l ++ [.resumes PandOS.execute])
      (hh : ∀ x ∈ l, x = .created ∨ x = .waits ∨ x = .signalled) (hs : Signalled l)
  /-- There is no child, and the shell is about to wait. -/
  | lost (hq : s.vm.proc q = some ⟨.shell, .run⟩) (hpc : s.pc q = .sys6 .wait)
      (hh : ∀ x ∈ h, x = .failed ∨ x = .signalled) (hs : s.shellSemaphore = ⟨0, []⟩)
      (hk : s.NoOpen)
  /-- There is no child, and the shell waits for it. -/
  | stranded (hq : s.vm.proc q = some ⟨.shell, .run⟩) (hpc : s.pc q = .ldst)
      (hh : ∀ x ∈ h, x = .failed ∨ x = .waits ∨ x = .signalled)
      (hs : s.shellSemaphore = ⟨-1, [q]⟩) (hk : s.NoOpen)

/-- The statements of the call, by one of its own steps. -/
theorem Launching.own (hl : Launching asid q sv s h) (hg : s.Sane)
    (hgo : supportGeneralExHandler .shell sv = (.sys6 (.init asid 0), PandOS.execute))
    (hc : s.pc q ≠ .user) (he : e.subject = some q) (hs : s.step e = some t) :
    Launching asid q sv t (execActs q s e t h) := by
  have hst := step_view hs
  -- what the statement notes
  have note : ∀ {P : ExecAct → Prop} {x : ExecAct}, (∀ y ∈ h, P y) → P x →
      ∀ y ∈ h ++ [x], P y := by
    intro P x hh hx y hy
    rcases List.mem_append.mp hy with hy | hy
    · exact hh y hy
    · rw [List.mem_singleton.mp hy]
      exact hx
  -- the `LDST` is not reached in the queue
  have free : s.vm.proc q = some ⟨.shell, .run⟩ → s.pc q = .ldst →
      s.shellSemaphore ≠ ⟨-1, [q]⟩ := by
    intro hq hpc hsem
    have hw : s.awaited q ≠ none := by
      rw [awaited_run hq, hpc]
      exact Option.some_ne_none _
    exact hst.subject_free he hw (.inr (.inl (by rw [hsem]; exact List.mem_singleton_self q)))
  cases hl with
  | returned hpc => exact absurd hpc hc
  | handler hq hpc hsv hh =>
      obtain ⟨rfl, ⟨hsig, -⟩ | ⟨-, rfl⟩⟩ := of_handler hs he hq hpc
      · rw [hsv, hgo] at hsig
        cases hsig
      · rw [execActs_none (by rw [execAct_handler hq hpc (by simp)]; rfl), hsv, hgo]
        exact .building hq (by rw [setPc_self]; rfl) (by rw [setA0_self]) hh
  | building hq hpc ha hh =>
      cases hx : s.pc q with
      | sys6 pc =>
          rw [hx] at hpc
          cases pc with
          | init b j =>
              obtain rfl : b = asid := hpc
              obtain ⟨rfl, ht⟩ := own_handler hs he hq hx trivial (by simp)
              rw [execActs_none (by rw [execAct_handler hq hx (by simp)]; rfl)]
              rw [handlerStep, sys6Step] at ht
              split at ht
              · cases ht
                exact .building hq (by rw [setPc_self]; rfl) ha hh
              · cases ht
                exact .building hq (by rw [setPc_self]; rfl) ha hh
          | create b =>
              have hb := hg.parked.inert_awake hq hx trivial (by simp)
              have hexec := stageOf_some hq
              rw [hx] at hexec
              obtain ⟨hsem, hk, -⟩ := hg.good.sync.idle hexec hb (by rintro ⟨⟩)
              rcases own_event hs he hq (by rw [hx]; trivial) with ⟨rfl, ht⟩ | ⟨rfl, -, rfl⟩
              · rw [hx] at ht
                cases ht
                have hne : q ≠ s.vm.nextPid := (hg.parked.lt (by rw [hq]; simp)).ne
                rw [execActs_some (x := .created) (by rw [execAct_handler hq hx (by simp)]; rfl)]
                exact .opened ((Function.update_of_ne hne ..).trans hq) setPc_self ha (by simp)
                  (note (fun x hx => .inr (.inr (hh x hx))) (.inl rfl)) (.inr hsem)
              · have hfail : execAct q s (.noPcb q) = some .failed := if_pos rfl
                rw [execActs_some hfail]
                exact .lost hq setPc_self (note (fun x hx => .inr (hh x hx)) (.inl rfl)) hsem
                  (hk.setPc hq rfl rfl)
          | wait => exact hpc.elim
      | _ => rw [hx] at hpc; exact hpc.elim
  | opened hq hpc ha hcr hh hs' =>
      obtain ⟨rfl, ht⟩ := own_handler hs he hq hpc trivial (by simp)
      cases ht
      rw [execActs_some (x := .waits) (by rw [execAct_handler hq hpc (by simp)]; rfl)]
      refine .asleep hq setPc_self ha (by simp [hcr]) (note hh (.inr (.inl rfl))) ?_
      refine hs'.imp (fun hsig => hsig.append _) fun hsem => ?_
      show s.shellSemaphore.P q = _
      rw [hsem]
      rfl
  | asleep hq hpc ha hcr hh hs' =>
      obtain ⟨rfl, ht⟩ := own_handler hs he hq hpc trivial (by simp)
      cases ht
      rw [execActs_some (execAct_ldst hpc), ha]
      exact .returned setPc_self h rfl hh (hs'.resolve_right (free hq hpc))
  | lost hq hpc hh hs' hk =>
      obtain ⟨rfl, ht⟩ := own_handler hs he hq hpc trivial (by simp)
      cases ht
      rw [execActs_some (x := .waits) (by rw [execAct_handler hq hpc (by simp)]; rfl)]
      refine .stranded hq setPc_self (note (fun x hx => (hh x hx).imp_right .inr) (.inr (.inl rfl)))
        ?_ (hk.setPc hq rfl rfl)
      show s.shellSemaphore.P q = _
      rw [hs']
      rfl
  | stranded hq hpc hh hs' => exact absurd hs' (free hq hpc)

/-- And by a step of anybody. -/
theorem Launching.step (hl : Launching asid q sv s h) (hg : s.Sane)
    (hgo : supportGeneralExHandler .shell sv = (.sys6 (.init asid 0), PandOS.execute))
    (hc : s.pc q ≠ .user) (hs : s.step e = some t) : Launching asid q sv t (execActs q s e t h) := by
  by_cases he : e.subject = some q
  · exact hl.own hg hgo hc he hs
  have hst := step_view hs
  have others := others_shell hg hst he (c := .run)
  -- while a child is awaited
  have signal : ∀ {m : Sem Pid}, s.vm.proc q = some ⟨.shell, .run⟩ → s.pc q ≠ .term →
      .created ∈ h → (∀ i ∈ m.queue, i = q) → (Signalled h ∨ s.shellSemaphore = m) →
      Signalled (execActs q s e t h) ∨ t.shellSemaphore = m := by
    intro m hq hpc hcr hm hs'
    rcases hs' with hsig | rfl
    · exact .inl (hsig.append _)
    · rcases others hq hpc hm with hsem | ⟨hx, -⟩
      · exact .inr hsem
      · rw [execActs_some hx]
        exact .inl (.of_created hcr)
  -- while there is none
  have silent : s.vm.proc q = some ⟨.shell, .run⟩ → s.pc q ≠ .term → s.NoOpen →
      (∀ i ∈ s.shellSemaphore.queue, i = q) → t.shellSemaphore = s.shellSemaphore := by
    intro hq hpc hk hm
    rcases others hq hpc hm with hsem | ⟨-, i, b, hb, hi⟩
    · exact hsem
    · cases hk i b _ hi hb
  cases hl with
  | returned hpc => exact absurd hpc hc
  | handler hq hpc hsv hh =>
      obtain ⟨hq', hpc', hsv'⟩ := hg.keeps hst he hq (by simp) hpc (by simp)
      exact .handler hq' hpc' (hsv'.trans hsv) (execActs_other he hh rfl)
  | building hq hpc ha hh =>
      have hx : s.pc q ≠ .term := by
        intro ht
        rw [ht] at hpc
        exact hpc
      obtain ⟨hq', hpc', hsv'⟩ := hg.keeps hst he hq (by simp) rfl hx
      exact .building hq' (hpc' ▸ hpc) (by rw [hsv', ha]) (execActs_other he hh rfl)
  | opened hq hpc ha hcr hh hs' =>
      obtain ⟨hq', hpc', hsv'⟩ := hg.keeps hst he hq (by simp) hpc (by simp)
      exact .opened hq' hpc' (by rw [hsv', ha]) (List.mem_append_left _ hcr)
        (execActs_other he hh (.inr (.inr rfl))) (signal hq (by rw [hpc]; simp) hcr (by simp) hs')
  | asleep hq hpc ha hcr hh hs' =>
      obtain ⟨hq', hpc', hsv'⟩ := hg.keeps hst he hq (by simp) hpc (by simp)
      exact .asleep hq' hpc' (by rw [hsv', ha]) (List.mem_append_left _ hcr)
        (execActs_other he hh (.inr (.inr rfl))) (signal hq (by rw [hpc]; simp) hcr (by simp) hs')
  | lost hq hpc hh hs' hk =>
      obtain ⟨hq', hpc', -⟩ := hg.keeps hst he hq (by simp) hpc (by simp)
      have hst' := stageOf_some hq
      rw [hpc] at hst'
      exact .lost hq' hpc' (execActs_other he hh (.inr rfl))
        ((silent hq (by rw [hpc]; simp) hk (by rw [hs']; simp)).trans hs')
        (hk.step hg.good hst hst' (by rintro _ ⟨⟩))
  | stranded hq hpc hh hs' hk =>
      obtain ⟨hq', hpc', -⟩ := hg.keeps hst he hq (by simp) hpc (by simp)
      have hst' := stageOf_some hq
      rw [hpc] at hst'
      exact .stranded hq' hpc' (execActs_other he hh (.inr (.inr rfl)))
        ((silent hq (by rw [hpc]; simp) hk (by rw [hs']; simp)).trans hs')
        (hk.step hg.good hst hst' (by rintro _ ⟨⟩))

/-- **What becomes of a program that is executed.**  However a call of `EXECUTE` with the ASID of a
program goes: where the child is created, the shell resumes only after somebody has signalled, with
the number of the service in `reg_a0`; where it is not, the shell does not resume, and is blocked
from its `P` on. -/
theorem launched_of_run {flash : PageId → Page} {frame : FrameNo → Page} {reg : Asid → FlashReg}
    {fs : List (SupportEvent n)} (hr : Run step anyStep (.boot flash frame reg) es s₁)
    (hq : s₁.vm.proc q = some ⟨.shell, .run⟩) (hpc : s₁.pc q = .handler)
    (hc : isEcall (s₁.saved .shell).cause) (ha : (s₁.saved .shell).reg_a0 = PandOS.execute)
    (hn : childAsid (s₁.saved .shell).reg_a1.toInt = some asid)
    (hx : Executes K q (s₁, []) fs (t, h)) :
    (.created ∈ h → ∀ l a0, h = l ++ [.resumes a0] → Signalled l ∧ a0 = PandOS.execute) ∧
      (.failed ∈ h → (∀ a0, .resumes a0 ∉ h) ∧ (.waits ∈ h → t.blocked q)) := by
  have hgo := (supportGeneralExHandler_execute hc ha).trans (sys6_execute_some hn)
  rw [ha] at hgo
  have hl : Launching asid q (s₁.saved .shell) t h := by
    refine (hx.inv (I := fun x => x.1.Sane ∧ Launching asid q (s₁.saved .shell) x.1 x.2)
      ⟨(Sane.boot flash frame reg).reach hr, .handler hq hpc rfl (by simp)⟩ ?_).2
    rintro x e y ⟨hx, hi⟩ hd hy
    obtain ⟨hst, hnote⟩ := record_eq_some hy
    rw [hnote]
    exact ⟨hx.step (step_view hst), hi.step hx hgo hd.1 hst⟩
  -- what the shell has not done
  have absent : ∀ {P : ExecAct → Prop} {x : ExecAct}, (∀ y ∈ h, P y) → ¬ P x → x ∉ h :=
    fun hh hx hm => hx (hh _ hm)
  have unended : (∀ a0, ExecAct.resumes a0 ∉ h) → ∀ l a0, h ≠ l ++ [.resumes a0] :=
    fun hh l a0 hl => hh a0 (by rw [hl]; simp)
  cases hl with
  | handler _ _ _ hh => exact ⟨fun hm => (absent hh (by simp) hm).elim,
      fun hm => (absent hh (by simp) hm).elim⟩
  | building _ _ _ hh => exact ⟨fun hm => (absent hh (by simp) hm).elim,
      fun hm => (absent hh (by simp) hm).elim⟩
  | opened _ _ _ _ hh =>
      exact ⟨fun _ l a0 hl => (unended (fun _ => absent hh (by simp)) l a0 hl).elim,
        fun hm => (absent hh (by simp) hm).elim⟩
  | asleep _ _ _ _ hh =>
      exact ⟨fun _ l a0 hl => (unended (fun _ => absent hh (by simp)) l a0 hl).elim,
        fun hm => (absent hh (by simp) hm).elim⟩
  | returned _ l hl hh hs =>
      subst hl
      refine ⟨fun _ l' a0 hl' => ?_, fun hm => ?_⟩
      · obtain ⟨rfl, hx⟩ := List.append_inj' hl' rfl
        cases hx
        exact ⟨hs, rfl⟩
      · rcases List.mem_append.mp hm with hm | hm
        · rcases hh _ hm with hx | hx | hx <;> cases hx
        · cases List.mem_singleton.mp hm
  | lost _ _ hh =>
      exact ⟨fun hm => (absent hh (by simp) hm).elim, fun _ =>
        ⟨fun _ => absent hh (by simp), fun hm => (absent hh (by simp) hm).elim⟩⟩
  | stranded _ _ hh hs =>
      refine ⟨fun hm => (absent hh (by simp) hm).elim, fun _ => ⟨fun _ => absent hh (by simp),
        fun _ => .inr (.inl ?_)⟩⟩
      rw [hs]
      exact List.mem_singleton_self q

end Support

end PandOS
