import PandOS.Phase3.Refine
import PandOS.Phase3.Coherence

/-!
# Phase 3 — address spaces over whole runs

* `Support.isolated_of_run`: on every run, whatever the devices answer, a frame is reached through
  valid translations of one page of one ASID only, the one its descriptor names.
* `Support.coherent_of_run`: a valid TLB entry of a live process is its page-table entry unless an
  `updateTLBEntry` is still to come, and a program starts with nothing valid in the TLB, on every
  run on which `initSupportStruct` rewrites no entry the TLB has a valid copy of.
* `Support.relaunch_not_coherent`: a program that is executed again while the TLB has an entry of
  its last run breaks this.
-/

namespace PandOS

variable {n : ℕ}

namespace VM

variable {s t : VM n} {e : VmEvent n} {r : PageId} {k : FrameNo}

/-- A valid translation, in the page table or in the TLB, takes page `r` to frame `k`. -/
def Reaches (s : VM n) (r : PageId) (k : FrameNo) : Prop :=
  translate (s.pgTbl r).entryLO = some k ∨
    ∃ i lo, s.tlb i = some (entryHI r, lo) ∧ translate lo = some k

theorem MemInv.reaches (h : s.MemInv) (hr : s.Reaches r k) :
    ∃ d, s.swapPool k = some d ∧ d.page = r := by
  rcases hr with hr | ⟨i, lo, hi, hlo⟩
  · exact h.pte r k hr
  · obtain ⟨d, hd, he⟩ := h.tlb i _ lo k hi hlo
    exact ⟨d, hd, (entryHI_injective he).symm⟩

theorem pending_inside {a : Asid} {p : PageNo} {pc : PagerPc}
    (h : PagerPc.pending a p pc = some r) : pc.inside := by
  cases pc with
  | flush | update => rfl
  | _ => cases h

theorem not_pending (hno : ∀ q, ¬ s.Inside q) : ¬ s.Pending r := by
  rintro ⟨q, a, p, pc, hq, hpc⟩
  exact hno q ⟨_, hq, pending_inside hpc⟩

instance : Decidable (s.NotCached r) :=
  decidable_of_iff (∀ i, (s.tlb i).all fun w => w.1 ≠ entryHI r ∨ w.2 &&& validOn = 0) <| by
    refine forall_congr' fun i => ?_
    cases hi : s.tlb i with
    | none => simp
    | some w =>
        obtain ⟨k, lo⟩ := w
        simp only [Option.all_some, decide_eq_true_eq, Option.some.injEq, Prod.mk.injEq]
        constructor
        · rintro h lo' ⟨rfl, rfl⟩
          exact h.resolve_left fun hne => hne rfl
        · intro h
          by_cases hk : k = entryHI r
          · exact .inr (h lo ⟨hk, rfl⟩)
          · exact .inl hk

instance : ∀ f : VmEvent n, Decidable (s.ColdInit f)
  | .initPte r => inferInstanceAs (Decidable (s.NotCached r))
  | .create _ | .load .. | .store .. | .refill .. | .fault .. | .pager _ | .flashDone .. | .die _
  | .exit _ => .isTrue trivial

/-- The page table of a live process names its pages. -/
def Tagged (s : VM n) : Prop :=
  ∀ q pr, s.proc q = some pr → ∀ p, (s.pgTbl (pr.asid, p)).entryHI = entryHI (pr.asid, p)

theorem Tagged.step (h : s.Tagged) (hs : Step s e t) : t.Tagged := by
  intro q pr hq p
  rcases hs.live_from hq with ⟨c, hold⟩ | ⟨⟨a, rfl⟩, rfl⟩
  · exact hs.hi (h q _ hold p)
  · cases hs with
    | create hl =>
        rcases proc_update (q := s.nextPid) rfl hq with ⟨hne, -⟩ | ⟨-, he⟩
        · exact absurd rfl hne
        · cases he
          exact hl.1 p

end VM

namespace Support

variable {s t : Support n} {e : SupportEvent n} {es : List (SupportEvent n)} {q : Pid} {a : Asid}

/-- **Address spaces are isolated.**  On every run, in every state: a valid translation takes a
page to the frame whose descriptor names it, every valid TLB entry is tagged with a page of an
ASID, and no frame is reached from two pages. -/
theorem isolated_of_run (flash : PageId → Page) (frame : FrameNo → Page) (reg : Asid → FlashReg)
    (hr : Run step anyStep (boot flash frame reg : Support n) es s) :
    (∀ a p k, s.vm.Reaches (a, p) k →
      ∃ d, s.vm.swapPool k = some d ∧ d.sw_asid = a ∧ d.sw_pageNo = p) ∧
    (∀ i hi lo k, s.vm.tlb i = some (hi, lo) → translate lo = some k → ∃ r, hi = entryHI r) ∧
    ∀ r r' k, s.vm.Reaches r k → s.vm.Reaches r' k → r = r' := by
  have hm := ((Good.boot flash frame reg).reach hr).iso.mem
  refine ⟨fun a p k hk => ?_, fun i hi lo k h hk => ?_, fun r r' k hk hk' => ?_⟩
  · obtain ⟨d, hd, he⟩ := hm.reaches hk
    exact ⟨d, hd, congrArg Prod.fst he, congrArg Prod.snd he⟩
  · obtain ⟨d, -, he⟩ := hm.tlb i hi lo k h hk
    exact ⟨d.page, he⟩
  · obtain ⟨d, hd, rfl⟩ := hm.reaches hk
    obtain ⟨d', hd', rfl⟩ := hm.reaches hk'
    rw [hd] at hd'
    cases hd'
    rfl

/-- A program that has brought a page in reaches it. -/
theorem isolated_of_run_first : ∃ s, Run step anyStep blank firstRun s ∧
    s.vm.Reaches (prog, page0) frame0 ∧ ∀ r, s.vm.Reaches r frame0 → r = (prog, page0) := by
  obtain ⟨s, hr, hk⟩ := exists_run step anyStep
    (fun s => translate (s.vm.pgTbl (prog, page0)).entryLO = some frame0)
    blank firstRun (by decide +kernel)
  exact ⟨s, hr, .inl hk, fun r hr' => (isolated_of_run _ _ _ hr).2.2 _ _ _ hr' (.inl hk)⟩

/-! ### Page tables under construction -/

theorem Sync.idle_exec (h : s.Sync) {a' : Asid} (hq : s.stageOf q = some (a', .exec a)) :
    s.NoOpen := by
  obtain ⟨rfl, -⟩ := h.exec _ _ _ hq
  cases h.shell with
  | idle _ hk => exact hk
  | opened j _ hj => obtain rfl := h.shell1 _ _ _ _ hq hj; rw [hq] at hj; cases hj
  | early j _ hj => obtain rfl := h.shell1 _ _ _ _ hq hj; rw [hq] at hj; cases hj
  | asleep j _ hj => obtain rfl := h.shell1 _ _ _ _ hq hj; rw [hq] at hj; cases hj

/-- While the page table of `a` is built, no process of `a` runs. -/
theorem Good.exec_alone (h : s.Good) {pr : Proc} {i : ℕ} (hq : s.vm.proc q = some pr)
    (hb : GenPc.built (s.pc q) = some (a, i)) :
    ∀ j c, s.vm.proc j = some ⟨a, c⟩ → c = .dying := by
  have hst : s.stageOf q = some (pr.asid, .exec a) := by
    rw [stageOf_some hq, GenPc.built_stage hb]
  obtain ⟨-, ha⟩ := h.sync.exec _ _ _ hst
  intro j c hj
  have hterm := h.sync.idle_exec hst j a _ (stageOf_some hj) ha
  exact h.dying j _ hj (GenPc.eq_term hterm)

theorem Good.test_alone (h : s.Good) {i : ℕ} (hb : TestPc.built s.testPc = some i) :
    ∀ j, s.vm.proc j = none := by
  have hno : ∀ j, s.stageOf j = none := by
    cases h.sync.test with
    | early _ _ hno => exact hno
    | ready _ _ h₁ => rw [h₁] at hb; cases hb
    | signalled h₁ => rw [h₁] at hb; cases hb
    | asleep _ _ h₁ => rw [h₁] at hb; cases hb
    | woken h₁ => rw [h₁] at hb; cases hb
    | done h₁ => rw [h₁] at hb; cases hb
  exact fun j => Option.map_eq_none_iff.mp (hno j)

/-- The entries of a page table under construction are invalid, and nothing valid is cached for
them. -/
structure Chilled (s : Support n) : Prop where
  exec : ∀ q pr a i, s.vm.proc q = some pr → GenPc.built (s.pc q) = some (a, i) →
    ∀ p : PageNo, p.val < i → s.vm.Cold (a, p)
  test : ∀ i, TestPc.built s.testPc = some i → ∀ p : PageNo, p.val < i → s.vm.Cold (.shell, p)

theorem Under.cold {r : PageId} (h : Under s e t) (hg : s.Good) (hr : s.vm.Cold r)
    (hno : ∀ j c, s.vm.proc j = some ⟨r.1, c⟩ → c = .dying) : t.vm.Cold r := by
  cases h with
  | step f hf hs => exact hr.step hg.iso (VM.step_view hs) hno
  | exits l hf hx =>
      obtain ⟨hp, ht, -⟩ := exits_back hx
      exact hr.congr (congrFun hp r) ht

/-- A step keeps the page tables under construction cold. -/
theorem Chilled.step (h : s.Chilled) (hg : s.Good) (hs : Step s e t)
    (hc : ∀ f ∈ s.vmEvent e, s.vm.ColdInit f) : t.Chilled := by
  have hu := hg.under hs
  have enough : ∀ {i j : ℕ} {p : PageNo}, i ≤ j ∨ maxPages ≤ j → p.val < i → p.val < j :=
    fun hij hp => hij.elim (Nat.lt_of_lt_of_le hp) (Nat.lt_of_lt_of_le (Fin.isLt _))
  -- the entry just written, or an earlier one
  have last : ∀ {a j} {hj : j < maxPages} {p : PageNo},
      s.vmEvent e = some (.initPte (a, ⟨j, hj⟩)) → t.vm = s.vm.initPte (a, ⟨j, hj⟩) →
      p.val < j + 1 → (p.val < j → t.vm.Cold (a, p)) → t.vm.Cold (a, p) := by
    intro a j hj p hf hv hp hold
    by_cases hpj : p.val < j
    · exact hold hpj
    · obtain rfl : p = ⟨j, hj⟩ := Fin.ext (le_antisymm (Nat.lt_succ_iff.mp hp) (not_lt.mp hpj))
      rw [hv]
      exact .init (hc _ hf)
  refine ⟨fun q pr a i hq hb p hp => ?_, fun i hi p hp => ?_⟩
  · rcases hu.live_from hq with ⟨c, hold⟩ | ⟨⟨b, hb'⟩, rfl⟩
    · rcases hs.built_from hb with ⟨j, hj, hij⟩ | ⟨j, hj, hj', rfl, hf, hv⟩ | rfl
      · exact hu.cold hg (h.exec q _ a j hold hj p (enough hij hp)) (hg.exec_alone hold hj)
      · exact last hf hv hp fun hpj =>
          hu.cold hg (h.exec q _ a j hold hj' p hpj) (hg.exec_alone hold hj')
      · exact absurd hp (Nat.not_lt_zero _)
    · rw [hs.created hg.iso.excl hb'] at hb
      cases hb
  · have alone : ∀ {j}, TestPc.built s.testPc = some j →
        ∀ j c, s.vm.proc j = some ⟨.shell, c⟩ → c = .dying := fun hj i c hi => by
      rw [hg.test_alone hj i] at hi
      cases hi
    rcases hs.builtTest_from hi with ⟨j, hj, hij⟩ | ⟨j, hj, hj', rfl, hf, hv⟩
    · exact hu.cold hg (h.test j hj p (enough hij hp)) (alone hj)
    · exact last hf hv hp fun hpj => hu.cold hg (h.test j hj' p hpj) (alone hj')

theorem Chilled.boot (flash : PageId → Page) (frame : FrameNo → Page) (reg : Asid → FlashReg) :
    (Support.boot flash frame reg : Support n).Chilled where
  exec := by rintro _ _ _ _ ⟨⟩
  test i hi p hp := by cases hi; exact absurd hp (Nat.not_lt_zero _)

/-- What coherence needs of the Support Level. -/
theorem cold_run (flash : PageId → Page) (frame : FrameNo → Page) (reg : Asid → FlashReg)
    (hr : Run step (fun u e => ∀ f ∈ u.vmEvent e, u.vm.ColdInit f)
      (boot flash frame reg : Support n) es s) :
    s.Good ∧ s.vm.Coherent ∧ s.vm.Tagged ∧ s.Chilled := by
  refine hr.inv (I := fun u => u.Good ∧ u.vm.Coherent ∧ u.vm.Tagged ∧ u.Chilled)
    ⟨.boot .., ⟨.boot .., by rintro _ _ _ ⟨⟩⟩, by rintro _ _ ⟨⟩, .boot ..⟩ ?_
  rintro u e v ⟨hg, hco, ht, hch⟩ hc hs
  have hst := step_view hs
  have hvm : v.vm.Coherent ∧ v.vm.Tagged :=
    (hg.under hst).lift (J := fun w => w.Coherent ∧ w.Tagged) (C := VM.ColdInit)
      (fun _ _ _ hw hcw hf => ⟨hw.1.step hf hcw, hw.2.step hf⟩) (fun _ _ => trivial) ⟨hco, ht⟩ hc
  exact ⟨hg.step hst, hvm.1, hvm.2, hch.step hg hst hc⟩

/-- When a process is created, nothing valid is cached for its ASID. -/
theorem Chilled.created (h : s.Chilled) (hs : Step s e t) (hc : s.vmEvent e = some (.create a))
    (p : PageNo) : t.vm.NotCached (a, p) := by
  rcases hs.create_cases hc with ⟨hpc, rfl, rfl⟩ | ⟨q, b, hq, hpc, rfl⟩
  · exact (h.test maxPages (by rw [hpc]; rfl) p p.isLt).cached
  · exact (h.exec q _ _ maxPages hq (by rw [hpc]; rfl) p p.isLt).cached

/-- **The TLB agrees with the page tables.**  On every run on which `initSupportStruct` rewrites no
entry the TLB has a valid copy of, a valid TLB entry of a live process is the page-table entry of
its page unless an `updateTLBEntry` is pending for it, and a process is created with nothing valid
in the TLB for its ASID. -/
theorem coherent_of_run (flash : PageId → Page) (frame : FrameNo → Page) (reg : Asid → FlashReg)
    (hr : Run step (fun u e => ∀ f ∈ u.vmEvent e, u.vm.ColdInit f)
      (boot flash frame reg : Support n) es s) :
    (∀ q pr, s.vm.proc q = some pr → ∀ p i lo, s.vm.tlb i = some (entryHI (pr.asid, p), lo) →
      lo &&& validOn ≠ 0 → ¬ s.vm.Pending (pr.asid, p) →
      s.vm.pgTbl (pr.asid, p) = ⟨entryHI (pr.asid, p), lo⟩) ∧
    ∀ e t a, s.step e = some t → s.vmEvent e = some (.create a) →
      ∀ p i lo, t.vm.tlb i = some (entryHI (a, p), lo) → lo &&& validOn = 0 := by
  obtain ⟨-, hco, ht, hch⟩ := cold_run flash frame reg hr
  refine ⟨fun q pr hq p i lo hi hv hp => ?_, fun e t a hs hc p => ?_⟩
  · have hlo := (hco.agree i _ lo hi hv).resolve_right hp
    rw [hlo, ← ht q pr hq p]
  · exact hch.created (step_view hs) hc p

/-- A first run of a program: the entry in the TLB is the one of its page table. -/
theorem coherent_of_run_first : ∃ s,
    Run step (fun u e => ∀ f ∈ u.vmEvent e, u.vm.ColdInit f) blank firstRun s ∧
    s.vm.pgTbl (prog, page0) = ⟨entryHI (prog, page0), mapped frame0⟩ := by
  obtain ⟨s, hr, hq, hi, hno⟩ := exists_run step (fun u e => ∀ f ∈ u.vmEvent e, u.vm.ColdInit f)
    (fun s => s.vm.proc 2 = some ⟨prog, .run⟩ ∧
      s.vm.tlb 0 = some (entryHI (prog, page0), mapped frame0) ∧
      ∀ q < s.vm.nextPid, ¬ s.vm.Inside q)
    blank firstRun (by decide +kernel)
  have hx := ((Good.boot _ _ _).reach hr).iso.excl
  exact ⟨s, hr, (coherent_of_run _ _ _ hr).1 2 _ hq page0 0 _ hi (mapped_valid _)
    (VM.not_pending (hx.none_inside hno))⟩

/-- **The TLB entry of a dead program.**  After `relaunch` the program runs again, its page table
does not map the page, no process is in the pager, and the TLB still has the valid entry of the
first run. -/
theorem relaunch_not_coherent : ∃ s, Run step anyStep blank relaunch s ∧
    s.vm.proc 3 = some ⟨prog, .run⟩ ∧ (∀ r, ¬ s.vm.Pending r) ∧
    ∃ lo, s.vm.tlb 0 = some (entryHI (prog, page0), lo) ∧ lo &&& validOn ≠ 0 ∧
      (s.vm.pgTbl (prog, page0)).entryLO ≠ lo := by
  obtain ⟨s, hr, hq, hi, hlo, hno⟩ := exists_run step anyStep
    (fun s => s.vm.proc 3 = some ⟨prog, .run⟩ ∧
      s.vm.tlb 0 = some (entryHI (prog, page0), mapped frame0) ∧
      (s.vm.pgTbl (prog, page0)).entryLO ≠ mapped frame0 ∧ ∀ q < s.vm.nextPid, ¬ s.vm.Inside q)
    blank relaunch (by decide +kernel)
  have hx := ((Good.boot _ _ _).reach hr).iso.excl
  exact ⟨s, hr, hq, fun r => VM.not_pending (hx.none_inside hno), _, hi, mapped_valid _, hlo⟩

end Support

end PandOS
