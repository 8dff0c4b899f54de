import PandOS.Phase3.Exclusion

/-!
# Phase 3 — isolation

A valid translation, in a page table or in the TLB, leads to a frame whose descriptor names the
page (`VM.MemInv`).  Inside the critical section the pager keeps a fact about its frame
(`VM.Crit`): while it is evicted, its page is invalid; once the TLB is flushed, nothing
translates to it at all (`VM.Detached`), and this lasts until the descriptor is rewritten; from
then on the descriptor names the pager's own page.

Steps that create no translation and leave the swap pool alone are `VM.Quiet`; every invariant
here survives them.  The steps that are not quiet are `record` and `validate`.  `VM.Iso.step` is
the step lemma; nothing in it depends on the status a flash device returns or on when a page
table is rewritten.
-/

namespace PandOS.VM

variable {n : ℕ} {s t : VM n} {e : VmEvent n} {q q' : Pid} {a a' : Asid} {p p' : PageNo}

/-! ### Translations and descriptors -/

/-- Every valid translation leads to a frame whose descriptor names the page. -/
structure MemInv (s : VM n) : Prop where
  unique : s.tlb.Unique
  desc : ∀ k d, s.swapPool k = some d →
    d.sw_pte = d.page ∧ (s.pgTbl d.page).entryHI = entryHI d.page
  pte : ∀ r k, translate (s.pgTbl r).entryLO = some k → ∃ d, s.swapPool k = some d ∧ d.page = r
  tlb : ∀ i hi lo k, s.tlb i = some (hi, lo) → translate lo = some k →
    ∃ d, s.swapPool k = some d ∧ hi = entryHI d.page

/-- Nothing translates to frame `k`. -/
structure Detached (s : VM n) (k : FrameNo) : Prop where
  pte : ∀ r, translate (s.pgTbl r).entryLO ≠ some k
  tlb : ∀ i hi lo, s.tlb i = some (hi, lo) → translate lo ≠ some k

/-- What the pager of ASID `a` for page `p` knows at each statement. -/
def Crit (s : VM n) (a : Asid) (p : PageNo) : PagerPc → Prop
  | .flush k old => s.swapPool k = some old ∧ translate (s.pgTbl old.page).entryLO = none
  | .write k old _ => s.swapPool k = some old ∧ s.Detached k
  | .read k _ | .record k => s.Detached k
  | .validate k | .update k => s.swapPool k = some ⟨a, p, (a, p)⟩
  | _ => True

/-- The entry of a page valid in the table: its `EntryHi` names the page. -/
theorem MemInv.hi_of_translate (h : s.MemInv) {r : PageId} {k : FrameNo}
    (hk : translate (s.pgTbl r).entryLO = some k) :
    ∃ d, s.swapPool k = some d ∧ (s.pgTbl r).entryHI = entryHI d.page := by
  obtain ⟨d, hd, rfl⟩ := h.pte r k hk
  exact ⟨d, hd, (h.desc k d hd).2⟩

/-! ### Quiet steps -/

/-- No translation is created and the swap pool is left alone. -/
structure Quiet (s t : VM n) : Prop where
  pool : t.swapPool = s.swapPool
  hi : ∀ r, (t.pgTbl r).entryHI = (s.pgTbl r).entryHI ∨ (t.pgTbl r).entryHI = entryHI r
  pte : ∀ r k, translate (t.pgTbl r).entryLO = some k → translate (s.pgTbl r).entryLO = some k
  tlb : ∀ i hi lo, t.tlb i = some (hi, lo) →
    (∃ j, s.tlb j = some (hi, lo)) ∨ ∃ r, s.pgTbl r = ⟨hi, lo⟩
  unique : s.tlb.Unique → t.tlb.Unique

theorem Quiet.of_eq (hp : t.pgTbl = s.pgTbl) (ht : t.tlb = s.tlb) (hw : t.swapPool = s.swapPool) :
    Quiet s t where
  pool := hw
  hi r := .inl (by rw [hp])
  pte r k := by rw [hp]; exact id
  tlb i hi lo h := .inl ⟨i, ht ▸ h⟩
  unique := by rw [ht]; exact id

/-- A page-table entry is rewritten to an invalid one. -/
theorem Quiet.setPte {r : PageId} {w : PteEntry} (hp : t.pgTbl = Function.update s.pgTbl r w)
    (ht : t.tlb = s.tlb) (hw : t.swapPool = s.swapPool)
    (hhi : w.entryHI = (s.pgTbl r).entryHI ∨ w.entryHI = entryHI r)
    (hlo : translate w.entryLO = none) : Quiet s t where
  pool := hw
  hi r' := by
    rw [hp]
    by_cases hr : r' = r
    · subst hr; simpa using hhi
    · simp [hr]
  pte r' k h := by
    rw [hp] at h
    by_cases hr : r' = r
    · subst hr
      rw [Function.update_self, hlo] at h
      cases h
    · rwa [Function.update_of_ne hr] at h
  tlb i hi lo h := .inl ⟨i, ht ▸ h⟩
  unique := by rw [ht]; exact id

/-- A page-table entry is copied to a TLB slot. -/
theorem Quiet.refill {r : PageId} {i : Fin n} (hp : t.pgTbl = s.pgTbl)
    (ht : t.tlb = s.tlb.write i ((s.pgTbl r).entryHI, (s.pgTbl r).entryLO))
    (hw : t.swapPool = s.swapPool) (hm : s.tlb.Miss (s.pgTbl r).entryHI) : Quiet s t where
  pool := hw
  hi r := .inl (by rw [hp])
  pte r k := by rw [hp]; exact id
  tlb j hi lo h := by
    rw [ht] at h
    rcases Tlb.write_inv h with he | hj
    · cases he; exact .inr ⟨r, rfl⟩
    · exact .inl ⟨j, hj⟩
  unique hu := by rw [ht]; exact Tlb.unique_write hu hm

/-- The TLB is probed for a page-table entry and refreshed from it. -/
theorem Quiet.refresh {r : PageId} (hu : s.tlb.Unique) (hp : t.pgTbl = s.pgTbl)
    (ht : t.tlb = s.tlb.refresh (s.pgTbl r).entryHI (s.pgTbl r).entryLO)
    (hw : t.swapPool = s.swapPool) : Quiet s t where
  pool := hw
  hi r := .inl (by rw [hp])
  pte r k := by rw [hp]; exact id
  tlb j hi lo h := by
    rw [ht] at h
    rcases Tlb.refresh_inv hu h with ⟨rfl, rfl⟩ | ⟨-, hj⟩
    · exact .inr ⟨r, rfl⟩
    · exact .inl ⟨j, hj⟩
  unique hu := by rw [ht]; exact Tlb.unique_refresh hu _ _

/-- A step that leaves page tables, TLB and descriptors alone. -/
theorem MemInv.quiet (h : s.MemInv) (ht : Quiet s t) : t.MemInv where
  unique := ht.unique h.unique
  desc k d hd := by
    rw [ht.pool] at hd
    obtain ⟨hpte, hhi⟩ := h.desc k d hd
    exact ⟨hpte, (ht.hi d.page).elim (·.trans hhi) id⟩
  pte r k hk := by
    rw [ht.pool]
    exact h.pte r k (ht.pte r k hk)
  tlb i hi lo k hi' hk := by
    rw [ht.pool]
    rcases ht.tlb i hi lo hi' with ⟨j, hj⟩ | ⟨r, hr⟩
    · exact h.tlb j hi lo k hj hk
    · obtain ⟨d, hd, he⟩ := h.hi_of_translate (r := r) (k := k) (by rw [hr]; exact hk)
      exact ⟨d, hd, by rw [← he, hr]⟩

theorem Detached.quiet {k : FrameNo} (h : s.Detached k) (ht : Quiet s t) : t.Detached k where
  pte r hk := h.pte r (ht.pte r k hk)
  tlb i hi lo hi' hk := by
    rcases ht.tlb i hi lo hi' with ⟨j, hj⟩ | ⟨r, hr⟩
    · exact h.tlb j hi lo hj hk
    · exact h.pte r (by rw [hr]; exact hk)

theorem invalid_quiet {r : PageId} (h : translate (s.pgTbl r).entryLO = none) (ht : Quiet s t) :
    translate (t.pgTbl r).entryLO = none := by
  cases hk : translate (t.pgTbl r).entryLO with
  | none => rfl
  | some k => rw [ht.pte r k hk] at h; cases h

theorem Crit.quiet {pc : PagerPc} (h : s.Crit a p pc) (ht : Quiet s t) : t.Crit a p pc := by
  cases pc with
  | flush k old => exact ⟨ht.pool ▸ h.1, invalid_quiet h.2 ht⟩
  | write k old pc => exact ⟨ht.pool ▸ h.1, h.2.quiet ht⟩
  | read k pc => exact Detached.quiet h ht
  | record k => exact Detached.quiet h ht
  | validate k => exact (congrFun ht.pool k).trans h
  | update k => exact (congrFun ht.pool k).trans h
  | _ => trivial

/-! ### The two steps that are not quiet -/

/-- The descriptor of a detached frame is rewritten. -/
theorem MemInv.record (h : s.MemInv) {k : FrameNo} (hk : s.Detached k)
    (hhi : (s.pgTbl (a, p)).entryHI = entryHI (a, p)) (hp : t.pgTbl = s.pgTbl) (ht : t.tlb = s.tlb)
    (hw : t.swapPool = Function.update s.swapPool k (some ⟨a, p, (a, p)⟩)) : t.MemInv where
  unique := by rw [ht]; exact h.unique
  desc k' d hd := by
    rw [hp]
    rw [hw] at hd
    by_cases hkk : k' = k
    · subst hkk
      rw [Function.update_self] at hd
      cases hd
      exact ⟨rfl, hhi⟩
    · rw [Function.update_of_ne hkk] at hd
      exact h.desc k' d hd
  pte r k' hk' := by
    rw [hp] at hk'
    rw [hw, Function.update_of_ne (by rintro rfl; exact hk.pte r hk')]
    exact h.pte r k' hk'
  tlb i hi lo k' hi' hk' := by
    rw [ht] at hi'
    rw [hw, Function.update_of_ne (by rintro rfl; exact hk.tlb i hi lo hi' hk')]
    exact h.tlb i hi lo k' hi' hk'

/-- The entry of the page a frame is recorded for is mapped to the frame. -/
theorem MemInv.validate (h : s.MemInv) {k : FrameNo} {r : PageId}
    (hk : s.swapPool k = some ⟨r.1, r.2, r⟩)
    (hp : t.pgTbl = Function.update s.pgTbl r { s.pgTbl r with entryLO := mapped k })
    (ht : t.tlb = s.tlb) (hw : t.swapPool = s.swapPool) : t.MemInv where
  unique := by rw [ht]; exact h.unique
  desc k' d hd := by
    rw [hw] at hd
    obtain ⟨hpte, hhi⟩ := h.desc k' d hd
    refine ⟨hpte, ?_⟩
    rw [hp]
    by_cases hr : d.page = r
    · rw [hr, Function.update_self, ← hr]; exact hhi
    · rw [Function.update_of_ne hr]; exact hhi
  pte r' k' hk' := by
    rw [hw]
    rw [hp] at hk'
    by_cases hr : r' = r
    · subst hr
      rw [Function.update_self, translate_mapped] at hk'
      cases hk'
      exact ⟨_, hk, rfl⟩
    · rw [Function.update_of_ne hr] at hk'
      exact h.pte r' k' hk'
  tlb i hi lo k' hi' hk' := by
    rw [ht] at hi'
    rw [hw]
    exact h.tlb i hi lo k' hi' hk'

/-! ### The statements of the pager -/

theorem Call.crit {d b k rw here next} (c : Call a p d b k rw here next) {f g : FlashPc}
    (h : s.Crit a p (here f)) : s.Crit a p (here g) ∧ s.Crit a p next := by
  cases c with
  | write k old => exact ⟨h, h.2⟩
  | read k => exact ⟨h, h⟩

/-- After `oldPte->pte_entryLO &= ~VALIDON` on the entry of a recorded page. -/
theorem crit_evict (h : s.MemInv) {k : FrameNo} {old : Swap} (hk : s.swapPool k = some old)
    (hp : t.pgTbl = (s.invalidate old.sw_pte).pgTbl) (hw : t.swapPool = s.swapPool) :
    t.Crit a p (.flush k old) := by
  refine ⟨hw ▸ hk, ?_⟩
  rw [hp, (h.desc k old hk).1]
  exact (congrArg (fun e => translate (PteEntry.entryLO e)) (Function.update_self ..)).trans
    (translate_clear _)

/-- After `updateTLBEntry(oldPte)` nothing translates to the frame: its only page is invalid in
the table, and now in the TLB. -/
theorem crit_flush (h : s.MemInv) {k : FrameNo} {old : Swap} (hc : s.Crit a p (.flush k old))
    (hp : t.pgTbl = s.pgTbl) (ht : t.tlb = (s.updateTLBEntry old.sw_pte).tlb)
    (hw : t.swapPool = s.swapPool) : t.Crit a p (.write k old .acquire) := by
  obtain ⟨hk, hno⟩ := hc
  obtain ⟨hpte, hhi⟩ := h.desc k old hk
  refine ⟨hw ▸ hk, fun r hr => ?_, fun i hi lo hi' hlo => ?_⟩
  · rw [hp] at hr
    obtain ⟨d, hd, rfl⟩ := h.pte r k hr
    cases hk.symm.trans hd
    rw [hno] at hr
    cases hr
  · rw [ht, hpte] at hi'
    rcases Tlb.refresh_inv h.unique hi' with ⟨-, rfl⟩ | ⟨hne, hj⟩
    · rw [hno] at hlo; cases hlo
    · obtain ⟨d, hd, rfl⟩ := h.tlb i hi lo k hj hlo
      cases hk.symm.trans hd
      exact hne hhi.symm

/-- A statement outside the critical section. -/
theorem Stmt.quiet {pc : PagerPc} (h : Stmt s q a p pc t) (hout : pc.inside = false) :
    Quiet s t := by
  cases h with
  | enter => exact .of_eq rfl rfl rfl
  | ret => exact .of_eq rfl rfl rfl
  | acquire c => exact absurd ((c.inside _).1.symm.trans hout) (by simp)
  | data0 c => exact absurd ((c.inside _).1.symm.trans hout) (by simp)
  | command c => exact absurd ((c.inside _).1.symm.trans hout) (by simp)
  | release c => exact absurd ((c.inside _).1.symm.trans hout) (by simp)
  | _ => cases hout

/-- **The statements of the pager** keep the translations right, and each establishes what the
next one needs. -/
theorem Stmt.mem {pc : PagerPc} (h : Stmt s q a p pc t) (hm : s.MemInv) (hc : s.Crit a p pc)
    (hhi : (s.pgTbl (a, p)).entryHI = entryHI (a, p)) :
    t.MemInv ∧ ∀ p' pc', t.proc q = some ⟨a, .pager p' pc'⟩ → p' = p ∧ t.Crit a p pc' := by
  -- what the next statement asks for is shown of that statement only
  have next : ∀ {c : Ctl} {u : VM n}, (∀ p' pc', c = .pager p' pc' → p' = p ∧ u.Crit a p pc') →
      u.proc = Function.update s.proc q (some ⟨a, c⟩) →
      ∀ p' pc', u.proc q = some ⟨a, .pager p' pc'⟩ → p' = p ∧ u.Crit a p pc' := by
    intro c u hcr hp p' pc' hq
    rw [hp, Function.update_self] at hq
    cases hq
    exact hcr _ _ rfl
  cases h with
  | enter =>
      exact ⟨hm.quiet (.of_eq rfl rfl rfl), next (by rintro _ _ ⟨⟩; exact ⟨rfl, trivial⟩) rfl⟩
  | select =>
      exact ⟨hm.quiet (.of_eq rfl rfl rfl), next (by rintro _ _ ⟨⟩; exact ⟨rfl, trivial⟩) rfl⟩
  | @evict k old hk =>
      refine ⟨hm.quiet (.setPte (r := old.sw_pte) rfl rfl rfl (.inl rfl) (translate_clear _)),
        next ?_ rfl⟩
      rintro _ _ ⟨⟩
      exact ⟨rfl, crit_evict hm hk rfl rfl⟩
  | @vacant k hk =>
      refine ⟨hm.quiet (.of_eq rfl rfl rfl), next ?_ rfl⟩
      rintro _ _ ⟨⟩
      refine ⟨rfl, fun r hr => ?_, fun i hi lo hi' hlo => ?_⟩
      · obtain ⟨d, hd, -⟩ := hm.pte r k hr
        rw [hk] at hd; cases hd
      · obtain ⟨d, hd, -⟩ := hm.tlb i hi lo k hi' hlo
        rw [hk] at hd; cases hd
  | @flush k old =>
      refine ⟨hm.quiet (.refresh (r := old.sw_pte) hm.unique rfl rfl rfl), next ?_ rfl⟩
      rintro _ _ ⟨⟩
      exact ⟨rfl, crit_flush hm hc rfl rfl rfl⟩
  | acquire c =>
      refine ⟨hm.quiet (.of_eq rfl rfl rfl), next ?_ rfl⟩
      rintro _ _ ⟨⟩
      exact ⟨rfl, (c.crit hc).1.quiet (.of_eq rfl rfl rfl)⟩
  | data0 c =>
      refine ⟨hm.quiet (.of_eq rfl rfl rfl), next ?_ rfl⟩
      rintro _ _ ⟨⟩
      exact ⟨rfl, (c.crit hc).1.quiet (.of_eq rfl rfl rfl)⟩
  | command c =>
      refine ⟨hm.quiet (.of_eq rfl rfl rfl), next ?_ rfl⟩
      rintro _ _ ⟨⟩
      exact ⟨rfl, (c.crit hc).1.quiet (.of_eq rfl rfl rfl)⟩
  | @release d b k rw here nxt status c =>
      refine ⟨hm.quiet (.of_eq rfl rfl rfl), next ?_ rfl⟩
      rintro _ _ ⟨⟩
      refine ⟨rfl, ?_⟩
      by_cases hs : status = flashReady
      · rw [if_pos hs]; exact (c.crit (g := .acquire) hc).2.quiet (.of_eq rfl rfl rfl)
      · rw [if_neg hs]; trivial
  | @record k =>
      refine ⟨hm.record hc hhi rfl rfl rfl, next ?_ rfl⟩
      rintro _ _ ⟨⟩
      exact ⟨rfl, Function.update_self ..⟩
  | @validate k =>
      refine ⟨hm.validate (r := (a, p)) hc rfl rfl rfl, next ?_ rfl⟩
      rintro _ _ ⟨⟩
      exact ⟨rfl, hc⟩
  | @update k =>
      refine ⟨hm.quiet (.refresh (r := (a, p)) hm.unique rfl rfl rfl), next ?_ rfl⟩
      rintro _ _ ⟨⟩
      exact ⟨rfl, trivial⟩
  | leave =>
      exact ⟨hm.quiet (.of_eq rfl rfl rfl), next (by rintro _ _ ⟨⟩; exact ⟨rfl, trivial⟩) rfl⟩
  | abort =>
      exact ⟨hm.quiet (.of_eq rfl rfl rfl), next (by rintro _ _ ⟨⟩) rfl⟩
  | ret =>
      exact ⟨hm.quiet (.of_eq rfl rfl rfl), next (by rintro _ _ ⟨⟩) rfl⟩

/-! ### The invariant -/

/-- Exclusive pagers, memory that is shared by nobody, and what the pager relies on at each of its
statements; the page-table entries of a live process name its own pages. -/
structure Iso (s : VM n) : Prop where
  excl : s.Excl
  mem : s.MemInv
  crit : ∀ q a p pc, s.proc q = some ⟨a, .pager p pc⟩ → s.Crit a p pc
  live : ∀ q a c, s.proc q = some ⟨a, c⟩ → c ≠ .dying →
    ∀ p, (s.pgTbl (a, p)).entryHI = entryHI (a, p)

theorem flashPerform_mem {d : Asid} {status : Word} {junk : Page}
    (h : s.flashPerform d status junk = some t) :
    t.pgTbl = s.pgTbl ∧ t.tlb = s.tlb ∧ t.swapPool = s.swapPool := by
  obtain ⟨fl, fr, rfl⟩ := flashPerform_frame h
  exact ⟨rfl, rfl, rfl⟩

/-- The `EntryHi` of a page-table entry, once right, stays right. -/
theorem Stmt.hi {pc : PagerPc} {r : PageId} (h : Stmt s q a p pc t)
    (hr : (s.pgTbl r).entryHI = entryHI r) : (t.pgTbl r).entryHI = entryHI r := by
  have upd : ∀ (r' : PageId) (w : PteEntry), w.entryHI = (s.pgTbl r').entryHI →
      (Function.update s.pgTbl r' w r).entryHI = entryHI r := by
    intro r' w hw
    by_cases hrr : r = r'
    · subst hrr; rw [Function.update_self, hw, hr]
    · rw [Function.update_of_ne hrr, hr]
  cases h with
  | @evict k old => exact upd old.sw_pte _ rfl
  | validate => exact upd (a, p) _ rfl
  | _ => exact hr

/-- A step keeps the `EntryHi` of a page-table entry right. -/
theorem Step.hi {r : PageId} (h : Step s e t) (hr : (s.pgTbl r).entryHI = entryHI r) :
    (t.pgTbl r).entryHI = entryHI r := by
  cases h with
  | initPte r' =>
      by_cases hrr : r = r'
      · subst hrr
        show (Function.update s.pgTbl r _ r).entryHI = _
        rw [Function.update_self]
      · show (Function.update s.pgTbl r' _ r).entryHI = _
        rw [Function.update_of_ne hrr, hr]
  | pager _ _ h => exact h.hi hr
  | flashDone _ _ h => rw [← hr]; exact congrArg (fun f => (f r).entryHI) (flashPerform_mem h).1
  | _ => exact hr

/-- A process that is alive and not dying after a step was so before, or was just created. -/
theorem Control.live {c : Ctl} (h : Control s t) (hq : t.proc q = some ⟨a, c⟩) (hc : c ≠ .dying) :
    (∃ c', s.proc q = some ⟨a, c'⟩ ∧ c' ≠ .dying) ∨ s.Launchable a := by
  have upd : ∀ {q' pr'}, t.proc = Function.update s.proc q' pr' →
      (q = q' ∧ pr' = some ⟨a, c⟩) ∨ s.proc q = some ⟨a, c⟩ :=
    fun hp => (proc_update hp hq).symm.imp_right And.right
  cases h with
  | same hp => exact .inl ⟨c, hp ▸ hq, hc⟩
  | create b hl hp =>
      rcases upd hp with ⟨-, hpr⟩ | hs
      · cases hpr; exact .inr hl
      · exact .inl ⟨c, hs, hc⟩
  | move q' b c₁ c' hq' hc₁ _ _ hp =>
      rcases upd hp with ⟨rfl, hpr⟩ | hs
      · cases hpr; exact .inl ⟨c₁, hq', hc₁⟩
      · exact .inl ⟨c, hs, hc⟩
  | enter q' b p hq' hp =>
      rcases upd hp with ⟨rfl, hpr⟩ | hs
      · cases hpr; exact .inl ⟨_, hq', by simp⟩
      · exact .inl ⟨c, hs, hc⟩
  | leave q' b p pc c' hq' _ _ _ hp =>
      rcases upd hp with ⟨rfl, hpr⟩ | hs
      · cases hpr; exact .inl ⟨_, hq', by simp⟩
      · exact .inl ⟨c, hs, hc⟩
  | exit q' b hq' hp =>
      rcases upd hp with ⟨-, hpr⟩ | hs
      · cases hpr
      · exact .inl ⟨c, hs, hc⟩

/-- Statements of two processes: `q` steps, `q'` keeps what it knows. -/
theorem Iso.crit_other (h : s.Iso) {pc pc' : PagerPc} (hst : Stmt s q a p pc t)
    (hq : s.proc q = some ⟨a, .pager p pc⟩) (hb : ¬ s.blocked q)
    (hq' : s.proc q' = some ⟨a', .pager p' pc'⟩) (hne : q' ≠ q) : t.Crit a' p' pc' := by
  cases hin : pc.inside with
  | false => exact (h.crit _ _ _ _ hq').quiet (hst.quiet hin)
  | true =>
      cases hin' : pc'.inside with
      | false => cases pc' <;> trivial
      | true =>
          rw [h.excl.others hq hin (fun hm => hb (.inl hm)) hq' hin' hne]
          trivial

/-- A step that is not a statement of the pager keeps what every process inside knows. -/
theorem Iso.quiet (h : s.Iso) (hs : Step s e t) (ht : Quiet s t)
    (hnew : ∀ q a p pc, t.proc q = some ⟨a, .pager p pc⟩ →
      s.proc q = some ⟨a, .pager p pc⟩ ∨ t.Crit a p pc) : t.Iso where
  excl := h.excl.step hs
  mem := h.mem.quiet ht
  crit q a p pc hq := (hnew q a p pc hq).elim (fun hq => (h.crit q a p pc hq).quiet ht) id
  live q a c hq hc p := by
    rcases hs.control.live hq hc with ⟨c', hq', hc'⟩ | hl
    · exact hs.hi (h.live q a c' hq' hc' p)
    · exact hs.hi (hl.1 p)

/-- **Isolation, one step.** -/
theorem Iso.step (h : s.Iso) (hs : Step s e t) : t.Iso := by
  -- only the process that moves has a new statement to answer for
  have fresh : ∀ {i : Pid} {pr' : Option Proc} {u : VM n},
      u.proc = Function.update s.proc i pr' →
      (∀ a p pc, pr' = some ⟨a, .pager p pc⟩ → u.Crit a p pc) →
      ∀ q a p pc, u.proc q = some ⟨a, .pager p pc⟩ →
        s.proc q = some ⟨a, .pager p pc⟩ ∨ u.Crit a p pc := by
    intro i pr' u hp hcr q a p pc hq
    exact (proc_update hp hq).imp And.right fun ⟨_, hpr⟩ => hcr a p pc hpr
  have hs₀ := hs
  cases hs with
  | initPte r =>
      exact h.quiet hs₀ (.setPte (r := r) rfl rfl rfl (.inr rfl) translate_dirtyOn)
        fun _ _ _ _ hq => .inl hq
  | create =>
      exact h.quiet hs₀ (.of_eq rfl rfl rfl) (fresh (i := s.nextPid) rfl (by rintro _ _ _ ⟨⟩))
  | load => exact h
  | store => exact h.quiet hs₀ (.of_eq rfl rfl rfl) fun _ _ _ _ hq => .inl hq
  | @refill q a entryHi slot w hq he hm =>
      obtain ⟨p, -, rfl⟩ := Option.map_eq_some_iff.mp he
      exact h.quiet hs₀ (.refill (r := (a, p)) rfl rfl rfl hm) fun _ _ _ _ hq => .inl hq
  | faultMod => exact h.quiet hs₀ (.of_eq rfl rfl rfl) (fresh rfl (by rintro _ _ _ ⟨⟩))
  | fault =>
      exact h.quiet hs₀ (.of_eq rfl rfl rfl) (fresh rfl (by rintro _ _ _ ⟨⟩; trivial))
  | @pager q a p pc t hq hb hst =>
      obtain ⟨hm, hown⟩ := hst.mem h.mem (h.crit q a p pc hq) (h.live q a _ hq (by simp) p)
      refine ⟨h.excl.step hs₀, hm, fun q' a' p' pc' hq' => ?_, fun q' a' c hq' hc p' => ?_⟩
      · obtain ⟨c, hp, -⟩ := hst.proc
        rcases proc_update hp hq' with ⟨hne, hq'⟩ | ⟨rfl, hc⟩
        · exact h.crit_other hst hq hb hq' hne
        · cases hc
          obtain ⟨rfl, hcr⟩ := hown p' pc' hq'
          exact hcr
      · rcases hs₀.control.live hq' hc with ⟨c', hq₁, hc₁⟩ | hl
        · exact hs₀.hi (h.live q' a' c' hq₁ hc₁ p')
        · exact hs₀.hi (hl.1 p')
  | @flashDone q a p _ _ _ _ here _ status _ u c hq hf =>
      obtain ⟨hp, ht, hw⟩ := flashPerform_mem hf
      have hqt : Quiet s (u.goto q a (.pager p (here (.release status)))) := .of_eq hp ht hw
      have hproc := flashPerform_goto (q := q) (a := a) (c := .pager p (here (.release status))) hf
      refine h.quiet hs₀ hqt (fresh hproc ?_)
      · rintro _ _ _ ⟨⟩
        exact (c.crit (h.crit _ _ _ _ hq)).1.quiet hqt
  | die => exact h.quiet hs₀ (.of_eq rfl rfl rfl) (fresh rfl (by rintro _ _ _ ⟨⟩))
  | exit => exact h.quiet hs₀ (.of_eq rfl rfl rfl) (fresh rfl (by rintro _ _ _ ⟨⟩))

/-- **Isolation at the start.** -/
theorem Iso.boot (flash : PageId → Page) (frame : FrameNo → Page) (reg : Asid → FlashReg) :
    (VM.boot flash frame reg : VM n).Iso where
  excl := ⟨fun _ _ => rfl, .free (by rintro q ⟨_, h, _⟩; cases h), by simp [VM.boot],
    by rintro _ _ _ _ _ ⟨⟩⟩
  mem :=
    { unique := Tlb.unique_empty
      desc := by rintro _ _ ⟨⟩
      pte := fun r k hk => absurd hk (by simp [VM.boot, translate])
      tlb := by rintro _ _ _ _ ⟨⟩ }
  crit := by rintro _ _ _ _ ⟨⟩
  live := by rintro _ _ _ ⟨⟩

end PandOS.VM
