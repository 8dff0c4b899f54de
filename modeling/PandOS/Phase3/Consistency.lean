import PandOS.Phase3.Isolation

/-!
# Phase 3 — the swap pool records what is mapped

Under `VM.Careful` every descriptor names a page mapped to its frame, but for the frame a pager
has taken and not yet mapped (`VM.Busy`).  `Careful` is a condition on a step: `initPageTable`
rewrites no entry a descriptor names; the pager is entered for an invalid page (or ends on
`EXC_MOD`); a flash operation fails only while it loads a page into a frame that was free.  The
pager's own page stays invalid until it is mapped (`VM.Want`): no other process of its ASID runs, so
only it can map the page.

`VM.Tidy.step` is the step lemma and `VM.Tidy.settled` what it says when no pager is inside.
-/

namespace PandOS.VM

variable {n : ℕ} {s t : VM n} {e : VmEvent n} {q q' : Pid} {a a' : Asid} {p p' : PageNo}
  {k : FrameNo}

/-! ### The condition -/

/-- `q` waits for a page to be read into a frame that has no descriptor. -/
def LoadsFree (s : VM n) (q : Pid) : Prop :=
  ∃ a p k, s.proc q = some ⟨a, .pager p (.read k .busy)⟩ ∧ s.swapPool k = none

/-- No frame descriptor names `r`. -/
def Unnamed (s : VM n) (r : PageId) : Prop := ∀ k, ∀ d ∈ s.swapPool k, d.page ≠ r

/-- The faulting page of `q` has V = 0. -/
def FaultInvalid (s : VM n) (q : Pid) (entryHi : Word) : Prop :=
  ∀ pr ∈ s.proc q, ∀ p ∈ pageOf entryHi, (s.pgTbl (pr.asid, p)).entryLO &&& validOn = 0

/-- The steps after which the frame descriptors still tell the truth: `initPageTable` writes no entry
a descriptor names, no fault but TLB-Mod is at a page that is present, and no flash command fails
but a read into a frame that was free. -/
def Careful (s : VM n) : VmEvent n → Prop
  | .initPte r => s.Unnamed r
  | .fault q entryHi cause => cause &&& causeExcCodeMask = excMod ∨ s.FaultInvalid q entryHi
  | .flashDone q status _ => status = flashReady ∨ s.LoadsFree q
  | _ => True

/-! ### Frames in the pager's hands -/

/-- The frame a pager has taken and not yet mapped. -/
def PagerPc.taken : PagerPc → Option FrameNo
  | .flush k _ | .write k _ _ | .read k _ | .record k | .validate k => some k
  | _ => none

/-- A pager has taken the frame. -/
def Busy (s : VM n) (k : FrameNo) : Prop :=
  ∃ q a p pc, s.proc q = some ⟨a, .pager p pc⟩ ∧ PagerPc.taken pc = some k

/-- Page `r` has V = 0. -/
def Invalid (s : VM n) (r : PageId) : Prop := translate (s.pgTbl r).entryLO = none

/-- What the pager of ASID `a` for page `p` relies on at each statement. -/
def Want (s : VM n) (a : Asid) (p : PageNo) : PagerPc → Prop
  | .enter | .select | .evict _ | .validate _ => s.Invalid (a, p)
  | .flush _ old => s.Invalid (a, p) ∧ old.page ≠ (a, p)
  | .write _ old pc => s.Invalid (a, p) ∧ old.page ≠ (a, p) ∧
      ∀ status, pc = .release status → status = flashReady
  | .read k pc => s.Invalid (a, p) ∧ (∀ d ∈ s.swapPool k, d.page ≠ (a, p)) ∧
      ∀ status, pc = .release status → status = flashReady ∨ s.swapPool k = none
  | .record k => s.Invalid (a, p) ∧ ∀ d ∈ s.swapPool k, d.page ≠ (a, p)
  | _ => True

/-- The swap pool and the page tables of a careful run. -/
structure Tidy (s : VM n) : Prop where
  iso : s.Iso
  form : ∀ r, (s.pgTbl r).entryLO &&& validOn ≠ 0 → ∃ k, (s.pgTbl r).entryLO = mapped k
  named : ∀ k d, s.swapPool k = some d →
    (s.pgTbl d.page).entryLO = mapped k ∨ (s.Invalid d.page ∧ s.Busy k)
  want : ∀ q a p pc, s.proc q = some ⟨a, .pager p pc⟩ → s.Want a p pc

theorem taken_inside {pc : PagerPc} (h : PagerPc.taken pc = some k) :
    pc.inside ∧ pc ≠ .select := by
  cases pc with
  | flush | write | read | record | validate => exact ⟨rfl, by simp⟩
  | _ => cases h

/-- While `q` is past `select` and inside, the only frame taken is its own. -/
theorem Iso.busy (h : s.Iso) {pc : PagerPc} (hq : s.proc q = some ⟨a, .pager p pc⟩)
    (hin : pc.inside) (hpc : pc ≠ .select) (hk : s.Busy k) : PagerPc.taken pc = some k := by
  obtain ⟨q', a', p', pc', hq', hpc'⟩ := hk
  obtain ⟨hin', hne'⟩ := taken_inside hpc'
  obtain rfl := h.excl.only hq hq' hin hin' hpc hne'
  rw [hq] at hq'
  cases hq'
  exact hpc'

/-- A frame stays taken while its pager does not move, and when it moves to a statement that has
the frame too. -/
theorem Busy.update {pr : Proc} {x : Option Proc} (hk : s.Busy k) (hq : s.proc q = some pr)
    (hp : t.proc = Function.update s.proc q x)
    (hkeep : ∀ a p pc, pr = ⟨a, .pager p pc⟩ → PagerPc.taken pc = some k →
      ∃ a p pc, x = some ⟨a, .pager p pc⟩ ∧ PagerPc.taken pc = some k) : t.Busy k := by
  obtain ⟨j, b, r, pc, hj, hpc⟩ := hk
  by_cases hjq : j = q
  · subst hjq
    rw [hq] at hj
    cases hj
    obtain ⟨b', r', pc', hpr, hpc'⟩ := hkeep _ _ _ rfl hpc
    exact ⟨j, b', r', pc', by rw [hp, Function.update_self, hpr], hpc'⟩
  · exact ⟨j, b, r, pc, by rw [hp, Function.update_of_ne hjq, hj], hpc⟩

theorem Busy.congr (hp : t.proc = s.proc) (hk : s.Busy k) : t.Busy k := by
  rwa [Busy, hp]

/-- A recorded frame nobody has taken is mapped. -/
theorem Tidy.mapped (h : s.Tidy) {d : Swap} (hd : s.swapPool k = some d) (hk : ¬ s.Busy k) :
    (s.pgTbl d.page).entryLO = mapped k :=
  (h.named k d hd).resolve_right fun hb => hk hb.2

/-- A page is recorded once. -/
theorem Tidy.once (h : s.Tidy) {k' : FrameNo} {d d' : Swap} (hd : s.swapPool k = some d)
    (hd' : s.swapPool k' = some d') (hr : d.page = d'.page) : k = k' := by
  rcases h.named k d hd with hm | ⟨hi, hb⟩ <;> rcases h.named k' d' hd' with hm' | ⟨hi', hb'⟩
  · exact mapped_injective (hm.symm.trans (hr ▸ hm'))
  · rw [Invalid, ← hr, hm, translate_mapped] at hi'; cases hi'
  · rw [Invalid, hr, hm', translate_mapped] at hi; cases hi
  · obtain ⟨q, a, p, pc, hq, hpc⟩ := hb
    have := h.iso.busy hq (taken_inside hpc).1 (taken_inside hpc).2 hb'
    exact Option.some.inj (hpc.symm.trans this)

/-- A page that is invalid is recorded only by a frame its pager has taken. -/
theorem Tidy.busy_of_invalid (h : s.Tidy) {d : Swap} (hd : s.swapPool k = some d)
    (hi : s.Invalid d.page) : s.Busy k := by
  rcases h.named k d hd with hm | ⟨-, hb⟩
  · rw [Invalid, hm, translate_mapped] at hi; cases hi
  · exact hb

/-! ### Frame lemmas -/

theorem Want.mono {pc : PagerPc} (h : s.Want a p pc) (hi : s.Invalid (a, p) → t.Invalid (a, p))
    (hw : t.swapPool = s.swapPool) : t.Want a p pc := by
  cases pc with
  | enter => exact hi h
  | select => exact hi h
  | evict k => exact hi h
  | flush k old => exact ⟨hi h.1, h.2⟩
  | write k old pc => exact ⟨hi h.1, h.2⟩
  | read k pc => exact ⟨hi h.1, hw ▸ h.2⟩
  | record k => exact ⟨hi h.1, hw ▸ h.2⟩
  | validate k => exact hi h
  | _ => trivial

theorem Invalid.quiet {r : PageId} (h : s.Invalid r) (ht : Quiet s t) : t.Invalid r :=
  invalid_quiet h ht

theorem form_update {r : PageId} {w : PteEntry} (hp : t.pgTbl = Function.update s.pgTbl r w)
    (hw : w.entryLO &&& validOn ≠ 0 → ∃ k, w.entryLO = PandOS.mapped k)
    (h : ∀ r, (s.pgTbl r).entryLO &&& validOn ≠ 0 → ∃ k, (s.pgTbl r).entryLO = PandOS.mapped k) :
    ∀ r, (t.pgTbl r).entryLO &&& validOn ≠ 0 → ∃ k, (t.pgTbl r).entryLO = PandOS.mapped k := by
  intro r' hr'
  rw [hp] at hr' ⊢
  by_cases hr : r' = r
  · subst hr
    rw [Function.update_self] at hr' ⊢
    exact hw hr'
  · rw [Function.update_of_ne hr] at hr' ⊢
    exact h r' hr'

theorem clear_valid (lo : Word) : lo &&& ~~~validOn &&& validOn = 0 := by
  rw [BitVec.and_assoc]
  simp

/-- A step that leaves the tables alone keeps them tidy, if the frames taken stay so. -/
theorem Tidy.control (h : s.Tidy) (hs : Step s e t) (hp : t.pgTbl = s.pgTbl)
    (hw : t.swapPool = s.swapPool) (hb : ∀ k, s.swapPool k ≠ none → s.Busy k → t.Busy k)
    (hnew : ∀ q a p pc, t.proc q = some ⟨a, .pager p pc⟩ →
      s.proc q = some ⟨a, .pager p pc⟩ ∨ t.Want a p pc) : t.Tidy where
  iso := h.iso.step hs
  form := by rw [hp]; exact h.form
  named k d hd := by
    rw [hw] at hd
    rw [Invalid, hp]
    exact (h.named k d hd).imp_right fun ⟨hi, hk⟩ => ⟨hi, hb k (by simp [hd]) hk⟩
  want q a p pc hq :=
    (hnew q a p pc hq).elim
      (fun hq => (h.want q a p pc hq).mono (by rw [Invalid, Invalid, hp]; exact id) hw) id

/-! ### The statements of the pager -/

/-- What the other processes rely on survives a statement of `q`: nobody else of its ASID runs,
so the page `q` maps is none of theirs. -/
theorem Tidy.want_other (h : s.Tidy) {pc pc' : PagerPc} (hst : Stmt s q a p pc t)
    (hq : s.proc q = some ⟨a, .pager p pc⟩) (hb : ¬ s.blocked q)
    (hq' : s.proc q' = some ⟨a', .pager p' pc'⟩) (hne : q' ≠ q) : t.Want a' p' pc' := by
  have hasid : (a', p') ≠ (a, p) := by
    rintro ⟨⟩
    exact hne (h.iso.excl.asid _ _ _ _ _ hq' hq (by simp) (by simp))
  have hinv : s.Invalid (a', p') → t.Invalid (a', p') := by
    intro hi
    cases hst with
    | @evict k old =>
        exact hi.quiet (.setPte (r := old.sw_pte) rfl rfl rfl (.inl rfl) (translate_clear _))
    | validate =>
        show translate (Function.update s.pgTbl (a, p) _ (a', p')).entryLO = none
        rw [Function.update_of_ne hasid]
        exact hi
    | _ => exact hi
  cases hin : pc.inside with
  | false => exact (h.want _ _ _ _ hq').mono hinv (hst.quiet hin).pool
  | true =>
      cases hin' : pc'.inside with
      | false =>
          cases pc' with
          | enter => exact hinv (h.want _ _ _ _ hq')
          | ret => trivial
          | _ => cases hin'
      | true =>
          rw [h.iso.excl.others hq hin (fun hm => hb (.inl hm)) hq' hin' hne]
          refine hinv ?_
          have := h.want _ _ _ _ hq'
          rwa [h.iso.excl.others hq hin (fun hm => hb (.inl hm)) hq' hin' hne] at this

theorem Call.want {d b rw here next} (c : Call a p d b k rw here next) {pc : FlashPc}
    (h : s.Want a p (here pc)) {pc' : FlashPc} (hpc' : ∀ status, pc' ≠ .release status) :
    s.Want a p (here pc') := by
  cases c with
  | write k old => exact ⟨h.1, h.2.1, fun st hst => absurd hst (hpc' st)⟩
  | read k => exact ⟨h.1, h.2.1, fun st hst => absurd hst (hpc' st)⟩

theorem Call.taken {d b rw here next} (c : Call a p d b k rw here next) (pc : FlashPc) :
    PagerPc.taken (here pc) = some k ∧ PagerPc.taken next = some k := by
  cases c <;> exact ⟨rfl, rfl⟩

/-- A call holds the same frame from its first statement to its last. -/
theorem Call.hold {d b rw here next} (c : Call a p d b k rw here next) {pc pc' : FlashPc}
    {j : FrameNo} (h : PagerPc.taken (here pc) = some j) : PagerPc.taken (here pc') = some j :=
  (c.taken pc').1.trans ((c.taken pc).1.symm.trans h)

/-- A statement that leaves the tables alone: its own process goes on with what it needs, and
keeps its frame if the frame is recorded. -/
theorem Tidy.move (h : s.Tidy) {pc : PagerPc} {c : Ctl} (hst : Stmt s q a p pc t)
    (hq : s.proc q = some ⟨a, .pager p pc⟩) (hb : ¬ s.blocked q) (hp : t.pgTbl = s.pgTbl)
    (hw : t.swapPool = s.swapPool) (hproc : t.proc = Function.update s.proc q (some ⟨a, c⟩))
    (htaken : ∀ k, s.swapPool k ≠ none → PagerPc.taken pc = some k →
      ∃ p' pc', c = .pager p' pc' ∧ PagerPc.taken pc' = some k)
    (hwant : ∀ pc', c = .pager p pc' → s.Want a p pc') : t.Tidy := by
  refine h.control (.pager hq hb hst) hp hw (fun k hk hbk => ?_) fun j b r pc' hj => ?_
  · refine hbk.update hq hproc ?_
    rintro _ _ _ ⟨⟩ hpc
    obtain ⟨p', pc', rfl, hpc'⟩ := htaken k hk hpc
    exact ⟨a, p', pc', rfl, hpc'⟩
  · rcases proc_update hproc hj with ⟨-, hj⟩ | ⟨rfl, hc⟩
    · exact .inl hj
    · obtain ⟨c', hc', hpage⟩ := hst.proc
      have hcc : c' = c := by
        have := congrFun (hproc.symm.trans hc') j
        rw [Function.update_self, Function.update_self] at this
        cases this
        rfl
      subst hcc
      cases hc
      obtain rfl := hpage _ _ rfl
      exact .inr ((hwant pc' rfl).mono (by rw [Invalid, Invalid, hp]; exact id) hw)

/-- **The statements of the pager** keep a careful run tidy. -/
theorem Tidy.stmt (h : s.Tidy) {pc : PagerPc} (hst : Stmt s q a p pc t)
    (hq : s.proc q = some ⟨a, .pager p pc⟩) (hb : ¬ s.blocked q) : t.Tidy := by
  have hwant := h.want q a p pc hq
  have hcrit := h.iso.crit q a p pc hq
  have hs : Step s (.pager q) t := .pager hq hb hst
  have other : ∀ q' a' p' pc', q' ≠ q → s.proc q' = some ⟨a', .pager p' pc'⟩ → t.Want a' p' pc' :=
    fun q' a' p' pc' hne hq' => h.want_other hst hq hb hq' hne
  have hst₀ := hst
  cases hst with
  | enter =>
      refine h.move hst₀ hq hb rfl rfl rfl (by rintro _ _ ⟨⟩) ?_
      rintro _ ⟨⟩
      exact hwant
  | select =>
      refine h.move hst₀ hq hb rfl rfl rfl (by rintro _ _ ⟨⟩) ?_
      rintro _ ⟨⟩
      exact hwant
  | @evict k old hk =>
      -- no frame is taken, so both `old` and any other descriptor are mapped
      have hnb : ∀ k', ¬ s.Busy k' := fun k' hb' => by
        cases h.iso.busy hq rfl (by simp) hb'
      have hpte := (h.iso.mem.desc k old hk).1
      have hold : old.page ≠ (a, p) := by
        intro he
        have hm := h.mapped hk (hnb k)
        rw [he] at hm
        have hi : translate (s.pgTbl (a, p)).entryLO = none := hwant
        rw [hm, translate_mapped] at hi
        cases hi
      have hqt : Quiet s ((s.invalidate old.sw_pte).goto q a (.pager p (.flush k old))) :=
        .setPte (r := old.sw_pte) rfl rfl rfl (.inl rfl) (translate_clear _)
      have hinv : translate (s.pgTbl (a, p)).entryLO = none := hwant
      refine ⟨h.iso.step hs, ?_, fun k' d hd => ?_, fun q' a' p' pc' hq' => ?_⟩
      · refine form_update (r := old.sw_pte) rfl (fun hv => absurd (clear_valid _) hv) h.form
      · by_cases hkk : k' = k
        · subst hkk
          cases hk.symm.trans hd
          have hcr : Crit _ a p (.flush k' old) := crit_evict h.iso.mem hk rfl rfl
          exact .inr ⟨hcr.2, q, a, p, _, Function.update_self .., rfl⟩
        · have hne : d.page ≠ old.page := fun hr => hkk (h.once hd hk hr)
          left
          show (Function.update s.pgTbl old.sw_pte _ d.page).entryLO = _
          rw [hpte, Function.update_of_ne hne]
          exact h.mapped hd (hnb k')
      · rcases proc_update (q := q) rfl hq' with ⟨hne, hq'⟩ | ⟨rfl, hc⟩
        · exact other q' a' p' pc' hne hq'
        · cases hc
          exact ⟨invalid_quiet hinv hqt, hold⟩
  | @vacant k hk =>
      refine h.move hst₀ hq hb rfl rfl rfl (by rintro _ _ ⟨⟩) ?_
      rintro _ ⟨⟩
      exact ⟨hwant, by simp [hk], by rintro _ ⟨⟩⟩
  | @flush k old =>
      refine h.move hst₀ hq hb rfl rfl rfl ?_ ?_
      · rintro _ - ⟨⟩; exact ⟨_, _, rfl, rfl⟩
      · rintro _ ⟨⟩; exact ⟨hwant.1, hwant.2, by rintro _ ⟨⟩⟩
  | acquire c =>
      refine h.move hst₀ hq hb rfl rfl rfl ?_ ?_
      · rintro _ - hk
        exact ⟨_, _, rfl, c.hold hk⟩
      · rintro _ ⟨⟩; exact c.want hwant (by simp)
  | data0 c =>
      refine h.move hst₀ hq hb rfl rfl rfl ?_ ?_
      · rintro _ - hk
        exact ⟨_, _, rfl, c.hold hk⟩
      · rintro _ ⟨⟩; exact c.want hwant (by simp)
  | command c =>
      refine h.move hst₀ hq hb rfl rfl rfl ?_ ?_
      · rintro _ - hk
        exact ⟨_, _, rfl, c.hold hk⟩
      · rintro _ ⟨⟩; exact c.want hwant (by simp)
  | @release d b k rw here next status c =>
      cases c with
      | write k old =>
          obtain rfl : status = flashReady := hwant.2.2 status rfl
          refine h.move hst₀ hq hb rfl rfl rfl ?_ ?_
          · rintro _ - ⟨⟩; exact ⟨_, _, rfl, rfl⟩
          · rintro _ ⟨⟩
            refine ⟨hwant.1, fun d hd => ?_, by rintro _ ⟨⟩⟩
            rw [Option.mem_def, hcrit.1] at hd
            cases hd
            exact hwant.2.1
      | read k =>
          by_cases hr : status = flashReady
          · subst hr
            refine h.move hst₀ hq hb rfl rfl rfl ?_ ?_
            · rintro _ - ⟨⟩; exact ⟨_, _, rfl, rfl⟩
            · rintro _ ⟨⟩; exact ⟨hwant.1, hwant.2.1⟩
          · have hfree := (hwant.2.2 status rfl).resolve_left hr
            refine h.move hst₀ hq hb rfl rfl rfl ?_ ?_
            · rintro _ hk ⟨⟩; exact absurd hfree hk
            · rintro _ hc
              rw [if_neg hr] at hc
              cases hc
              trivial
  | @record k =>
      have hk' : ∀ k', k' ≠ k → ¬ s.Busy k' := fun k' hne hb' =>
        hne (Option.some.inj (h.iso.busy hq rfl (by simp) hb')).symm
      refine ⟨h.iso.step hs, h.form, fun k' d hd => ?_, fun q' a' p' pc' hq' => ?_⟩
      · by_cases hkk : k' = k
        · subst hkk
          cases (Function.update_self ..).symm.trans hd
          exact .inr ⟨hwant.1, q, a, p, _, Function.update_self .., rfl⟩
        · have hd' : s.swapPool k' = some d := (Function.update_of_ne hkk ..).symm.trans hd
          exact .inl (h.mapped hd' (hk' k' hkk))
      · rcases proc_update (q := q) rfl hq' with ⟨hne, hq'⟩ | ⟨rfl, hc⟩
        · exact other q' a' p' pc' hne hq'
        · cases hc
          exact hwant.1
  | @validate k =>
      have hk' : ∀ k', k' ≠ k → ¬ s.Busy k' := fun k' hne hb' =>
        hne (Option.some.inj (h.iso.busy hq rfl (by simp) hb')).symm
      refine ⟨h.iso.step hs, ?_, fun k' d hd => ?_, fun q' a' p' pc' hq' => ?_⟩
      · exact form_update (r := (a, p)) rfl (fun _ => ⟨k, rfl⟩) h.form
      · left
        show (Function.update s.pgTbl (a, p) _ d.page).entryLO = _
        by_cases hkk : k' = k
        · subst hkk
          cases hcrit.symm.trans hd
          exact congrArg PteEntry.entryLO (Function.update_self (a, p) _ s.pgTbl)
        · have hne : d.page ≠ (a, p) := fun hr => by
            refine hk' k' hkk (h.busy_of_invalid hd ?_)
            rw [hr]
            exact hwant
          rw [Function.update_of_ne hne]
          exact h.mapped hd (hk' k' hkk)
      · rcases proc_update (q := q) rfl hq' with ⟨hne, hq'⟩ | ⟨rfl, hc⟩
        · exact other q' a' p' pc' hne hq'
        · cases hc
          trivial
  | update =>
      refine h.move hst₀ hq hb rfl rfl rfl (by rintro _ _ ⟨⟩) ?_
      rintro _ ⟨⟩
      trivial
  | leave =>
      refine h.move hst₀ hq hb rfl rfl rfl (by rintro _ _ ⟨⟩) ?_
      rintro _ ⟨⟩
      trivial
  | abort => exact h.move hst₀ hq hb rfl rfl rfl (by rintro _ _ ⟨⟩) (by rintro _ ⟨⟩)
  | ret => exact h.move hst₀ hq hb rfl rfl rfl (by rintro _ _ ⟨⟩) (by rintro _ ⟨⟩)

/-! ### One step, and the state between pagers -/

theorem translate_of_clear {lo : Word} (h : lo &&& validOn = 0) : translate lo = none :=
  if_pos h

/-- **The step lemma.** -/
theorem Tidy.step (h : s.Tidy) (hs : Step s e t) (hc : s.Careful e) : t.Tidy := by
  have moved : ∀ {q : Pid} {pr : Proc} {c : Ctl} {u : VM n}, s.proc q = some pr →
      u.proc = Function.update s.proc q (some ⟨pr.asid, c⟩) →
      (∀ p pc, pr.ctl = .pager p pc → PagerPc.taken pc = none) →
      ∀ k, s.swapPool k ≠ none → s.Busy k → u.Busy k := by
    intro q pr c u hq hp hnt k _ hk
    refine hk.update hq hp ?_
    rintro a p pc rfl hpc
    rw [hnt p pc rfl] at hpc
    cases hpc
  -- nothing is asked of a process that is not in the pager
  have outside : ∀ {q : Pid} {x : Option Proc} {u : VM n}, u.proc = Function.update s.proc q x →
      (∀ b r pc, x ≠ some ⟨b, .pager r pc⟩) → ∀ j b r pc, u.proc j = some ⟨b, .pager r pc⟩ →
      s.proc j = some ⟨b, .pager r pc⟩ ∨ u.Want b r pc := by
    intro q x u hp hx j b r pc hj
    rcases proc_update hp hj with ⟨-, hj⟩ | ⟨-, hpr⟩
    · exact .inl hj
    · exact absurd hpr (hx b r pc)
  have hs₀ := hs
  cases hs with
  | initPte r =>
      refine ⟨h.iso.step hs₀, form_update (r := r) rfl ?_ h.form, fun k d hd => ?_,
        fun q a p pc hq => ?_⟩
      · exact fun hv => absurd (by decide : dirtyOn &&& validOn = 0) hv
      · have hne : d.page ≠ r := hc k d hd
        have he : ((s.initPte r).pgTbl d.page) = s.pgTbl d.page := Function.update_of_ne hne ..
        rw [Invalid, he]
        exact h.named k d hd
      · exact (h.want q a p pc hq).mono
          (fun hi => hi.quiet (.setPte (r := r) rfl rfl rfl (.inr rfl) translate_dirtyOn)) rfl
  | create =>
      refine h.control hs₀ rfl rfl (fun k _ hk => ?_) fun q a p pc hq => ?_
      · obtain ⟨j, b, r, pc, hj, hpc⟩ := hk
        refine ⟨j, b, r, pc, ?_, hpc⟩
        have hne : j ≠ s.nextPid := h.iso.excl.ne_next hj
        exact (Function.update_of_ne hne ..).trans hj
      · exact outside rfl (by rintro _ _ _ ⟨⟩) q a p pc hq
  | load => exact h
  | store => exact h.control hs₀ rfl rfl (fun _ _ hk => hk.congr rfl) fun _ _ _ _ hq => .inl hq
  | refill => exact h.control hs₀ rfl rfl (fun _ _ hk => hk.congr rfl) fun _ _ _ _ hq => .inl hq
  | @faultMod q a _ _ hq =>
      exact h.control hs₀ rfl rfl (moved hq rfl (by rintro _ _ ⟨⟩))
        (outside rfl (by rintro _ _ _ ⟨⟩))
  | @fault q a entryHi _ p hq hp hm =>
      refine h.control hs₀ rfl rfl (moved hq rfl (by rintro _ _ ⟨⟩)) fun j b r pc hj => ?_
      rcases proc_update (q := q) rfl hj with ⟨-, hj⟩ | ⟨-, hpr⟩
      · exact .inl hj
      · cases hpr
        exact .inr (translate_of_clear (hc.resolve_left hm ⟨a, .run⟩ hq p hp))
  | pager hq hb hst => exact h.stmt hst hq hb
  | @flashDone q a p d b k rw here next status _ u c hq hf =>
      obtain ⟨hp, -, hw⟩ := flashPerform_mem hf
      have hproc := flashPerform_goto (q := q) (a := a) (c := .pager p (here (.release status))) hf
      refine h.control hs₀ hp hw (fun k' _ hk' => ?_) fun j b' r pc hj => ?_
      · refine hk'.update hq hproc ?_
        rintro _ _ _ ⟨⟩ hpc
        exact ⟨a, p, _, rfl, c.hold hpc⟩
      · rcases proc_update hproc hj with ⟨-, hj⟩ | ⟨-, hpr⟩
        · exact .inl hj
        · cases hpr
          right
          have hwant := h.want _ _ _ _ hq
          refine Want.mono (s := s) ?_ (by rw [Invalid, Invalid]; exact fun hi => hp ▸ hi) hw
          -- a page that is evicted is written, or the missing page is read
          cases c with
          | write k old =>
              refine ⟨hwant.1, hwant.2.1, ?_⟩
              rintro _ ⟨⟩
              refine hc.resolve_right ?_
              rintro ⟨_, _, _, hq', -⟩
              rw [hq] at hq'
              cases hq'
          | read k =>
              refine ⟨hwant.1, hwant.2.1, ?_⟩
              rintro _ ⟨⟩
              refine hc.imp_right ?_
              rintro ⟨_, _, _, hq', hfree⟩
              rw [hq] at hq'
              cases hq'
              exact hfree
  | @die q a hq =>
      exact h.control hs₀ rfl rfl (moved hq rfl (by rintro _ _ ⟨⟩))
        (outside rfl (by rintro _ _ _ ⟨⟩))
  | @exit q a hq =>
      refine h.control hs₀ rfl rfl (fun k _ hk => ?_) (outside rfl (by rintro _ _ _ ⟨⟩))
      exact hk.update hq (x := none) rfl (by rintro _ _ _ ⟨⟩)

/-- **Between pagers** the swap pool records exactly what is mapped: a descriptor's page is
mapped to its frame, and a valid entry is recorded by its frame. -/
theorem Tidy.settled (h : s.Tidy) (hno : ∀ q, ¬ s.Inside q) :
    (∀ k d, s.swapPool k = some d → (s.pgTbl d.page).entryLO = PandOS.mapped k) ∧
      ∀ r, (s.pgTbl r).entryLO &&& validOn ≠ 0 → ∃ k d, s.swapPool k = some d ∧ d.page = r := by
  refine ⟨fun k d hd => h.mapped hd ?_, fun r hr => ?_⟩
  · rintro ⟨q, a, p, pc, hq, hpc⟩
    exact hno q ⟨_, hq, (taken_inside hpc).1⟩
  · obtain ⟨k, hk⟩ := h.form r hr
    obtain ⟨d, hd, hdr⟩ := h.iso.mem.pte r k (by rw [hk, translate_mapped])
    exact ⟨k, d, hd, hdr⟩

end PandOS.VM
