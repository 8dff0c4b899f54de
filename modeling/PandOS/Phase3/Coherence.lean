import PandOS.Phase3.Consistency

/-!
# Phase 3 — the TLB agrees with the page tables

A valid TLB entry is the entry of the page table, but for a page whose `updateTLBEntry` is still
to come (`VM.Pending`).  Two statements of the pager write a page table, and each is followed by
its `updateTLBEntry`; `initPageTable` is not, so coherence needs that no valid entry of the TLB is
for the page it rewrites (`VM.ColdInit`).  `VM.Coherent.step` is the step lemma.

An invalid TLB entry is for an invalid page on every run (`VM.Honest`), so a TLB exception raised
for an invalid entry enters the pager for an invalid page (`Honest.faultInvalid`).  `VM.Cold` is a
page just initialised: it stays so while no process of its ASID runs.
-/

namespace PandOS.VM

variable {n : ℕ} {s t : VM n} {e : VmEvent n} {q q' : Pid} {a a' : Asid} {p p' : PageNo}

/-! ### Pending updates -/

/-- The entry whose `updateTLBEntry` is the next statement. -/
def PagerPc.pending (a : Asid) (p : PageNo) : PagerPc → Option PageId
  | .flush _ old => some old.sw_pte
  | .update _ => some (a, p)
  | _ => none

/-- An `updateTLBEntry` is pending for the entry of `r`. -/
def Pending (s : VM n) (r : PageId) : Prop :=
  ∃ q a p pc, s.proc q = some ⟨a, .pager p pc⟩ ∧ PagerPc.pending a p pc = some r

/-- No valid TLB entry is for `r`. -/
def NotCached (s : VM n) (r : PageId) : Prop :=
  ∀ i lo, s.tlb i = some (entryHI r, lo) → lo &&& validOn = 0

/-- `initPageTable` rewrites no entry the TLB has a valid copy of. -/
def ColdInit (s : VM n) : VmEvent n → Prop
  | .initPte r => s.NotCached r
  | _ => True

/-- A valid TLB entry agrees with the page table, or its `updateTLBEntry` is the next statement. -/
structure Coherent (s : VM n) : Prop where
  iso : s.Iso
  agree : ∀ i r lo, s.tlb i = some (entryHI r, lo) → lo &&& validOn ≠ 0 →
    lo = (s.pgTbl r).entryLO ∨ s.Pending r

theorem Pending.update {r : PageId} {pr : Proc} {pr' : Option Proc} (h : s.Pending r)
    (hq : s.proc q = some pr) (hp : t.proc = Function.update s.proc q pr')
    (hn : ∀ a p pc, pr = ⟨a, .pager p pc⟩ → PagerPc.pending a p pc ≠ some r) : t.Pending r := by
  obtain ⟨j, b, p, pc, hj, hpc⟩ := h
  by_cases hjq : j = q
  · subst hjq
    rw [hq] at hj
    cases hj
    exact absurd hpc (hn _ _ _ rfl)
  · exact ⟨j, b, p, pc, by rw [hp, Function.update_of_ne hjq, hj], hpc⟩

/-! ### Steps -/

/-- A step that leaves page tables and TLB alone. -/
theorem Coherent.control (h : s.Coherent) (hs : Step s e t) (hp : t.pgTbl = s.pgTbl)
    (ht : t.tlb = s.tlb) (hpend : ∀ r, s.Pending r → t.Pending r) : t.Coherent where
  iso := h.iso.step hs
  agree i r lo hi hv := by
    rw [ht] at hi
    rw [hp]
    exact (h.agree i r lo hi hv).imp_right (hpend r)

/-- A page-table entry is written, and its `updateTLBEntry` becomes pending. -/
theorem Coherent.write (h : s.Coherent) (hs : Step s e t) {r : PageId} {w : PteEntry}
    (hp : t.pgTbl = Function.update s.pgTbl r w) (ht : t.tlb = s.tlb) (hr : t.Pending r)
    (hpend : ∀ r, s.Pending r → t.Pending r) : t.Coherent where
  iso := h.iso.step hs
  agree i r' lo hi hv := by
    rw [ht] at hi
    by_cases hrr : r' = r
    · exact .inr (hrr ▸ hr)
    · rw [hp, Function.update_of_ne hrr]
      exact (h.agree i r' lo hi hv).imp_right (hpend r')

/-- `updateTLBEntry`. -/
theorem Coherent.refresh (h : s.Coherent) (hs : Step s e t) {r : PageId}
    (hhi : (s.pgTbl r).entryHI = entryHI r) (hp : t.pgTbl = s.pgTbl)
    (ht : t.tlb = (s.updateTLBEntry r).tlb)
    (hpend : ∀ r', r' ≠ r → s.Pending r' → t.Pending r') : t.Coherent where
  iso := h.iso.step hs
  agree i r' lo hi hv := by
    rw [hp]
    rw [ht] at hi
    rcases Tlb.refresh_inv h.iso.mem.unique hi with ⟨hk, rfl⟩ | ⟨hne, hj⟩
    · obtain rfl : r' = r := entryHI_injective (hk.trans hhi)
      exact .inl rfl
    · have hrr : r' ≠ r := fun he => hne (by rw [he, hhi])
      exact (h.agree i r' lo hj hv).imp_right (hpend r' hrr)

theorem Call.pending {d b k rw here next} (c : Call a p d b k rw here next) (pc : FlashPc) :
    PagerPc.pending a p (here pc) = none := by
  cases c <;> rfl

theorem Call.not_update {d b k rw here next} (c : Call a p d b k rw here next) {pc : FlashPc}
    (k' : FrameNo) : here pc ≠ .update k' := by
  cases c <;> simp

/-- A statement of the pager keeps the TLB coherent. -/
theorem Stmt.coherent {pc : PagerPc} (hst : Stmt s q a p pc t) (h : s.Coherent)
    (hq : s.proc q = some ⟨a, .pager p pc⟩) (hb : ¬ s.blocked q) : t.Coherent := by
  have hs : Step s (.pager q) t := .pager hq hb hst
  -- a statement that ends no window leaves the pending pages pending
  have keep : ∀ {c : Ctl} {u : VM n}, u.proc = Function.update s.proc q (some ⟨a, c⟩) →
      PagerPc.pending a p pc = none → ∀ r, s.Pending r → u.Pending r := by
    intro c u hp hn r hr
    refine hr.update hq hp ?_
    rintro _ _ _ ⟨⟩
    rw [hn]
    simp
  cases hst with
  | enter => exact h.control hs rfl rfl (keep rfl rfl)
  | select => exact h.control hs rfl rfl (keep rfl rfl)
  | @evict k old =>
      exact h.write hs (r := old.sw_pte) rfl rfl ⟨q, a, p, _, Function.update_self .., rfl⟩
        (keep rfl rfl)
  | vacant => exact h.control hs rfl rfl (keep rfl rfl)
  | @flush k old =>
      -- `updateTLBEntry` makes the TLB agree, so the window of `old` may close
      obtain ⟨hpte, hhi⟩ := h.iso.mem.desc k old (h.iso.crit q a p _ hq).1
      refine h.refresh hs (r := old.sw_pte) (by rw [hpte]; exact hhi) rfl rfl fun r hne hr => ?_
      refine hr.update hq rfl ?_
      rintro _ _ _ ⟨⟩ he
      exact hne (Option.some.inj he).symm
  | acquire c => exact h.control hs rfl rfl (keep rfl (c.pending _))
  | data0 c => exact h.control hs rfl rfl (keep rfl (c.pending _))
  | command c => exact h.control hs rfl rfl (keep rfl (c.pending _))
  | release c => exact h.control hs rfl rfl (keep rfl (c.pending _))
  | record => exact h.control hs rfl rfl (keep rfl rfl)
  | @validate k =>
      exact h.write hs (r := (a, p)) rfl rfl ⟨q, a, p, _, Function.update_self .., rfl⟩
        (keep rfl rfl)
  | @update k =>
      refine h.refresh hs (r := (a, p)) (h.iso.live q a _ hq (by simp) p) rfl rfl fun r hne hr => ?_
      refine hr.update hq rfl ?_
      rintro _ _ _ ⟨⟩ he
      exact hne (Option.some.inj he).symm
  | leave => exact h.control hs rfl rfl (keep rfl rfl)
  | abort => exact h.control hs rfl rfl (keep rfl rfl)
  | ret => exact h.control hs rfl rfl (keep rfl rfl)

/-- **The step lemma.** -/
theorem Coherent.step (h : s.Coherent) (hs : Step s e t) (hc : s.ColdInit e) : t.Coherent := by
  have keep : ∀ {q : Pid} {pr : Proc} (pr' : Option Proc) {u : VM n}, s.proc q = some pr →
      u.proc = Function.update s.proc q pr' →
      (∀ a p pc, pr = ⟨a, .pager p pc⟩ → PagerPc.pending a p pc = none) →
      ∀ r, s.Pending r → u.Pending r := by
    intro q pr pr' u hq hp hn r hr
    refine hr.update hq hp ?_
    rintro a p pc rfl
    rw [hn a p pc rfl]
    simp
  have hs₀ := hs
  cases hs with
  | initPte r =>
      refine ⟨h.iso.step hs₀, fun i r' lo hi hv => ?_⟩
      by_cases hrr : r' = r
      · subst hrr
        -- the entry that is reset was in no slot, or not valid there
        exact absurd (hc i lo hi) hv
      · show lo = (Function.update s.pgTbl r _ r').entryLO ∨ _
        rw [Function.update_of_ne hrr]
        exact h.agree i r' lo hi hv
  | create =>
      refine h.control hs₀ rfl rfl fun r hr => ?_
      obtain ⟨j, b, p, pc, hj, hpc⟩ := hr
      have hne : j ≠ s.nextPid := h.iso.excl.ne_next hj
      exact ⟨j, b, p, pc, (Function.update_of_ne hne ..).trans hj, hpc⟩
  | load => exact h
  | store => exact h.control hs₀ rfl rfl fun _ hr => hr
  | @refill q a entryHi slot w hq he hm =>
      obtain ⟨p, -, rfl⟩ := Option.map_eq_some_iff.mp he
      have hhi := h.iso.live q a _ hq (by simp) p
      refine ⟨h.iso.step hs₀, fun i r lo hi hv => ?_⟩
      -- the slot written holds what the page table says now; the others are as before
      rcases Tlb.write_inv hi with he | hj
      · obtain ⟨hk, hlo⟩ := Prod.mk.inj he
        obtain rfl : r = (a, p) := entryHI_injective (hk.trans hhi)
        exact .inl hlo
      · exact h.agree i r lo hj hv
  | @faultMod q a _ _ hq =>
      exact h.control hs₀ rfl rfl (keep (some ⟨a, .dying⟩) hq rfl (by rintro _ _ _ ⟨⟩))
  | @fault q a _ _ p hq =>
      exact h.control hs₀ rfl rfl
        (keep (some ⟨a, .pager p .enter⟩) hq rfl (by rintro _ _ _ ⟨⟩))
  | pager hq hb hst => exact hst.coherent h hq hb
  | @flashDone q a p d b k rw here next status junk u c hq hu =>
      obtain ⟨hp, ht, -⟩ := flashPerform_mem hu
      refine h.control hs₀ hp ht
        (keep (some ⟨a, .pager p (here (.release status))⟩) hq ?_ ?_)
      · exact flashPerform_goto hu
      · rintro _ _ _ ⟨⟩; exact c.pending _
  | @die q a hq =>
      exact h.control hs₀ rfl rfl (keep (some ⟨a, .dying⟩) hq rfl (by rintro _ _ _ ⟨⟩))
  | exit hq => exact h.control hs₀ rfl rfl (keep none hq rfl (by rintro _ _ _ ⟨⟩))

/-! ### Invalid entries -/

/-- An invalid TLB entry is for an invalid page, but for a page its process has just mapped. -/
structure Honest (s : VM n) : Prop where
  iso : s.Iso
  agree : ∀ i r lo, s.tlb i = some (entryHI r, lo) → lo &&& validOn = 0 →
    (s.pgTbl r).entryLO &&& validOn = 0 ∨
      ∃ q k, s.proc q = some ⟨r.1, .pager r.2 (.update k)⟩

/-- A page-table entry is copied to the TLB. -/
theorem Honest.cache (h : s.Honest) (hs : Step s e t) {r : PageId}
    (hhi : (s.pgTbl r).entryHI = entryHI r) (hp : t.pgTbl = s.pgTbl)
    (ht : ∀ i k lo, t.tlb i = some (k, lo) → (k = (s.pgTbl r).entryHI ∧ lo = (s.pgTbl r).entryLO) ∨
      (k ≠ (s.pgTbl r).entryHI ∧ s.tlb i = some (k, lo)))
    (hk : ∀ q (r' : PageId) k, r' ≠ r → s.proc q = some ⟨r'.1, .pager r'.2 (.update k)⟩ →
      t.proc q = some ⟨r'.1, .pager r'.2 (.update k)⟩) : t.Honest where
  iso := h.iso.step hs
  agree i r' lo hi hv := by
    rw [hp]
    rcases ht i _ lo hi with ⟨he, rfl⟩ | ⟨hne, hj⟩
    · obtain rfl : r' = r := entryHI_injective (he.trans hhi)
      exact .inl hv
    · have hrr : r' ≠ r := fun he => hne (by rw [he, hhi])
      exact (h.agree i r' lo hj hv).imp_right fun ⟨q, k, hq⟩ => ⟨q, k, hk q r' k hrr hq⟩

/-- The TLB is left alone, and so are the valid bits of the page tables where it has an invalid
entry. -/
theorem Honest.keep (h : s.Honest) (hs : Step s e t) (ht : t.tlb = s.tlb)
    (hp : ∀ r, (t.pgTbl r).entryLO &&& validOn = 0 ∨
      (∃ q k, t.proc q = some ⟨r.1, .pager r.2 (.update k)⟩) ∨ t.pgTbl r = s.pgTbl r)
    (hk : ∀ q (r : PageId) k, s.proc q = some ⟨r.1, .pager r.2 (.update k)⟩ →
      t.proc q = some ⟨r.1, .pager r.2 (.update k)⟩) : t.Honest where
  iso := h.iso.step hs
  agree i r lo hi hv := by
    rw [ht] at hi
    rcases hp r with hr | hr | hr
    · exact .inl hr
    · exact .inr hr
    · rw [hr]
      exact (h.agree i r lo hi hv).imp_right fun ⟨q, k, hq⟩ => ⟨q, k, hk q r k hq⟩

/-- A statement of the pager keeps an invalid TLB entry for an invalid page. -/
theorem Stmt.honest {pc : PagerPc} (hst : Stmt s q a p pc t) (h : s.Honest)
    (hq : s.proc q = some ⟨a, .pager p pc⟩) (hb : ¬ s.blocked q) : t.Honest := by
  have hs : Step s (.pager q) t := .pager hq hb hst
  -- another process stays at its `updateTLBEntry`, and `q` is not at one
  have stay : ∀ {c : Ctl} {u : VM n}, u.proc = Function.update s.proc q (some ⟨a, c⟩) →
      (∀ k, pc ≠ .update k) → ∀ j (r : PageId) k, s.proc j = some ⟨r.1, .pager r.2 (.update k)⟩ →
      u.proc j = some ⟨r.1, .pager r.2 (.update k)⟩ := by
    intro c u hp hne j r k hj
    have hjq : j ≠ q := by
      rintro rfl
      rw [hq] at hj
      cases hj
      exact hne k rfl
    rw [hp, Function.update_of_ne hjq, hj]
  have quiet : ∀ {c : Ctl}, t.proc = Function.update s.proc q (some ⟨a, c⟩) →
      (∀ k, pc ≠ .update k) → t.tlb = s.tlb → t.pgTbl = s.pgTbl → t.Honest :=
    fun hp hne ht hpt => h.keep hs ht (fun r => .inr (.inr (congrFun hpt r))) (stay hp hne)
  cases hst with
  | enter => exact quiet rfl (by simp) rfl rfl
  | select => exact quiet rfl (by simp) rfl rfl
  | @evict k old =>
      refine h.keep hs rfl (fun r => ?_) (stay rfl (by simp))
      by_cases hr : r = old.sw_pte
      · subst hr
        left
        show (Function.update s.pgTbl old.sw_pte _ old.sw_pte).entryLO &&& validOn = 0
        rw [Function.update_self]
        exact clear_valid _
      · exact .inr (.inr (Function.update_of_ne hr ..))
  | vacant => exact quiet rfl (by simp) rfl rfl
  | @flush k old =>
      obtain ⟨hpte, hhi⟩ := h.iso.mem.desc k old (h.iso.crit q a p _ hq).1
      exact h.cache hs (r := old.sw_pte) (by rw [hpte]; exact hhi) rfl
        (fun i _ _ hi => Tlb.refresh_inv h.iso.mem.unique hi) fun j r k _ => stay rfl (by simp) j r k
  | acquire c => exact quiet rfl c.not_update rfl rfl
  | data0 c => exact quiet rfl c.not_update rfl rfl
  | command c => exact quiet rfl c.not_update rfl rfl
  | release c => exact quiet rfl c.not_update rfl rfl
  | record => exact quiet rfl (by simp) rfl rfl
  | @validate k =>
      refine h.keep hs rfl (fun r => ?_) (stay rfl (by simp))
      by_cases hr : r = (a, p)
      · subst hr
        exact .inr (.inl ⟨q, k, Function.update_self ..⟩)
      · exact .inr (.inr (Function.update_of_ne hr ..))
  | @update k =>
      refine h.cache hs (r := (a, p)) (h.iso.live q a _ hq (by simp) p) rfl
        (fun i _ _ hi => Tlb.refresh_inv h.iso.mem.unique hi) fun j r k' hr hj => ?_
      have hjq : j ≠ q := by
        rintro rfl
        rw [hq] at hj
        cases hj
        exact hr rfl
      exact (Function.update_of_ne hjq ..).trans hj
  | leave => exact quiet rfl (by simp) rfl rfl
  | abort => exact quiet rfl (by simp) rfl rfl
  | ret => exact quiet rfl (by simp) rfl rfl

/-- **The step lemma**, for every step. -/
theorem Honest.step (h : s.Honest) (hs : Step s e t) : t.Honest := by
  -- who is at `update` stays there while another process moves
  have stay : ∀ {i : Pid} (x : Option Proc) {u : VM n}, u.proc = Function.update s.proc i x →
      (∀ a p k, s.proc i ≠ some ⟨a, .pager p (.update k)⟩) →
      ∀ j (r : PageId) k, s.proc j = some ⟨r.1, .pager r.2 (.update k)⟩ →
      u.proc j = some ⟨r.1, .pager r.2 (.update k)⟩ := by
    intro i x u hp hne j r k hj
    have hji : j ≠ i := by
      rintro rfl
      exact hne _ _ _ hj
    rw [hp, Function.update_of_ne hji, hj]
  have hs₀ := hs
  cases hs with
  | initPte r =>
      refine h.keep hs₀ rfl (fun r' => ?_) fun _ _ _ hq => hq
      by_cases hr : r' = r
      · subst hr
        left
        show (Function.update s.pgTbl r' _ r').entryLO &&& validOn = 0
        rw [Function.update_self]
        exact (by decide : dirtyOn &&& validOn = 0)
      · exact .inr (.inr (Function.update_of_ne hr ..))
  | create =>
      exact h.keep hs₀ rfl (fun _ => .inr (.inr rfl)) (stay (i := s.nextPid)
        (some ⟨_, .run⟩) rfl (by simp [h.iso.excl.fresh _ le_rfl]))
  | load => exact h
  | store => exact h.keep hs₀ rfl (fun _ => .inr (.inr rfl)) fun _ _ _ hq => hq
  | @refill q a entryHi slot w hq he hm =>
      obtain ⟨p, -, rfl⟩ := Option.map_eq_some_iff.mp he
      refine h.cache hs₀ (r := (a, p)) (h.iso.live q a _ hq (by simp) p) rfl (fun i k lo hi => ?_)
        fun _ _ _ _ hq => hq
      rcases Tlb.write_inv hi with he | hj
      · exact .inl (Prod.mk.inj he)
      · by_cases hk : k = (s.pgTbl (a, p)).entryHI
        · subst hk; exact absurd hj (hm i lo)
        · exact .inr ⟨hk, hj⟩
  | @faultMod q a _ _ hq =>
      exact h.keep hs₀ rfl (fun _ => .inr (.inr rfl)) (stay (some ⟨a, .dying⟩) rfl (by simp [hq]))
  | @fault q a _ _ p hq =>
      exact h.keep hs₀ rfl (fun _ => .inr (.inr rfl))
        (stay (some ⟨a, .pager p .enter⟩) rfl (by simp [hq]))
  | pager hq hb hst => exact hst.honest h hq hb
  | @flashDone q a p d b k rw here next status junk u c hq hu =>
      obtain ⟨hp, ht, -⟩ := flashPerform_mem hu
      have hproc := flashPerform_goto (q := q) (a := a) (c := .pager p (here (.release status))) hu
      exact h.keep hs₀ ht (fun r => .inr (.inr (congrFun hp r))) (stay _ hproc fun b p' k hk => by
        rw [hq] at hk
        simp only [Option.some.injEq, Proc.mk.injEq, Ctl.pager.injEq] at hk
        exact c.not_update k hk.2.2)
  | @die q a hq =>
      exact h.keep hs₀ rfl (fun _ => .inr (.inr rfl)) (stay (some ⟨a, .dying⟩) rfl (by simp [hq]))
  | @exit q a hq =>
      exact h.keep hs₀ rfl (fun _ => .inr (.inr rfl)) (stay none rfl (by simp [hq]))

/-- A TLB exception raised for an invalid TLB entry: the cause is not `EXC_MOD`. -/
def TlbInvalid (s : VM n) : VmEvent n → Prop
  | .fault q entryHi cause => cause &&& causeExcCodeMask = excMod ∨
      ∀ pr ∈ s.proc q, ∀ p ∈ pageOf entryHi,
        (s.tlb.lookup (PandOS.entryHI (pr.asid, p))).any fun lo => lo &&& validOn = 0
  | _ => True

/-- **The pager is entered for invalid pages**, when the hardware raises its exceptions for
invalid TLB entries. -/
theorem Honest.faultInvalid (h : s.Honest) {entryHi cause : Word}
    (hs : Step s (.fault q entryHi cause) t) (hc : s.TlbInvalid (.fault q entryHi cause)) :
    cause &&& causeExcCodeMask = excMod ∨ s.FaultInvalid q entryHi := by
  refine hc.imp_right fun hi pr hpr p hp => ?_
  obtain ⟨lo, hlo, hv⟩ := (Option.any_eq_true _ _).mp (hi pr hpr p hp)
  obtain ⟨i, hi⟩ := Tlb.lookup_some hlo
  have hv := of_decide_eq_true hv
  have hrun : pr.ctl = .run := by
    cases hs with
    | faultMod hq => rw [hpr] at hq; cases hq; rfl
    | fault hq => rw [hpr] at hq; cases hq; rfl
  refine (h.agree i (pr.asid, p) lo hi hv).resolve_right ?_
  rintro ⟨j, k, hj⟩
  have hpr' : s.proc q = some ⟨pr.asid, .run⟩ := by rw [← hrun]; exact hpr
  obtain rfl := h.iso.excl.asid _ _ _ _ _ hj hpr' (by simp) (by simp)
  rw [hpr'] at hj
  cases hj

/-! ### Pages just initialised -/

/-- `r` is as `initPageTable` leaves it, but for the D bit, and nothing valid is cached for it. -/
structure Cold (s : VM n) (r : PageId) : Prop where
  hi : (s.pgTbl r).entryHI = entryHI r
  lo : (s.pgTbl r).entryLO &&& validOn = 0
  cached : s.NotCached r

theorem Cold.init {r : PageId} (h : s.NotCached r) : (s.initPte r).Cold r := by
  have he : (s.initPte r).pgTbl r = ⟨entryHI r, dirtyOn⟩ := Function.update_self ..
  refine ⟨by rw [he], ?_, h⟩
  rw [he]
  exact (by decide : dirtyOn &&& validOn = 0)

theorem Cold.congr {r : PageId} (h : s.Cold r) (hp : t.pgTbl r = s.pgTbl r) (ht : t.tlb = s.tlb) :
    t.Cold r :=
  ⟨by rw [hp]; exact h.hi, by rw [hp]; exact h.lo, fun i lo hi => h.cached i lo (ht ▸ hi)⟩

/-- An entry that becomes cached is a current one, so not a valid one for a cold page. -/
theorem Cold.cache {r x : PageId} (h : s.Cold r) (hhi : (s.pgTbl x).entryHI = entryHI x)
    (hp : t.pgTbl = s.pgTbl)
    (ht : ∀ i w, t.tlb i = some w → w = ((s.pgTbl x).entryHI, (s.pgTbl x).entryLO) ∨
      ∃ j, s.tlb j = some w) : t.Cold r := by
  refine ⟨by rw [hp]; exact h.hi, by rw [hp]; exact h.lo, fun i lo hi => ?_⟩
  rcases ht i _ hi with he | ⟨j, hj⟩
  · obtain ⟨hk, rfl⟩ := Prod.mk.inj he
    obtain rfl : r = x := entryHI_injective (hk.trans hhi)
    exact h.lo
  · exact h.cached j lo hj

/-- The pager of another ASID leaves a cold page cold. -/
theorem Stmt.cold {pc : PagerPc} {r : PageId} (hst : Stmt s q a p pc t) (h : s.Cold r)
    (hs : s.Iso) (hq : s.proc q = some ⟨a, .pager p pc⟩) (hne : a ≠ r.1) : t.Cold r := by
  cases hst with
  | @evict k old =>
      by_cases hr : r = old.sw_pte
      · subst hr
        have he : (s.invalidate old.sw_pte).pgTbl old.sw_pte = { s.pgTbl old.sw_pte with
            entryLO := (s.pgTbl old.sw_pte).entryLO &&& ~~~validOn } := Function.update_self ..
        exact ⟨(congrArg PteEntry.entryHI he).trans h.hi,
          (congrArg (fun w => PteEntry.entryLO w &&& validOn) he).trans (clear_valid _), h.cached⟩
      · exact h.congr (Function.update_of_ne hr ..) rfl
  | @flush k old =>
      obtain ⟨hpte, hhi⟩ := hs.mem.desc k old (hs.crit q a p _ hq).1
      refine h.cache (x := old.sw_pte) (by rw [hpte]; exact hhi) rfl fun i w hi => ?_
      exact (Tlb.refresh_inv hs.mem.unique hi).imp (fun ⟨h₁, h₂⟩ => Prod.ext h₁ h₂)
        fun ⟨_, hj⟩ => ⟨i, hj⟩
  | validate =>
      exact h.congr (Function.update_of_ne (fun he => hne (by rw [he])) ..) rfl
  | update =>
      refine h.cache (x := (a, p)) (hs.live q a _ hq (by simp) p) rfl fun i w hi => ?_
      exact (Tlb.refresh_inv hs.mem.unique hi).imp (fun ⟨h₁, h₂⟩ => Prod.ext h₁ h₂)
        fun ⟨_, hj⟩ => ⟨i, hj⟩
  | _ => exact h.congr rfl rfl

/-- **A page just initialised stays so** while no process of its ASID runs. -/
theorem Cold.step {r : PageId} (h : s.Cold r) (hs : s.Iso) (hst : Step s e t)
    (hno : ∀ q c, s.proc q = some ⟨r.1, c⟩ → c = .dying) : t.Cold r := by
  cases hst with
  | initPte r' =>
      by_cases hr : r = r'
      · subst hr; exact .init h.cached
      · exact h.congr (Function.update_of_ne hr ..) rfl
  | @refill q a entryHi slot w hq he hm =>
      obtain ⟨p, -, rfl⟩ := Option.map_eq_some_iff.mp he
      refine h.cache (x := (a, p)) (hs.live q a _ hq (by simp) p) rfl fun i w hi => ?_
      exact (Tlb.write_inv hi).imp_right fun hj => ⟨i, hj⟩
  | @pager q a p pc t hq hb hst =>
      refine hst.cold h hs hq ?_
      rintro rfl
      cases hno q _ hq
  | flashDone c hq hu => exact h.congr (congrFun (flashPerform_mem hu).1 r) (flashPerform_mem hu).2.1
  | _ => exact h.congr rfl rfl

end PandOS.VM
