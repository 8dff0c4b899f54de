import PandOS.Phase3.Pager

/-!
# Phase 3 — what a step of the pager machine does

`VM.Step s e t` lists the steps, one constructor for each, with the guards a proof may use;
`VM.Stmt s q a p pc t` lists the statements of the pager and `VM.Call` the two calls of
`flashIO`.  `VM.step_view` takes a step of the machine apart once; every invariant is proved by
cases on these relations.
-/

namespace PandOS.VM

variable {n : ℕ}

/-- A call of `flashIO` by the pager of ASID `a` for page `p`: the device, the block, the frame,
the operation, the pager at a statement of the call, and the pager after it. -/
inductive Call (a : Asid) (p : PageNo) :
    Asid → PageNo → FrameNo → Word → (FlashPc → PagerPc) → PagerPc → Prop where
  | write (k : FrameNo) (old : Swap) :
      Call a p old.sw_asid old.sw_pageNo k flashWrite (.write k old) (.read k .acquire)
  | read (k : FrameNo) : Call a p a p k flashRead (.read k) (.record k)

/-- The statements of the pager. -/
inductive Stmt (s : VM n) (q : Pid) (a : Asid) (p : PageNo) : PagerPc → VM n → Prop where
  | enter : Stmt s q a p .enter
      ({ s with swapPoolSem := s.swapPoolSem.P q }.goto q a (.pager p .select))
  | select : Stmt s q a p .select
      ({ s with swapFrameClock := nextFrame s.swapFrameClock }.goto q a
        (.pager p (.evict s.swapFrameClock)))
  | evict {k : FrameNo} {old : Swap} (h : s.swapPool k = some old) : Stmt s q a p (.evict k)
      ((s.invalidate old.sw_pte).goto q a (.pager p (.flush k old)))
  | vacant {k : FrameNo} (h : s.swapPool k = none) : Stmt s q a p (.evict k)
      (s.goto q a (.pager p (.read k .acquire)))
  | flush {k : FrameNo} {old : Swap} : Stmt s q a p (.flush k old)
      ((s.updateTLBEntry old.sw_pte).goto q a (.pager p (.write k old .acquire)))
  | acquire {d b k rw here next} (c : Call a p d b k rw here next) : Stmt s q a p (here .acquire)
      ((s.setFlashMutex d ((s.flashMutex d).P q)).goto q a (.pager p (here .data0)))
  | data0 {d b k rw here next} (c : Call a p d b k rw here next) : Stmt s q a p (here .data0)
      ((s.setFlashReg d { s.flashReg d with data0 := framePhysAddr k }).goto q a
        (.pager p (here .command)))
  | command {d b k rw here next} (c : Call a p d b k rw here next) : Stmt s q a p (here .command)
      ((s.setFlashReg d { s.flashReg d with command := flashCommand b rw }).goto q a
        (.pager p (here .busy)))
  | release {d b k rw here next status} (c : Call a p d b k rw here next) :
      Stmt s q a p (here (.release status))
      ((s.setFlashMutex d (s.flashMutex d).V).goto q a
        (.pager p (if status = flashReady then next else .abort)))
  | record {k : FrameNo} : Stmt s q a p (.record k)
      ({ s with swapPool := Function.update s.swapPool k (some ⟨a, p, (a, p)⟩) }.goto q a
        (.pager p (.validate k)))
  | validate {k : FrameNo} : Stmt s q a p (.validate k)
      ((s.setPte (a, p) { s.pgTbl (a, p) with entryLO := mapped k }).goto q a
        (.pager p (.update k)))
  | update {k : FrameNo} : Stmt s q a p (.update k)
      ((s.updateTLBEntry (a, p)).goto q a (.pager p .leave))
  | leave : Stmt s q a p .leave
      ({ s with swapPoolSem := s.swapPoolSem.V }.goto q a (.pager p .ret))
  | abort : Stmt s q a p .abort ({ s with swapPoolSem := s.swapPoolSem.V }.goto q a .dying)
  | ret : Stmt s q a p .ret (s.goto q a .run)

/-- The steps. -/
inductive Step (s : VM n) : VmEvent n → VM n → Prop where
  | initPte (r : PageId) : Step s (.initPte r) (s.initPte r)
  | create {a : Asid} (h : s.Launchable a) : Step s (.create a) (s.createProc a)
  | load {q a p w v k} (hq : s.proc q = some ⟨a, .run⟩) (hk : s.access (a, p) = some k)
      (hv : s.frame k w = v) : Step s (.load q a p w v) s
  | store {q a p w v k} (hq : s.proc q = some ⟨a, .run⟩) (hk : s.accessStore (a, p) = some k) :
      Step s (.store q a p w v) (s.poke k w v)
  | refill {q a entryHi slot e} (hq : s.proc q = some ⟨a, .run⟩)
      (he : s.refillPte a entryHi = some e) (hm : s.tlb.Miss e.entryHI) :
      Step s (.refill q entryHi slot)
        { s with tlb := s.tlb.write slot (e.entryHI, e.entryLO) }
  | faultMod {q a entryHi cause} (hq : s.proc q = some ⟨a, .run⟩)
      (hc : cause &&& causeExcCodeMask = excMod) :
      Step s (.fault q entryHi cause) (s.goto q a .dying)
  | fault {q a entryHi cause p} (hq : s.proc q = some ⟨a, .run⟩) (hp : pageOf entryHi = some p)
      (hc : cause &&& causeExcCodeMask ≠ excMod) :
      Step s (.fault q entryHi cause) (s.goto q a (.pager p .enter))
  | pager {q a p pc t} (hq : s.proc q = some ⟨a, .pager p pc⟩) (hb : ¬ s.blocked q)
      (h : Stmt s q a p pc t) : Step s (.pager q) t
  | flashDone {q a p d b k rw here next status junk t} (c : Call a p d b k rw here next)
      (hq : s.proc q = some ⟨a, .pager p (here .busy)⟩)
      (h : s.flashPerform d status junk = some t) :
      Step s (.flashDone q status junk) (t.goto q a (.pager p (here (.release status))))
  | die {q a} (hq : s.proc q = some ⟨a, .run⟩) : Step s (.die q) (s.goto q a .dying)
  | exit {q a} (hq : s.proc q = some ⟨a, .dying⟩) : Step s (.exit q) (s.setProc q none)

theorem flashIO_view {s t : VM n} {q a p d b k rw here next} {pc : FlashPc}
    (c : Call a p d b k rw here next) (h : s.flashIO q a p d b k rw here next pc = some t) :
    Stmt s q a p (here pc) t := by
  cases pc with
  | acquire => cases h; exact .acquire c
  | data0 => cases h; exact .data0 c
  | command => cases h; exact .command c
  | busy => cases h
  | release status => cases h; exact .release c

/-- The next statement of the pager is one of those listed. -/
theorem pagerStep_view {s t : VM n} {q a p} {pc : PagerPc} (h : s.pagerStep q a p pc = some t) :
    Stmt s q a p pc t := by
  cases pc with
  | enter => cases h; exact .enter
  | select => cases h; exact .select
  | evict k =>
      rw [pagerStep] at h
      split at h
      case h_1 old ho => cases h; exact .evict ho
      case h_2 hn => cases h; exact .vacant hn
  | flush k old => cases h; exact .flush
  | write k old pc => exact flashIO_view (.write k old) h
  | read k pc => exact flashIO_view (.read k) h
  | record k => cases h; exact .record
  | validate k => cases h; exact .validate
  | update k => cases h; exact .update
  | leave => cases h; exact .leave
  | abort => cases h; exact .abort
  | ret => cases h; exact .ret

theorem flashWait_view {pr : Proc} {d here p} (h : flashWait pr = some (d, here, p)) :
    pr.ctl = .pager p (here .busy) ∧ ∃ b k rw next, Call pr.asid p d b k rw here next := by
  unfold flashWait at h
  split at h
  case h_1 k old => cases h; exact ⟨rfl, _, _, _, _, .write k old⟩
  case h_2 k => cases h; exact ⟨rfl, _, _, _, _, .read k⟩
  case h_3 => cases h

/-- **What a step can do.** -/
theorem step_view {s t : VM n} {e : VmEvent n} (h : s.step e = some t) : Step s e t := by
  cases e with
  | initPte r => cases h; exact .initPte r
  | create a =>
      rw [step] at h
      split at h
      case isTrue hl => cases h; exact .create hl
      case isFalse => cases h
  | load q a p w v =>
      rw [step] at h
      split at h
      case isTrue hl =>
        cases h
        obtain ⟨hq, hm⟩ := hl
        obtain ⟨k, hk, hv⟩ := Option.map_eq_some_iff.mp hm
        exact .load hq hk hv
      case isFalse => cases h
  | store q a p w v =>
      rw [step] at h
      split at h
      case isTrue hq =>
        obtain ⟨k, hk, rfl⟩ := Option.map_eq_some_iff.mp h
        exact .store hq hk
      case isFalse => cases h
  | refill q entryHi slot =>
      rw [step] at h
      split at h
      case h_1 a hq =>
        obtain ⟨e, he, h⟩ := Option.bind_eq_some_iff.mp h
        split at h
        case isTrue hm => cases h; exact .refill hq he hm
        case isFalse => cases h
      case h_2 => cases h
  | fault q entryHi cause =>
      rw [step] at h
      split at h
      case h_1 a hq =>
        obtain ⟨c, hc, rfl⟩ := Option.map_eq_some_iff.mp h
        unfold faultCtl at hc
        split at hc
        case isTrue hm => cases hc; exact .faultMod hq hm
        case isFalse hm =>
          obtain ⟨p, hp, rfl⟩ := Option.map_eq_some_iff.mp hc
          exact .fault hq hp hm
      case h_2 => cases h
  | pager q =>
      rw [step] at h
      split at h
      case h_1 a p pc hq =>
        split at h
        case isTrue => cases h
        case isFalse hb => exact .pager hq hb (pagerStep_view h)
      case h_2 => cases h
  | flashDone q status junk =>
      obtain ⟨pr, hpr, h⟩ := Option.bind_eq_some_iff.mp h
      obtain ⟨⟨d, here, p⟩, hw, h⟩ := Option.bind_eq_some_iff.mp h
      obtain ⟨t, ht, rfl⟩ := Option.map_eq_some_iff.mp h
      obtain ⟨hctl, b, k, rw, next, c⟩ := flashWait_view hw
      obtain ⟨a, ctl⟩ := pr
      cases hctl
      exact .flashDone c hpr ht
  | die q =>
      rw [step] at h
      split at h
      case h_1 a hq => cases h; exact .die hq
      case h_2 => cases h
  | exit q =>
      rw [step] at h
      split at h
      case h_1 a hq => cases h; exact .exit hq
      case h_2 => cases h

end PandOS.VM
