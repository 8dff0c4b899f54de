import PandOS.Phase3.Refine
import PandOS.Phase3.Transparency
import PandOS.Phase3.Coherence

/-!
# Phase 3 — the swap pool over whole runs

What the swap pool records, and what becomes of it.

* `Support.recorded_of_run`: between pagers the swap pool and the page tables record each other,
  on every run on which `initSupportStruct` rewrites no entry that a descriptor names.
* `Support.relaunch_not_recorded`: a program that is executed again while a page of its last run
  is still in a frame breaks this.
* `Support.contents_of_run`: contents outlive flash operations that fail while a page is read into
  a free frame, and no descriptor is left that names an unmapped page.
* `Support.failed_read_leaves_descriptor`: a read that fails after an eviction leaves one.
-/

namespace PandOS

variable {n : ℕ}

namespace VM

variable {s t : VM n} {f : VmEvent n} {q : Pid} {r : PageId}

/-! ### Conditions on the steps -/

/-- Flash operations succeed, and the pager is entered for pages with V = 0 only. -/
def Paging (s : VM n) : VmEvent n → Prop
  | .fault q entryHi cause => cause &&& causeExcCodeMask = excMod ∨ s.FaultInvalid q entryHi
  | .flashDone _ status _ => status = flashReady
  | _ => True

/-- `initPageTable` rewrites no entry that a frame descriptor names. -/
def FreshInit (s : VM n) : VmEvent n → Prop
  | .initPte r => s.Unnamed r
  | _ => True

/-- A flash operation fails only while it reads a page into a frame that has no descriptor. -/
def FailsFree (s : VM n) : VmEvent n → Prop
  | .flashDone q status _ => status = flashReady ∨ s.LoadsFree q
  | _ => True

theorem careful_of_paging (h : s.Paging f) (hi : s.FreshInit f) : s.Careful f := by
  cases f with
  | initPte => exact hi
  | fault => exact h
  | flashDone => exact .inl h
  | _ => trivial

theorem Honest.careful (h : s.Honest) (hs : Step s f t) (hi : s.FreshInit f) (ht : s.TlbInvalid f)
    (hf : s.FailsFree f) : s.Careful f := by
  cases f with
  | initPte => exact hi
  | fault => exact h.faultInvalid hs ht
  | flashDone => exact hf
  | _ => trivial

instance : Decidable (s.Unnamed r) :=
  inferInstanceAs (Decidable (∀ k, ∀ d ∈ s.swapPool k, d.page ≠ r))

instance : Decidable (s.FaultInvalid q entryHi) :=
  inferInstanceAs (Decidable (∀ pr ∈ s.proc q, ∀ p ∈ pageOf entryHi, _ = _))

instance : ∀ f : VmEvent n, Decidable (s.Paging f)
  | .fault .. => inferInstanceAs (Decidable (_ ∨ _))
  | .flashDone .. => inferInstanceAs (Decidable (_ = _))
  | .initPte _ | .create _ | .load .. | .store .. | .refill .. | .pager _ | .die _ | .exit _ =>
      .isTrue trivial

instance : ∀ f : VmEvent n, Decidable (s.FreshInit f)
  | .initPte r => inferInstanceAs (Decidable (s.Unnamed r))
  | .create _ | .load .. | .store .. | .refill .. | .fault .. | .pager _ | .flashDone .. | .die _
  | .exit _ => .isTrue trivial

instance : ∀ f : VmEvent n, Decidable (s.TlbInvalid f)
  | .fault .. => inferInstanceAs (Decidable (_ ∨ ∀ pr ∈ s.proc _, ∀ p ∈ pageOf _, _ = true))
  | .initPte _ | .create _ | .load .. | .store .. | .refill .. | .pager _ | .flashDone .. | .die _
  | .exit _ => .isTrue trivial

/-- The frame a process reads a page into. -/
def readInto : Option Proc → Option FrameNo
  | some ⟨_, .pager _ (.read k .busy)⟩ => some k
  | _ => none

theorem loadsFree_iff : s.LoadsFree q ↔ ∃ k ∈ readInto (s.proc q), s.swapPool k = none := by
  constructor
  · rintro ⟨a, p, k, hq, hk⟩
    exact ⟨k, by rw [hq]; rfl, hk⟩
  · rintro ⟨k, hq, hk⟩
    unfold readInto at hq
    split at hq
    · rename_i hp
      cases hq
      exact ⟨_, _, _, hp, hk⟩
    · cases hq

instance : Decidable (s.LoadsFree q) := decidable_of_iff _ loadsFree_iff.symm

instance : ∀ f : VmEvent n, Decidable (s.FailsFree f)
  | .flashDone .. => inferInstanceAs (Decidable (_ ∨ _))
  | .initPte _ | .create _ | .load .. | .store .. | .refill .. | .fault .. | .pager _ | .die _
  | .exit _ => .isTrue trivial

/-! ### What the swap pool records -/

/-- The swap pool and the page tables record each other. -/
structure Recorded (s : VM n) : Prop where
  /-- A descriptor has the address of its page's entry, which maps the page to the frame. -/
  pte : ∀ k d, s.swapPool k = some d → d.sw_pte = (d.sw_asid, d.sw_pageNo) ∧
    (s.pgTbl d.sw_pte).entryLO &&& validOn ≠ 0 ∧
    (s.pgTbl d.sw_pte).entryLO &&& 0xFFFFF000 = framePhysAddr k
  once : ∀ k k' d d', s.swapPool k = some d → s.swapPool k' = some d' →
    d.sw_asid = d'.sw_asid → d.sw_pageNo = d'.sw_pageNo → k = k'
  valid : ∀ r, (s.pgTbl r).entryLO &&& validOn ≠ 0 → ∃ k d, s.swapPool k = some d ∧ d.page = r

theorem Tidy.recorded (h : s.Tidy) (hno : ∀ q, ¬ s.Inside q) : s.Recorded := by
  obtain ⟨hmap, hval⟩ := h.settled hno
  refine ⟨fun k d hd => ?_, fun k k' d d' hd hd' ha hp => h.once hd hd' (Prod.ext ha hp), hval⟩
  obtain ⟨hpte, -⟩ := h.iso.mem.desc k d hd
  refine ⟨hpte, ?_, ?_⟩
  · rw [hpte, hmap k d hd]
    exact mapped_valid k
  · rw [hpte, hmap k d hd]
    exact mapped_pfn k

/-- **At the start** nothing is recorded and nothing is mapped. -/
theorem Tidy.boot (flash : PageId → Page) (frame : FrameNo → Page) (reg : Asid → FlashReg) :
    (VM.boot flash frame reg : VM n).Tidy where
  iso := .boot flash frame reg
  form r hr := absurd (by decide : (0 : Word) &&& validOn = 0) hr
  named := by rintro _ _ ⟨⟩
  want := by rintro _ _ _ _ ⟨⟩

/-- What a careful run keeps of the paging state. -/
structure Paged (s : VM n) : Prop where
  tidy : s.Tidy
  copied : s.Copied
  honest : s.Honest

theorem Paged.step (h : s.Paged) (hs : Step s f t) (hc : s.Careful f) : t.Paged :=
  ⟨h.tidy.step hs hc, h.copied.step h.tidy.iso hs, h.honest.step hs⟩

theorem Paged.boot (flash : PageId → Page) (frame : FrameNo → Page) (reg : Asid → FlashReg) :
    (VM.boot flash frame reg : VM n).Paged :=
  ⟨.boot flash frame reg, by rintro _ _ _ _ ⟨⟩, .boot flash frame reg, by rintro _ _ _ ⟨⟩⟩

/-- Contents survive the end of processes. -/
theorem Paged.exits {fs : List (VmEvent n)} {m : PageId → Page} (h : s.Paged) (hm : s.Sim m)
    (hr : Run VM.step Support.Exits s fs t) : t.Paged ∧ t.Sim m := by
  refine hr.inv (I := fun u => u.Paged ∧ u.Sim m) ⟨h, hm⟩ ?_
  rintro u _ v ⟨hu, hm⟩ ⟨q, rfl⟩ hs
  have hst := step_view hs
  exact ⟨hu.step hst trivial, hm.step hu.tidy hu.copied hst trivial⟩

end VM

/-- Page `r` after an event of the Support Level, if its words were `c`. -/
def SupportEvent.stored (r : PageId) (c : Page) : SupportEvent n → Page
  | .mem e => e.stored r c
  | _ => c

namespace Support

variable {s t : Support n} {e : SupportEvent n} {es fs : List (SupportEvent n)}

/-- **The swap pool over whole runs.**  With every flash operation successful and the pager
entered for pages with V = 0 only, the swap pool and the page tables record each other whenever no
process is between its `P` and its `V` of `swapPoolSem`, provided that `initSupportStruct`
rewrites no entry that a descriptor names. -/
theorem recorded_of_run (flash : PageId → Page) (frame : FrameNo → Page) (reg : Asid → FlashReg)
    (hr : Run step (fun u e => ∀ f ∈ u.vmEvent e, u.vm.Paging f ∧ u.vm.FreshInit f)
      (boot flash frame reg : Support n) es s) (hno : ∀ q, ¬ s.vm.Inside q) : s.vm.Recorded := by
  have hrun := (Good.boot flash frame reg).run (J := VM.Tidy)
    (C := fun u f => u.Paging f ∧ u.FreshInit f) hr
    (fun u f v hu hc hf => hu.step hf (VM.careful_of_paging hc.1 hc.2))
    (fun _ _ => ⟨trivial, trivial⟩) (.boot flash frame reg)
  exact hrun.2.recorded hno

/-- A first run of a program: its page is recorded and mapped. -/
theorem recorded_of_run_launch : ∃ s : Support 16,
    Run step (fun u e => ∀ f ∈ u.vmEvent e, u.vm.Paging f ∧ u.vm.FreshInit f) blank
      firstRun s ∧ (s.vm.swapPool frame0).isSome ∧ s.vm.Recorded := by
  obtain ⟨s, hr, hd, hno⟩ := exists_run step
    (fun u e => ∀ f ∈ u.vmEvent e, u.vm.Paging f ∧ u.vm.FreshInit f)
    (fun s => (s.vm.swapPool frame0).isSome ∧ ∀ q < s.vm.nextPid, ¬ s.vm.Inside q)
    blank firstRun (by decide +kernel)
  have hx := ((Good.boot _ _ _).reach hr).iso.excl
  exact ⟨s, hr, hd, recorded_of_run _ _ _ hr (hx.none_inside hno)⟩

/-- **The frame of a dead program.**  After `relaunch` the swap pool still names the page the first
run brought in, and the page table the second run starts with does not map it. -/
theorem relaunch_not_recorded : ∃ s, Run step (fun u e => ∀ f ∈ u.vmEvent e, u.vm.Paging f) blank
    relaunch s ∧ (∀ q, ¬ s.vm.Inside q) ∧ ¬ s.vm.Recorded := by
  obtain ⟨s, hr, ⟨d, hd, hv⟩, hno⟩ := exists_run step
    (fun u e => ∀ f ∈ u.vmEvent e, u.vm.Paging f)
    (fun s => (∃ d ∈ s.vm.swapPool frame0, (s.vm.pgTbl d.sw_pte).entryLO &&& validOn = 0) ∧
      ∀ q < s.vm.nextPid, ¬ s.vm.Inside q)
    blank relaunch (by decide +kernel)
  have hx := ((Good.boot _ _ _).reach hr).iso.excl
  exact ⟨s, hr, hx.none_inside hno, fun h => (h.pte _ d hd).2.1 hv⟩

/-! ### Contents across failures -/

/-- Page `r` after the events `es`, if its words were `c`. -/
def storedBy (r : PageId) (c : Page) (es : List (SupportEvent n)) : Page :=
  es.foldl (fun c e => e.stored r c) c

/-- A step of the Support Level stores what its step of the pager machine stores. -/
theorem vmEvent_stored {f : VmEvent n} {r : PageId} {c : Page} (hf : s.vmEvent e = some f) :
    e.stored r c = f.stored r c := by
  rcases vmEvent_some hf with rfl | ⟨r', rfl⟩ | ⟨a, rfl⟩ | ⟨q, rfl⟩
  · rfl
  all_goals
    cases e with
    | mem e => cases hf; rfl
    | _ => rfl

/-- Flash operations may fail while a page is read into a free frame; exceptions are raised by the
hardware; `initSupportStruct` rewrites no entry that a descriptor names. -/
def Harmless (s : VM n) (f : VmEvent n) : Prop := s.TlbInvalid f ∧ s.FreshInit f ∧ s.FailsFree f

/-- A harmless step keeps the flat memory, up to its store. -/
theorem paged_step {m : PageId → Page} (h : s.Good) (hp : s.vm.Paged) (hm : s.vm.Sim m)
    (hs : Step s e t) (hc : ∀ f ∈ s.vmEvent e, Harmless s.vm f) :
    t.vm.Paged ∧ t.vm.Sim fun r => e.stored r (m r) := by
  cases h.under hs with
  | step f hf hst =>
      have hst := VM.step_view hst
      obtain ⟨ht, hi, hff⟩ := hc f hf
      have hcf := hp.honest.careful hst hi ht hff
      refine ⟨hp.step hst hcf, ?_⟩
      simp only [vmEvent_stored hf]
      exact hm.step hp.tidy hp.copied hst hcf
  | exits l hf hr =>
      have he : ∀ r c, e.stored r c = c := by
        intro r c
        cases e with
        | mem e => cases hf
        | _ => rfl
      simp only [he]
      exact hp.exits hm hr

theorem paged_run {m : PageId → Page} (h : s.Good) (hp : s.vm.Paged) (hm : s.vm.Sim m)
    (hr : Run step (fun u e => ∀ f ∈ u.vmEvent e, Harmless u.vm f) s es t) :
    t.Good ∧ t.vm.Paged ∧ t.vm.Sim fun r => storedBy r (m r) es := by
  induction hr with
  | nil => exact ⟨h, hp, hm⟩
  | snoc _ hc hs ih =>
      obtain ⟨hg, hp, hm⟩ := ih
      have hst := step_view hs
      have := paged_step hg hp hm hst hc
      simp only [storedBy, List.foldl_append]
      exact ⟨hg.step hst, this⟩

/-- **A failed flash operation damages nothing** if it reads a page into a free frame.  On such
runs, from any state reached to any state reached later, the words of every page are those it had,
with what was stored since; they are what its page-table entry or its block says, unless a pager
has taken the frame they are in; and every descriptor whose frame no pager has taken names a page
mapped to the frame. -/
theorem contents_of_run (flash : PageId → Page) (frame : FrameNo → Page) (reg : Asid → FlashReg)
    (hr : Run step (fun u e => ∀ f ∈ u.vmEvent e, Harmless u.vm f)
      (boot flash frame reg : Support n) es s)
    (hr' : Run step (fun u e => ∀ f ∈ u.vmEvent e, Harmless u.vm f) s fs t) :
    (∀ r, t.vm.flat r = storedBy r (s.vm.flat r) fs) ∧
    (∀ r, ¬ s.vm.InTransit r → ¬ t.vm.InTransit r →
      t.vm.content r = storedBy r (s.vm.content r) fs) ∧
    ∀ k d, t.vm.swapPool k = some d → ¬ t.vm.Busy k → (t.vm.pgTbl d.page).entryLO = mapped k := by
  have h₀ : (boot flash frame reg : Support n).vm.Paged := .boot flash frame reg
  obtain ⟨hg, hp, -⟩ := paged_run (.boot flash frame reg) h₀ (VM.sim_flat h₀.tidy) hr
  have hm := VM.sim_flat hp.tidy
  obtain ⟨-, hp', hm'⟩ := paged_run hg hp hm hr'
  refine ⟨hm'.eq_flat, fun r hs ht => ?_, fun k d hd hk => hp'.tidy.mapped hd hk⟩
  rw [hm'.content hp'.tidy ht, hm.content hp.tidy hs]

instance (s : VM n) (f : VmEvent n) : Decidable (Harmless s f) :=
  inferInstanceAs (Decidable (_ ∧ _))

/-- The shell brings its first page in, stores 7 in it and executes a program. -/
def resident : List (SupportEvent 16) :=
  launch ++ pageFault 1 (.shell, page0) slot0 ++ pageIn 1 ++
    .mem (.store 1 .shell page0 word0 7) :: execute 1 2

/-- The program faults, and the read of its page into a free frame fails: the frame is left with
ones.  The program ends, and the shell goes on and stores 8. -/
def freeFrameFails : List (SupportEvent 16) :=
  pageFault 2 (prog, page0) (.last 15) ++ .replicate 6 (.mem (.pager 2)) ++
    .mem (.flashDone 2 4 fun _ => 1) :: .replicate 2 (.mem (.pager 2)) ++
    [.handler 2, .handler 2, .handler 1, .mem (.store 1 .shell page0 word0 8)]

/-- Such a run, with a failed read: the shell's page is as the shell left it, and every descriptor
names a page mapped to its frame. -/
theorem contents_of_run_freeFrame : ∃ s t : Support 16,
    Run step (fun u e => ∀ f ∈ u.vmEvent e, Harmless u.vm f) blank resident s ∧
    Run step (fun u e => ∀ f ∈ u.vmEvent e, Harmless u.vm f) s freeFrameFails t ∧
    t.vm.proc 2 = none ∧ t.vm.content (.shell, page0) =
      storedBy (.shell, page0) (s.vm.content (.shell, page0)) freeFrameFails ∧
    ∀ k d, t.vm.swapPool k = some d → (t.vm.pgTbl d.page).entryLO = mapped k := by
  obtain ⟨s, hr, hno, hr'⟩ := exists_run step
    (fun u e => ∀ f ∈ u.vmEvent e, Harmless u.vm f)
    (fun s => (∀ q < s.vm.nextPid, ¬ s.vm.Inside q) ∧
      (execIf step (fun u e => ∀ f ∈ u.vmEvent e, Harmless u.vm f) s freeFrameFails).any
        (fun t => decide (t.vm.proc 2 = none ∧ ∀ q < t.vm.nextPid, ¬ t.vm.Inside q)) = true)
    blank resident (by decide +kernel)
  obtain ⟨t, hr', hgone, hno'⟩ := exists_run step _ _ s _ hr'
  have hg := (Good.boot _ _ _).reach hr
  have hs := hg.iso.excl.none_inside hno
  have ht := (hg.reach hr').iso.excl.none_inside hno'
  obtain ⟨-, hc, hd⟩ := contents_of_run _ _ _ hr hr'
  exact ⟨s, t, hr, hr', hgone, hc _ (VM.not_inTransit hs) (VM.not_inTransit ht),
    fun k d hk => hd k d hk (VM.not_busy ht k)⟩

/-- The shell fills the swap pool with its first pages; a program it executes evicts one of them
and cannot read its own. -/
def failedRead : List (SupportEvent 16) :=
  launch ++ (List.finRange 16).flatMap (fun i =>
    pageFault 1 (.shell, i.castLE (by decide)) i ++ pageIn 1) ++ execute 1 2 ++
  pageFault 2 (prog, page0) slot0 ++
  .replicate 7 (.mem (.pager 2)) ++ .mem (.flashDone 2 flashReady fun _ => 0) ::
  .replicate 4 (.mem (.pager 2)) ++ .mem (.flashDone 2 4 fun _ => 1) ::
  .replicate 2 (.mem (.pager 2))

/-- **A failed read after an eviction.**  After `failedRead` no process is in the pager, and the
descriptor of the frame still names the shell's page, which its page table does not map. -/
theorem failed_read_leaves_descriptor : ∃ s,
    Run step (fun u e => ∀ f ∈ u.vmEvent e, u.vm.TlbInvalid f ∧ u.vm.FreshInit f) blank
      failedRead s ∧ (∀ q, ¬ s.vm.Inside q) ∧
    ∃ d, s.vm.swapPool frame0 = some d ∧ d.page = (.shell, page0) ∧
      (s.vm.pgTbl d.page).entryLO &&& validOn = 0 := by
  obtain ⟨s, hr, hd, hno⟩ := exists_run step
    (fun u e => ∀ f ∈ u.vmEvent e, u.vm.TlbInvalid f ∧ u.vm.FreshInit f)
    (fun s => (∃ d ∈ s.vm.swapPool frame0, d.page = (.shell, page0) ∧
      (s.vm.pgTbl d.page).entryLO &&& validOn = 0) ∧ ∀ q < s.vm.nextPid, ¬ s.vm.Inside q)
    blank failedRead (by decide +kernel)
  have hx := ((Good.boot _ _ _).reach hr).iso.excl
  exact ⟨s, hr, hx.none_inside hno, hd⟩

end Support

end PandOS
