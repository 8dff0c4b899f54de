import PandOS.Phase3.SwapPool

/-!
# Phase 3 — demand paging is transparent

`VM.transparent_of_run`: while each ASID is launched at most once, every run of the pager machine
is, event by event, a run of a memory of 32 pages for each ASID (`flatStep`), which starts as the
flash devices do; so a load returns the value of the latest store of its ASID to the word, or the
word of the flash block if there was none.

The runs are those of any number of processes; flash operations succeed and the pager is entered
for pages with V = 0 (`VM.Paging`).
-/

namespace PandOS

variable {n : ℕ}

/-! ### The flat memory -/

/-- The flat memory: a load returns what is there, a store replaces it, and nothing else happens. -/
def flatStep (m : PageId → Page) : VmEvent n → Option (PageId → Page)
  | .load _ a p w v => if m (a, p) w = v then some m else none
  | e => some fun r => e.stored r (m r)

/-- What an event stores to word `w` of page `r`. -/
def VmEvent.storeTo (r : PageId) (w : Fin (pageSize / wordLen)) : VmEvent n → Option Word
  | .store _ a p w' v => if (a, p) = r ∧ w' = w then some v else none
  | _ => none

/-- The value of the latest store to word `w` of page `r`. -/
def latestStore (r : PageId) (w : Fin (pageSize / wordLen)) (es : List (VmEvent n)) : Option Word :=
  es.reverse.findSome? (VmEvent.storeTo r w)

theorem VmEvent.stored_apply (r : PageId) (w : Fin (pageSize / wordLen)) (c : Page)
    (e : VmEvent n) : e.stored r c w = (e.storeTo r w).getD (c w) := by
  cases e with
  | store q a p w' v =>
      by_cases hr : (a, p) = r
      · by_cases hw : w' = w
        · subst hw; simp [VmEvent.stored, VmEvent.storeTo, hr]
        · simp [VmEvent.stored, VmEvent.storeTo, hr, hw, Function.update_of_ne (Ne.symm hw)]
      · simp [VmEvent.stored, VmEvent.storeTo, hr]
  | _ => rfl

/-- A word is what the latest store says, if there was one. -/
theorem storedBy_apply (r : PageId) (w : Fin (pageSize / wordLen)) (c : Page)
    (es : List (VmEvent n)) : storedBy r c es w = (latestStore r w es).getD (c w) := by
  induction es using List.reverseRecOn with
  | nil => rfl
  | append_singleton es e ih =>
      have hs : storedBy r c (es ++ [e]) = e.stored r (storedBy r c es) := by simp [storedBy]
      have hl : latestStore r w (es ++ [e]) = (e.storeTo r w).or (latestStore r w es) := by
        simp [latestStore, List.findSome?_cons]
        cases e.storeTo r w <;> rfl
      rw [hs, hl, VmEvent.stored_apply, ih]
      cases e.storeTo r w <;> rfl

namespace VM

variable {s t : VM n} {e : VmEvent n} {es : List (VmEvent n)} {q : Pid} {a : Asid} {p : PageNo}
  {k : FrameNo}

/-! ### Launched once -/

/-- The ASID an event launches. -/
def launches : VmEvent n → Option Asid
  | .create a => some a
  | _ => none

/-- The ASID whose page table an event initialises, or which it launches. -/
def prepares : VmEvent n → Option Asid
  | .create a => some a
  | .initPte r => some r.1
  | _ => none

/-- Each ASID is launched at most once: once a process of `a` is created, `a` is not initialised
or created again. -/
def LaunchOnce (es : List (VmEvent n)) : Prop :=
  es.Pairwise fun e f => ∀ a ∈ launches e, prepares f ≠ some a

instance : Decidable (LaunchOnce es) := inferInstanceAs (Decidable (es.Pairwise _))

/-- Processes and descriptors are of ASIDs launched so far. -/
structure Launched (s : VM n) (es : List (VmEvent n)) : Prop where
  proc : ∀ q pr, s.proc q = some pr → .create pr.asid ∈ es
  named : ∀ k d, s.swapPool k = some d → .create d.page.1 ∈ es

/-- A descriptor is written by a process, for a page of its ASID. -/
theorem Step.named {d : Swap} (h : Step s e t) (hd : t.swapPool k = some d) :
    s.swapPool k = some d ∨ ∃ q c, s.proc q = some ⟨d.page.1, c⟩ := by
  cases h with
  | @pager q a p pc t hq hb hst =>
      cases hst with
      | @record k' =>
          have hd' : Function.update s.swapPool k' (some ⟨a, p, (a, p)⟩) k = some d := hd
          rw [Function.update_apply] at hd'
          split at hd'
          · cases hd'; exact .inr ⟨q, _, hq⟩
          · exact .inl hd'
      | _ => exact .inl hd
  | flashDone _ _ hu => exact .inl ((congrFun (flashPerform_mem hu).2.2 k).symm.trans hd)
  | _ => exact .inl hd

/-- After a step, processes and descriptors are of ASIDs launched so far. -/
theorem Launched.step (h : s.Launched es) (hs : Step s e t) : t.Launched (es ++ [e]) where
  proc q pr hq := by
    rcases hs.live_from hq with ⟨c, hold⟩ | ⟨⟨a, rfl⟩, rfl⟩
    · exact List.mem_append_left _ (h.proc q ⟨pr.asid, c⟩ hold)
    · cases hs with
      | create =>
          rcases proc_update (q := s.nextPid) rfl hq with ⟨hne, -⟩ | ⟨-, he⟩
          · exact absurd rfl hne
          · cases he; simp
  named k d hd := by
    rcases hs.named hd with hold | ⟨q, c, hq⟩
    · exact List.mem_append_left _ (h.named k d hold)
    · exact List.mem_append_left _ (h.proc q ⟨d.page.1, c⟩ hq)

theorem Launched.fresh (h : s.Launched es) (ho : LaunchOnce (es ++ [e])) : s.FreshInit e := by
  cases e with
  | initPte r =>
      intro k d hd hr
      have hc : .create r.1 ∈ es := hr ▸ h.named k d hd
      obtain ⟨-, -, hes⟩ := List.pairwise_append.mp ho
      exact hes _ hc _ (List.mem_singleton_self _) r.1 rfl rfl
  | _ => trivial

/-! ### The simulation -/

/-- On every run the pages in frames and on flash are the flat memory of the stores. -/
theorem flat_run (flash : PageId → Page) (frame : FrameNo → Page) (reg : Asid → FlashReg)
    (hr : Run step Paging (boot flash frame reg : VM n) es s) (ho : LaunchOnce es) :
    s.Paged ∧ s.Launched es ∧ s.Sim (fun r => storedBy r (flash r) es) ∧
      Run flatStep anyStep flash es fun r => storedBy r (flash r) es := by
  induction hr with
  | nil =>
      refine ⟨.boot flash frame reg, ⟨by rintro _ _ ⟨⟩, by rintro _ _ ⟨⟩⟩, ⟨?_, ?_⟩, .nil _⟩
      · rintro k r ⟨⟨d, hd, -⟩, -⟩; cases hd
      · exact fun _ _ => rfl
  | @snoc u t es e hr hc hs ih =>
      obtain ⟨hp, hl, hm, hf⟩ := ih (List.pairwise_append.mp ho).1
      have hst := step_view hs
      have hcf := careful_of_paging hc (hl.fresh ho)
      have hnext : (fun r => storedBy r (flash r) (es ++ [e])) =
          fun r => e.stored r (storedBy r (flash r) es) := by
        funext r
        simp [storedBy]
      rw [hnext]
      refine ⟨hp.step hst hcf, hl.step hst, hm.step hp.tidy hp.copied hst hcf,
        .snoc hf trivial ?_⟩
      cases e with
      | load q a p w v =>
          have hv : storedBy (a, p) (flash (a, p)) es w = v := (hm.load hp.tidy.iso hst).symm
          exact if_pos hv
      | _ => rfl

/-- **Demand paging is transparent.**  With each ASID launched at most once, every flash operation
successful and the pager entered for pages with V = 0 only, a load of a word returns the value of
the latest store to it by the same ASID, or the word of the flash block if there was none: every
run is a run of the flat memory, over the same events. -/
theorem transparent_of_run (flash : PageId → Page) (frame : FrameNo → Page) (reg : Asid → FlashReg)
    (hr : Run step Paging (boot flash frame reg : VM n) es s) (ho : LaunchOnce es) :
    (∀ q a p w v t, s.step (.load q a p w v) = some t →
      v = (latestStore (a, p) w es).getD (flash (a, p) w)) ∧
    Run flatStep anyStep flash es fun r => storedBy r (flash r) es := by
  obtain ⟨hp, -, hm, hf⟩ := flat_run flash frame reg hr ho
  refine ⟨fun q a p w v t hs => ?_, hf⟩
  rw [hm.load hp.tidy.iso (step_view hs), storedBy_apply]

/-- The frame after `Support.frame0`. -/
def frame1 : FrameNo := (Fin.last 1).castLE (by decide)

/-- Process 1, of ASID `a`, faults on page `p`, which is read into a free frame. -/
def readIn (a : Asid) (p : PageNo) : List (VmEvent 16) :=
  [.refill 1 (entryHI (a, p)) Support.slot0, .fault 1 (entryHI (a, p)) 27] ++
    .replicate 6 (.pager 1) ++ .flashDone 1 flashReady (fun _ => 0) :: .replicate 6 (.pager 1)

/-- It faults on page `p`, and a page is evicted for it. -/
def evictFor (a : Asid) (p : PageNo) : List (VmEvent 16) :=
  [.refill 1 (entryHI (a, p)) Support.slot0, .fault 1 (entryHI (a, p)) 27] ++
    .replicate 7 (.pager 1) ++ .flashDone 1 flashReady (fun _ => 0) ::
    .replicate 4 (.pager 1) ++ .flashDone 1 flashReady (fun _ => 0) :: .replicate 6 (.pager 1)

/-- The process stores 7 in its page 0, and its pages 1 to 15 fill the swap pool; for page 16 page 0
is evicted, and for page 0 page 1. -/
def storeRun (a : Asid) : List (VmEvent 16) :=
  (List.finRange maxPages).map (fun p => .initPte (a, p)) ++
    .create a :: readIn a Support.page0 ++ .store 1 a Support.page0 Support.word0 7 ::
    (List.finRange 15).flatMap (fun i => readIn a (i.succ.castLE (by decide))) ++
    evictFor a ((Fin.last 16).castLE (by decide)) ++ evictFor a Support.page0

/-- It loads 7 from the page that was read back. -/
theorem transparent_of_run_evicted : ∃ s t,
    Run step Paging (boot (fun _ _ => 0) (fun _ _ => 0) fun _ => ⟨0, 0⟩ : VM 16)
      (storeRun Support.prog) s ∧
    s.access (Support.prog, Support.page0) = some frame1 ∧
    s.step (.load 1 Support.prog Support.page0 Support.word0 7) = some t ∧
    (7 : Word) = (latestStore (Support.prog, Support.page0) Support.word0
      (storeRun Support.prog)).getD 0 := by
  obtain ⟨s, hr, ha, hs⟩ := exists_run step Paging
    (fun s => s.access (Support.prog, Support.page0) = some frame1 ∧
      (s.step (.load 1 Support.prog Support.page0 Support.word0 7)).isSome)
    (boot (fun _ _ => 0) (fun _ _ => 0) fun _ => ⟨0, 0⟩)
    (storeRun Support.prog) (by decide +kernel)
  obtain ⟨t, ht⟩ := Option.isSome_iff_exists.mp hs
  exact ⟨s, t, hr, ha, ht, (transparent_of_run _ _ _ hr (by decide +kernel)).1 _ _ _ _ _ _ ht⟩

end VM

end PandOS
