import PandOS.Lib.RoundRobin
import PandOS.Phase3.SwapPool

/-!
# Phase 3 — the choice of the victim

`swapFrameClock` takes the frames of the swap pool in turn.  The history of a run lists the
selections, the last first, each with the page that was then recorded for its frame, or `none` where
the pager did not get so far (`VM.placed`).  `VM.Fifo` is the invariant: the clock counts the
selections, a descriptor records the last page placed in its frame, and a pager that has selected a
frame and not yet recorded it is the last of the history.

`Support.fifo_of_run` says it of whole runs: the page that is evicted is the one placed `POOLSIZE`
selections before, unless that selection placed none.
-/

namespace PandOS

variable {n : ℕ}

namespace VM

variable {s t : VM n} {f : VmEvent n} {q q' : Pid} {a a' : Asid} {p p' : PageNo} {k : FrameNo}
  {l : List (Option PageId)}

/-! ### Selections -/

/-- The selections of frames, the last first, each with the page recorded for its frame. -/
def placed (s : VM n) : VmEvent n → List (Option PageId) → List (Option PageId)
  | .pager q, l =>
      match s.proc q with
      | some ⟨_, .pager _ .select⟩ => none :: l
      | some ⟨a, .pager p (.record _)⟩ => some (a, p) :: l.tail
      | _ => l
  | _, l => l

/-- The frame a pager has selected and not yet recorded. -/
def PagerPc.chosen : PagerPc → Option FrameNo
  | .evict k | .flush k _ | .write k _ _ | .read k _ | .record k => some k
  | _ => none

/-- The frame a pager evicts, with its descriptor. -/
def PagerPc.victim : PagerPc → Option (FrameNo × Swap)
  | .flush k old | .write k old _ => some (k, old)
  | _ => none

theorem chosen_inside {pc : PagerPc} (hk : PagerPc.chosen pc = some k) :
    pc.inside ∧ pc ≠ .select := by
  cases pc with
  | evict | flush | write | read | record => exact ⟨rfl, by simp⟩
  | _ => cases hk

theorem victim_chosen {pc : PagerPc} {old : Swap} (hk : PagerPc.victim pc = some (k, old)) :
    PagerPc.chosen pc = some k := by
  cases pc with
  | flush | write => cases hk; rfl
  | _ => cases hk

/-- The descriptor of the frame that is evicted is not touched. -/
theorem Iso.victim (h : s.Iso) {pc : PagerPc} {old : Swap} (hq : s.proc q = some ⟨a, .pager p pc⟩)
    (hv : PagerPc.victim pc = some (k, old)) : s.swapPool k = some old := by
  have hc := h.crit q a p pc hq
  cases pc with
  | flush | write => cases hv; exact hc.1
  | _ => cases hv

theorem Call.chosen {d b rw here next} (c : Call a p d b k rw here next) (pc : FlashPc) :
    PagerPc.chosen (here pc) = some k := by
  cases c <;> rfl

theorem Call.chosen_next {d b rw here next} (c : Call a p d b k rw here next) :
    PagerPc.chosen next = some k := by
  cases c <;> rfl

theorem Call.not_record {d b rw here next} (c : Call a p d b k rw here next) (pc : FlashPc)
    (j : FrameNo) : here pc ≠ .select ∧ here pc ≠ .record j := by
  cases c <;> exact ⟨by simp, by simp⟩

theorem placed_select (hq : s.proc q = some ⟨a, .pager p .select⟩) :
    s.placed (.pager q) l = none :: l := by
  simp [placed, hq]

theorem placed_record (hq : s.proc q = some ⟨a, .pager p (.record k)⟩) :
    s.placed (.pager q) l = some (a, p) :: l.tail := by
  simp [placed, hq]

theorem placed_other {pc : PagerPc} (hq : s.proc q = some ⟨a, .pager p pc⟩)
    (hne : ∀ k, pc ≠ .select ∧ pc ≠ .record k) : s.placed (.pager q) l = l := by
  cases pc with
  | select => exact absurd rfl (hne s.swapFrameClock).1
  | record k => exact absurd rfl (hne k).2
  | _ => simp [placed, hq]

/-! ### The invariant -/

/-- The frames are taken in turn, and the descriptors record what was placed in them. -/
structure Fifo (s : VM n) (l : List (Option PageId)) : Prop where
  clock : s.swapFrameClock.val = l.length % poolSize
  pool : ∀ k, (s.swapPool k).map Swap.page = lastIn poolSize l k.val
  chosen : ∀ q a p pc k, s.proc q = some ⟨a, .pager p pc⟩ → PagerPc.chosen pc = some k →
    ∃ l', l = none :: l' ∧ k.val = l'.length % poolSize

/-- A step that selects and records nothing. -/
theorem Fifo.keep (h : s.Fifo l) (hc : t.swapFrameClock = s.swapFrameClock)
    (hw : t.swapPool = s.swapPool)
    (hk : ∀ q a p pc k, t.proc q = some ⟨a, .pager p pc⟩ → PagerPc.chosen pc = some k →
      ∃ q a p pc, s.proc q = some ⟨a, .pager p pc⟩ ∧ PagerPc.chosen pc = some k) : t.Fifo l where
  clock := by rw [hc]; exact h.clock
  pool k := by rw [hw]; exact h.pool k
  chosen q a p pc k hq hpc := by
    obtain ⟨q', a', p', pc', hq', hpc'⟩ := hk q a p pc k hq hpc
    exact h.chosen q' a' p' pc' k hq' hpc'

/-- **The statements of the pager.** -/
theorem Fifo.stmt (h : s.Fifo l) (hx : s.Excl) {pc : PagerPc} (hst : Stmt s q a p pc t)
    (hq : s.proc q = some ⟨a, .pager p pc⟩) (hb : ¬ s.blocked q) :
    t.Fifo (s.placed (.pager q) l) := by
  -- nobody else has selected a frame
  have alone : pc.inside → ∀ j b r pc' k, j ≠ q → s.proc j = some ⟨b, .pager r pc'⟩ →
      PagerPc.chosen pc' ≠ some k := by
    intro hin j b r pc' k hne hj hpc'
    obtain ⟨hin', hsel⟩ := chosen_inside hpc'
    exact hsel (hx.others hq hin (fun hm => hb (.inl hm)) hj hin' hne)
  -- a statement that selects and records nothing
  have quiet : ∀ {c : Ctl}, (∀ k, pc ≠ .select ∧ pc ≠ .record k) →
      t.proc = Function.update s.proc q (some ⟨a, c⟩) → t.swapFrameClock = s.swapFrameClock →
      t.swapPool = s.swapPool →
      (∀ p' pc' k, c = .pager p' pc' → PagerPc.chosen pc' = some k →
        PagerPc.chosen pc = some k) → t.Fifo (s.placed (.pager q) l) := by
    intro c hne hp hc hw hk
    rw [placed_other hq hne]
    refine h.keep hc hw fun j b r pc' k hj hpc' => ?_
    rcases proc_update hp hj with ⟨-, hj⟩ | ⟨rfl, he⟩
    · exact ⟨j, b, r, pc', hj, hpc'⟩
    · cases he
      exact ⟨j, a, p, pc, hq, hk r pc' k rfl hpc'⟩
  cases hst with
  | enter => exact quiet (by simp) rfl rfl rfl (by rintro _ _ _ ⟨⟩ ⟨⟩)
  | select =>
      rw [placed_select hq]
      refine ⟨?_, fun k => ?_, fun j b r pc' k hj hpc' => ⟨l, rfl, ?_⟩⟩
      · show (s.swapFrameClock.val + 1) % poolSize = _
        rw [h.clock, Nat.mod_add_mod, List.length_cons]
      · rw [lastIn_take]
        exact h.pool k
      · rcases proc_update (q := q) rfl hj with ⟨hne, hj⟩ | ⟨-, he⟩
        · exact absurd hpc' (alone rfl j b r pc' k hne hj)
        · cases he
          cases hpc'
          exact h.clock
  | evict => exact quiet (by simp) rfl rfl rfl (by rintro _ _ _ ⟨⟩ hk; exact hk)
  | vacant => exact quiet (by simp) rfl rfl rfl (by rintro _ _ _ ⟨⟩ hk; exact hk)
  | flush => exact quiet (by simp) rfl rfl rfl (by rintro _ _ _ ⟨⟩ hk; exact hk)
  | acquire c =>
      refine quiet (c.not_record _) rfl rfl rfl ?_
      rintro _ _ _ ⟨⟩ hk
      rw [c.chosen] at hk ⊢
      exact hk
  | data0 c =>
      refine quiet (c.not_record _) rfl rfl rfl ?_
      rintro _ _ _ ⟨⟩ hk
      rw [c.chosen] at hk ⊢
      exact hk
  | command c =>
      refine quiet (c.not_record _) rfl rfl rfl ?_
      rintro _ _ _ ⟨⟩ hk
      rw [c.chosen] at hk ⊢
      exact hk
  | @release d b k rw here next status c =>
      refine quiet (c.not_record _) rfl rfl rfl ?_
      rintro _ _ _ ⟨⟩ hk
      rw [c.chosen]
      by_cases hr : status = flashReady
      · rwa [if_pos hr, c.chosen_next] at hk
      · rw [if_neg hr] at hk
        cases hk
  | @record k =>
      obtain ⟨l, rfl, hlast⟩ := h.chosen q a p _ k hq rfl
      rw [placed_record hq, List.tail_cons]
      refine ⟨h.clock, fun j => ?_, fun j b r pc' i hj hpc' => ?_⟩
      · have hj := h.pool j
        rw [lastIn_take] at hj
        rw [lastIn_put, ← hlast, ← hj]
        show (Function.update s.swapPool k _ j).map Swap.page = _
        by_cases hjk : j = k
        · rw [hjk, Function.update_self, if_pos rfl]
          rfl
        · rw [Function.update_of_ne hjk, if_neg fun he => hjk (Fin.ext he.symm)]
      · rcases proc_update (q := q) rfl hj with ⟨hne, hj⟩ | ⟨-, he⟩
        · exact absurd hpc' (alone rfl j b r pc' i hne hj)
        · cases he
          cases hpc'
  | validate => exact quiet (by simp) rfl rfl rfl (by rintro _ _ _ ⟨⟩ ⟨⟩)
  | update => exact quiet (by simp) rfl rfl rfl (by rintro _ _ _ ⟨⟩ ⟨⟩)
  | leave => exact quiet (by simp) rfl rfl rfl (by rintro _ _ _ ⟨⟩ ⟨⟩)
  | abort => exact quiet (by simp) rfl rfl rfl (by rintro _ _ _ ⟨⟩)
  | ret => exact quiet (by simp) rfl rfl rfl (by rintro _ _ _ ⟨⟩)

/-- **The step lemma.** -/
theorem Fifo.step (h : s.Fifo l) (hx : s.Excl) (hs : Step s f t) : t.Fifo (s.placed f l) := by
  -- a process that enters no statement with a frame
  have moved : ∀ {i : Pid} {x : Option Proc} {u : VM n}, u.proc = Function.update s.proc i x →
      u.swapFrameClock = s.swapFrameClock → u.swapPool = s.swapPool →
      (∀ a p pc k, x = some ⟨a, .pager p pc⟩ → PagerPc.chosen pc ≠ some k) → u.Fifo l := by
    intro i x u hp hc hw hx
    refine h.keep hc hw fun j b r pc k hj hpc => ?_
    rcases proc_update hp hj with ⟨-, hj⟩ | ⟨-, he⟩
    · exact ⟨j, b, r, pc, hj, hpc⟩
    · exact absurd hpc (hx b r pc k he)
  have same : ∀ {u : VM n}, u.proc = s.proc → u.swapFrameClock = s.swapFrameClock →
      u.swapPool = s.swapPool → u.Fifo l := fun hp hc hw =>
    h.keep hc hw fun j b r pc k hj hpc => ⟨j, b, r, pc, hp ▸ hj, hpc⟩
  cases hs with
  | initPte => exact same rfl rfl rfl
  | create => exact moved (i := s.nextPid) rfl rfl rfl (by rintro _ _ _ _ ⟨⟩)
  | load => exact h
  | store => exact same rfl rfl rfl
  | refill => exact same rfl rfl rfl
  | faultMod => exact moved rfl rfl rfl (by rintro _ _ _ _ ⟨⟩)
  | fault => exact moved rfl rfl rfl (by rintro _ _ _ _ ⟨⟩ ⟨⟩)
  | pager hq hb hst => exact h.stmt hx hst hq hb
  | @flashDone q a p d b k rw here next status junk u c hq hf =>
      obtain ⟨fl, fr, rfl⟩ := flashPerform_frame hf
      refine h.keep rfl rfl fun j b' r pc i hj hpc => ?_
      rcases proc_update (q := q) rfl hj with ⟨-, hj⟩ | ⟨-, he⟩
      · exact ⟨j, b', r, pc, hj, hpc⟩
      · cases he
        rw [c.chosen] at hpc
        exact ⟨q, a, p, _, hq, (c.chosen _).trans hpc⟩
  | die => exact moved rfl rfl rfl (by rintro _ _ _ _ ⟨⟩)
  | exit => exact moved (x := none) rfl rfl rfl (by rintro _ _ _ _ ⟨⟩)

theorem Fifo.boot (flash : PageId → Page) (frame : FrameNo → Page) (reg : Asid → FlashReg) :
    (VM.boot flash frame reg : VM n).Fifo [] :=
  ⟨rfl, fun _ => rfl, by rintro _ _ _ _ _ ⟨⟩⟩

end VM

namespace Support

variable {s t : Support n} {e : SupportEvent n} {es : List (SupportEvent n)}
  {l : List (Option PageId)}

/-- The selections of frames along a run of the Support Level. -/
def placements (s : Support n) (e : SupportEvent n) (_ : Support n)
    (l : List (Option PageId)) : List (Option PageId) :=
  match s.vmEvent e with
  | some f => s.vm.placed f l
  | none => l

theorem Good.fifo_step (hg : s.Good) (h : s.vm.Fifo l) (hs : Step s e t) :
    t.vm.Fifo (placements s e t l) := by
  cases hg.under hs with
  | step f hf hst =>
      rw [placements, hf]
      exact h.step hg.iso.excl (VM.step_view hst)
  | exits j hf hr =>
      rw [placements, hf]
      refine (hr.inv (I := fun u => u.Excl ∧ u.Fifo l) ⟨hg.iso.excl, h⟩ ?_).2
      rintro u _ v ⟨hx, hu⟩ ⟨i, rfl⟩ hst
      exact ⟨hx.step (VM.step_view hst), hu.step hx (VM.step_view hst)⟩

/-- **First in, first out.**  On every run, whatever the devices answer: the frames are selected in
turn; a descriptor records the page last placed in its frame, and every page placed by one of the
last `POOLSIZE` selections; and the page a pager evicts is the one placed `POOLSIZE` selections
before, unless that selection placed none. -/
theorem fifo_of_run (flash : PageId → Page) (frame : FrameNo → Page) (reg : Asid → FlashReg)
    (hr : Run step anyStep (boot flash frame reg : Support n) es s) :
    ∃ l, Run (record step placements) anyStep (boot flash frame reg, []) es (s, l) ∧
      s.vm.swapFrameClock.val = l.length % poolSize ∧
      (∀ k, (s.vm.swapPool k).map Swap.page = lastIn poolSize l k.val) ∧
      (∀ i < poolSize, ∀ r, l[i]? = some (some r) →
        ∃ k d, k.val = (l.length - 1 - i) % poolSize ∧ s.vm.swapPool k = some d ∧ d.page = r) ∧
      ∀ q a p pc k old, s.vm.proc q = some ⟨a, .pager p pc⟩ →
        VM.PagerPc.victim pc = some (k, old) →
        ∃ l', l = none :: l' ∧ k.val = l'.length % poolSize ∧ s.vm.swapPool k = some old ∧
          ∀ r, l'[poolSize - 1]? = some (some r) → old.page = r := by
  obtain ⟨l, hl⟩ := hr.recorded placements []
  have hinv : s.Good ∧ s.vm.Fifo l := by
    refine hl.inv (I := fun x => x.1.Good ∧ x.1.vm.Fifo x.2)
      ⟨.boot flash frame reg, .boot flash frame reg⟩ ?_
    rintro x e y ⟨hg, h⟩ - hy
    obtain ⟨hst, hnote⟩ := record_eq_some hy
    rw [hnote]
    exact ⟨hg.step (step_view hst), hg.fifo_step h (step_view hst)⟩
  obtain ⟨hg, h⟩ := hinv
  refine ⟨l, hl, h.clock, h.pool, fun i hi r hr => ?_, fun q a p pc k old hq hv => ?_⟩
  · have hk := h.pool ⟨(l.length - 1 - i) % poolSize, Nat.mod_lt _ poolSize_pos⟩
    rw [lastIn_recent hi hr] at hk
    obtain ⟨d, hd, he⟩ := Option.map_eq_some_iff.mp hk
    exact ⟨_, d, rfl, hd, he⟩
  · obtain ⟨l', rfl, hk⟩ := h.chosen q a p pc k hq (VM.victim_chosen hv)
    have hold := hg.iso.victim hq hv
    refine ⟨l', rfl, hk, hold, fun r hr => ?_⟩
    have hpool := h.pool k
    rw [hold, lastIn_take, hk, lastIn_next poolSize_pos hr] at hpool
    exact Option.some.inj hpool

/-- The shell fills the swap pool with its first pages and faults on the next one, up to the
write of the page it evicts. -/
def overflow : List (SupportEvent 16) :=
  launch ++ (List.finRange 16).flatMap (fun i =>
    pageFault 1 (.shell, .ofNat 32 i.val) i ++ pageIn 1) ++
  pageFault 1 (.shell, .ofNat 32 16) slot0 ++ .replicate 4 (.mem (.pager 1))

/-- The page it evicts is its first. -/
theorem fifo_of_run_overflow : ∃ (s : Support 16) (pc : PagerPc) (old : Swap),
    Run step anyStep blank overflow s ∧
      s.vm.proc 1 = some ⟨.shell, .pager (.ofNat 32 16) pc⟩ ∧
      VM.PagerPc.victim pc = some (frame0, old) ∧ old.page = (.shell, page0) := by
  let old : Swap := ⟨.shell, page0, (.shell, page0)⟩
  obtain ⟨⟨s, l⟩, hr, hq, hl⟩ := exists_run (record step placements) anyStep
    (fun x => x.1.vm.proc 1 = some ⟨.shell, .pager (.ofNat 32 16) (.write frame0 old .acquire)⟩ ∧
      x.2[16]? = some (some (.shell, page0))) (blank, []) overflow (by decide +kernel)
  obtain ⟨l', hr', -, -, -, hold⟩ := fifo_of_run _ _ _ hr.forget
  cases hr.det hr'
  obtain ⟨l, rfl, -, -, hvictim⟩ := hold 1 .shell _ _ frame0 old hq rfl
  exact ⟨s, _, old, hr.forget, hq, rfl, hvictim _ hl⟩

end Support

end PandOS
