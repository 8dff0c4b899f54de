import PandOS.Phase3.Consistency

/-!
# Phase 3 — one flat memory for each ASID

What demand paging is for: a U-proc sees 32 pages of its own.  `VM.Sim s m` says that the flat
memory `m` is what the frames and the flash blocks of `s` amount to: a page that a frame holds
(`VM.Holds`) has the frame's words, any other page the words of its block.  A descriptor whose
frame a new page is being read into holds nothing: its page was written back.

`Sim.step` is the simulation: on a careful run every step is matched by the flat memory, which
changes at stores only, and `Sim.load` says that a load returns what the flat memory has.  It
rests on what the pager knows about its transfer (`VM.Copy`): the registers of the device, and
that block and frame agree once the device has answered.
-/

namespace PandOS

variable {n : ℕ}

/-- Page `r` after an event, if its words were `c`. -/
def VmEvent.stored (r : PageId) (c : Page) : VmEvent n → Page
  | .store _ a p w v => if (a, p) = r then Function.update c w v else c
  | _ => c

/-- Page `r` after the events `es`, if its words were `c`. -/
def storedBy (r : PageId) (c : Page) (es : List (VmEvent n)) : Page :=
  es.foldl (fun c e => e.stored r c) c

namespace VM

variable {s t : VM n} {e : VmEvent n} {q q' : Pid} {a a' : Asid} {p p' : PageNo} {k : FrameNo}

/-! ### Who holds a page -/

/-- A page is being read into the frame, or was and is not yet recorded. -/
def PagerPc.loading : PagerPc → Option FrameNo
  | .read k _ | .record k => some k
  | _ => none

/-- A pager is filling the frame. -/
def Loading (s : VM n) (k : FrameNo) : Prop :=
  ∃ q a p pc, s.proc q = some ⟨a, .pager p pc⟩ ∧ PagerPc.loading pc = some k

/-- The current words of page `r` are in frame `k`. -/
def Holds (s : VM n) (k : FrameNo) (r : PageId) : Prop :=
  (∃ d, s.swapPool k = some d ∧ d.page = r) ∧ ¬ s.Loading k

/-- The flat memory `m` is what `s` amounts to. -/
structure Sim (s : VM n) (m : PageId → Page) : Prop where
  resident : ∀ k r, s.Holds k r → s.frame k = m r
  absent : ∀ r, (∀ k, ¬ s.Holds k r) → s.flash r = m r

theorem loading_taken {pc : PagerPc} (h : PagerPc.loading pc = some k) :
    PagerPc.taken pc = some k := by
  cases pc with
  | read | record => exact h
  | _ => cases h

theorem Loading.busy (h : s.Loading k) : s.Busy k := by
  obtain ⟨q, a, p, pc, hq, hpc⟩ := h
  exact ⟨q, a, p, pc, hq, loading_taken hpc⟩

/-- Nothing translates to a frame a page is being read into. -/
theorem Loading.detached (h : s.Loading k) (hs : s.Iso) : s.Detached k := by
  obtain ⟨q, a, p, pc, hq, hpc⟩ := h
  have hc := hs.crit q a p pc hq
  cases pc with
  | read | record => cases hpc; exact hc
  | _ => cases hpc

theorem Holds.once (hs : s.Tidy) {k' : FrameNo} {r : PageId} (h : s.Holds k r)
    (h' : s.Holds k' r) : k = k' := by
  obtain ⟨⟨d, hd, hr⟩, -⟩ := h
  obtain ⟨⟨d', hd', hr'⟩, -⟩ := h'
  exact hs.once hd hd' (hr.trans hr'.symm)

/-- What a U-proc reaches through the TLB is held for its page. -/
theorem Holds.of_lookup (hs : s.Iso) {r : PageId} {lo : Word}
    (hl : s.tlb.lookup (entryHI r) = some lo) (hk : translate lo = some k) : s.Holds k r := by
  obtain ⟨i, hi⟩ := Tlb.lookup_some hl
  obtain ⟨d, hd, he⟩ := hs.mem.tlb i _ _ k hi hk
  refine ⟨⟨d, hd, (entryHI_injective he).symm⟩, fun hld => ?_⟩
  exact (hld.detached hs).tlb i _ _ hi hk

theorem Holds.of_access (hs : s.Iso) {r : PageId} (h : s.access r = some k) : s.Holds k r := by
  obtain ⟨lo, hl, hk⟩ := Option.bind_eq_some_iff.mp h
  exact .of_lookup hs hl hk

theorem Holds.of_accessStore (hs : s.Iso) {r : PageId} (h : s.accessStore r = some k) :
    s.Holds k r := by
  obtain ⟨lo, hl, hk⟩ := Option.bind_eq_some_iff.mp h
  by_cases hd : lo &&& dirtyOn = 0
  · rw [if_pos hd] at hk; cases hk
  · rw [if_neg hd] at hk
    exact .of_lookup hs hl hk

open Classical in
/-- The flat memory of a state: the frame that holds a page, else the flash block. -/
noncomputable def flat (s : VM n) (r : PageId) : Page :=
  if h : ∃ k, s.Holds k r then s.frame h.choose else s.flash r

/-- Every state has its flat memory. -/
theorem sim_flat (hs : s.Tidy) : s.Sim s.flat := by
  refine ⟨fun k r hk => ?_, fun r hr => ?_⟩
  · have h : ∃ k, s.Holds k r := ⟨k, hk⟩
    rw [flat, dif_pos h, h.choose_spec.once hs hk]
  · rw [flat, dif_neg fun ⟨k, hk⟩ => hr k hk]

/-- It has no other. -/
theorem Sim.eq_flat {m : PageId → Page} (h : s.Sim m) (r : PageId) : s.flat r = m r := by
  by_cases hr : ∃ k, s.Holds k r
  · rw [flat, dif_pos hr]
    exact h.resident _ r hr.choose_spec
  · rw [flat, dif_neg hr]
    exact h.absent r fun k hk => hr ⟨k, hk⟩

/-! ### A transfer -/

/-- The registers of the device of a call of `flashIO`. -/
def Programmed (s : VM n) (d : Asid) (b : PageNo) (k : FrameNo) (rw : Word) : FlashPc → Prop
  | .command => (s.flashReg d).data0 = framePhysAddr k
  | .busy => s.flashReg d = ⟨framePhysAddr k, flashCommand b rw⟩
  | _ => True

/-- What the pager of ASID `a` for page `p` knows about its transfer. -/
def Copy (s : VM n) (a : Asid) (p : PageNo) : PagerPc → Prop
  | .write k old pc => s.Programmed old.sw_asid old.sw_pageNo k flashWrite pc ∧
      (pc = .release flashReady → s.flash old.page = s.frame k)
  | .read k pc => s.Programmed a p k flashRead pc ∧
      (pc = .release flashReady → s.frame k = s.flash (a, p))
  | .record k => s.frame k = s.flash (a, p)
  | _ => True

/-- What each pager knows about its transfer is so. -/
def Copied (s : VM n) : Prop :=
  ∀ q a p pc, s.proc q = some ⟨a, .pager p pc⟩ → s.Copy a p pc

theorem flashPerform_write {d : Asid} {b : PageNo} {status : Word} {junk : Page}
    (hr : s.flashReg d = ⟨framePhysAddr k, flashCommand b flashWrite⟩)
    (h : s.flashPerform d status junk = some t) :
    t = if status = flashReady then s.setBlock (d, b) (s.frame k) else s := by
  have hne : flashWrite ≠ flashRead := by decide
  rw [flashPerform, hr, frameOf_framePhysAddr, Option.bind_some,
    flashCommand_block b _ (.inr rfl), Option.bind_some, flashCommand_rw b _ (.inr rfl),
    if_neg hne, if_pos rfl] at h
  exact (Option.some.inj h).symm

theorem flashPerform_read {d : Asid} {b : PageNo} {status : Word} {junk : Page}
    (hr : s.flashReg d = ⟨framePhysAddr k, flashCommand b flashRead⟩)
    (h : s.flashPerform d status junk = some t) :
    t = s.setFrame k (if status = flashReady then s.flash (d, b) else junk) := by
  rw [flashPerform, hr, frameOf_framePhysAddr, Option.bind_some,
    flashCommand_block b _ (.inl rfl), Option.bind_some, flashCommand_rw b _ (.inl rfl),
    if_pos rfl] at h
  exact (Option.some.inj h).symm

theorem Programmed.mono {d : Asid} {b : PageNo} {rw : Word} {pc : FlashPc}
    (h : s.Programmed d b k rw pc) (hr : t.flashReg = s.flashReg) : t.Programmed d b k rw pc := by
  cases pc with
  | command => rw [Programmed, hr]; exact h
  | busy => rw [Programmed, hr]; exact h
  | _ => trivial

/-- A step that leaves registers, flash and the frame taken leaves what a pager knows. -/
theorem Copy.mono {pc : PagerPc} (h : s.Copy a p pc) (hr : t.flashReg = s.flashReg)
    (hb : t.flash = s.flash)
    (hf : ∀ k, PagerPc.taken pc = some k → s.Detached k → t.frame k = s.frame k)
    (hc : s.Crit a p pc) : t.Copy a p pc := by
  cases pc with
  | write k old pc =>
      refine ⟨h.1.mono hr, fun hpc => ?_⟩
      rw [hb, hf k rfl hc.2]
      exact h.2 hpc
  | read k pc =>
      refine ⟨h.1.mono hr, fun hpc => ?_⟩
      rw [hb, hf k rfl hc]
      exact h.2 hpc
  | record k => exact (hf k rfl hc).trans (h.trans (congrFun hb _).symm)
  | _ => trivial

/-- A step that leaves devices and blocks alone, and of the frames changes only what something
translates to. -/
theorem Copied.mono (h : s.Copied) (hs : s.Iso) (hr : t.flashReg = s.flashReg)
    (hb : t.flash = s.flash) (hf : ∀ k, s.Detached k → t.frame k = s.frame k)
    (hnew : ∀ q a p pc, t.proc q = some ⟨a, .pager p pc⟩ →
      s.proc q = some ⟨a, .pager p pc⟩ ∨ t.Copy a p pc) : t.Copied := fun q a p pc hq =>
  (hnew q a p pc hq).elim
    (fun hq => (h q a p pc hq).mono hr hb (fun k _ => hf k) (hs.crit q a p pc hq)) id

/-- A statement of the pager keeps what each pager knows about its transfer. -/
theorem Stmt.copied {pc : PagerPc} (hst : Stmt s q a p pc t) (h : s.Copied) (hs : s.Iso)
    (hq : s.proc q = some ⟨a, .pager p pc⟩) (hb : ¬ s.blocked q) : t.Copied := by
  have hcopy := h q a p pc hq
  have new : ∀ {c : Ctl} {u : VM n}, u.proc = Function.update s.proc q (some ⟨a, c⟩) →
      (∀ p pc, c = .pager p pc → u.Copy a p pc) → ∀ q a p pc,
      u.proc q = some ⟨a, .pager p pc⟩ → s.proc q = some ⟨a, .pager p pc⟩ ∨ u.Copy a p pc := by
    intro c u hp hc j b r pc hj
    rcases proc_update hp hj with ⟨-, hj⟩ | ⟨-, hpr⟩
    · exact .inl hj
    · cases hpr; exact .inr (hc _ _ rfl)
  -- the buffers change only inside, where the others are not
  have alone : ∀ {c : Ctl} {u : VM n}, pc.inside →
      u.proc = Function.update s.proc q (some ⟨a, c⟩) →
      (∀ p pc, c = .pager p pc → u.Copy a p pc) → u.Copied := by
    intro c u hin hp hc j b r pc' hj
    rcases proc_update hp hj with ⟨hne, hj⟩ | ⟨-, hpr⟩
    · cases hin' : pc'.inside with
      | false => cases pc' <;> trivial
      | true =>
          rw [hs.excl.others hq hin (fun hm => hb (.inl hm)) hj hin' hne]
          trivial
    · cases hpr; exact hc _ _ rfl
  cases hst with
  | enter => exact h.mono hs rfl rfl (fun _ _ => rfl) (new rfl (by rintro _ _ ⟨⟩; trivial))
  | select => exact h.mono hs rfl rfl (fun _ _ => rfl) (new rfl (by rintro _ _ ⟨⟩; trivial))
  | evict => exact h.mono hs rfl rfl (fun _ _ => rfl) (new rfl (by rintro _ _ ⟨⟩; trivial))
  | vacant =>
      refine h.mono hs rfl rfl (fun _ _ => rfl) (new rfl ?_)
      rintro _ _ ⟨⟩
      exact ⟨trivial, by rintro ⟨⟩⟩
  | flush =>
      refine h.mono hs rfl rfl (fun _ _ => rfl) (new rfl ?_)
      rintro _ _ ⟨⟩
      exact ⟨trivial, by rintro ⟨⟩⟩
  | acquire c =>
      refine h.mono hs rfl rfl (fun _ _ => rfl) (new rfl ?_)
      rintro _ _ ⟨⟩
      cases c <;> exact ⟨trivial, by rintro ⟨⟩⟩
  | @data0 d b k rw here next c =>
      refine alone (c.inside _).1 rfl ?_
      rintro _ _ ⟨⟩
      cases c <;>
        exact ⟨congrArg FlashReg.data0 (Function.update_self _ _ s.flashReg), by rintro ⟨⟩⟩
  | @command d b k rw here next c =>
      refine alone (c.inside _).1 rfl ?_
      rintro _ _ ⟨⟩
      cases c with
      | write k old =>
          refine ⟨(Function.update_self _ _ s.flashReg).trans ?_, by rintro ⟨⟩⟩
          exact congrArg (FlashReg.mk · _) hcopy.1
      | read k =>
          refine ⟨(Function.update_self _ _ s.flashReg).trans ?_, by rintro ⟨⟩⟩
          exact congrArg (FlashReg.mk · _) hcopy.1
  | @release d b k rw here next status c =>
      refine h.mono hs rfl rfl (fun _ _ => rfl) (new rfl ?_)
      intro p' pc' hc
      by_cases hr : status = flashReady
      · subst hr
        cases c with
        | write k old => cases hc; exact ⟨trivial, by rintro ⟨⟩⟩
        | read k => cases hc; exact hcopy.2 rfl
      · rw [if_neg hr] at hc
        cases hc
        trivial
  | record => exact h.mono hs rfl rfl (fun _ _ => rfl) (new rfl (by rintro _ _ ⟨⟩; trivial))
  | validate => exact h.mono hs rfl rfl (fun _ _ => rfl) (new rfl (by rintro _ _ ⟨⟩; trivial))
  | update => exact h.mono hs rfl rfl (fun _ _ => rfl) (new rfl (by rintro _ _ ⟨⟩; trivial))
  | leave => exact h.mono hs rfl rfl (fun _ _ => rfl) (new rfl (by rintro _ _ ⟨⟩; trivial))
  | abort => exact h.mono hs rfl rfl (fun _ _ => rfl) (new rfl (by rintro _ _ ⟨⟩))
  | ret => exact h.mono hs rfl rfl (fun _ _ => rfl) (new rfl (by rintro _ _ ⟨⟩))

/-- What a completed transfer leaves behind. -/
theorem Call.copy {d b rw here next} (c : Call a p d b k rw here next)
    (h : s.Copy a p (here .busy)) {status : Word} {junk : Page} {u : VM n}
    (hu : s.flashPerform d status junk = some u) : u.Copy a p (here (.release status)) := by
  cases c with
  | write k old =>
      refine ⟨trivial, fun hst => ?_⟩
      cases hst
      rw [flashPerform_write h.1 hu, if_pos rfl]
      exact Function.update_self _ _ s.flash
  | read k =>
      refine ⟨trivial, fun hst => ?_⟩
      cases hst
      rw [flashPerform_read h.1 hu, if_pos rfl]
      exact Function.update_self _ _ s.frame

/-- **The pager knows what its transfer did.** -/
theorem Copied.step (h : s.Copied) (hs : s.Iso) (hst : Step s e t) : t.Copied := by
  have new : ∀ {i : Pid} {pr' : Option Proc} {u : VM n},
      u.proc = Function.update s.proc i pr' →
      (∀ a p pc, pr' = some ⟨a, .pager p pc⟩ → u.Copy a p pc) → ∀ q a p pc,
      u.proc q = some ⟨a, .pager p pc⟩ → s.proc q = some ⟨a, .pager p pc⟩ ∨ u.Copy a p pc := by
    intro i pr' u hp hc j b r pc hj
    rcases proc_update hp hj with ⟨-, hj⟩ | ⟨-, hpr⟩
    · exact .inl hj
    · exact .inr (hc _ _ _ hpr)
  cases hst with
  | initPte => exact h.mono hs rfl rfl (fun _ _ => rfl) fun _ _ _ _ hq => .inl hq
  | create =>
      exact h.mono hs rfl rfl (fun _ _ => rfl) (new (i := s.nextPid) rfl (by rintro _ _ _ ⟨⟩))
  | load => exact h
  | @store q a p w v k hq hk =>
      refine h.mono hs rfl rfl (fun k' hd => Function.update_of_ne ?_ ..) fun _ _ _ _ hq => .inl hq
      rintro rfl
      obtain ⟨lo, hl, hk⟩ := Option.bind_eq_some_iff.mp hk
      obtain ⟨i, hi⟩ := Tlb.lookup_some hl
      by_cases hd' : lo &&& dirtyOn = 0
      · rw [if_pos hd'] at hk; cases hk
      · rw [if_neg hd'] at hk; exact hd.tlb i _ _ hi hk
  | refill => exact h.mono hs rfl rfl (fun _ _ => rfl) fun _ _ _ _ hq => .inl hq
  | faultMod => exact h.mono hs rfl rfl (fun _ _ => rfl) (new rfl (by rintro _ _ _ ⟨⟩))
  | fault => exact h.mono hs rfl rfl (fun _ _ => rfl) (new rfl (by rintro _ _ _ ⟨⟩; trivial))
  | pager hq hb hst => exact hst.copied h hs hq hb
  | @flashDone q a p d b k rw here next status junk u c hq hu =>
      intro j a' p' pc' hj
      have hproc := flashPerform_goto (q := q) (a := a) (c := .pager p (here (.release status))) hu
      rcases proc_update hproc hj with ⟨hne, hj⟩ | ⟨-, hpr⟩
      · by_cases hin : pc'.inside
        · have hpc : pc' = .select := by
            by_contra hpc
            refine hne (hs.excl.only hj hq hin (c.inside _).1 hpc ?_)
            rintro he
            exact (c.inside (p := p) .busy).2.2 p (by rw [he])
          subst hpc
          trivial
        · cases pc' <;> trivial
      · cases hpr
        have := c.copy (h q a p _ hq) hu
        cases c <;> exact this
  | die => exact h.mono hs rfl rfl (fun _ _ => rfl) (new rfl (by rintro _ _ _ ⟨⟩))
  | exit => exact h.mono hs rfl rfl (fun _ _ => rfl) (new rfl (by rintro _ _ _ ⟨⟩))

/-! ### The simulation -/

/-- Frames, blocks and what is held stay; the flat memory stays. -/
theorem Sim.mono {m : PageId → Page} (h : s.Sim m) (hh : ∀ k r, t.Holds k r ↔ s.Holds k r)
    (hf : t.frame = s.frame) (hb : t.flash = s.flash) : t.Sim m where
  resident k r hk := by rw [hf]; exact h.resident k r ((hh k r).mp hk)
  absent r hr := by rw [hb]; exact h.absent r fun k hk => hr k ((hh k r).mpr hk)

theorem holds_congr {r : PageId} (hw : t.swapPool k = s.swapPool k)
    (hl : s.swapPool k ≠ none → (t.Loading k ↔ s.Loading k)) : t.Holds k r ↔ s.Holds k r := by
  unfold Holds
  rw [hw]
  constructor
  · rintro ⟨⟨d, hd, hr⟩, hn⟩
    exact ⟨⟨d, hd, hr⟩, fun hs => hn ((hl (by simp [hd])).mpr hs)⟩
  · rintro ⟨⟨d, hd, hr⟩, hn⟩
    exact ⟨⟨d, hd, hr⟩, fun ht => hn ((hl (by simp [hd])).mp ht)⟩

/-- What is being loaded when `q` moves. -/
theorem loading_update {pr : Proc} {pr' : Option Proc} (hq : s.proc q = some pr)
    (hp : t.proc = Function.update s.proc q pr')
    (hk : (∃ a p pc, pr' = some ⟨a, .pager p pc⟩ ∧ PagerPc.loading pc = some k) ↔
      ∃ a p pc, pr = ⟨a, .pager p pc⟩ ∧ PagerPc.loading pc = some k) :
    t.Loading k ↔ s.Loading k := by
  constructor
  · rintro ⟨j, b, r, pc, hj, hpc⟩
    rcases proc_update hp hj with ⟨-, hj⟩ | ⟨-, hpr⟩
    · exact ⟨j, b, r, pc, hj, hpc⟩
    · obtain ⟨a, p, pc, rfl, hpc⟩ := hk.mp ⟨b, r, pc, hpr, hpc⟩
      exact ⟨q, a, p, pc, hq, hpc⟩
  · rintro ⟨j, b, r, pc, hj, hpc⟩
    by_cases hjq : j = q
    · subst hjq
      rw [hq] at hj
      cases hj
      obtain ⟨a, p, pc, rfl, hpc⟩ := hk.mpr ⟨b, r, pc, rfl, hpc⟩
      exact ⟨j, a, p, pc, by rw [hp, Function.update_self], hpc⟩
    · exact ⟨j, b, r, pc, by rw [hp, Function.update_of_ne hjq, hj], hpc⟩

/-- While `q` is inside, past `select` and loads nothing, nothing is loaded into its frame. -/
theorem Iso.not_loading (h : s.Iso) {pc : PagerPc} (hq : s.proc q = some ⟨a, .pager p pc⟩)
    (hin : pc.inside) (hpc : pc ≠ .select) (hl : PagerPc.loading pc = none) : ¬ s.Loading k := by
  rintro ⟨j, b, r, pc', hj, hpc'⟩
  obtain ⟨hin', hne'⟩ := taken_inside (loading_taken hpc')
  obtain rfl := h.excl.only hq hj hin hin' hpc hne'
  rw [hq] at hj
  cases hj
  rw [hl] at hpc'
  cases hpc'

theorem Call.loading {d b rw here next} (c : Call a p d b k rw here next) (pc pc' : FlashPc) :
    PagerPc.loading (here pc) = PagerPc.loading (here pc') := by
  cases c <;> rfl

/-- The pager is about to read into the frame it has written back: the frame's page is in its
block. -/
theorem Sim.written {m : PageId → Page} (h : s.Sim m) (hs : s.Iso) (hcp : s.Copied) {old : Swap}
    (hq : s.proc q = some ⟨a, .pager p (.write k old (.release flashReady))⟩)
    (hp : t.proc = Function.update s.proc q (some ⟨a, .pager p (.read k .acquire)⟩))
    (hw : t.swapPool = s.swapPool) (hf : t.frame = s.frame) (hb : t.flash = s.flash) :
    t.Sim m := by
  have hk : s.swapPool k = some old := (hs.crit q a p _ hq).1
  have hnl : ∀ {k}, ¬ s.Loading k := hs.not_loading hq rfl (by simp) rfl
  have hload : t.Loading k := ⟨q, a, p, _, by rw [hp, Function.update_self], rfl⟩
  have hother : ∀ k', k' ≠ k → ∀ r, t.Holds k' r ↔ s.Holds k' r := fun k' hne r =>
    holds_congr (congrFun hw k') fun _ => loading_update hq hp <| by
      constructor
      · rintro ⟨_, _, _, ⟨⟩, hl⟩; exact absurd (Option.some.inj hl).symm hne
      · rintro ⟨_, _, _, ⟨⟩, ⟨⟩⟩
  refine ⟨fun k' r hk' => ?_, fun r hr => ?_⟩
  · have hne : k' ≠ k := by
      rintro rfl
      exact hk'.2 hload
    rw [hf]
    exact h.resident k' r ((hother k' hne r).mp hk')
  · rw [hb]
    by_cases hro : r = old.page
    · subst hro
      rw [(hcp q a p _ hq).2 rfl]
      exact h.resident k _ ⟨⟨old, hk, rfl⟩, hnl⟩
    · refine h.absent r fun k' hk' => ?_
      by_cases hne : k' = k
      · subst hne
        obtain ⟨⟨d, hd, rfl⟩, -⟩ := hk'
        cases hk.symm.trans hd
        exact hro rfl
      · exact hr k' ((hother k' hne r).mpr hk')

/-- The page just read is recorded: until now no frame held it. -/
theorem Sim.recorded {m : PageId → Page} (h : s.Sim m) (hs : s.Tidy) (hcp : s.Copied)
    (hq : s.proc q = some ⟨a, .pager p (.record k)⟩)
    (hp : t.proc = Function.update s.proc q (some ⟨a, .pager p (.validate k)⟩))
    (hw : t.swapPool = Function.update s.swapPool k (some ⟨a, p, (a, p)⟩))
    (hf : t.frame = s.frame) (hb : t.flash = s.flash) : t.Sim m := by
  have hload : s.Loading k := ⟨q, a, p, _, hq, rfl⟩
  have hwant := hs.want q a p _ hq
  have hother : ∀ k', k' ≠ k → ∀ r, t.Holds k' r ↔ s.Holds k' r := fun k' hne r =>
    holds_congr (by rw [hw, Function.update_of_ne hne]) fun _ => loading_update hq hp <| by
      constructor
      · rintro ⟨_, _, _, ⟨⟩, ⟨⟩⟩
      · rintro ⟨_, _, _, ⟨⟩, hl⟩; exact absurd (Option.some.inj hl).symm hne
  have habs : ∀ k', ¬ s.Holds k' (a, p) := by
    rintro k' ⟨⟨d, hd, hr⟩, hnl⟩
    have hbusy := hs.busy_of_invalid hd (by rw [hr]; exact hwant.1)
    obtain rfl : k = k' := Option.some.inj (hs.iso.busy hq rfl (by simp) hbusy)
    exact hwant.2 d hd hr
  refine ⟨fun k' r hk' => ?_, fun r hr => ?_⟩
  · rw [hf]
    by_cases hne : k' = k
    · subst hne
      obtain ⟨⟨d, hd, rfl⟩, -⟩ := hk'
      rw [hw, Function.update_self] at hd
      cases hd
      exact (hcp q a p _ hq).trans (h.absent _ habs)
    · exact h.resident k' r ((hother k' hne r).mp hk')
  · rw [hb]
    refine h.absent r fun k' hk' => ?_
    by_cases hne : k' = k
    · subst hne; exact hk'.2 hload
    · exact hr k' ((hother k' hne r).mpr hk')

/-- **The statements of the pager** do not change the flat memory. -/
theorem Stmt.sim {m : PageId → Page} {pc : PagerPc} (hst : Stmt s q a p pc t) (h : s.Sim m)
    (hs : s.Tidy) (hcp : s.Copied) (hq : s.proc q = some ⟨a, .pager p pc⟩) : t.Sim m := by
  -- the frames and the flash are as before, and so is the frame being loaded
  have keep : ∀ {c : Ctl} {u : VM n}, u.proc = Function.update s.proc q (some ⟨a, c⟩) →
      u.swapPool = s.swapPool → u.frame = s.frame → u.flash = s.flash →
      (∀ k, s.swapPool k ≠ none → ((∃ p' pc', c = .pager p' pc' ∧ PagerPc.loading pc' = some k) ↔
        PagerPc.loading pc = some k)) → u.Sim m := by
    intro c u hp hw hf hb hl
    refine h.mono (fun k r => holds_congr (congrFun hw k) fun hk => loading_update hq hp ?_) hf hb
    constructor
    · rintro ⟨_, _, _, ⟨⟩, hpc⟩
      exact ⟨a, p, pc, rfl, (hl k hk).mp ⟨_, _, rfl, hpc⟩⟩
    · rintro ⟨_, _, _, ⟨⟩, hpc⟩
      obtain ⟨p', pc', rfl, hpc'⟩ := (hl k hk).mpr hpc
      exact ⟨a, p', pc', rfl, hpc'⟩
  cases hst with
  | enter => exact keep rfl rfl rfl rfl fun k _ => ⟨by rintro ⟨_, _, ⟨⟩, ⟨⟩⟩, by rintro ⟨⟩⟩
  | select => exact keep rfl rfl rfl rfl fun k _ => ⟨by rintro ⟨_, _, ⟨⟩, ⟨⟩⟩, by rintro ⟨⟩⟩
  | evict => exact keep rfl rfl rfl rfl fun k _ => ⟨by rintro ⟨_, _, ⟨⟩, ⟨⟩⟩, by rintro ⟨⟩⟩
  | vacant hk =>
      refine keep rfl rfl rfl rfl fun k' hk' => ⟨?_, by rintro ⟨⟩⟩
      rintro ⟨_, _, ⟨⟩, ⟨⟩⟩
      exact absurd hk hk'
  | flush => exact keep rfl rfl rfl rfl fun k _ => ⟨by rintro ⟨_, _, ⟨⟩, ⟨⟩⟩, by rintro ⟨⟩⟩
  | acquire c =>
      refine keep rfl rfl rfl rfl fun k _ => ⟨?_, fun hl => ⟨_, _, rfl, (c.loading _ _).trans hl⟩⟩
      rintro ⟨_, _, ⟨⟩, hl⟩
      exact (c.loading _ _).trans hl
  | data0 c =>
      refine keep rfl rfl rfl rfl fun k _ => ⟨?_, fun hl => ⟨_, _, rfl, (c.loading _ _).trans hl⟩⟩
      rintro ⟨_, _, ⟨⟩, hl⟩
      exact (c.loading _ _).trans hl
  | command c =>
      refine keep rfl rfl rfl rfl fun k _ => ⟨?_, fun hl => ⟨_, _, rfl, (c.loading _ _).trans hl⟩⟩
      rintro ⟨_, _, ⟨⟩, hl⟩
      exact (c.loading _ _).trans hl
  | @release d b k rw here next status c =>
      have hwant := hs.want q a p _ hq
      cases c with
      | write k old =>
          -- the old page is on its flash, so its frame may go
          obtain rfl := hwant.2.2 status rfl
          exact h.written hs.iso hcp hq rfl rfl rfl rfl
      | read k =>
          by_cases hr : status = flashReady
          · subst hr
            refine keep rfl rfl rfl rfl fun k' _ => ⟨?_, fun hl => ⟨_, _, rfl, hl⟩⟩
            rintro ⟨_, _, ⟨⟩, hl⟩
            exact hl
          · have hfree := (hwant.2.2 status rfl).resolve_left hr
            refine keep rfl rfl rfl rfl fun k' hk' => ⟨?_, ?_⟩
            · rintro ⟨_, _, hc, hl⟩
              rw [if_neg hr] at hc
              cases hc
              cases hl
            · rintro ⟨⟩
              exact absurd hfree hk'
  | record => exact h.recorded hs hcp hq rfl rfl rfl rfl
  | validate => exact keep rfl rfl rfl rfl fun k _ => ⟨by rintro ⟨_, _, ⟨⟩, ⟨⟩⟩, by rintro ⟨⟩⟩
  | update => exact keep rfl rfl rfl rfl fun k _ => ⟨by rintro ⟨_, _, ⟨⟩, ⟨⟩⟩, by rintro ⟨⟩⟩
  | leave => exact keep rfl rfl rfl rfl fun k _ => ⟨by rintro ⟨_, _, ⟨⟩, ⟨⟩⟩, by rintro ⟨⟩⟩
  | abort => exact keep rfl rfl rfl rfl fun k _ => ⟨by rintro ⟨_, _, ⟨⟩, ⟨⟩⟩, by rintro ⟨⟩⟩
  | ret => exact keep rfl rfl rfl rfl fun k _ => ⟨by rintro ⟨_, _, ⟨⟩, ⟨⟩⟩, by rintro ⟨⟩⟩

/-- A store through the TLB changes the page it is meant for, and no other. -/
theorem Sim.store {m : PageId → Page} (h : s.Sim m) (hs : s.Tidy)
    {w : Fin (pageSize / wordLen)} {v : Word} (hk : s.accessStore (a, p) = some k) :
    (s.poke k w v).Sim fun r => (VmEvent.store (n := n) q a p w v).stored r (m r) := by
  have hold : s.Holds k (a, p) := .of_accessStore hs.iso hk
  obtain ⟨d₀, hd₀, hr₀⟩ := hold.1
  refine ⟨fun k' r hk' => ?_, fun r hr => ?_⟩
  · show Function.update s.frame k _ k' = _
    by_cases hkk : k' = k
    · subst hkk
      obtain ⟨d, hd, hr⟩ := hk'.1
      cases hd₀.symm.trans hd
      obtain rfl : r = (a, p) := hr.symm.trans hr₀
      rw [Function.update_self, VmEvent.stored, if_pos rfl, h.resident k' _ hold]
    · have hne : (a, p) ≠ r := by
        rintro rfl
        exact hkk (hk'.once hs hold)
      rw [Function.update_of_ne hkk, VmEvent.stored, if_neg hne]
      exact h.resident k' r hk'
  · have hne : (a, p) ≠ r := by
      rintro rfl
      exact hr k hold
    rw [VmEvent.stored, if_neg hne]
    exact h.absent r hr

/-- **Transparency, one step**: the flat memory changes at stores only, as they say. -/
theorem Sim.step {m : PageId → Page} (h : s.Sim m) (hs : s.Tidy) (hcp : s.Copied)
    (hst : Step s e t) (hc : s.Careful e) : t.Sim fun r => e.stored r (m r) := by
  have keep : ∀ {q : Pid} {pr : Proc} (pr' : Option Proc) {u : VM n}, s.proc q = some pr →
      u.proc = Function.update s.proc q pr' → u.swapPool = s.swapPool → u.frame = s.frame →
      u.flash = s.flash → (∀ a p pc, pr = ⟨a, .pager p pc⟩ → PagerPc.loading pc = none) →
      (∀ a p pc, pr' = some ⟨a, .pager p pc⟩ → PagerPc.loading pc = none) → u.Sim m := by
    intro q pr pr' u hq hp hw hf hb hl hl'
    refine h.mono (fun k r => holds_congr (congrFun hw k) fun _ => loading_update hq hp ?_) hf hb
    constructor
    · rintro ⟨_, _, _, hpr, hpc⟩; rw [hl' _ _ _ hpr] at hpc; cases hpc
    · rintro ⟨_, _, _, hpr, hpc⟩; rw [hl _ _ _ hpr] at hpc; cases hpc
  cases hst with
  | initPte => exact h.mono (fun k r => holds_congr rfl fun _ => Iff.rfl) rfl rfl
  | create =>
      refine h.mono (fun k r => holds_congr rfl fun _ => ?_) rfl rfl
      constructor
      · rintro ⟨j, b, r, pc, hj, hpc⟩
        rcases proc_update (q := s.nextPid) rfl hj with ⟨-, hj⟩ | ⟨-, hpr⟩
        · exact ⟨j, b, r, pc, hj, hpc⟩
        · cases hpr
      · rintro ⟨j, b, r, pc, hj, hpc⟩
        have hne : j ≠ s.nextPid := hs.iso.excl.ne_next hj
        exact ⟨j, b, r, pc, (Function.update_of_ne hne ..).trans hj, hpc⟩
  | load => exact h
  | store hq hk => exact h.store hs hk
  | refill => exact h.mono (fun k r => holds_congr rfl fun _ => Iff.rfl) rfl rfl
  | @faultMod q a _ _ hq =>
      exact keep (some ⟨a, .dying⟩) hq rfl rfl rfl rfl (by rintro _ _ _ ⟨⟩) (by rintro _ _ _ ⟨⟩)
  | @fault q a _ _ p hq =>
      exact keep (some ⟨a, .pager p .enter⟩) hq rfl rfl rfl rfl (by rintro _ _ _ ⟨⟩)
        (by rintro _ _ _ ⟨⟩; rfl)
  | pager hq hb hst => exact hst.sim h hs hcp hq
  | @flashDone q a p d b k rw here next status junk u c hq hu =>
      have hcopy := hcp q a p _ hq
      have hproc := flashPerform_goto (q := q) (a := a) (c := .pager p (here (.release status))) hu
      have hhold : ∀ k r, (u.goto q a (.pager p (here (.release status)))).Holds k r ↔
          s.Holds k r := by
        refine fun k r => holds_congr (congrFun (flashPerform_mem hu).2.2 k) fun _ =>
          loading_update hq hproc ⟨?_, ?_⟩
        · rintro ⟨_, _, _, ⟨⟩, hl⟩; exact ⟨_, _, _, rfl, (c.loading _ _).trans hl⟩
        · rintro ⟨_, _, _, ⟨⟩, hl⟩; exact ⟨_, _, _, rfl, (c.loading _ _).trans hl⟩
      cases c with
      | write k old =>
          have hready : status = flashReady := by
            refine hc.resolve_right ?_
            rintro ⟨_, _, _, hq', -⟩
            rw [hq] at hq'
            cases hq'
          obtain rfl := flashPerform_write hcopy.1 hu
          subst hready
          refine ⟨fun k' r hk' => h.resident k' r ((hhold k' r).mp hk'), fun r hr => ?_⟩
          -- the page that is written is resident, so `r` is another one
          have hne : r ≠ old.page := by
            rintro rfl
            refine hr k ((hhold _ _).mpr ⟨⟨old, (hs.iso.crit q a p _ hq).1, rfl⟩, ?_⟩)
            exact hs.iso.not_loading hq rfl (by simp) rfl
          refine (Function.update_of_ne hne ..).trans ?_
          exact h.absent r fun k' hk' => hr k' ((hhold k' r).mpr hk')
      | read k =>
          obtain rfl := flashPerform_read hcopy.1 hu
          have hload : s.Loading k := ⟨q, a, p, _, hq, rfl⟩
          refine ⟨fun k' r hk' => ?_, fun r hr => ?_⟩
          -- the frame that is read into holds no page yet
          · have hne : k' ≠ k := by
              rintro rfl
              exact ((hhold k' r).mp hk').2 hload
            exact (Function.update_of_ne hne ..).trans (h.resident k' r ((hhold k' r).mp hk'))
          · exact h.absent r fun k' hk' => hr k' ((hhold k' r).mpr hk')
  | @die q a hq =>
      exact keep (some ⟨a, .dying⟩) hq rfl rfl rfl rfl (by rintro _ _ _ ⟨⟩) (by rintro _ _ _ ⟨⟩)
  | exit hq => exact keep none hq rfl rfl rfl rfl (by rintro _ _ _ ⟨⟩) (by rintro _ _ _ ⟨⟩)

/-- A load returns what the flat memory has. -/
theorem Sim.load {m : PageId → Page} (h : s.Sim m) (hs : s.Iso) {w : Fin (pageSize / wordLen)}
    {v : Word} (hst : Step s (.load q a p w v) t) : v = m (a, p) w := by
  cases hst with
  | load hq hk hv => rw [← hv, h.resident _ _ (.of_access hs hk)]

/-! ### Contents as the page tables tell them -/

/-- The words of a page: the frame its entry maps if V = 1, else its flash block. -/
def content (s : VM n) (r : PageId) : Page :=
  match translate (s.pgTbl r).entryLO with
  | some k => s.frame k
  | none => s.flash r

/-- A pager has taken the frame that is recorded for `r`. -/
def InTransit (s : VM n) (r : PageId) : Prop :=
  ∃ k, (∃ d, s.swapPool k = some d ∧ d.page = r) ∧ s.Busy k

theorem Sim.content {m : PageId → Page} (h : s.Sim m) (hs : s.Tidy) {r : PageId}
    (hr : ¬ s.InTransit r) : s.content r = m r := by
  unfold VM.content
  cases hk : translate (s.pgTbl r).entryLO with
  | some k =>
      have hd := hs.iso.mem.pte r k hk
      exact h.resident k r ⟨hd, fun hl => hr ⟨k, hd, hl.busy⟩⟩
  | none =>
      refine h.absent r ?_
      rintro k ⟨⟨d, hd, rfl⟩, -⟩
      exact hr ⟨k, ⟨d, hd, rfl⟩, hs.busy_of_invalid hd hk⟩

/-- With nobody in the pager no frame is taken. -/
theorem not_busy (hno : ∀ q, ¬ s.Inside q) (k : FrameNo) : ¬ s.Busy k := by
  rintro ⟨q, a, p, pc, hq, hpc⟩
  exact hno q ⟨_, hq, (taken_inside hpc).1⟩

theorem not_inTransit {r : PageId} (hno : ∀ q, ¬ s.Inside q) : ¬ s.InTransit r := by
  intro ⟨k, _, hk⟩
  exact not_busy hno k hk

end VM

end PandOS
