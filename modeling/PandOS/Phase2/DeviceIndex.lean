import PandOS.Phase2.Completions
import PandOS.Phase2.Contexts

/-!
# Phase 2 — the device of a command address

`doIO` finds a semaphore from a byte address by division, `interruptHandler` from a line, a device
and, for a terminal, one of its two sub-devices by multiplication.  `SubDevice` is what both are
about: `sem` is the index the handler signals, `Owns` says which addresses are the registers of it.

* `semIndex_eq_some_iff`: of the addresses `doIO` accepts, all but the last are those of the
  sub-device whose semaphore they get.  The last, `0x100002D4`, is the first byte after the
  registers: it gets the semaphore of the transmitter of terminal 0.
* `mem_deviceWakes`: an interrupt of a device signals the semaphores of its sub-devices.
* `doIO_exact_iff`: `DOIO` blocks its caller on the semaphore of the sub-device, if the address is
  not that one and there is a descriptor for the semaphore.
-/

namespace PandOS

/-- A device of the lines 3 to 6, or one channel of a terminal. -/
inductive SubDevice where
  | device (line : Fin 4) (dev : Fin devPerInt)
  | terminal (dev : Fin devPerInt) (c : TermChannel)
  deriving DecidableEq

namespace SubDevice

/-- The index `interruptHandler` signals. -/
def sem : SubDevice → Fin semDevLen
  | device line dev => devSemBase line dev
  | terminal dev c => c.sem dev

/-- The interrupt line. -/
def line : SubDevice → ℕ
  | device line _ => line.val + 3
  | terminal _ _ => 7

/-- The device on its line. -/
def dev : SubDevice → Fin devPerInt
  | device _ dev => dev
  | terminal dev _ => dev

/-- The bytes of its registers within the block at `DEV_REG_BASE`. -/
def bytes : SubDevice → ℕ × ℕ
  | device _ _ => (0, 16)
  | terminal _ .rx => (0, 8)
  | terminal _ .tx => (8, 16)

/-- The address lies in its registers. -/
def Owns (x : SubDevice) (addr : Word) : Prop :=
  (devRegBase x.line x.dev).toNat + x.bytes.1 ≤ addr.toNat ∧
    addr.toNat < (devRegBase x.line x.dev).toNat + x.bytes.2

instance (x : SubDevice) (addr : Word) : Decidable (x.Owns addr) :=
  inferInstanceAs (Decidable (_ ∧ _))

/-- The interrupt handler finds it completed: of a terminal, its status byte is not 0. -/
def Due (reg : Word → Word) : SubDevice → Prop
  | device _ _ => True
  | terminal dev c => reg (c.status dev) &&& 0xFF ≠ 0

/-- `DEV_REG_BASE(line, dev)` as a number. -/
theorem base_toNat (x : SubDevice) : (devRegBase x.line x.dev).toNat =
    startDevReg + (x.line - 3) * 0x80 + x.dev.val * 0x10 := by
  have hline : x.line ≤ 7 := by
    cases x with
    | device l d => have := l.isLt; show l.val + 3 ≤ 7; omega
    | terminal d c => exact le_refl 7
  have hdev := x.dev.isLt
  unfold devPerInt at hdev
  unfold devRegBase startDevReg
  rw [BitVec.toNat_ofNat]
  omega

/-- The registers of a sub-device get its semaphore. -/
theorem semIndex_of_owns {x : SubDevice} {addr : Word} (h : x.Owns addr) :
    semIndex addr = some x.sem := by
  obtain ⟨hlo, hhi⟩ := h
  rw [base_toNat] at hlo hhi
  have hdev := x.dev.isLt
  unfold devPerInt at hdev
  unfold startDevReg at hlo hhi
  unfold semIndex startDevReg
  cases x with
  | device l d =>
      have hl := l.isLt
      simp only [line, dev, bytes] at hlo hhi hdev
      rw [dif_pos (by omega)]
      refine congrArg some (Fin.ext ?_)
      simp only [sem, devSemBase]
      rw [if_neg (by omega)]
      omega
  | terminal d c =>
      cases c <;> simp only [line, dev, bytes] at hlo hhi hdev
      · rw [dif_pos (by omega)]
        refine congrArg some (Fin.ext ?_)
        simp only [sem, TermChannel.sem]
        rw [if_pos (by omega), if_pos (by omega)]
        omega
      · rw [dif_pos (by omega)]
        refine congrArg some (Fin.ext ?_)
        simp only [sem, TermChannel.sem]
        rw [if_pos (by omega), if_neg (by omega)]
        omega

/-- Every address of the registers is one of a sub-device. -/
theorem exists_owns {addr : Word} (hlo : startDevReg ≤ addr.toNat) (hhi : addr.toNat < 0x100002D4) :
    ∃ x : SubDevice, x.Owns addr := by
  unfold startDevReg at hlo
  have hdev : (addr.toNat - 0x10000054) % 0x80 / 0x10 < devPerInt := by unfold devPerInt; omega
  by_cases hline : (addr.toNat - 0x10000054) / 0x80 < 4
  · refine ⟨device ⟨_, hline⟩ ⟨_, hdev⟩, ?_⟩
    unfold Owns
    rw [base_toNat]
    simp only [line, dev, bytes, startDevReg]
    omega
  · by_cases hch : (addr.toNat - 0x10000054) % 0x10 < 8
    · refine ⟨terminal ⟨_, hdev⟩ .rx, ?_⟩
      unfold Owns
      rw [base_toNat]
      simp only [line, dev, bytes, startDevReg]
      omega
    · refine ⟨terminal ⟨_, hdev⟩ .tx, ?_⟩
      unfold Owns
      rw [base_toNat]
      simp only [line, dev, bytes, startDevReg]
      omega

/-- The first byte after the registers is nobody's. -/
theorem not_owns_last (x : SubDevice) : ¬ x.Owns 0x100002D4 := by
  have hdev := x.dev.isLt
  unfold devPerInt at hdev
  unfold Owns
  rw [base_toNat]
  cases x with
  | device l d =>
      have hl := l.isLt
      simp only [line, dev, bytes, startDevReg] at hdev ⊢
      rw [show (0x100002D4 : Word).toNat = 0x100002D4 from rfl]
      omega
  | terminal d c =>
      rw [show (0x100002D4 : Word).toNat = 0x100002D4 from rfl]
      cases c <;> simp only [line, dev, bytes, startDevReg] at hdev ⊢ <;> omega

/-- Different sub-devices have different semaphores. -/
theorem sem_injective : Function.Injective sem := by
  intro x y h
  have hv := congrArg Fin.val h
  cases x with
  | device l d =>
      have hl := l.isLt
      have hd := d.isLt
      unfold devPerInt at hd
      cases y with
      | device l' d' =>
          have hd' := d'.isLt
          unfold devPerInt at hd'
          simp only [sem, devSemBase] at hv
          rw [show l = l' from Fin.ext (by omega), show d = d' from Fin.ext (by omega)]
      | terminal d' c =>
          cases c <;> simp only [sem, devSemBase, TermChannel.sem] at hv <;> omega
  | terminal d c =>
      have hd := d.isLt
      unfold devPerInt at hd
      cases y with
      | device l' d' =>
          have hl' := l'.isLt
          have hd' := d'.isLt
          unfold devPerInt at hd'
          cases c <;> simp only [sem, devSemBase, TermChannel.sem] at hv <;> omega
      | terminal d' c' =>
          have hd' := d'.isLt
          unfold devPerInt at hd'
          cases c <;> cases c' <;> simp only [sem, TermChannel.sem] at hv
          · rw [show d = d' from Fin.ext (by omega)]
          · omega
          · omega
          · rw [show d = d' from Fin.ext (by omega)]

/-- **The semaphore of an address.**  All but the last of the addresses that are accepted get the
semaphore of the sub-device whose register they are. -/
theorem semIndex_eq_some_iff {addr : Word} {j : Fin semDevLen} (h : addr ≠ 0x100002D4) :
    semIndex addr = some j ↔ ∃ x : SubDevice, x.Owns addr ∧ x.sem = j := by
  constructor
  · intro hj
    have hin : startDevReg ≤ addr.toNat ∧ addr.toNat ≤ 0x100002D4 := by
      unfold semIndex at hj
      split at hj
      · assumption
      · cases hj
    have hne : addr.toNat ≠ 0x100002D4 := fun he => h (BitVec.eq_of_toNat_eq he)
    obtain ⟨x, hx⟩ := exists_owns hin.1 (by omega)
    exact ⟨x, hx, Option.some.inj ((semIndex_of_owns hx).symm.trans hj)⟩
  · rintro ⟨x, hx, rfl⟩
    exact semIndex_of_owns hx

/-- Two addresses with one semaphore are registers of one sub-device, unless one of them is the
byte after the registers. -/
theorem same_device_iff {a b : Word} {j : Fin semDevLen} (ha : semIndex a = some j)
    (hb : semIndex b = some j) :
    (∃ x : SubDevice, x.Owns a ∧ x.Owns b) ↔ a ≠ 0x100002D4 ∧ b ≠ 0x100002D4 := by
  constructor
  · rintro ⟨x, hxa, hxb⟩
    exact ⟨fun he => not_owns_last x (he ▸ hxa), fun he => not_owns_last x (he ▸ hxb)⟩
  · rintro ⟨hna, hnb⟩
    obtain ⟨x, hx, hxj⟩ := (semIndex_eq_some_iff hna).mp ha
    obtain ⟨y, hy, hyj⟩ := (semIndex_eq_some_iff hnb).mp hb
    obtain rfl : x = y := sem_injective (hxj.trans hyj.symm)
    exact ⟨x, hx, hy⟩

/-- **What an interrupt signals.**  The handler of a device signals the semaphores of the
sub-devices of it that are due, and no others. -/
theorem mem_deviceWakes {reg : Word → Word} {n : ℕ} {d : Fin devPerInt} (hn : 3 ≤ n ∧ n ≤ 7)
    (hd : getHighestPriorityDevice (reg (intBitmap n)) = some d) (j : Fin semDevLen) :
    j ∈ (Kernel.deviceWakes n reg).map Prod.fst ↔
      ∃ x : SubDevice, x.line = n ∧ x.dev = d ∧ x.Due reg ∧ x.sem = j := by
  unfold Kernel.deviceWakes
  rw [hd]
  dsimp only
  split
  · rename_i h
    rw [List.map_singleton, List.mem_singleton]
    constructor
    · rintro rfl
      exact ⟨device ⟨n - 3, by omega⟩ d, by show n - 3 + 3 = n; omega, rfl, trivial, rfl⟩
    · rintro ⟨x, hx, rfl, -, rfl⟩
      cases x with
      | device l d' =>
          obtain rfl : n = l.val + 3 := hx.symm
          rfl
      | terminal d' c => exact absurd hx (by show ¬ 7 = n; omega)
  · rename_i h
    unfold Kernel.termWakes
    rw [List.mem_map]
    constructor
    · rintro ⟨y, hy, rfl⟩
      obtain ⟨c, -, hc⟩ := List.mem_filterMap.mp hy
      split at hc
      · rename_i hb
        cases hc
        exact ⟨terminal d c, by show 7 = n; omega, rfl, hb, rfl⟩
      · cases hc
    · rintro ⟨x, hx, rfl, hdue, rfl⟩
      cases x with
      | device l d' =>
          have hl := l.isLt
          exact absurd hx (by show ¬ l.val + 3 = n; omega)
      | terminal d' c =>
          refine ⟨(c.sem d', reg (c.status d')), List.mem_filterMap.mpr ⟨c, ?_, if_pos hdue⟩, rfl⟩
          cases c <;> simp

end SubDevice

namespace Kernel

variable {L : Layout} {s t : Kernel} {lossy : Prop} {cur : PcbId} {saved : State} {i : Inputs}

/-! ### `DOIO` -/

/-- The call is rejected: the caller goes on with -1 in `reg_a0`, and nothing else changes. -/
def Rejects (s t : Kernel) : Prop := ∃ st : State, st.reg_a0 = -1 ∧ t = s.ldst st

/-- The caller `cur` blocks on `deviceSemaphores[j]`. -/
structure BlocksOn (L : Layout) (s t : Kernel) (cur : PcbId) (j : Fin semDevLen) : Prop where
  queued : cur ∈ t.queue (L.sem j)
  semAdd : (t.pcbFree_table cur).p_semAdd = L.sem j
  stops : t.currentProcess ≠ some cur
  queue : t.queue = Function.update s.queue (L.sem j) (s.insertProcQ (s.queue (L.sem j)) cur)
  word : t.mem = Function.update s.mem (L.sem j) (s.mem (L.sem j) - 1)
  soft : t.softBlockCount = s.softBlockCount + 1

/-- What `DOIO` should do: reject the address, or block its caller on the semaphore of the
sub-device whose register it is. -/
def DoIOExact (L : Layout) (s t : Kernel) (addr : Word) : Prop :=
  Rejects s t ∨ ∃ cur, s.currentProcess = some cur ∧
    ∃ x : SubDevice, x.Owns addr ∧ BlocksOn L s t cur x.sem

/-- A process blocks on a device. -/
theorem blocksOn (hs : Sound lossy s) (ht : Sound True t) {j : Fin semDevLen}
    (hb : Blocks L s (L.sem j) t) (hc : s.currentProcess = some cur) (hd : s.HasSemd (L.sem j)) :
    BlocksOn L s t cur j := by
  have hsems := sems_blocks hs hb
  have hjoined : s.joined (L.sem j) = s.insertProcQ (s.queue (L.sem j)) cur := by
    unfold joined
    rw [hc]
    exact if_pos hd
  have hqueue : t.queue = Function.update s.queue (L.sem j) (s.insertProcQ (s.queue (L.sem j)) cur) := by
    rw [← hjoined]
    exact congrArg Sems.queue hsems
  have hmem : cur ∈ t.queue (L.sem j) := by
    rw [hqueue, Function.update_self]
    exact (List.perm_orderedInsert _ _ _).mem_iff.mpr List.mem_cons_self
  obtain ⟨d, hq, hk⟩ := ht.links.asl.mem_queue.mp hmem
  refine ⟨hmem, (ht.links.queued d cur hq).1.trans hk, ?_, hqueue, ?_, ?_⟩
  · exact fun hcur => (ht.links.current hcur).2.2 d hq
  · exact congrArg Sems.word hsems
  · refine (congrArg Sems.soft hsems).trans ?_
    exact if_pos (L.soft_sem j)

/-- Without a descriptor the process is in no queue. -/
theorem blocks_lost (hs : Sound lossy s) {j : Fin semDevLen} (hb : Blocks L s (L.sem j) t)
    (hc : s.currentProcess = some cur) (hd : ¬ s.HasSemd (L.sem j)) : cur ∉ t.queue (L.sem j) := by
  have hjoined : s.joined (L.sem j) = s.queue (L.sem j) := by
    unfold joined
    rw [hc]
    exact if_neg hd
  have hqueue : t.queue (L.sem j) = s.joined (L.sem j) :=
    (congrFun (congrArg Sems.queue (sems_blocks hs hb)) _).trans (Function.update_self ..)
  rw [hqueue, hjoined]
  intro hmem
  obtain ⟨d, hq, -⟩ := hs.links.asl.mem_queue.mp hmem
  exact (hs.links.current hc).2.2 d hq

/-- A process that blocks has taken a token. -/
theorem blocks_not_rejects (hs : Sound lossy s) {j : Fin semDevLen} (hb : Blocks L s (L.sem j) t) :
    ¬ Rejects s t := by
  rintro ⟨st, -, rfl⟩
  have hw : (s.ldst st).mem (L.sem j) = s.mem (L.sem j) - 1 :=
    (congrFun (congrArg Sems.word (sems_blocks hs hb)) _).trans (Function.update_self ..)
  have hn := congrArg BitVec.toNat (show s.mem (L.sem j) = s.mem (L.sem j) - 1 from hw)
  rw [BitVec.toNat_sub, show (1 : Word).toNat = 1 from rfl] at hn
  have := (s.mem (L.sem j)).isLt
  omega

section
variable {mem : Word → Word} {support : Word → SupportT} {test ramtop tod : Word}
  {es : List KernelEvent}

/-- **`DOIO` and the interrupt handler agree**, exactly where the address is not the first byte
after the registers and there is a descriptor for the semaphore; and two addresses that are
accepted get one semaphore only if they are registers of one sub-device, unless one of them is that
byte. -/
theorem doIO_exact_iff (hr : Run (step L) anyStep (initKernel L mem support test ramtop tod) es s)
    (hint : ¬ causeIsInt saved.cause) (hsv : service saved = some SysCall.doIO)
    (hst : s.step L (.exception saved i) = some t) :
    (DoIOExact L s t saved.reg_a1 ↔ ∀ j, semIndex saved.reg_a1 = some j →
      saved.reg_a1 ≠ 0x100002D4 ∧ s.HasSemd (L.sem j)) ∧
    ∀ a b j, semIndex a = some j → semIndex b = some j →
      ((∃ x : SubDevice, x.Owns a ∧ x.Owns b) ↔ a ≠ 0x100002D4 ∧ b ≠ 0x100002D4) := by
  refine ⟨?_, fun a b j => SubDevice.same_device_iff⟩
  have hs := sound_of_run hr
  have ht : Sound True t := sound_of_run (hr.snoc trivial hst)
  obtain ⟨cur, hc, rfl⟩ : ∃ cur, s.currentProcess = some cur ∧
      t = s.serve L cur (ecallState saved) i SysCall.doIO := by
    obtain ⟨cur, hc, ht⟩ := step_trap hst hint
    exact ⟨cur, hc, ht.trans (trapHandler_service hsv cur i)⟩
  have hdid := did_doIO (L := L) hc (ecallState saved) i
  unfold serviceAct at hdid
  dsimp only at hdid
  rw [show (ecallState saved).reg_a1 = saved.reg_a1 from rfl] at hdid
  cases hj : semIndex saved.reg_a1 with
  | none =>
      refine ⟨fun _ j hj' => (nomatch hj'), fun _ =>
        .inl ⟨{ ecallState saved with reg_a0 := -1 }, rfl, ?_⟩⟩
      show doIO L s cur (ecallState saved) i = s.ldst { ecallState saved with reg_a0 := -1 }
      unfold doIO
      rw [show (ecallState saved).reg_a1 = saved.reg_a1 from rfl, hj]
      rfl
  | some j =>
      rw [hj] at hdid
      have hb : Blocks L s (L.sem j) (s.serve L cur (ecallState saved) i SysCall.doIO) := hdid
      -- accepted: the caller waits on its device, unless it is lost
      constructor
      · rintro (hrej | ⟨cur', hc', x, hx, hon⟩) k hk
        · exact absurd hrej (blocks_not_rejects hs hb)
        · obtain rfl : cur' = cur := Option.some.inj (hc'.symm.trans hc)
          obtain rfl : x.sem = j :=
            Option.some.inj ((SubDevice.semIndex_of_owns hx).symm.trans hj)
          obtain rfl : x.sem = k := Option.some.inj hk
          refine ⟨fun he => SubDevice.not_owns_last x (he ▸ hx), ?_⟩
          by_contra hd
          exact blocks_lost hs hb hc hd hon.queued
      · intro h
        obtain ⟨hne, hd⟩ := h j rfl
        obtain ⟨x, hx, rfl⟩ := (SubDevice.semIndex_eq_some_iff hne).mp hj
        exact .inr ⟨cur, hc, x, hx, blocksOn hs ht hb hc hd⟩

/-- The first process writes a command to disk 0, and waits for it. -/
theorem doIO_exact_iff_disk : ∃ t, boot₀.step layout₀ (call (-5) 0x10000058 1 0) = some t ∧
    DoIOExact layout₀ boot₀ t 0x10000058 := by
  obtain ⟨t, ht⟩ := Option.isSome_iff_exists.mp
    (show (boot₀.step layout₀ (call (-5) 0x10000058 1 0)).isSome = true by decide +kernel)
  refine ⟨t, ht, (doIO_exact_iff (Run.nil boot₀) (by decide) (by decide) ht).1.mpr
    fun j _ => ⟨by decide, ?_⟩⟩
  show boot₀.HasSemd (layout₀.sem j)
  exact .inr (show boot₀.semdFree_h ≠ [] by decide +kernel)

/-- `DOIO` on the byte after the registers takes a token of the transmitter of terminal 0, of which
it is no register. -/
theorem last_address_blocks : ∃ t, boot₀.step layout₀ (call (-5) 0x100002D4 1 0) = some t ∧
    ¬ DoIOExact layout₀ boot₀ t 0x100002D4 := by
  obtain ⟨t, ht, hw⟩ : ∃ t, boot₀.step layout₀ (call (-5) 0x100002D4 1 0) = some t ∧
      t.mem (layout₀.sem (TermChannel.tx.sem ⟨0, by decide⟩)) = -1 := by
    have h : (boot₀.step layout₀ (call (-5) 0x100002D4 1 0)).any (fun t =>
        decide (t.mem (layout₀.sem (TermChannel.tx.sem ⟨0, by decide⟩)) = -1)) = true := by
      decide +kernel
    obtain ⟨t, ht, hw⟩ := (Option.any_eq_true _ _).mp h
    exact ⟨t, ht, of_decide_eq_true hw⟩
  refine ⟨t, ht, ?_⟩
  rintro (⟨st, -, rfl⟩ | ⟨cur, -, x, hx, -⟩)
  · exact absurd hw (show ¬ boot₀.mem (layout₀.sem (TermChannel.tx.sem ⟨0, by decide⟩)) = -1 by
      decide +kernel)
  · exact SubDevice.not_owns_last x hx

end

end Kernel

end PandOS
