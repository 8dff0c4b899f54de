import PandOS.Phase2.Completions

/-!
# Phase 2 — the interrupts of a terminal

A terminal is two devices on one line, and the handler looks at the status of both.  `Served` is
what it should do: acknowledge the channels whose operation is completed, wake the process that
waits for it, and leave the other channel alone.  `served_of_run`: it does so exactly if no status
byte is 1 or 3 — it takes every byte but 0 for a completion — and the word of a channel that is
completed is negative if somebody waits.  `busy_writer_woken`: a writer whose character is still
being sent is woken by the completion of a read.
-/

namespace PandOS

/-- A status word that says that an operation is completed: not idle, not ready, not busy. -/
def Complete (status : Word) : Prop :=
  status &&& 0xFF ≠ 0 ∧ status &&& 0xFF ≠ 1 ∧ status &&& 0xFF ≠ 3

instance (status : Word) : Decidable (Complete status) := inferInstanceAs (Decidable (_ ∧ _))

theorem TermChannel.sem_ne {dev : Fin devPerInt} {c d : TermChannel} (h : c ≠ d) :
    c.sem dev ≠ d.sem dev := by
  have hdev := dev.isLt
  unfold devPerInt at hdev
  intro he
  have hv := congrArg Fin.val he
  cases c <;> cases d <;> simp only [TermChannel.sem] at hv
  · exact h rfl
  · omega
  · omega
  · exact h rfl

namespace Kernel

variable {L : Layout} {s t u : Kernel} {lossy : Prop} {p q : PcbId} {a b : Word}
  {j : Fin semDevLen} {dev : Fin devPerInt} {reg : Word → Word} {c d : TermChannel}

/-! ### One channel -/

/-- The `V` of a device writes to no device. -/
theorem wake_out (L : Layout) (s : Kernel) (j : Fin semDevLen) (status : Word) :
    (s.wake L j status).out = s.out := by
  have hr : ∀ (v : Kernel) (a : Word) (f : State → State), (v.release a f).2.out = v.out := by
    intro v a f
    unfold Kernel.release
    split <;> rfl
  have hr' := hr (s.setMem (L.sem j) (s.mem (L.sem j) + 1)) (L.sem j) fun st =>
    { st with reg_a0 := status }
  unfold Kernel.wake
  split
  · split
    · rename_i he
      rw [he] at hr'
      exact hr'
    · rename_i he
      rw [he] at hr'
      exact hr'
  · rfl

/-- Nobody is woken where the word is not negative or nobody waits. -/
theorem wake_none (hok : s.toAsl.Ok) (h : (s.mem (L.sem j)).toInt < 0 → s.queue (L.sem j) = [])
    (status : Word) :
    (s.wake L j status).readyQueue = s.readyQueue ∧
    (s.wake L j status).pcbFree_table = s.pcbFree_table ∧
    (s.wake L j status).currentProcess = s.currentProcess := by
  unfold Kernel.wake
  split
  · rename_i hneg
    have hp := removeBlocked_pcbs (s.setMem (L.sem j) (s.mem (L.sem j) + 1)).toPhase1 (L.sem j)
    have hfst := (release_spec (s := s.setMem (L.sem j) (s.mem (L.sem j) + 1)) hok (L.sem j)
      fun st => { st with reg_a0 := status }).1
    have hnil : (s.setMem (L.sem j) (s.mem (L.sem j) + 1)).queue (L.sem j) = [] := h hneg
    rw [hnil] at hfst
    unfold Kernel.release at hfst ⊢
    generalize Phase1.removeBlocked _ _ = r at hp hfst ⊢
    obtain ⟨x, v⟩ := r
    cases x with
    | none => exact ⟨rfl, congrArg Pcbs.pcbFree_table hp, rfl⟩
    | some p => cases hfst
  · exact ⟨rfl, rfl, rfl⟩

/-- The process for which the operation of a channel is completed. -/
def due (L : Layout) (s : Kernel) (dev : Fin devPerInt) (reg : Word → Word) (c : TermChannel) :
    Option PcbId :=
  if Complete (reg (c.status dev)) then (s.queue (L.sem (c.sem dev))).head? else none

/-- What the handler should do with one channel. -/
structure ChannelServed (L : Layout) (s t : Kernel) (dev : Fin devPerInt) (reg : Word → Word)
    (c : TermChannel) : Prop where
  acks : t.out = s.out ++
    if Complete (reg (c.status dev)) then [.store (c.command dev) ack] else []
  ready : t.readyQueue.Perm ((s.due L dev reg c).toList ++ s.readyQueue)
  soft : t.softBlockCount = s.softBlockCount - (s.due L dev reg c).toList.length
  woken : ∀ p, s.due L dev reg c = some p → t.pcbFree_table p = { s.pcbFree_table p with
    p_semAdd := 0
    p_s := { (s.pcbFree_table p).p_s with reg_a0 := reg (c.status dev) } }
  others : ∀ p, s.due L dev reg c ≠ some p → t.pcbFree_table p = s.pcbFree_table p
  queue : ∀ a, t.queue a = if a = L.sem (c.sem dev) ∧ Complete (reg (c.status dev))
    then (s.queue a).tail else s.queue a
  word : ∀ a, a ≠ L.sem (c.sem dev) ∨ ¬ Complete (reg (c.status dev)) → t.mem a = s.mem a
  current : t.currentProcess = s.currentProcess

/-- A channel is served if its byte is neither 1 nor 3 and its word is as it should be. -/
theorem channel_served (hs : Sound lossy s)
    (hb : reg (c.status dev) &&& 0xFF ≠ 1 ∧ reg (c.status dev) &&& 0xFF ≠ 3)
    (hw : Complete (reg (c.status dev)) → s.queue (L.sem (c.sem dev)) ≠ [] →
      (s.mem (L.sem (c.sem dev))).toInt < 0) :
    ChannelServed L s (s.termChannel L dev reg c) dev reg c := by
  unfold termChannel
  by_cases h0 : reg (c.status dev) &&& 0xFF ≠ 0
  · have hc : Complete (reg (c.status dev)) := ⟨h0, hb⟩
    rw [if_pos h0]
    have hso := hs.quiet (quiet_output s (.store (c.command dev) ack))
    have hsems := sems_wake (L := L) hso (c.sem dev) (reg (c.status dev))
    have hout := wake_out L (s.output (.store (c.command dev) ack)) (c.sem dev) (reg (c.status dev))
    have hdue : s.due L dev reg c = (s.queue (L.sem (c.sem dev))).head? := if_pos hc
    have hword : ∀ a, a ≠ L.sem (c.sem dev) ∨ ¬ Complete (reg (c.status dev)) →
        ((s.output (.store (c.command dev) ack)).wake L (c.sem dev) (reg (c.status dev))).mem a =
          s.mem a := fun a ha => (congrFun (congrArg Sems.word hsems) a).trans
        (Sems.wake_other (ha.resolve_right (not_not.mpr hc))).1
    cases hq : s.queue (L.sem (c.sem dev)) with
    -- nobody waits: only the word changes
    | nil =>
        rw [hq] at hdue
        have hdue' : s.due L dev reg c = none := hdue
        obtain ⟨hr, ht, hcur⟩ := wake_none (L := L) (s := s.output (.store (c.command dev) ack))
          hs.links.asl (fun _ => hq) (reg (c.status dev))
        have hqueue : ∀ a, ((s.sems.wake L (c.sem dev)).queue a) = s.queue a := by
          intro a
          by_cases ha : a = L.sem (c.sem dev)
          · rw [ha]
            unfold Sems.wake
            split
            · refine (Function.update_self ..).trans ?_
              show (s.queue (L.sem (c.sem dev))).tail = _
              rw [hq]
              rfl
            · rfl
          · exact (Sems.wake_other ha).2
        refine ⟨?_, ?_, ?_, fun p hp => ?_, fun p _ => congrFun ht p, fun a => ?_, hword, hcur⟩
        · rw [if_pos hc, hout]
          rfl
        · rw [hr, hdue']
          exact .refl _
        · rw [hdue']
          refine (congrArg Sems.soft hsems).trans ?_
          show (s.sems.wake L (c.sem dev)).soft = s.softBlockCount - 0
          unfold Sems.wake
          have hqs : s.sems.queue (L.sem (c.sem dev)) = [] := hq
          simp only [hqs, if_true, sub_zero]
          split <;> rfl
        · rw [hdue'] at hp
          cases hp
        · rw [show ((s.output (.store (c.command dev) ack)).wake L (c.sem dev)
            (reg (c.status dev))).queue a = s.queue a from
              (congrFun (congrArg Sems.queue hsems) a).trans (hqueue a)]
          split
          · rename_i ha
            rw [ha.1, hq]
            rfl
          · rfl
    -- the first who waits is ready
    | cons p rest =>
        rw [hq] at hdue
        have hdue' : s.due L dev reg c = some p := hdue
        have hneg := hw hc (by rw [hq]; exact List.cons_ne_nil p rest)
        have hk := wake_some (L := L) (s := s.output (.store (c.command dev) ack)) hs.links.asl
          hneg hq (reg (c.status dev))
        refine ⟨?_, ?_, ?_, fun q hqp => ?_, fun q hqp => ?_, fun a => ?_, hword, hk.current⟩
        · rw [if_pos hc, hout]
          rfl
        · rw [hk.ready, hdue']
          exact List.perm_orderedInsert _ _ _
        · rw [hdue', hk.soft]
          rfl
        · obtain rfl : p = q := Option.some.inj (hdue'.symm.trans hqp)
          exact hk.woken
        · exact hk.others q fun he => hqp (he ▸ hdue')
        · rw [hk.queue]
          by_cases ha : a = L.sem (c.sem dev)
          · rw [if_pos ⟨ha, hc⟩, ha, Function.update_self]
            rfl
          · rw [if_neg fun h => ha h.1, Function.update_of_ne ha]
            rfl
  · have hc : ¬ Complete (reg (c.status dev)) := fun hc => h0 hc.1
    have hdue : s.due L dev reg c = none := if_neg hc
    rw [if_neg h0]
    refine ⟨?_, ?_, ?_, fun p hp => ?_, fun p _ => rfl, fun a => ?_, fun a _ => rfl, rfl⟩
    · rw [if_neg hc, List.append_nil]
    · rw [hdue]
      exact .refl _
    · rw [hdue]
      exact (sub_zero _).symm
    · rw [hdue] at hp
      cases hp
    · exact (if_neg fun h => hc h.2).symm

/-! ### Both channels -/

/-- What the handler should do with a terminal. -/
structure Served (L : Layout) (s t : Kernel) (dev : Fin devPerInt) (reg : Word → Word) : Prop where
  /-- Each channel that is completed is acknowledged, once. -/
  acks : t.out = s.out ++ [TermChannel.tx, .rx].filterMap fun c =>
    if Complete (reg (c.status dev)) then some (.store (c.command dev) ack) else none
  /-- A channel that is not keeps its semaphore and its queue. -/
  still : ∀ c : TermChannel, ¬ Complete (reg (c.status dev)) →
    t.mem (L.sem (c.sem dev)) = s.mem (L.sem (c.sem dev)) ∧
    t.queue (L.sem (c.sem dev)) = s.queue (L.sem (c.sem dev))
  /-- Who waits for one that is gets its status. -/
  woken : ∀ c p, s.due L dev reg c = some p →
    t.queue (L.sem (c.sem dev)) = (s.queue (L.sem (c.sem dev))).tail ∧
    t.pcbFree_table p = { s.pcbFree_table p with
      p_semAdd := 0
      p_s := { (s.pcbFree_table p).p_s with reg_a0 := reg (c.status dev) } }
  /-- Nobody else becomes ready. -/
  ready : t.readyQueue.Perm ([TermChannel.tx, .rx].filterMap (s.due L dev reg) ++ s.readyQueue)
  soft : t.softBlockCount =
    s.softBlockCount - ([TermChannel.tx, .rx].filterMap (s.due L dev reg)).length

theorem filterMap_channels {α : Type*} (f : TermChannel → Option α) :
    [TermChannel.tx, .rx].filterMap f = (f .tx).toList ++ (f .rx).toList := by
  cases h₁ : f .tx <;> cases h₂ : f .rx <;> simp [h₁, h₂]

/-- The channels do not disturb each other. -/
theorem due_other (h : ChannelServed L s u dev reg c) (hne : d ≠ c) :
    u.due L dev reg d = s.due L dev reg d ∧
    u.queue (L.sem (d.sem dev)) = s.queue (L.sem (d.sem dev)) ∧
    u.mem (L.sem (d.sem dev)) = s.mem (L.sem (d.sem dev)) := by
  have hsem : L.sem (d.sem dev) ≠ L.sem (c.sem dev) :=
    fun he => TermChannel.sem_ne hne (Layout.sem_inj he)
  have hq : u.queue (L.sem (d.sem dev)) = s.queue (L.sem (d.sem dev)) := by
    rw [h.queue, if_neg fun he => hsem he.1]
  refine ⟨?_, hq, h.word _ (.inl hsem)⟩
  unfold due
  rw [hq]

theorem due_mem (h : s.due L dev reg c = some p) : p ∈ s.queue (L.sem (c.sem dev)) := by
  unfold due at h
  split at h
  · exact List.mem_of_head? h
  · cases h

/-- Both are served if each is, one after the other. -/
theorem Served.both (hs : Linked lossy s none) (h₁ : ChannelServed L s u dev reg .tx)
    (h₂ : ChannelServed L u t dev reg .rx) : Served L s t dev reg := by
  obtain ⟨hdue, hqrx, hwrx⟩ := due_other h₁ (d := .rx) nofun
  have htx : ∀ a, a ≠ L.sem (TermChannel.rx.sem dev) → t.queue a = u.queue a ∧ t.mem a = u.mem a :=
    fun a ha => ⟨by rw [h₂.queue, if_neg fun he => ha he.1], h₂.word a (.inl ha)⟩
  have hne : L.sem (TermChannel.tx.sem dev) ≠ L.sem (TermChannel.rx.sem dev) :=
    fun he => TermChannel.sem_ne (c := .tx) (d := .rx) nofun (Layout.sem_inj he)
  refine ⟨?_, fun c hc => ?_, fun c p hp => ?_, ?_, ?_⟩
  · rw [h₂.acks, h₁.acks, filterMap_channels, List.append_assoc]
    congr 2 <;> split <;> rfl
  · cases c with
    | tx =>
        obtain ⟨hq, hw⟩ := htx _ hne
        rw [hq, hw, h₁.queue, if_neg fun h => hc h.2]
        exact ⟨h₁.word _ (.inr hc), rfl⟩
    | rx =>
        rw [h₂.word _ (.inr hc), h₂.queue, if_neg fun h => hc h.2]
        exact ⟨hwrx, hqrx⟩
  · have hcomp : Complete (reg (c.status dev)) := by
      by_contra hno
      unfold due at hp
      rw [if_neg hno] at hp
      cases hp
    cases c with
    | tx =>
        -- the process waits for one channel only
        have hother : u.due L dev reg .rx ≠ some p := fun he =>
          hne (hs.queue_unique (due_mem hp) (due_mem (hdue ▸ he)))
        rw [(htx _ hne).1, h₁.queue, if_pos ⟨rfl, hcomp⟩, h₂.others p hother]
        exact ⟨rfl, h₁.woken p hp⟩
    | rx =>
        have hother : s.due L dev reg .tx ≠ some p := fun he =>
          hne (hs.queue_unique (due_mem he) (due_mem hp))
        rw [h₂.queue, if_pos ⟨rfl, hcomp⟩, hqrx, h₂.woken p (hdue.trans hp), h₁.others p hother]
        exact ⟨rfl, rfl⟩
  · rw [filterMap_channels]
    refine (h₂.ready.trans ?_)
    rw [hdue]
    refine (h₁.ready.append_left _).trans ?_
    rw [← List.append_assoc]
    exact (List.perm_append_comm).append_right _
  · rw [h₂.soft, hdue, h₁.soft, filterMap_channels, List.length_append]
    push_cast
    omega

/-! ### What the handler does -/

theorem out_termChannel (L : Layout) (s : Kernel) (dev : Fin devPerInt) (reg : Word → Word)
    (c : TermChannel) : (s.termChannel L dev reg c).out = s.out ++
      if reg (c.status dev) &&& 0xFF ≠ 0 then [.store (c.command dev) ack] else [] := by
  unfold termChannel
  split
  · exact wake_out ..
  · exact (List.append_nil _).symm

/-- A channel whose word is not negative is left alone, and the other one. -/
theorem queue_termChannel (dev : Fin devPerInt) (reg : Word → Word) (c : TermChannel)
    (hs : Sound lossy s) (d : TermChannel)
    (h : d ≠ c ∨ 0 ≤ (s.mem (L.sem (d.sem dev))).toInt) :
    (s.termChannel L dev reg c).queue (L.sem (d.sem dev)) = s.queue (L.sem (d.sem dev)) ∧
    (s.termChannel L dev reg c).mem (L.sem (d.sem dev)) = s.mem (L.sem (d.sem dev)) := by
  unfold termChannel
  split
  · have hsems := sems_wake (L := L) (hs.quiet (quiet_output s (.store (c.command dev) ack)))
      (c.sem dev) (reg (c.status dev))
    have hsame : (s.sems.wake L (c.sem dev)).word (L.sem (d.sem dev)) = s.mem (L.sem (d.sem dev)) ∧
        (s.sems.wake L (c.sem dev)).queue (L.sem (d.sem dev)) = s.queue (L.sem (d.sem dev)) := by
      by_cases hdc : d = c
      · subst hdc
        have hpos := h.resolve_left fun hne => hne rfl
        have hneg : ¬ (s.sems.word (L.sem (d.sem dev))).toInt < 0 := not_lt.mpr hpos
        unfold Sems.wake
        rw [if_neg hneg]
        exact ⟨rfl, rfl⟩
      · exact Sems.wake_other fun he => TermChannel.sem_ne hdc (Layout.sem_inj he)
    exact ⟨(congrFun (congrArg Sems.queue hsems) _).trans hsame.2,
      (congrFun (congrArg Sems.word hsems) _).trans hsame.1⟩
  · exact ⟨rfl, rfl⟩

theorem Sound.termChannel (h : Sound lossy s) (dev : Fin devPerInt) (reg : Word → Word)
    (c : TermChannel) : Sound lossy (s.termChannel L dev reg c) := by
  unfold Kernel.termChannel
  split
  · exact (h.quiet (quiet_output s _)).wake _ _
  · exact h

/-- **When a terminal is served**: the handler takes every status byte but 0 for a completion. -/
theorem served_iff (hs : Sound lossy s) (dev : Fin devPerInt) (reg : Word → Word) :
    Served L s ((s.termChannel L dev reg .tx).termChannel L dev reg .rx) dev reg ↔
      ∀ c : TermChannel, reg (c.status dev) &&& 0xFF ≠ 1 ∧ reg (c.status dev) &&& 0xFF ≠ 3 ∧
        (Complete (reg (c.status dev)) → s.queue (L.sem (c.sem dev)) ≠ [] →
          (s.mem (L.sem (c.sem dev))).toInt < 0) := by
  have hsu := hs.termChannel (L := L) dev reg .tx
  constructor
  · intro h
    -- as many acknowledgements as bytes that are not 0
    have hacks : ∀ c : TermChannel, reg (c.status dev) &&& 0xFF ≠ 0 → Complete (reg (c.status dev)) := by
      have hout := h.acks
      rw [out_termChannel, out_termChannel, List.append_assoc, filterMap_channels] at hout
      have hlen := congrArg List.length (List.append_cancel_left hout)
      have hle : ∀ c : TermChannel, Complete (reg (c.status dev)) → reg (c.status dev) &&& 0xFF ≠ 0 :=
        fun _ hc => hc.1
      rw [List.length_append, List.length_append] at hlen
      intro c h0
      by_contra hno
      have htx := hle .tx
      have hrx := hle .rx
      cases c <;> split_ifs at hlen <;> simp_all
    intro c
    refine ⟨fun h1 => ?_, fun h3 => ?_, fun hc hq => ?_⟩
    · exact (hacks c (by rw [h1]; decide)).2.1 h1
    · exact (hacks c (by rw [h3]; decide)).2.2 h3
    · by_contra hpos
      obtain ⟨p, rest, hpq⟩ := List.exists_cons_of_ne_nil hq
      have hdue : s.due L dev reg c = some p := by
        unfold due
        rw [if_pos hc, hpq]
        rfl
      have hsame : ((s.termChannel L dev reg .tx).termChannel L dev reg .rx).queue
          (L.sem (c.sem dev)) = s.queue (L.sem (c.sem dev)) := by
        obtain ⟨hq₁, hw₁⟩ := queue_termChannel dev reg .tx hs c (.inr (not_lt.mp hpos))
        rw [(queue_termChannel dev reg .rx hsu c (.inr (by rw [hw₁]; exact not_lt.mp hpos))).1, hq₁]
      have htail := (h.woken c p hdue).1
      rw [hsame, hpq] at htail
      exact absurd (congrArg List.length htail) (by simp)
  · intro h
    have h₁ := channel_served (L := L) hs ⟨(h .tx).1, (h .tx).2.1⟩ (h .tx).2.2
    obtain ⟨-, hq, hw⟩ := due_other h₁ (d := .rx) nofun
    have h₂ := channel_served (L := L) hsu ⟨(h .rx).1, (h .rx).2.1⟩ (by
      rw [hq, hw]
      exact (h .rx).2.2)
    exact .both hs.links h₁ h₂

/-! ### Runs -/

theorem deviceInterrupt_terminal (L : Layout) (s : Kernel)
    (hd : getHighestPriorityDevice (reg (intBitmap 7)) = some dev) :
    s.deviceInterrupt L 7 reg = (s.termChannel L dev reg .tx).termChannel L dev reg .rx := by
  unfold deviceInterrupt
  rw [hd]
  dsimp only
  rw [dif_neg (by omega)]

theorem interruptHandler_terminal (L : Layout) (s : Kernel) {saved : State} {i : Inputs}
    (hc : saved.cause &&& causeExcCodeMask = 21) : s.interruptHandler L saved i =
      ((s.chargeTime (i.tod 0)).deviceInterrupt L 7 i.reg).resume saved (i.tod 1) := by
  unfold interruptHandler
  dsimp only
  rw [hc, if_neg (by decide), if_neg (by decide), if_pos ⟨by decide, by decide⟩]
  rfl

/-- **A terminal interrupt serves both channels as it should**, in every reachable state, if and
only if no channel is ready or busy and the word of a channel that is completed is negative where
somebody waits. -/
theorem served_of_run {mem : Word → Word} {support : Word → SupportT} {test ramtop tod : Word}
    {es : List KernelEvent} (h : Run (step L) anyStep (initKernel L mem support test ramtop tod) es s)
    {saved : State} {i : Inputs} (hint : causeIsInt saved.cause)
    (hc : saved.cause &&& causeExcCodeMask = 21)
    (hd : getHighestPriorityDevice (i.reg (intBitmap 7)) = some dev)
    (hst : s.step L (.exception saved i) = some t) :
    t = ((s.chargeTime (i.tod 0)).deviceInterrupt L 7 i.reg).resume saved (i.tod 1) ∧
    (Served L (s.chargeTime (i.tod 0)) ((s.chargeTime (i.tod 0)).deviceInterrupt L 7 i.reg)
        dev i.reg ↔ ∀ c : TermChannel,
      i.reg (c.status dev) &&& 0xFF ≠ 1 ∧ i.reg (c.status dev) &&& 0xFF ≠ 3 ∧
      (Complete (i.reg (c.status dev)) → s.queue (L.sem (c.sem dev)) ≠ [] →
        (s.mem (L.sem (c.sem dev))).toInt < 0)) := by
  have hq := quiet_chargeTime s (i.tod 0)
  refine ⟨?_, ?_⟩
  · rw [step_interrupt hst hint]
    exact interruptHandler_terminal L s hc
  · have hiff := served_iff (L := L) ((sound_of_run h).quiet hq) dev i.reg
    rw [deviceInterrupt_terminal L _ hd]
    rwa [hq.mem, hq.asl] at hiff

/-- The registers of terminal 0 when a character has come, and one is still being sent. -/
def busyRegs (a : Word) : Word :=
  if a = intBitmap 7 then 1
  else if a = TermChannel.tx.status ⟨0, by decide⟩ then 3
  else if a = TermChannel.rx.status ⟨0, by decide⟩ then 5
  else 0

/-- The first process creates a child and writes a character to terminal 0, the child reads one. -/
def readWrite : List KernelEvent :=
  [call (-1) 0 0 0, call (-5) 0x10000260 0x4102 0, call (-5) 0x10000258 2 0]

/-- The registers when a character has come and none is being sent. -/
def idleRegs (a : Word) : Word :=
  if a = intBitmap 7 then 1 else if a = TermChannel.rx.status ⟨0, by decide⟩ then 5 else 0

/-- A character comes while the transmitter is idle. -/
theorem served_of_run_read : ∃ s t, Run (step layout₀) anyStep boot₀ readWrite s ∧
    s.step layout₀ (interrupt 21 idleRegs) = some t ∧
    Served layout₀ (s.chargeTime 0) ((s.chargeTime 0).deviceInterrupt layout₀ 7 idleRegs)
      ⟨0, by decide⟩ idleRegs := by
  obtain ⟨t, hr, hst⟩ := exists_run (step layout₀) anyStep
    (fun s => (s.step layout₀ (interrupt 21 idleRegs)).isSome = true ∧
      ∀ c ∈ [TermChannel.tx, .rx], Complete (idleRegs (c.status ⟨0, by decide⟩)) →
        s.queue (layout₀.sem (c.sem ⟨0, by decide⟩)) ≠ [] →
        (s.mem (layout₀.sem (c.sem ⟨0, by decide⟩))).toInt < 0) boot₀ readWrite (by decide +kernel)
  obtain ⟨u, hu⟩ := Option.isSome_iff_exists.mp hst.1
  refine ⟨t, u, hr, hu, (served_of_run hr (by decide) (by decide) (by decide) hu).2.mpr fun c => ?_⟩
  cases c with
  | tx => exact ⟨by decide, by decide, hst.2 .tx (by decide)⟩
  | rx => exact ⟨by decide, by decide, hst.2 .rx (by decide)⟩

/-- **A writer is woken while its character is still being sent**, when one is received. -/
theorem busy_writer_woken : ∃ s t, Run (step layout₀) anyStep boot₀ readWrite s ∧
    s.step layout₀ (interrupt 21 busyRegs) = some t ∧
    ¬ Complete (busyRegs (TermChannel.tx.status ⟨0, by decide⟩)) ∧
    s.blockedCount (layout₀.sem (TermChannel.tx.sem ⟨0, by decide⟩)) = 1 ∧
    t.blockedCount (layout₀.sem (TermChannel.tx.sem ⟨0, by decide⟩)) = 0 ∧
    s.softBlockCount = 2 ∧ t.softBlockCount = 0 := by
  obtain ⟨t, hr, hb⟩ := exists_run (step layout₀) anyStep
    (fun s => s.blockedCount (layout₀.sem (TermChannel.tx.sem ⟨0, by decide⟩)) = 1 ∧
      s.softBlockCount = 2 ∧ (s.step layout₀ (interrupt 21 busyRegs)).any (fun t : Kernel => decide
        (t.blockedCount (layout₀.sem (TermChannel.tx.sem ⟨0, by decide⟩)) = 0 ∧
          t.softBlockCount = 0)) = true) boot₀ readWrite (by decide +kernel)
  obtain ⟨u, hu, hc⟩ := (Option.any_eq_true _ _).mp hb.2.2
  have hc := of_decide_eq_true hc
  exact ⟨t, u, hr, hu, by decide, hb.1, hc.1, hb.2.1, hc.2⟩

end Kernel

end PandOS
