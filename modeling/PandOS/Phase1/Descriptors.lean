import Mathlib.Data.List.TakeWhile
import PandOS.Phase1.BlockMap

/-!
# Phase 1 — the descriptors of the ASL

Two laws of the lists of `asl.c`, and the calls that break them.  Every descriptor is free or has
a process queue that is not empty (`Conserved`), in every state of a run exactly if no
`outBlocked` takes the last process of a queue (`conserved_iff`): `outBlocked` does not give the
descriptor back, as `removeBlocked` does.  The active descriptors are in the order of their keys
(`Sorted`), in every state of a run exactly if a new one is only linked into an empty list
(`sorted_iff`): `insertBlocked` links it before `insert_pos`, where it should go after it.
-/

namespace PandOS.AslLinks

variable {ι : Type} [DecidableEq ι] [Fintype ι]

/-- No `outBlocked` takes the last process of a queue. -/
def Keeps (m : AslLinks ι) : AslCall ι → Prop
  | .outBlocked p => m.blocked (m.p_semAdd p) ≠ some [p]
  | _ => True

/-- `insertBlocked` finds the descriptor, or none is active, or none is free. -/
def Fits (m : AslLinks ι) : AslCall ι → Prop
  | .insertBlocked semAdd _ => m.findSemd semAdd ≠ some none ∨
      m.s_link.listEmpty (.head .semd_h) ∨ m.s_link.listEmpty (.head .semdFree_h)
  | _ => True

instance (m : AslLinks ι) : (e : AslCall ι) → Decidable (m.Keeps e)
  | .outBlocked p => inferInstanceAs (Decidable (m.blocked (m.p_semAdd p) ≠ some [p]))
  | .insertBlocked _ _ | .removeBlocked _ | .headBlocked _ | .blockedCount _ | .setSemAdd _ _
  | .setPrio _ _ => .isTrue trivial

instance (m : AslLinks ι) : (e : AslCall ι) → Decidable (m.Fits e)
  | .insertBlocked _ _ => inferInstanceAs (Decidable (_ ∨ _))
  | .removeBlocked _ | .outBlocked _ | .headBlocked _ | .blockedCount _ | .setSemAdd _ _
  | .setPrio _ _ => .isTrue trivial

/-- `MAXPROC` other semaphores have processes blocked on them, and this one has none. -/
def Full (m : AslLinks ι) (semAdd : Word) : Prop :=
  m.blocked semAdd = some [] ∧ ∃ keys : Finset Word, keys.card = maxProc ∧
    ∀ a ∈ keys, a ≠ semAdd ∧ ∃ xs, m.blocked a = some xs ∧ xs ≠ []

/-- The descriptors are shared out between `semdFree_h` and `semd_h`, and the active ones are in
use. -/
structure Shared (m : AslLinks ι) (free act : List SemdId) : Prop where
  semdFree_h : m.s_link.elems .semdFree_h = some free
  semd_h : m.s_link.elems .semd_h = some act
  split : ∀ d, free.count d + act.count d = 1
  busy : ∀ d ∈ act, ∃ xs, m.p_list.elems d = some xs ∧ xs ≠ []
  keys : ∀ d ∈ act, ∀ d' ∈ act, m.s_key d = m.s_key d' → d = d'
  /-- `insertBlocked` returns `TRUE` exactly when they are used up, and then changes nothing. -/
  insert : ∀ semAdd p, m.Unqueued p → ∃ full t, m.insertBlocked semAdd p = some (full, t) ∧
    (full = true ↔ m.Full semAdd) ∧ (full = true → t = m)

/-- No descriptor is lost or in both lists, and none is active for nothing. -/
def Conserved (m : AslLinks ι) : Prop := ∃ free act, Shared m free act

/-- The active descriptors are in the order of their keys. -/
def Sorted (m : AslLinks ι) : Prop :=
  ∃ act, m.s_link.elems .semd_h = some act ∧ (act.map m.s_key).Pairwise (· < ·)

variable {m t : AslLinks ι} {free act : List SemdId} {l : SemdId → Option (List ι)}
  {semAdd : Word} {d : SemdId} {p q : ι} {xs : List ι} {e : AslCall ι}

/-! ### What a call does to the lists -/

/-- The lists after the call `e`. -/
inductive Change (m : AslLinks ι) (e : AslCall ι) (free act : List SemdId)
    (l : SemdId → Option (List ι)) (t : AslLinks ι) : Prop where
  | same (h : t.Holds free act l) (hk : t.s_key = m.s_key) (hkeep : m.Keeps e) (hfit : m.Fits e)
  /-- The queue of an active descriptor changes. -/
  | queue (d : SemdId) (xs : List ι) (hd : d ∈ act)
      (h : t.Holds free act (Function.update l d (some xs))) (hk : t.s_key = m.s_key)
      (hkeep : xs ≠ [] ↔ m.Keeps e) (hfit : m.Fits e)
  /-- A descriptor is given back. -/
  | back (d : SemdId) (hd : d ∈ act)
      (h : t.Holds (d :: free) (act.erase d) (Function.update l d (some [])))
      (hk : t.s_key = m.s_key) (hkeep : m.Keeps e) (hfit : m.Fits e)
  /-- A free descriptor is taken. -/
  | taken (d : SemdId) (rest : List SemdId) (semAdd : Word) (p : ι)
      (hno : ∀ c ∈ act, m.s_key c ≠ semAdd) (hf : free = d :: rest)
      (h : t.Holds rest (linkAt m.s_key act semAdd d) (Function.update l d (some [p])))
      (hk : t.s_key = Function.update m.s_key d semAdd) (hkeep : m.Keeps e)
      (hfit : m.Fits e ↔ act = [])

namespace Holds

omit [DecidableEq ι] [Fintype ι] in
/-- Whether `insertBlocked` finds a descriptor. -/
theorem fits_insertBlocked (h : m.Holds free act l) (semAdd : Word) (p : ι) :
    m.Fits (.insertBlocked semAdd p) ↔ (∃ d ∈ act, m.s_key d = semAdd) ∨ act = [] ∨ free = [] := by
  have ha := h.semds.listEmpty_iff semds_semd_h
  have hf := h.semds.listEmpty_iff semds_semdFree_h
  unfold Fits
  rw [ha, hf]
  refine or_congr ?_ Iff.rfl
  rcases h.findSemd_cases semAdd with ⟨d, xs, hd, hk, -, hfind⟩ | ⟨hno, hfind⟩
  · rw [hfind]
    simpa using ⟨d, hd, hk⟩
  · rw [hfind]
    simpa using hno

/-- `insertBlocked` writes one queue, or takes a descriptor, or finds none. -/
theorem insertBlocked_change (h : m.Holds free act l) (hp : m.Unqueued p)
    (hs : m.step (.insertBlocked semAdd p) = some t) :
    Change m (.insertBlocked semAdd p) free act l t := by
  have hfit := h.fits_insertBlocked semAdd p
  rcases h.insertBlocked_cases (h.unqueued_iff.mp hp) semAdd with
    ⟨d, xs, lk, hd, hk, hl, hr, hh⟩ | ⟨hno, hf, hr⟩ | ⟨hno, d, rest, sk, lk, rfl, hr, hh⟩
  all_goals
    rw [step, call, hr] at hs
    obtain rfl := Option.some.inj hs
  · have hne : enqueue m.p_prio xs p ≠ [] := List.ne_nil_of_mem (mem_enqueue.mpr (.inl rfl))
    exact .queue d _ hd hh rfl (iff_of_true hne trivial) (hfit.mpr (.inl ⟨d, hd, hk⟩))
  · exact .same h rfl trivial (hfit.mpr (.inr (.inr hf)))
  · refine .taken d rest semAdd p hno rfl hh rfl trivial (hfit.trans ⟨?_, fun ha => .inr (.inl ha)⟩)
    rintro (⟨c, hc, hk⟩ | ha | hf)
    · exact absurd hk (hno c hc)
    · exact ha
    · cases hf

/-- `removeBlocked` shortens one queue, and gives the descriptor back when it empties it. -/
theorem removeBlocked_change (h : m.Holds free act l)
    (hs : m.step (.removeBlocked semAdd) = some t) :
    Change m (.removeBlocked semAdd) free act l t := by
  rcases h.removeBlocked_cases semAdd with ⟨hno, hr⟩ | ⟨d, xs, sk, lk, hd, hk, hl, hr, hh⟩
  all_goals
    rw [step, call, hr] at hs
    obtain rfl := Option.some.inj hs
  · exact .same h rfl trivial trivial
  · by_cases hx : xs.tail = []
    · rw [if_pos hx, if_pos hx, hx] at hh
      exact .back d hd hh rfl trivial trivial
    · rw [if_neg hx, if_neg hx] at hh
      exact .queue d _ hd hh rfl (iff_of_true hx trivial) trivial

omit [Fintype ι] in
/-- Whether `outBlocked` takes the last process of the queue. -/
theorem erase_ne_nil (hp : p ∈ xs) : xs.erase p ≠ [] ↔ xs ≠ [p] := by
  rw [not_iff_not, List.erase_eq_nil_iff]
  refine or_iff_right ?_
  exact List.ne_nil_of_mem hp

/-- `outBlocked` shortens one queue, and never gives a descriptor back. -/
theorem outBlocked_change (h : m.Holds free act l) (hs : m.step (.outBlocked p) = some t) :
    Change m (.outBlocked p) free act l t := by
  have hkeeps : m.Keeps (.outBlocked p) ↔ m.blocked (m.p_semAdd p) ≠ some [p] := Iff.rfl
  rcases h.outBlocked_cases p with ⟨hno, hr⟩ | ⟨d, xs, hd, hk, hl, ⟨hp, hr⟩ | ⟨hp, lk, hr, hh⟩⟩
  all_goals
    rw [step, call, hr] at hs
    obtain rfl := Option.some.inj hs
  · refine .same h rfl (hkeeps.mpr ?_) trivial
    rw [h.blocked_nil hno]
    intro he
    cases he
  · refine .same h rfl (hkeeps.mpr ?_) trivial
    rw [← hk, h.blocked_eq hd hl, Ne, Option.some.injEq]
    rintro rfl
    exact hp List.mem_cons_self
  · refine .queue d _ hd hh rfl ?_ trivial
    rw [hkeeps, erase_ne_nil hp, ← hk, h.blocked_eq hd hl, Ne, Ne, Option.some.injEq]

theorem change (h : m.Holds free act l) (hp : m.Proper e) (hs : m.step e = some t) :
    Change m e free act l t := by
  cases e with
  | insertBlocked semAdd p => exact h.insertBlocked_change hp hs
  | removeBlocked semAdd => exact h.removeBlocked_change hs
  | outBlocked p => exact h.outBlocked_change hs
  | headBlocked semAdd =>
      obtain ⟨r, hr⟩ : ∃ r, m.headBlocked semAdd = some r := by
        rcases h.read_cases semAdd with ⟨-, hr, -⟩ | ⟨d, xs, -, -, -, hr, -⟩
        all_goals exact ⟨_, hr⟩
      rw [step, call, hr] at hs
      obtain rfl := Option.some.inj hs
      exact .same h rfl trivial trivial
  | blockedCount semAdd =>
      obtain ⟨r, hr⟩ : ∃ r, m.blockedCount semAdd = some r := by
        rcases h.read_cases semAdd with ⟨-, -, hr⟩ | ⟨d, xs, -, -, -, -, hr⟩
        all_goals exact ⟨_, hr⟩
      rw [step, call, hr] at hs
      obtain rfl := Option.some.inj hs
      exact .same h rfl trivial trivial
  | setSemAdd | setPrio =>
      obtain rfl := Option.some.inj hs
      exact .same ⟨h.semds, h.procs, h.all, h.keys, h.made, h.idle⟩ rfl trivial trivial

theorem step (h : m.Holds free act l) (hp : m.Proper e) (hs : m.step e = some t) :
    ∃ free act l, t.Holds free act l := by
  cases h.change hp hs with
  | same h => exact ⟨_, _, _, h⟩
  | queue _ _ _ h => exact ⟨_, _, _, h⟩
  | back _ _ h => exact ⟨_, _, _, h⟩
  | taken _ _ _ _ _ _ h => exact ⟨_, _, _, h⟩

end Holds

/-! ### Descriptors are conserved -/

/-- The queues of the active descriptors are not empty. -/
def Busy (act : List SemdId) (l : SemdId → Option (List ι)) : Prop := ∀ d ∈ act, l d ≠ some []

namespace Holds

omit [DecidableEq ι] [Fintype ι] in
theorem length (h : m.Holds free act l) : free.length + act.length = maxProc := by
  have hperm : (free ++ act).Perm (List.finRange maxProc) := by
    refine List.perm_iff_count.mpr fun d => ?_
    rw [List.count_append, h.split d,
      List.count_eq_one_of_mem (List.nodup_finRange _) (List.mem_finRange d)]
  rw [← List.length_append, hperm.length_eq, List.length_finRange]

omit [DecidableEq ι] [Fintype ι] in
/-- The keys of the active descriptors. -/
theorem card_keys (h : m.Holds free act l) : (act.map m.s_key).toFinset.card = act.length := by
  have hna : act.Nodup := h.semds.nodup semds_semd_h
  have hn : (act.map m.s_key).Nodup :=
    hna.map_on fun c hc c' hc' hk => h.keys c hc c' hc' hk
  rw [List.toFinset_card_of_nodup hn, List.length_map]

omit [DecidableEq ι] in
/-- With no empty queue, the processes that are blocked say which descriptors are active. -/
theorem blocked_ne_nil (h : m.Holds free act l) (hb : Busy act l) (a : Word) :
    (∃ xs, m.blocked a = some xs ∧ xs ≠ []) ↔ a ∈ (act.map m.s_key).toFinset := by
  rw [List.mem_toFinset, List.mem_map]
  constructor
  · rintro ⟨xs, hx, hne⟩
    by_contra hno
    have hnil : m.blocked a = some [] := h.blocked_nil fun d hd hk => hno ⟨d, hd, hk⟩
    exact hne (Option.some.inj (hx.symm.trans hnil))
  · rintro ⟨d, hd, rfl⟩
    obtain ⟨xs, hxs⟩ := Option.ne_none_iff_exists'.mp (h.made d hd)
    refine ⟨xs, h.blocked_eq hd hxs, ?_⟩
    rintro rfl
    exact hb d hd hxs

omit [DecidableEq ι] in
/-- With every active descriptor in use, a semaphore finds none exactly when it has none and none is
free. -/
theorem full_iff (h : m.Holds free act l) (hb : Busy act l) (semAdd : Word) :
    m.Full semAdd ↔ (∀ d ∈ act, m.s_key d ≠ semAdd) ∧ free = [] := by
  have hlen := h.length
  have hcard := h.card_keys
  constructor
  · rintro ⟨hnil, keys, hkeys, hall⟩
    refine ⟨fun d hd hk => ?_, ?_⟩
    · obtain ⟨xs, hx, hne⟩ := (h.blocked_ne_nil hb semAdd).mpr (by simpa using ⟨d, hd, hk⟩)
      exact hne (Option.some.inj (hx.symm.trans hnil))
    · have hsub : keys ⊆ (act.map m.s_key).toFinset := fun a ha =>
        (h.blocked_ne_nil hb a).mp (hall a ha).2
      have hle := Finset.card_le_card hsub
      exact List.length_eq_zero_iff.mp (by omega)
  · rintro ⟨hno, rfl⟩
    refine ⟨h.blocked_nil hno, (act.map m.s_key).toFinset, ?_, fun a ha => ⟨?_, ?_⟩⟩
    · rw [hcard, ← hlen, List.length_nil, Nat.zero_add]
    · obtain ⟨d, hd, rfl⟩ := List.mem_map.mp (List.mem_toFinset.mp ha)
      exact hno d hd
    · exact (h.blocked_ne_nil hb a).mpr ha

/-- The sharing out of the descriptors holds anyway, so what may fail is that each is in use. -/
theorem conserved_iff_busy (h : m.Holds free act l) : m.Conserved ↔ Busy act l := by
  constructor
  · rintro ⟨free', act', hs⟩ d hd hl
    obtain rfl := Option.some.inj ((h.semds.elems semds_semd_h).symm.trans hs.semd_h)
    obtain ⟨xs, hx, hne⟩ := hs.busy d hd
    exact hne (Option.some.inj (hx.symm.trans (h.procs.elems hl)))
  · intro hb
    refine ⟨free, act, h.semds.elems semds_semdFree_h, h.semds.elems semds_semd_h, h.split,
      fun d hd => ?_, h.keys, fun semAdd p hp => ?_⟩
    · obtain ⟨xs, hxs⟩ := Option.ne_none_iff_exists'.mp (h.made d hd)
      refine ⟨xs, h.procs.elems hxs, ?_⟩
      rintro rfl
      exact hb d hd hxs
    · have hfull := h.full_iff hb semAdd
      rcases h.insertBlocked_cases (h.unqueued_iff.mp hp) semAdd with
        ⟨d, xs, lk, hd, hk, -, hr, -⟩ | ⟨hno, hf, hr⟩ | ⟨hno, d, rest, sk, lk, hf, hr, -⟩
      · exact ⟨false, _, hr, by simpa [hfull] using fun hno => absurd hk (hno d hd), nofun⟩
      · exact ⟨true, m, hr, by simpa using hfull.mpr ⟨hno, hf⟩, fun _ => rfl⟩
      · exact ⟨false, _, hr, by simp [hfull, hf], nofun⟩

/-- One call keeps the queues from being empty, unless it is an `outBlocked` of the last
process. -/
theorem busy_step (h : m.Holds free act l) (hb : Busy act l) (hp : m.Proper e)
    (hs : m.step e = some t) : t.Conserved ↔ m.Keeps e := by
  have hother : ∀ {c d xs}, c ∈ act → c ≠ d → Function.update l d (some xs) c ≠ some [] :=
    fun hc hcd => by
      rw [Function.update_of_ne hcd]
      exact hb _ hc
  cases h.change hp hs with
  | same h' hk hkeep => exact iff_of_true (h'.conserved_iff_busy.mpr hb) hkeep
  | queue d xs hd h' hk hkeep =>
      rw [h'.conserved_iff_busy, ← hkeep]
      constructor
      · intro hb' hx
        exact hb' d hd (by rw [Function.update_self, hx])
      · intro hx c hc
        by_cases hcd : c = d
        · rw [hcd, Function.update_self, Ne, Option.some.injEq]
          exact hx
        · exact hother hc hcd
  | back d hd h' hk hkeep =>
      have hna : act.Nodup := h.semds.nodup semds_semd_h
      refine iff_of_true (h'.conserved_iff_busy.mpr fun c hc => ?_) hkeep
      have hcd : c ≠ d := by
        rintro rfl
        exact hna.not_mem_erase hc
      exact hother (List.mem_of_mem_erase hc) hcd
  | taken d rest a p hno hf h' hk hkeep =>
      refine iff_of_true (h'.conserved_iff_busy.mpr fun c hc => ?_) hkeep
      by_cases hcd : c = d
      · rw [hcd, Function.update_self]
        simp
      · exact hother (List.mem_of_ne_of_mem hcd (linkAt_perm.mem_iff.mp hc)) hcd

end Holds

/-- **The descriptors are conserved**, in every state of a run from `initASL` on, if and only if
no `outBlocked` of the run takes the last process of a queue. -/
theorem conserved_iff {m₀ : AslLinks ι} {es : List (AslCall ι)}
    (hr : Run step Proper m₀.initASL es m) :
    (∀ fs u, fs <+: es → Run step Proper m₀.initASL fs u → u.Conserved) ↔
      Run step (fun u e => u.Proper e ∧ u.Keeps e) m₀.initASL es m := by
  refine hr.always_iff (J := fun u => ∃ free act l, u.Holds free act l)
    ⟨_, _, _, Holds.initASL m₀⟩ ?_ ((Holds.initASL m₀).conserved_iff_busy.mpr nofun) ?_
  · rintro u e v ⟨free, act, l, h⟩ hp hs
    exact h.step hp hs
  · rintro u e v ⟨free, act, l, h⟩ hc hp hs
    exact h.busy_step (h.conserved_iff_busy.mp hc) hp hs

/-- The only process of the semaphore is taken out by `removeBlocked`. -/
theorem conserved_iff_removeBlocked : ∃ m : AslLinks (Fin 1),
    Run step Proper (memory fun _ => 0).initASL [.insertBlocked 0x1000 0, .removeBlocked 0x1000] m ∧
    ∀ (fs : List (AslCall (Fin 1))) u, fs <+: [.insertBlocked 0x1000 0, .removeBlocked 0x1000] →
      Run step Proper (memory fun _ => 0).initASL fs u → u.Conserved := by
  obtain ⟨m, hr, -⟩ := exists_run step (fun u e => u.Proper e ∧ u.Keeps e) (fun _ => True)
    ((memory fun _ => 0).initASL : AslLinks (Fin 1))
    [.insertBlocked 0x1000 0, .removeBlocked 0x1000] (by decide +kernel)
  have hp := hr.mono fun u e he => he.1
  exact ⟨m, hp, (conserved_iff hp).mpr hr⟩

/-- The descriptor stays active with an empty queue. -/
theorem outBlocked_last_leaks : ∃ m : AslLinks (Fin 1),
    Run step Proper (memory fun _ => 0).initASL [.insertBlocked 0x1000 0, .outBlocked 0] m ∧
    ¬ m.Conserved := by
  obtain ⟨m, hr, hm⟩ := exists_run step Proper
    (fun m => ∃ d ∈ (m.s_link.elems .semd_h).getD [], m.p_list.elems d = some [])
    ((memory fun _ => 0).initASL : AslLinks (Fin 1)) [.insertBlocked 0x1000 0, .outBlocked 0]
    (by decide +kernel)
  refine ⟨m, hr, ?_⟩
  rintro ⟨free, act, hs⟩
  obtain ⟨d, hd, hnil⟩ := hm
  rw [hs.semd_h] at hd
  obtain ⟨xs, hx, hne⟩ := hs.busy d hd
  exact hne (Option.some.inj (hx.symm.trans hnil))

/-! ### The order of the keys -/

section
variable {key key' : SemdId → Word}

omit [DecidableEq ι] [Fintype ι] in
/-- A new descriptor comes before the ones it should come after, and after the ones it should come
before. -/
theorem linkAt_sorted_iff (hno : ∀ c ∈ act, key c ≠ semAdd) (hk : ∀ c ∈ act, key' c = key c)
    (hd : key' d = semAdd) :
    ((linkAt key act semAdd d).map key').Pairwise (· < ·) ↔ act = [] := by
  constructor
  · intro hs
    rcases linkAt_cases key act semAdd d with ⟨hw, he⟩ | ⟨as, x, bs, hw, hact, he⟩
    · -- all keys are larger, and `d` is last
      cases act with
      | nil => rfl
      | cons c act =>
          rw [he, List.map_append, List.pairwise_append] at hs
          have hlt : key c < semAdd := by
            simpa [hd, hk c (by simp)] using hs.2.2 (key' c) (by simp) (key' d) (by simp)
          rw [List.takeWhile_cons, if_pos (by simpa using BitVec.le_of_lt hlt)] at hw
          cases hw
    · -- `x` is the last one that is not larger, and `d` comes before it
      have hx : key x ≤ semAdd := by
        have hmem : x ∈ act.takeWhile fun c => key c ≤ semAdd := by simp [hw]
        simpa using List.mem_takeWhile_imp hmem
      have hxa : x ∈ act := by simp [hact]
      rw [he, List.map_append, List.pairwise_append] at hs
      have hlt : semAdd < key x := by
        simpa [hd, hk x hxa] using (List.pairwise_cons.mp hs.2.1).1 (key' x) (by simp)
      exact absurd hlt (BitVec.not_lt.mpr hx)
  · rintro rfl
    simp [linkAt]

end

namespace Holds

omit [DecidableEq ι] [Fintype ι] in
theorem sorted_act (h : m.Holds free act l) :
    m.Sorted ↔ (act.map m.s_key).Pairwise (· < ·) := by
  unfold Sorted
  rw [h.semds.elems semds_semd_h]
  simp

/-- One call keeps the order, unless it links a new descriptor into a list that is not empty. -/
theorem sorted_step (h : m.Holds free act l) (hm : m.Sorted) (hp : m.Proper e)
    (hs : m.step e = some t) : t.Sorted ↔ m.Fits e := by
  have hm := h.sorted_act.mp hm
  cases h.change hp hs with
  | same h' hk _ hfit => exact iff_of_true (h'.sorted_act.mpr (hk ▸ hm)) hfit
  | queue d xs hd h' hk _ hfit => exact iff_of_true (h'.sorted_act.mpr (hk ▸ hm)) hfit
  | back d hd h' hk _ hfit =>
      refine iff_of_true (h'.sorted_act.mpr ?_) hfit
      rw [hk]
      exact hm.sublist (List.erase_sublist.map m.s_key)
  | taken d rest a p hno hf h' hk _ hfit =>
      have hact : d ∉ act := (hf ▸ h).first_notMem
      rw [h'.sorted_act, hfit, hk]
      exact linkAt_sorted_iff hno (fun c hc => update_key hact hc) (Function.update_self ..)

end Holds

/-- **The active descriptors are in the order of their keys**, in every state of a run from
`initASL` on, if and only if every `insertBlocked` of the run that takes a free descriptor finds no
active one. -/
theorem sorted_iff {m₀ : AslLinks ι} {es : List (AslCall ι)}
    (hr : Run step Proper m₀.initASL es m) :
    (∀ fs u, fs <+: es → Run step Proper m₀.initASL fs u → u.Sorted) ↔
      Run step (fun u e => u.Proper e ∧ u.Fits e) m₀.initASL es m := by
  refine hr.always_iff (J := fun u => ∃ free act l, u.Holds free act l)
    ⟨_, _, _, Holds.initASL m₀⟩ ?_ ((Holds.initASL m₀).sorted_act.mpr .nil) ?_
  · rintro u e v ⟨free, act, l, h⟩ hp hs
    exact h.step hp hs
  · rintro u e v ⟨free, act, l, h⟩ hm hp hs
    exact h.sorted_step hm hp hs

/-- The second semaphore is used after the first. -/
theorem sorted_iff_in_turn : ∃ m : AslLinks (Fin 1),
    Run step Proper (memory fun _ => 0).initASL
      [.insertBlocked 0x2000 0, .removeBlocked 0x2000, .insertBlocked 0x1000 0] m ∧
    ∀ (fs : List (AslCall (Fin 1))) u,
      fs <+: [.insertBlocked 0x2000 0, .removeBlocked 0x2000, .insertBlocked 0x1000 0] →
      Run step Proper (memory fun _ => 0).initASL fs u → u.Sorted := by
  obtain ⟨m, hr, -⟩ := exists_run step (fun u e => u.Proper e ∧ u.Fits e) (fun _ => True)
    ((memory fun _ => 0).initASL : AslLinks (Fin 1))
    [.insertBlocked 0x2000 0, .removeBlocked 0x2000, .insertBlocked 0x1000 0] (by decide +kernel)
  have hp := hr.mono fun u e he => he.1
  exact ⟨m, hp, (sorted_iff hp).mpr hr⟩

/-- The larger key is linked before the smaller one. -/
theorem insertBlocked_larger_first : ∃ m : AslLinks (Fin 2),
    Run step Proper (memory fun _ => 0).initASL
      [.insertBlocked 0x1000 0, .insertBlocked 0x2000 1] m ∧ ¬ m.Sorted := by
  obtain ⟨m, hr, hm⟩ := exists_run step Proper
    (fun m => (m.s_link.elems .semd_h).map (·.map m.s_key) = some [0x2000, 0x1000])
    ((memory fun _ => 0).initASL : AslLinks (Fin 2))
    [.insertBlocked 0x1000 0, .insertBlocked 0x2000 1] (by decide +kernel)
  refine ⟨m, hr, ?_⟩
  rintro ⟨act, ha, hs⟩
  have hkeys : act.map m.s_key = [0x2000, 0x1000] := by simpa [ha] using hm
  rw [hkeys] at hs
  exact absurd hs (by decide)

end PandOS.AslLinks
