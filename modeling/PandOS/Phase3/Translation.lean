import PandOS.Phase3.Pager

/-!
# Phase 3 — from an address to its page-table entry

`uTLB_RefillHandler` and `pager` compute an index of `sup_privatePgTbl` from the `EntryHi` saved
at the fault, each with its own copy of the computation, and neither compares it with `MAXPAGES`.
The table is therefore a map from every index to the words that lie there (`PgTbl`), of which
`initPageTable` writes the first `MAXPAGES`.

* `pageIndex_mapped`: at an address of one of the 32 mapped pages both indices are the number of
  that page, and `initPageTable_vpn` gives the entry stored there.
* `refill_never_matches`: at any other address of the table's reach, `uTLB_RefillHandler` loads
  the entry of another page, so the same access misses again.
* `translation_exact_iff`: what the two handlers do is right at the mapped addresses, and where
  `pager` ends in `fatalFault` for another reason.

`pageOf_eq` and `faultCtl_eq` say that the pager machine computes with the same index.
-/

namespace PandOS

/-- The words at `&sup_privatePgTbl[i]`, for every `i` the handlers compute. -/
abbrev PgTbl := ℕ → PteEntry

/-- `initPageTable`: the entries of text and data, then the entry of the stack. -/
def initPageTable (sup : PgTbl) (asid : Asid) : PgTbl :=
  Function.update
    ((List.range (maxPages - 1)).foldl (fun t i => Function.update t i
      ⟨BitVec.ofNat 32 (0x80000 + i) <<< vpnShift ||| BitVec.ofNat 32 asid.val <<< asidShift,
        dirtyOn⟩) sup)
    (maxPages - 1)
    ⟨BitVec.ofNat 32 0xBFFFF <<< vpnShift ||| BitVec.ofNat 32 asid.val <<< asidShift, dirtyOn⟩

/-- What a handler does about a fault: it uses the entry at an index, or it ends the process. -/
inductive Reaction where
  | access (pageIndex : ℕ)
  | fatalFault
  deriving DecidableEq

/-! ### The two handlers -/

/-- `pageIndex` of `uTLB_RefillHandler`. -/
def refillIndex (entryHi : Word) : ℕ :=
  let vpn := (entryHi &&& entryHiVpnMask) >>> vpnShift
  if vpn = 0x3FFFF then maxPages - 1 else vpn.toNat

/-- `uTLB_RefillHandler`: the entry is read and loaded, whatever its index. -/
def uTLB_RefillHandler (entryHi : Word) : Reaction := .access (refillIndex entryHi)

/-- `pageIndex` of `pager`. -/
def pagerIndex (entryHi : Word) : ℕ :=
  let vpn := (entryHi &&& entryHiVpnMask) >>> vpnShift
  if vpn = 0x3FFFF then maxPages - 1 else vpn.toNat

/-- `pager`.  `wstat` is what `flashIO` returns for the old page, if the frame is occupied, and
`rstat` what it returns for the new one. -/
def pager (entryHi cause : Word) (wstat : Option Word) (rstat : Word) : Reaction :=
  if cause &&& causeExcCodeMask = excMod then .fatalFault
  else if ∃ w ∈ wstat, w ≠ flashReady then .fatalFault
  else if rstat ≠ flashReady then .fatalFault
  else .access (pagerIndex entryHi)

/-- A TLB refill or a page fault, with all that decides the way `pager` takes. -/
inductive TlbFault where
  | refill
  | pgFault (cause : Word) (wstat : Option Word) (rstat : Word)

namespace TlbFault

/-- The handler of the fault. -/
def handle (entryHi : Word) : TlbFault → Reaction
  | refill => uTLB_RefillHandler entryHi
  | pgFault cause wstat rstat => pager entryHi cause wstat rstat

/-- `pager` ends in `fatalFault`: on `EXC_MOD`, or because a flash operation fails. -/
def Fails : TlbFault → Prop
  | refill => False
  | pgFault cause wstat rstat =>
      cause &&& causeExcCodeMask = excMod ∨ (∃ w ∈ wstat, w ≠ flashReady) ∨ rstat ≠ flashReady

/-- The handler gives up exactly on the faults listed. -/
theorem handle_eq_fatalFault {entryHi : Word} {f : TlbFault} :
    f.handle entryHi = .fatalFault ↔ f.Fails := by
  cases f with
  | refill => exact ⟨nofun, False.elim⟩
  | pgFault cause wstat rstat =>
      show pager entryHi cause wstat rstat = .fatalFault ↔ _ ∨ _ ∨ _
      unfold pager
      split
      · rename_i hc; exact ⟨fun _ => .inl hc, fun _ => rfl⟩
      · rename_i hc
        split
        · rename_i hw; exact ⟨fun _ => .inr (.inl hw), fun _ => rfl⟩
        · rename_i hw
          split
          · rename_i hr; exact ⟨fun _ => .inr (.inr hr), fun _ => rfl⟩
          · rename_i hr
            refine ⟨nofun, ?_⟩
            rintro (h | h | h)
            · exact absurd h hc
            · exact absurd h hw
            · exact absurd h hr

end TlbFault

/-! ### The index of an address -/

/-- The virtual page number of an `EntryHi` word: its bits 31:12. -/
def entryHiVpn (entryHi : Word) : ℕ := entryHi.toNat / pageSize

/-- The address belongs to one of the pages `initPageTable` maps. -/
def Mapped (entryHi : Word) : Prop := ∃ p : PageNo, vpn p = entryHiVpn entryHi

instance (entryHi : Word) : Decidable (Mapped entryHi) :=
  inferInstanceAs (Decidable (∃ _, _))

/-- The mask keeps 18 bits of the virtual page number. -/
theorem vpn_toNat (entryHi : Word) :
    ((entryHi &&& entryHiVpnMask) >>> vpnShift).toNat = entryHiVpn entryHi % 2 ^ 18 := by
  have hmask : (entryHi &&& entryHiVpnMask) >>> vpnShift =
      entryHi >>> vpnShift &&& BitVec.ofNat 32 (2 ^ 18 - 1) := by
    rw [BitVec.ushiftRight_and_distrib]
    rfl
  rw [hmask, BitVec.toNat_and, BitVec.toNat_ushiftRight, BitVec.toNat_ofNat,
    Nat.mod_eq_of_lt (by decide : 2 ^ 18 - 1 < 2 ^ 32), Nat.and_two_pow_sub_one_eq_mod,
    Nat.shiftRight_eq_div_pow]
  rfl

/-- The index, from the 18 bits the mask keeps. -/
theorem pagerIndex_eq (entryHi : Word) : pagerIndex entryHi =
    if entryHiVpn entryHi % 2 ^ 18 = 0x3FFFF then maxPages - 1
    else entryHiVpn entryHi % 2 ^ 18 := by
  have hc : (entryHi &&& entryHiVpnMask) >>> vpnShift = 0x3FFFF ↔
      entryHiVpn entryHi % 2 ^ 18 = 0x3FFFF := by
    rw [← vpn_toNat]
    exact ⟨fun h => by rw [h]; rfl, fun h => BitVec.eq_of_toNat_eq h⟩
  unfold pagerIndex
  simp only [hc, vpn_toNat]

/-- The two computations agree. -/
theorem refillIndex_eq_pagerIndex (entryHi : Word) : refillIndex entryHi = pagerIndex entryHi := rfl

/-- At an address of page `p` the index is `p`. -/
theorem pagerIndex_mapped {entryHi : Word} {p : PageNo} (h : vpn p = entryHiVpn entryHi) :
    pagerIndex entryHi = p.val := by
  have hp := p.isLt
  rw [pagerIndex_eq, ← h]
  unfold vpn
  unfold maxPages at hp ⊢
  split <;> split <;> omega

/-- The entries of the table are those of its pages. -/
theorem initPageTable_apply (sup : PgTbl) (asid : Asid) (p : PageNo) :
    initPageTable sup asid p.val = ⟨entryHI (asid, p), dirtyOn⟩ := by
  have hfold : ∀ (e : ℕ → PteEntry) (l : List ℕ) (t : PgTbl) (i : ℕ),
      l.foldl (fun t i => Function.update t i (e i)) t i = if i ∈ l then e i else t i := by
    intro e l
    induction l with
    | nil => intro t i; simp
    | cons j l ih =>
        intro t i
        rw [List.foldl_cons, ih]
        by_cases hi : i ∈ l
        · simp [hi]
        · by_cases hj : i = j
          · subst hj; simp [hi]
          · simp [hi, hj]
  have hp := p.isLt
  unfold initPageTable entryHI vpn
  by_cases h : p.val < maxPages - 1
  · rw [Function.update_of_ne (by omega), hfold, if_pos (List.mem_range.mpr h), if_pos h]
  · rw [if_neg h, show p.val = maxPages - 1 by omega, Function.update_self]

/-- The virtual page number stored with page `p` is its own. -/
theorem initPageTable_vpn (sup : PgTbl) (asid : Asid) (p : PageNo) :
    entryHiVpn (initPageTable sup asid p.val).entryHI = vpn p := by
  have ha := asid.2
  rw [initPageTable_apply]
  show (entryHI (asid, p)).toNat / pageSize = vpn p
  rw [entryHI_toNat]
  unfold pageSize uprocMax at *
  show (vpn p * 4096 + asid.val * 64) / 4096 = vpn p
  omega

/-- **A refill outside the mapped pages.**  Where the index stays within the table, the entry
loaded is that of another page: the access that missed misses again. -/
theorem refill_never_matches (sup : PgTbl) (asid : Asid) {entryHi : Word} (h : ¬ Mapped entryHi)
    (hi : refillIndex entryHi < maxPages) :
    entryHiVpn (initPageTable sup asid (refillIndex entryHi)).entryHI ≠ entryHiVpn entryHi := by
  intro he
  have hv := initPageTable_vpn sup asid ⟨_, hi⟩
  exact h ⟨⟨_, hi⟩, hv.symm.trans he⟩

/-! ### The translation -/

/-- The translation at a fault: at a mapped address both handlers use the entry of that page, and
at any other address no entry is used and the process ends. -/
structure TranslationExact (sup : PgTbl) (asid : Asid) (f : TlbFault) (entryHi : Word) : Prop where
  mapped : Mapped entryHi →
    refillIndex entryHi = pagerIndex entryHi ∧ pagerIndex entryHi < maxPages ∧
      entryHiVpn (initPageTable sup asid (pagerIndex entryHi)).entryHI = entryHiVpn entryHi
  unmapped : ¬ Mapped entryHi → f.handle entryHi = .fatalFault

/-- At a mapped address the entry found is the one of the address. -/
theorem pageIndex_mapped (sup : PgTbl) (asid : Asid) {entryHi : Word} (h : Mapped entryHi) :
    refillIndex entryHi = pagerIndex entryHi ∧ pagerIndex entryHi < maxPages ∧
      entryHiVpn (initPageTable sup asid (pagerIndex entryHi)).entryHI = entryHiVpn entryHi := by
  obtain ⟨p, hp⟩ := h
  refine ⟨refillIndex_eq_pagerIndex entryHi, ?_, ?_⟩
  · rw [pagerIndex_mapped hp]
    exact p.isLt
  · rw [pagerIndex_mapped hp, initPageTable_vpn, hp]

/-- **Address translation.**  The handlers translate exactly at the mapped addresses; elsewhere
the process ends only where `pager` fails for another reason. -/
theorem translation_exact_iff (sup : PgTbl) (asid : Asid) (f : TlbFault) (entryHi : Word) :
    TranslationExact sup asid f entryHi ↔ Mapped entryHi ∨ f.Fails := by
  constructor
  · intro h
    by_cases hm : Mapped entryHi
    · exact .inl hm
    · exact .inr (TlbFault.handle_eq_fatalFault.mp (h.unmapped hm))
  · rintro (hm | hf)
    · exact ⟨fun _ => pageIndex_mapped sup asid hm, fun hn => absurd hm hn⟩
    · exact ⟨pageIndex_mapped sup asid, fun _ => TlbFault.handle_eq_fatalFault.mpr hf⟩

/-- Page 31 of the segment, at `0x8001F000`, has the index of the stack page at `0xBFFFF000`. -/
theorem translation_aliases : ¬ TranslationExact (fun _ => ⟨0, 0⟩) ⟨2, by decide⟩ .refill
    0x8001F080 := by
  intro h
  have hm : ¬ Mapped 0x8001F080 := by decide
  cases h.unmapped hm

/-! ### The pager machine -/

/-- The machine's page is the index, where it is an index of the table. -/
theorem pageOf_eq (entryHi : Word) : pageOf entryHi =
    if h : pagerIndex entryHi < maxPages then some ⟨pagerIndex entryHi, h⟩ else none := rfl

/-- The machine's entry into `pager`: the page it goes on with is the index `pager` uses when the
flash operations succeed. -/
theorem faultCtl_eq (entryHi cause : Word) (p : PageNo) :
    VM.faultCtl entryHi cause = some (.pager p .enter) ↔
      pager entryHi cause none flashReady = .access p.val := by
  unfold VM.faultCtl pager
  split
  · exact ⟨nofun, nofun⟩
  · rw [if_neg (by rintro ⟨w, ⟨⟩, -⟩), if_neg (by decide), pageOf_eq]
    by_cases h : pagerIndex entryHi < maxPages
    · simp [h, Fin.ext_iff]
    · have hne : pagerIndex entryHi ≠ p.val := fun he => h (he ▸ p.isLt)
      simp [h, hne]

/-- The machine's refill loads the entry `uTLB_RefillHandler` reads. -/
theorem refillPte_eq {n : ℕ} (s : VM n) (a : Asid) (entryHi : Word) (p : PageNo) :
    uTLB_RefillHandler entryHi = .access p.val → s.refillPte a entryHi = some (s.pgTbl (a, p)) := by
  intro h
  have hi : pagerIndex entryHi = p.val := Reaction.access.inj h
  unfold VM.refillPte
  rw [pageOf_eq, dif_pos (hi ▸ p.isLt)]
  simp [hi]

end PandOS
