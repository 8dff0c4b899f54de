import Mathlib.Data.Fintype.Basic
import PandOS.Headers.Const

/-!
# Phase 3 — page-table entries, frames and flash commands

The words the pager computes with.  A `PageId` is a page of an ASID: it names the page-table
entry `&supportStructures[asid - 1].sup_privatePgTbl[page]` and block `page` of flash device
`asid - 1`.  `entryHI` and `pageOf` are the two directions between a page and an `EntryHi`
word: what `initPageTable` writes, and the page index `uTLB_RefillHandler` and `pager` compute
from the word saved at a fault.  `mapped k` is the `EntryLo` word the pager writes for frame `k`
and `translate` what the hardware reads back from it.
-/

namespace PandOS

/-- An address-space identifier: 1 is the shell, `2..UPROCMAX` the programs. -/
def Asid := {a : ℕ // 1 ≤ a ∧ a ≤ uprocMax}
  deriving DecidableEq

/-- A logical page of a U-proc, an index into `sup_privatePgTbl`. -/
abbrev PageNo := Fin maxPages

/-- A frame of the swap pool. -/
abbrev FrameNo := Fin poolSize

/-- The words of a page. -/
abbrev Page := Fin (pageSize / wordLen) → Word

/-- A page of an ASID. -/
abbrev PageId := Asid × PageNo

/-- The shell's ASID. -/
def Asid.shell : Asid := ⟨1, by decide⟩

/-- `pteEntry_t`. -/
structure PteEntry where
  entryHI : Word
  entryLO : Word
  deriving DecidableEq

/-- The virtual page number `initPageTable` gives to page `p`. -/
def vpn (p : PageNo) : ℕ := if p.val < maxPages - 1 then 0x80000 + p.val else 0xBFFFF

/-- `pte_entryHI` of page `r.2` of ASID `r.1`. -/
def entryHI (r : PageId) : Word :=
  BitVec.ofNat 32 (vpn r.2) <<< vpnShift ||| BitVec.ofNat 32 r.1.val <<< asidShift

/-- The page index `uTLB_RefillHandler` and `pager` compute from a saved `EntryHi`; none where
the index is no index of `sup_privatePgTbl`. -/
def pageOf (entryHi : Word) : Option PageNo :=
  let vpn := (entryHi &&& entryHiVpnMask) >>> vpnShift
  let pageIndex := if vpn = 0x3FFFF then maxPages - 1 else vpn.toNat
  if h : pageIndex < maxPages then some ⟨pageIndex, h⟩ else none

/-- `SWAPPOOLSTART + frameIndex * PAGESIZE`. -/
def framePhysAddr (k : FrameNo) : Word := BitVec.ofNat 32 (swapPoolStart + k.val * pageSize)

/-- The pool frame at a physical address. -/
def frameOf (addr : Word) : Option FrameNo :=
  let off := addr.toNat - swapPoolStart
  if h : off / pageSize < poolSize then
    if swapPoolStart ≤ addr.toNat then some ⟨off / pageSize, h⟩ else none
  else none

/-- `framePhysAddr | DIRTYON | VALIDON`. -/
def mapped (k : FrameNo) : Word := framePhysAddr k ||| dirtyOn ||| validOn

/-- The frame an `EntryLo` word translates to; none when its V bit is off. -/
def translate (lo : Word) : Option FrameNo :=
  if lo &&& validOn = 0 then none else frameOf (lo &&& 0xFFFFF000)

/-- The registers of a flash device a command reads. -/
structure FlashReg where
  data0 : Word
  command : Word
  deriving DecidableEq

/-- `(pageNo << 8) | rw`. -/
def flashCommand (p : PageNo) (rw : Word) : Word := BitVec.ofNat 32 p.val <<< 8 ||| rw

/-- The block of a flash command. -/
def flashBlock (command : Word) : Option PageNo :=
  let b := (command >>> 8).toNat
  if h : b < maxPages then some ⟨b, h⟩ else none

/-! ### Facts about the words -/

theorem entryHI_toNat (r : PageId) : (entryHI r).toNat = vpn r.2 * 4096 + r.1.val * 64 := by
  obtain ⟨⟨a, ha⟩, p⟩ := r
  have key : ∀ (b : Fin 9) (p : PageNo), (BitVec.ofNat 32 (vpn p) <<< vpnShift |||
      BitVec.ofNat 32 b.val <<< asidShift).toNat = vpn p * 4096 + b.val * 64 := by
    decide +kernel
  exact key ⟨a, Nat.lt_succ_of_le ha.2⟩ p

theorem vpn_injective : Function.Injective vpn := by
  intro p q h
  have hp := p.isLt
  have hq := q.isLt
  unfold vpn maxPages at *
  split at h <;> split at h <;> exact Fin.ext (by omega)

theorem entryHI_injective : Function.Injective entryHI := by
  intro r r' h
  have h' := congrArg BitVec.toNat h
  rw [entryHI_toNat, entryHI_toNat] at h'
  have ha := r.1.2
  have ha' := r'.1.2
  unfold uprocMax at ha ha'
  have hv : vpn r.2 = vpn r'.2 := by omega
  refine Prod.ext (Subtype.ext ?_) (vpn_injective hv)
  omega

@[simp] theorem pageOf_entryHI (r : PageId) : pageOf (entryHI r) = some r.2 := by
  obtain ⟨⟨a, ha⟩, p⟩ := r
  have key : ∀ (b : Fin 9) (p : PageNo), pageOf (BitVec.ofNat 32 (vpn p) <<< vpnShift |||
      BitVec.ofNat 32 b.val <<< asidShift) = some p := by
    decide +kernel
  exact key ⟨a, Nat.lt_succ_of_le ha.2⟩ p

@[simp] theorem frameOf_framePhysAddr (k : FrameNo) : frameOf (framePhysAddr k) = some k := by
  revert k; decide +kernel

@[simp] theorem translate_mapped (k : FrameNo) : translate (mapped k) = some k := by
  revert k; decide +kernel

theorem mapped_injective : Function.Injective mapped := fun k k' h => by
  have := congrArg translate h
  simpa using this

/-- The PFN field of `mapped k`. -/
theorem mapped_pfn (k : FrameNo) : mapped k &&& 0xFFFFF000 = framePhysAddr k := by
  revert k; decide +kernel

theorem mapped_valid (k : FrameNo) : mapped k &&& validOn ≠ 0 := by
  revert k; decide +kernel

@[simp] theorem translate_dirtyOn : translate dirtyOn = none := by decide

@[simp] theorem translate_zero : translate 0 = none := by decide

/-- `lo & ~VALIDON` is not valid. -/
@[simp] theorem translate_clear (lo : Word) : translate (lo &&& ~~~validOn) = none := by
  have : lo &&& ~~~validOn &&& validOn = 0 := by
    rw [BitVec.and_assoc]; simp
  rw [translate, if_pos this]

theorem flashCommand_block (p : PageNo) (rw : Word) (h : rw = flashRead ∨ rw = flashWrite) :
    flashBlock (flashCommand p rw) = some p := by
  rcases h with rfl | rfl <;> (revert p; decide +kernel)

theorem flashCommand_rw (p : PageNo) (rw : Word) (h : rw = flashRead ∨ rw = flashWrite) :
    flashCommand p rw &&& 0xFF = rw := by
  rcases h with rfl | rfl <;> (revert p; decide +kernel)

end PandOS
