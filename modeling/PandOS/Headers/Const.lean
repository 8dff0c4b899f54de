import Mathlib.Data.Nat.Notation
import Mathlib.Data.Int.Notation

/-!
# Headers — the constants of `headers/const.h`

The constants of the kernel and of the Support Level, under the source's names, with those
`const.h` takes from the uRISCV headers (`CAUSE_EXCCODE_MASK`, `EXC_MOD`, `ENTRYHI_VPN_MASK`,
`DEVPERINT`), whose values `workflow.md` records, and bit 31, which `CAUSE_IS_INT` tests.  Machine
words are `BitVec 32`.
-/

namespace PandOS

/-- A machine word. -/
abbrev Word := BitVec 32

/-! ### Sizes -/

/-- `PAGESIZE`, in bytes. -/
def pageSize : ℕ := 4096
/-- `WORDLEN`, in bytes. -/
def wordLen : ℕ := 4
/-- `MAXPROC`, the number of PCBs and of semaphore descriptors. -/
def maxProc : ℕ := 20
/-- `SEMDEVLEN`, the number of device semaphores, the pseudo-clock included. -/
def semDevLen : ℕ := 49
/-- `MAXPAGES`, the pages of a U-proc. -/
def maxPages : ℕ := 32
/-- `OSFRAMES`, the frames below the swap pool. -/
def osFrames : ℕ := 32
/-- `UPROCMAX`, the number of U-procs. -/
def uprocMax : ℕ := 8
/-- `POOLSIZE`, the number of frames in the swap pool. -/
def poolSize : ℕ := uprocMax * 2
/-- `DEVPERINT`, the devices on a line. -/
def devPerInt : ℕ := 8
/-- `MAXSTRLENG`. -/
def maxStringLen : ℕ := 128

theorem poolSize_pos : 0 < poolSize := by decide

theorem devPerInt_pos : 0 < devPerInt := by decide

/-! ### Memory and address translation -/

/-- `KUSEG`, the first user address. -/
def kuseg : ℕ := 0x80000000
/-- `RAMSTART`. -/
def ramStart : ℕ := 0x20000000
/-- `SWAPPOOLSTART`. -/
def swapPoolStart : ℕ := ramStart + osFrames * pageSize
/-- `DIRTYON`. -/
def dirtyOn : Word := 0x00000400
/-- `VALIDON`. -/
def validOn : Word := 0x00000200
/-- `VPNSHIFT`. -/
def vpnShift : ℕ := 12
/-- `ASIDSHIFT`. -/
def asidShift : ℕ := 6
/-- `ENTRYHI_VPN_MASK`. -/
def entryHiVpnMask : Word := 0x3FFFF000

/-! ### Causes -/

/-- `CAUSE_EXCCODE_MASK`. -/
def causeExcCodeMask : Word := 0x7FFFFFFF
/-- The bit `CAUSE_IS_INT` tests. -/
def causeIntMask : Word := 0x80000000
/-- `EXC_MOD`. -/
def excMod : Word := 24
/-- `GETEXECCODE`. -/
def getExecCode : Word := 0x7C
/-- `PRIVINSTR`. -/
def privInstr : Word := 10
/-- `CAUSESHIFT`. -/
def causeShift : ℕ := 2

/-! ### Status, timers, boot -/

/-- `MSTATUS_MIE_MASK`. -/
def mstatusMieMask : Word := 0x8
/-- `MSTATUS_MPIE_MASK`. -/
def mstatusMpieMask : Word := 0x80
/-- `MSTATUS_MPP_MASK`. -/
def mstatusMppMask : Word := 0x1800
/-- `MSTATUS_MPP_M`. -/
def mstatusMppM : Word := 0x1800
/-- `MSTATUS_MPP_U`. -/
def mstatusMppU : Word := 0
/-- `MIE_ALL`. -/
def mieAll : Word := 0xFFFFFFFF
/-- `PSECOND`, a tick of the pseudo-clock. -/
def pSecond : Word := 100000
/-- `TIMESLICE`. -/
def timeSlice : Word := 5000
/-- `NEVER`. -/
def never : Word := 0x7FFFFFFF

/-! ### Devices -/

/-- `START_DEVREG`. -/
def startDevReg : ℕ := 0x10000054
/-- `INT_BITMAP_BASE`. -/
def intBitmapBase : ℕ := 0x10000040
/-- `ACK`. -/
def ack : Word := 1
/-- `FLASHREAD`. -/
def flashRead : Word := 2
/-- `FLASHWRITE`. -/
def flashWrite : Word := 3
/-- `FLASHREADY`. -/
def flashReady : Word := 1
/-- `OKCHARTRANS`. -/
def okCharTrans : Word := 5
/-- `RECVD`. -/
def recvd : Word := 5
/-- `TRANSMITCHAR`. -/
def transmitChar : Word := 2
/-- `RECEIVECHAR`. -/
def receiveChar : Word := 2

end PandOS
