import Sanctum.Machine.Assembly

/-!
# The trap vector

The text of `trap_or_interrupt.S`, label by label and instruction by instruction, with the
constants of `mtrap.h` that it uses, and its four tables. Where an instruction that is not a
jump is the last one before a label, a `j` to that label says that the text goes on there; the
local labels `1:` of `.handle_mipi` are numbered.

The handlers written in C are outside the text.
-/

namespace Sanctum

namespace Trap

open Assembly

/-! ### Registers -/

/-- `x0`. -/
abbrev x0 : Reg := 0
/-- The return address. -/
abbrev ra : Reg := 1
/-- The stack pointer. -/
abbrev sp : Reg := 2
/-- The global pointer. -/
abbrev gp : Reg := 3
/-- The thread pointer. -/
abbrev tp : Reg := 4
/-- A temporary. -/
abbrev t0 : Reg := 5
/-- A temporary. -/
abbrev t1 : Reg := 6
/-- A temporary. -/
abbrev t2 : Reg := 7
/-- A saved register. -/
abbrev s0 : Reg := 8
/-- A saved register. -/
abbrev s1 : Reg := 9
/-- An argument. -/
abbrev a0 : Reg := 10
/-- An argument. -/
abbrev a1 : Reg := 11
/-- An argument. -/
abbrev a2 : Reg := 12
/-- An argument. -/
abbrev a3 : Reg := 13
/-- An argument. -/
abbrev a4 : Reg := 14
/-- An argument. -/
abbrev a5 : Reg := 15
/-- An argument. -/
abbrev a6 : Reg := 16
/-- An argument. -/
abbrev a7 : Reg := 17
/-- A saved register. -/
abbrev s2 : Reg := 18
/-- A saved register. -/
abbrev s3 : Reg := 19
/-- A saved register. -/
abbrev s4 : Reg := 20
/-- A saved register. -/
abbrev s5 : Reg := 21
/-- A saved register. -/
abbrev s6 : Reg := 22
/-- A saved register. -/
abbrev s7 : Reg := 23
/-- A saved register. -/
abbrev s8 : Reg := 24
/-- A saved register. -/
abbrev s9 : Reg := 25
/-- A saved register. -/
abbrev s10 : Reg := 26
/-- A saved register. -/
abbrev s11 : Reg := 27
/-- A temporary. -/
abbrev t3 : Reg := 28
/-- A temporary. -/
abbrev t4 : Reg := 29
/-- A temporary. -/
abbrev t5 : Reg := 30
/-- A temporary. -/
abbrev t6 : Reg := 31

/-! ### Constants -/

/-- `REGBYTES`. -/
def regBytes : Word := 8

/-- `INTEGER_CONTEXT_SIZE`. -/
def integerContextSize : Word := 32 * regBytes

/-- `SOFT_FLOAT_CONTEXT_SIZE`, which depends on whether `__riscv_flen` is defined. -/
def softFloatContextSize (flen : Bool) : Word := if flen then 0 else 8 * 32

/-- `HLS_SIZE`. -/
def hlsSize : Word := 64

/-- `MENTRY_HLS_OFFSET`. -/
def mentryHlsOffset (flen : Bool) : Word := integerContextSize + softFloatContextSize flen

/-- `MENTRY_FRAME_SIZE`. -/
def mentryFrameSize (flen : Bool) : Word := mentryHlsOffset flen + hlsSize

/-- `MENTRY_IPI_OFFSET`. -/
def mentryIpiOffset (flen : Bool) : Word := mentryHlsOffset flen

/-- `MENTRY_IPI_PENDING_OFFSET`. -/
def mentryIpiPendingOffset (flen : Bool) : Word := mentryHlsOffset flen + regBytes

/-- `RISCV_PGSIZE`, which is also `MACHINE_STACK_SIZE`. -/
def riscvPgsize : Word := 4096

/-- `IPI_SOFT`. -/
def ipiSoft : Word := 1

/-- `IPI_FENCE_I`. -/
def ipiFenceI : Word := 2

/-- `IPI_SFENCE_VMA`. -/
def ipiSfenceVma : Word := 4

/-- `MIP_SSIP`. -/
def mipSsip : Word := 1 <<< 1

/-- `MIP_STIP`. -/
def mipStip : Word := 1 <<< 5

/-- `MIP_MTIP`. -/
def mipMtip : Word := 1 <<< 7

/-- `TRAP_FROM_MACHINE_MODE_VECTOR`. -/
def trapFromMachineModeVector : Word := 13

/-- `BAD_TRAP_VECTOR`. -/
def badTrapVector : Word := 0

/-! ### What the text refers to -/

/-- The labels. -/
inductive Label where
  /-- `trap_vector`. -/
  | trapVector
  /-- `.Lroute_enclave_trap`. -/
  | routeEnclaveTrap
  /-- `.Lroute_os_trap_or_interrupt`. -/
  | routeOsTrapOrInterrupt
  /-- `.Lroute_os_trap`. -/
  | routeOsTrap
  /-- `.Lroute_all_events`. -/
  | routeAllEvents
  /-- `.Ltrap_from_machine_mode`. -/
  | trapFromMachineMode
  /-- `.save_regs_and_set_args`. -/
  | saveRegsAndSetArgs
  /-- `.restore_regs`. -/
  | restoreRegs
  /-- `.enclave_aex`. -/
  | enclaveAex
  /-- `.enclave_ecall_from_u_trap`. -/
  | enclaveEcallFromUTrap
  /-- `.delegate_to_s`. -/
  | delegateToS
  /-- `.perform_mret`. -/
  | performMret
  /-- `.bad_event`. -/
  | badEvent
  /-- `.pmp_trap`. -/
  | pmpTrap
  /-- `.illegal_insn_trap`. -/
  | illegalInsnTrap
  /-- `.misaligned_load_trap`. -/
  | misalignedLoadTrap
  /-- `.misaligned_store_trap`. -/
  | misalignedStoreTrap
  /-- `.ecall_from_s_trap`. -/
  | ecallFromSTrap
  /-- `.handle_mipi`. -/
  | handleMipi
  /-- The first `1:` after it. -/
  | handleMipi1
  /-- The second. -/
  | handleMipi2
  /-- The third. -/
  | handleMipi3
  /-- `.handle_mtimer_interrupt`. -/
  | handleMtimerInterrupt
  /-- `__redirect_trap`. -/
  | redirectTrap
  /-- `restore_mscratch`. -/
  | restoreMscratch
  deriving DecidableEq

/-- The tables. -/
inductive Table where
  /-- `enclave_trap_table`. -/
  | enclaveTrap
  /-- `enclave_interrupt_table`. -/
  | enclaveInterrupt
  /-- `os_trap_table`. -/
  | osTrap
  /-- `os_interrupt_table`. -/
  | osInterrupt
  deriving DecidableEq

/-- The control registers. -/
inductive Csr where
  /-- `mscratch`. -/
  | mscratch
  /-- `mcause`. -/
  | mcause
  /-- `0x7c4`, set while an enclave runs. -/
  | memrbm
  /-- `mstatus`. -/
  | mstatus
  /-- `mepc`. -/
  | mepc
  /-- `mbadaddr`. -/
  | mbadaddr
  /-- `sepc`. -/
  | sepc
  /-- `scause`. -/
  | scause
  /-- `sbadaddr`. -/
  | sbadaddr
  /-- `stvec`. -/
  | stvec
  /-- `mip`. -/
  | mip
  /-- `mie`. -/
  | mie
  deriving DecidableEq

/-- The handlers written in C. -/
inductive Function where
  /-- `enclave_aex`. -/
  | enclaveAex
  /-- `ecall_from_enclave_trap`. -/
  | ecallFromEnclaveTrap
  /-- `pmp_trap`. -/
  | pmpTrap
  /-- `illegal_insn_trap`. -/
  | illegalInsnTrap
  /-- `misaligned_load_trap`. -/
  | misalignedLoadTrap
  /-- `misaligned_store_trap`. -/
  | misalignedStoreTrap
  /-- `ecall_from_s_trap`. -/
  | ecallFromSTrap
  deriving DecidableEq

/-- These together. -/
@[reducible] def source : Source := ⟨Label, Table, Csr, Function⟩

instance : DecidableEq source.Csr := inferInstanceAs (DecidableEq Csr)

/-! ### Tables -/

/-- The entries of a table. -/
def Table.entries : Table → List Label
  | enclaveTrap =>
    [.enclaveAex, .enclaveAex, .enclaveAex, .enclaveAex, .enclaveAex, .enclaveAex, .enclaveAex, .enclaveAex,
     .enclaveEcallFromUTrap, .enclaveAex, .enclaveAex, .enclaveAex, .enclaveAex, .enclaveAex, .enclaveAex, .enclaveAex]
  | enclaveInterrupt =>
    [.enclaveAex, .enclaveAex, .enclaveAex, .enclaveAex, .enclaveAex, .enclaveAex, .enclaveAex, .enclaveAex,
     .enclaveAex, .enclaveAex, .enclaveAex, .enclaveAex]
  | osTrap =>
    [.delegateToS, .pmpTrap, .illegalInsnTrap, .delegateToS, .misalignedLoadTrap, .pmpTrap, .misalignedStoreTrap,
     .pmpTrap, .badEvent, .ecallFromSTrap, .badEvent, .badEvent, .delegateToS, .delegateToS, .badEvent, .delegateToS]
  | osInterrupt =>
    [.delegateToS, .delegateToS, .badEvent, .handleMipi, .delegateToS, .delegateToS, .badEvent,
     .handleMtimerInterrupt, .badEvent, .badEvent, .badEvent, .badEvent]

/-! ### The text -/

/-- A handler that saves the registers, calls a function, and restores them. -/
def wrapper (f : Function) : List (Instr source) :=
  [.call .saveRegsAndSetArgs, .callOutside f, .call .restoreRegs, .j .performMret]

/-- The text. -/
def text (flen : Bool) : Label → List (Instr source)
  | .trapVector => [
      .csrrw sp .mscratch sp,
      .beqz sp .trapFromMachineMode,
      .sd ra (1 * regBytes) sp,
      .sd t0 (5 * regBytes) sp,
      .csrr t0 .mcause,
      .csrr ra .memrbm,
      .beqz ra .routeOsTrapOrInterrupt,
      .bgez t0 .routeEnclaveTrap,
      .la ra .enclaveInterrupt,
      .j .routeAllEvents]
  | .routeEnclaveTrap => [.la ra .enclaveTrap, .j .routeAllEvents]
  | .routeOsTrapOrInterrupt => [.bgez t0 .routeOsTrap, .la ra .osInterrupt, .j .routeAllEvents]
  | .routeOsTrap => [.la ra .osTrap, .j .routeAllEvents]
  | .routeAllEvents => [.slli t0 t0 2, .add t0 ra t0, .lwu ra 0 t0, .jr ra]
  | .trapFromMachineMode => [
      .csrr sp .mscratch,
      .addi sp sp (-integerContextSize),
      .sd a0 (10 * regBytes) sp,
      .sd a1 (11 * regBytes) sp,
      .li a1 trapFromMachineModeVector,
      .j .routeOsTrap]
  | .saveRegsAndSetArgs => [
      .sd x0 0 sp,
      .sd gp (3 * regBytes) sp,
      .sd tp (4 * regBytes) sp,
      .sd t1 (6 * regBytes) sp,
      .sd t2 (7 * regBytes) sp,
      .sd s0 (8 * regBytes) sp,
      .sd s1 (9 * regBytes) sp,
      .sd a0 (10 * regBytes) sp,
      .sd a1 (11 * regBytes) sp,
      .sd a2 (12 * regBytes) sp,
      .sd a3 (13 * regBytes) sp,
      .sd a4 (14 * regBytes) sp,
      .sd a5 (15 * regBytes) sp,
      .sd a6 (16 * regBytes) sp,
      .sd a7 (17 * regBytes) sp,
      .sd s2 (18 * regBytes) sp,
      .sd s3 (19 * regBytes) sp,
      .sd s4 (20 * regBytes) sp,
      .sd s5 (21 * regBytes) sp,
      .sd s6 (22 * regBytes) sp,
      .sd s7 (23 * regBytes) sp,
      .sd s8 (24 * regBytes) sp,
      .sd s9 (25 * regBytes) sp,
      .sd s10 (26 * regBytes) sp,
      .sd s11 (27 * regBytes) sp,
      .sd t3 (28 * regBytes) sp,
      .sd t4 (29 * regBytes) sp,
      .sd t5 (30 * regBytes) sp,
      .sd t6 (31 * regBytes) sp,
      .mv a0 sp,
      .csrr a1 .mcause,
      .csrr a2 .mepc,
      .ret]
  | .restoreRegs => [
      .ld gp (3 * regBytes) sp,
      .ld tp (4 * regBytes) sp,
      .ld t1 (6 * regBytes) sp,
      .ld t2 (7 * regBytes) sp,
      .ld s0 (8 * regBytes) sp,
      .ld s1 (9 * regBytes) sp,
      .ld a0 (10 * regBytes) sp,
      .ld a1 (11 * regBytes) sp,
      .ld a2 (12 * regBytes) sp,
      .ld a3 (13 * regBytes) sp,
      .ld a4 (14 * regBytes) sp,
      .ld a5 (15 * regBytes) sp,
      .ld a6 (16 * regBytes) sp,
      .ld a7 (17 * regBytes) sp,
      .ld s2 (18 * regBytes) sp,
      .ld s3 (19 * regBytes) sp,
      .ld s4 (20 * regBytes) sp,
      .ld s5 (21 * regBytes) sp,
      .ld s6 (22 * regBytes) sp,
      .ld s7 (23 * regBytes) sp,
      .ld s8 (24 * regBytes) sp,
      .ld s9 (25 * regBytes) sp,
      .ld s10 (26 * regBytes) sp,
      .ld s11 (27 * regBytes) sp,
      .ld t3 (28 * regBytes) sp,
      .ld t4 (29 * regBytes) sp,
      .ld t5 (30 * regBytes) sp,
      .ld t6 (31 * regBytes) sp,
      .ret]
  | .enclaveAex => [.call .saveRegsAndSetArgs, .callOutside .enclaveAex, .call .restoreRegs, .j .delegateToS]
  | .enclaveEcallFromUTrap => wrapper .ecallFromEnclaveTrap
  | .delegateToS => [
      .sd t1 (6 * regBytes) sp,
      .sd t2 (7 * regBytes) sp,
      .csrr t0 .mstatus,
      .andi t1 t0 0x2,
      .slli t2 t1 4,
      .srli t1 t0 3,
      .andi t1 t1 0x100,
      .or t2 t2 t1,
      .li t1 0x0800,
      .or t2 t2 t1,
      .li t1 0xFFFFFFFFFFFFE6DD,
      .and t0 t0 t1,
      .or t0 t0 t2,
      .csrw .mstatus t0,
      .csrr t0 .mepc,
      .csrw .sepc t0,
      .csrr t0 .mcause,
      .csrw .scause t0,
      .csrr t0 .mbadaddr,
      .csrw .sbadaddr t0,
      .csrr t0 .stvec,
      .csrw .mepc t0,
      .ld t1 (6 * regBytes) sp,
      .ld t2 (7 * regBytes) sp,
      .j .performMret]
  | .performMret => [
      .ld ra (1 * regBytes) sp,
      .ld t0 (5 * regBytes) sp,
      .csrrw sp .mscratch sp,
      .mret]
  | .badEvent => [.li t0 badTrapVector, .j .routeOsTrap]
  | .pmpTrap => wrapper .pmpTrap
  | .illegalInsnTrap => wrapper .illegalInsnTrap
  | .misalignedLoadTrap => wrapper .misalignedLoadTrap
  | .misalignedStoreTrap => wrapper .misalignedStoreTrap
  | .ecallFromSTrap => wrapper .ecallFromSTrap
  | .handleMipi => [
      .ld t0 (mentryIpiOffset flen) sp,
      .sw x0 0 t0,
      .fence,
      .sd t1 (6 * regBytes) sp,
      .addi t0 sp (mentryIpiPendingOffset flen),
      .amoswapW a0 x0 a0,
      .andi t1 t0 ipiSoft,
      .beqz t1 .handleMipi1,
      .csrsi .mip mipSsip,
      .j .handleMipi1]
  | .handleMipi1 => [.andi t1 t0 ipiFenceI, .beqz t1 .handleMipi2, .fenceI, .j .handleMipi2]
  | .handleMipi2 => [.andi t1 t0 ipiSfenceVma, .beqz t1 .handleMipi3, .sfenceVma, .j .handleMipi3]
  | .handleMipi3 => [.ld t1 (6 * regBytes) sp, .j .performMret]
  | .handleMtimerInterrupt => [
      .li t0 mipMtip,
      .csrc .mie t0,
      .li t0 mipStip,
      .csrs .mip t0,
      .j .performMret]
  | .redirectTrap => [
      .li t0 riscvPgsize,
      .add sp sp t0,
      .neg t0 t0,
      .and sp sp t0,
      .addi sp sp (-mentryFrameSize flen),
      .j .restoreMscratch]
  | .restoreMscratch => [.csrw .mscratch sp, .call .restoreRegs, .j .performMret]

end Trap

end Sanctum
