import RpiBoot.Emmc.Clock
import RpiBoot.Lib.Effect

/-!
# The SD card (`emmc.c`, `mbox.c`)

Whatever the controller and the card answer: every read of a register, of the mailbox buffer or of the timer
gives the next one of a list of responses. A run stops when there are no more, so it is as far as the code has
got with these.

* `EmmcDev`: `struct emmc_block_dev`. `EmmcWorld`: the responses, the structure, and what has happened.
* `sdIssueCommandInt`, `sdIssueCommand`: a command, its response and its data.
* `sdCardInit`: first detection, and initialisation of a structure that is there.
* `sdEnsureDataMode`, `sdDoDataCommand`, `sdRead`, `sdWrite`: reading and writing.

DMA is not compiled in. Times are left out, and what is printed.
-/

namespace RpiBoot

/-- A register, or a word of the mailbox buffer. -/
abbrev U32 := BitVec 32

/-- `1 << n`. -/
def sdBit (n : ℕ) : U32 := 1 <<< n

/-! ## Registers -/

def emmcBlksizecnt : ℕ := 0x4
def emmcArg1 : ℕ := 0x8
def emmcCmdtm : ℕ := 0xc
def emmcResp0 : ℕ := 0x10
def emmcResp1 : ℕ := 0x14
def emmcResp2 : ℕ := 0x18
def emmcResp3 : ℕ := 0x1c
def emmcData : ℕ := 0x20
def emmcStatus : ℕ := 0x24
def emmcControl0 : ℕ := 0x28
def emmcControl1 : ℕ := 0x2c
def emmcInterrupt : ℕ := 0x30
def emmcIrptMask : ℕ := 0x34
def emmcIrptEn : ℕ := 0x38
def emmcControl2 : ℕ := 0x3c
def emmcCapabilities0 : ℕ := 0x40
def emmcCapabilities1 : ℕ := 0x44
def emmcSlotisrVer : ℕ := 0xfc

def sdCmdIndex (a : U32) : U32 := a <<< 24
def sdCmdTypeAbort : U32 := 3 <<< 22
def sdCmdTypeMask : U32 := 3 <<< 22
def sdCmdIsdata : U32 := sdBit 21
def sdCmdCrcchkEn : U32 := sdBit 19
def sdCmdRspnsType136 : U32 := sdBit 16
def sdCmdRspnsType48 : U32 := 2 <<< 16
def sdCmdRspnsType48b : U32 := 3 <<< 16
def sdCmdRspnsTypeMask : U32 := 3 <<< 16
def sdCmdMultiBlock : U32 := sdBit 5
def sdCmdDatDirCh : U32 := sdBit 4
def sdCmdBlkcntEn : U32 := sdBit 1

/-- The response types R1, R5, R6 and R7. -/
def sdRespR1 : U32 := sdCmdRspnsType48 ||| sdCmdCrcchkEn
def sdRespR1b : U32 := sdCmdRspnsType48b ||| sdCmdCrcchkEn
def sdRespR2 : U32 := sdCmdRspnsType136 ||| sdCmdCrcchkEn
def sdRespR3 : U32 := sdCmdRspnsType48
def sdRespR4 : U32 := sdCmdRspnsType136

def sdDataRead : U32 := sdCmdIsdata ||| sdCmdDatDirCh
def sdDataWrite : U32 := sdCmdIsdata

def sdCmdReserved : U32 := 0xffffffff

/-- `sd_commands`. -/
def sdCommands : ℕ → U32
  | 0 => sdCmdIndex 0
  | 2 => sdCmdIndex 2 ||| sdRespR2
  | 3 => sdCmdIndex 3 ||| sdRespR1
  | 4 => sdCmdIndex 4
  | 5 => sdCmdIndex 5 ||| sdRespR4
  | 6 => sdCmdIndex 6 ||| sdRespR1
  | 7 => sdCmdIndex 7 ||| sdRespR1b
  | 8 => sdCmdIndex 8 ||| sdRespR1
  | 9 => sdCmdIndex 9 ||| sdRespR2
  | 10 => sdCmdIndex 10 ||| sdRespR2
  | 11 => sdCmdIndex 11 ||| sdRespR1
  | 12 => sdCmdIndex 12 ||| sdRespR1b ||| sdCmdTypeAbort
  | 13 => sdCmdIndex 13 ||| sdRespR1
  | 15 => sdCmdIndex 15
  | 16 => sdCmdIndex 16 ||| sdRespR1
  | 17 => sdCmdIndex 17 ||| sdRespR1 ||| sdDataRead
  | 18 => sdCmdIndex 18 ||| sdRespR1 ||| sdDataRead ||| sdCmdMultiBlock ||| sdCmdBlkcntEn
  | 19 => sdCmdIndex 19 ||| sdRespR1 ||| sdDataRead
  | 20 => sdCmdIndex 20 ||| sdRespR1b
  | 23 => sdCmdIndex 23 ||| sdRespR1
  | 24 => sdCmdIndex 24 ||| sdRespR1 ||| sdDataWrite
  | 25 => sdCmdIndex 25 ||| sdRespR1 ||| sdDataWrite ||| sdCmdMultiBlock ||| sdCmdBlkcntEn
  | 27 => sdCmdIndex 27 ||| sdRespR1 ||| sdDataWrite
  | 28 => sdCmdIndex 28 ||| sdRespR1b
  | 29 => sdCmdIndex 29 ||| sdRespR1b
  | 30 => sdCmdIndex 30 ||| sdRespR1 ||| sdDataRead
  | 32 => sdCmdIndex 32 ||| sdRespR1
  | 33 => sdCmdIndex 33 ||| sdRespR1
  | 38 => sdCmdIndex 38 ||| sdRespR1b
  | 55 => sdCmdIndex 55 ||| sdRespR1
  | 56 => sdCmdIndex 56 ||| sdRespR1 ||| sdCmdIsdata
  | _ => sdCmdReserved

/-- `sd_acommands`. -/
def sdAcommands : ℕ → U32
  | 6 => sdCmdIndex 6 ||| sdRespR1
  | 13 => sdCmdIndex 13 ||| sdRespR1
  | 22 => sdCmdIndex 22 ||| sdRespR1 ||| sdDataRead
  | 23 => sdCmdIndex 23 ||| sdRespR1
  | 41 => sdCmdIndex 41 ||| sdRespR3
  | 42 => sdCmdIndex 42 ||| sdRespR1
  | 51 => sdCmdIndex 51 ||| sdRespR1 ||| sdDataRead
  | _ => sdCmdReserved

/-- A command, or an application command (`IS_APP_CMD`), by its number. -/
inductive SdCommand where
  | cmd (index : ℕ)
  | acmd (index : ℕ)
deriving DecidableEq

def goIdleState : SdCommand := .cmd 0
def allSendCid : SdCommand := .cmd 2
def sendRelativeAddr : SdCommand := .cmd 3
def ioSetOpCond : SdCommand := .cmd 5
def selectCard : SdCommand := .cmd 7
def sendIfCond : SdCommand := .cmd 8
def voltageSwitch : SdCommand := .cmd 11
def stopTransmission : SdCommand := .cmd 12
def sendStatus : SdCommand := .cmd 13
def setBlocklen : SdCommand := .cmd 16
def readSingleBlock : SdCommand := .cmd 17
def readMultipleBlock : SdCommand := .cmd 18
def writeBlock : SdCommand := .cmd 24
def writeMultipleBlock : SdCommand := .cmd 25
def appCmd : ℕ := 55
def setBusWidth : SdCommand := .acmd 6
def sdSendOpCond : SdCommand := .acmd 41
def sendScr : SdCommand := .acmd 51

/-! ## The device and its world -/

/-- The functions of a block device. -/
inductive SdFunction where
  | sdRead
  | sdWrite
deriving DecidableEq

/-- What `buf` points to. -/
inductive SdBuffer where
  | null
  | scr
  | user
deriving DecidableEq

/-- `struct emmc_block_dev`; the first fields are those of `bd`. -/
structure EmmcDev where
  read : Option SdFunction
  write : Option SdFunction
  bdBlockSize : U32
  deviceId : List U32
  cardSupportsSdhc : U32
  cardSupports18v : U32
  cardOcr : U32
  cardRca : U32
  lastInterrupt : U32
  lastError : U32
  failedVoltageSwitch : Bool
  lastCmdReg : U32
  lastCmd : Option SdCommand
  lastCmdSuccess : Bool
  lastR0 : U32
  lastR1 : U32
  lastR2 : U32
  lastR3 : U32
  buf : SdBuffer
  blocksToTransfer : U32
  blockSize : U32
  cardRemoval : Bool
  baseClock : U32
deriving DecidableEq

namespace EmmcDev

/-- `memset(ret, 0, sizeof(struct emmc_block_dev))`. -/
def zero : EmmcDev where
  read := none
  write := none
  bdBlockSize := 0
  deviceId := []
  cardSupportsSdhc := 0
  cardSupports18v := 0
  cardOcr := 0
  cardRca := 0
  lastInterrupt := 0
  lastError := 0
  failedVoltageSwitch := false
  lastCmdReg := 0
  lastCmd := none
  lastCmdSuccess := false
  lastR0 := 0
  lastR1 := 0
  lastR2 := 0
  lastR3 := 0
  buf := .null
  blocksToTransfer := 0
  blockSize := 0
  cardRemoval := false
  baseClock := 0

variable (d : EmmcDev)

def fail : Bool := !d.lastCmdSuccess
def timeout : Bool := d.fail && d.lastError == 0
def cmdTimeout : Bool := d.fail && d.lastError &&& sdBit 16 != 0

end EmmcDev

/-- What happens: a command is written to the controller, with its argument; a command has been issued, with
or without success and with the response `r0`; the flag `failed_voltage_switch` is set. -/
inductive SdEvent where
  | sent (cmdReg argument : U32)
  | answered (command : SdCommand) (success : Bool) (r0 : U32)
  | switchFailed
deriving DecidableEq

/-- The responses to come, what has been written to registers and what has happened, latest first; the device
with whether its structure is allocated; and the words of buffers. -/
structure EmmcWorld where
  responses : List U32
  written : List (ℕ × U32)
  trace : List SdEvent
  dev : EmmcDev
  allocated : Bool
  data : SdBuffer → ℕ → U32

abbrev EmmcM := Eff EmmcWorld

open Eff

def getDev : EmmcM EmmcDev := read EmmcWorld.dev

def setDev (f : EmmcDev → EmmcDev) : EmmcM Unit := update fun w => { w with dev := f w.dev }

def happen (e : SdEvent) : EmmcM Unit := update fun w => { w with trace := e :: w.trace }

/-- `free(ret)`. -/
def freeDev : EmmcM Unit := update fun w => { w with allocated := false }

/-- A response, whatever is read. -/
def nextResponse : EmmcM U32 := fun w =>
  match w.responses with
  | [] => (none, w)
  | v :: rs => (some v, { w with responses := rs })

/-- `mmio_read(emmc_base + reg)`. -/
def mmioRead (_reg : ℕ) : EmmcM U32 := nextResponse

/-- `mmio_write(emmc_base + reg, v)`. -/
def mmioWrite (reg : ℕ) (v : U32) : EmmcM Unit := update fun w => { w with written := (reg, v) :: w.written }

/-- The responses that a loop takes which waits while a register is `busy`. -/
def waitFrom (busy : U32 → Bool) : List U32 → Option Unit × List U32
  | [] => (none, [])
  | v :: rs => if busy v then waitFrom busy rs else (some (), rs)

/-- `while(...) usleep(1000);`. -/
def waitWhile (_reg : ℕ) (busy : U32 → Bool) : EmmcM Unit := fun w =>
  let r := waitFrom busy w.responses
  (r.1, { w with responses := r.2 })

/-- The responses that `TIMEOUT_WAIT` takes: of the register and of the timer, in turn. -/
def timeoutFrom (stopIfTrue : U32 → Bool) : List U32 → Option Unit × List U32
  | [] => (none, [])
  | v :: rs =>
    if stopIfTrue v then (some (), rs)
    else
      match rs with
      | [] => (none, [])
      | timer :: rs => if timer ≠ 0 then (some (), rs) else timeoutFrom stopIfTrue rs

/-- `TIMEOUT_WAIT`. -/
def timeoutWait (_reg : ℕ) (stopIfTrue : U32 → Bool) : EmmcM Unit := fun w =>
  let r := timeoutFrom stopIfTrue w.responses
  (r.1, { w with responses := r.2 })

/-! ## The mailbox -/

/-- `MBOX_SUCCESS`. -/
def mboxResponseOk : U32 := 0x80000000

/-- The responses that `mbox_read(8)` takes: of the status while the mailbox is empty, and of messages for
other channels. -/
def mboxReadFrom : List U32 → Option Unit × List U32
  | [] => (none, [])
  | status :: rs =>
    if status &&& 0x40000000 ≠ 0 then mboxReadFrom rs
    else
      match rs with
      | [] => (none, [])
      | data :: rs => if data &&& 0xf = 8 then (some (), rs) else mboxReadFrom rs

/-- `mbox_write(MBOX_PROP, mb_addr); mbox_read(MBOX_PROP)`. -/
def mboxCall : EmmcM Unit := do
  waitWhile 0x18 fun v => v &&& 0x80000000 != 0
  fun w =>
    let r := mboxReadFrom w.responses
    (r.1, { w with responses := r.2 })

/-- `mailbuffer[i]`. -/
def mailbuffer (_i : ℕ) : EmmcM U32 := nextResponse

/-- `bcm_2708_power_off()` and `bcm_2708_power_on()`, which expect another state each. -/
def bcm2708Power (state : U32) : EmmcM ℤ := do
  mboxCall
  let m1 ← mailbuffer 1
  if m1 ≠ mboxResponseOk then pure (-1)
  else
    let m5 ← mailbuffer 5
    if m5 ≠ 0x0 then pure (-1)
    else
      let m6 ← mailbuffer 6
      if m6 &&& 0x3 ≠ state then pure 1 else pure 0

/-- `bcm_2708_power_cycle()`. -/
def bcm2708PowerCycle : EmmcM ℤ := do
  let off ← bcm2708Power 0
  if off < 0 then pure (-1) else bcm2708Power 1

/-- `sd_get_base_clock_hz()`. -/
def sdGetBaseClockHz : EmmcM U32 := do
  mboxCall
  let m1 ← mailbuffer 1
  if m1 ≠ mboxResponseOk then pure 0
  else
    let m5 ← mailbuffer 5
    if m5 ≠ 0x1 then pure 0 else mailbuffer 6

/-! ## Commands -/

/-- `sd_switch_clock_rate(base_clock, target_rate)`. -/
def sdSwitchClockRate (baseClock : U32) (targetRate : ℕ) : EmmcM Unit := do
  let divider := BitVec.ofNat 32 (sdGetClockDivider baseClock.toNat targetRate)
  waitWhile emmcStatus fun v => v &&& 0x3 != 0
  let control1 ← mmioRead emmcControl1
  let control1 := control1 &&& ~~~sdBit 2
  mmioWrite emmcControl1 control1
  let control1 := control1 &&& ~~~0xffe0 ||| divider
  mmioWrite emmcControl1 control1
  mmioWrite emmcControl1 (control1 ||| sdBit 2)

/-- `sd_reset_cmd()` and `sd_reset_dat()`, which set another bit each. -/
def sdReset (bit : U32) : EmmcM ℤ := do
  let control1 ← mmioRead emmcControl1
  mmioWrite emmcControl1 (control1 ||| bit)
  timeoutWait emmcControl1 fun v => v &&& bit == 0
  let control1 ← mmioRead emmcControl1
  if control1 &&& bit ≠ 0 then pure (-1) else pure 0

def sdResetCmd : EmmcM ℤ := sdReset (sdBit 25)
def sdResetDat : EmmcM ℤ := sdReset (sdBit 26)

/-- An error: `last_error` and `last_interrupt`. -/
def setError (irpts : U32) : EmmcM Unit :=
  setDev fun d => { d with lastError := irpts &&& 0xffff0000, lastInterrupt := irpts }

/-- The part of `sd_issue_command_int` that reads the response. -/
def sdReadResponse (cmdReg : U32) : EmmcM Unit :=
  if cmdReg &&& sdCmdRspnsTypeMask = sdCmdRspnsType48 ∨ cmdReg &&& sdCmdRspnsTypeMask = sdCmdRspnsType48b then do
    let r0 ← mmioRead emmcResp0
    setDev fun d => { d with lastR0 := r0 }
  else if cmdReg &&& sdCmdRspnsTypeMask = sdCmdRspnsType136 then do
    let r0 ← mmioRead emmcResp0
    let r1 ← mmioRead emmcResp1
    let r2 ← mmioRead emmcResp2
    let r3 ← mmioRead emmcResp3
    setDev fun d => { d with lastR0 := r0, lastR1 := r1, lastR2 := r2, lastR3 := r3 }
  else pure ()

/-- The transfer of `n` words of a block, from word `cur` of the buffer on. -/
def transferWords (isWrite : Bool) : ℕ → (cur : ℕ) → EmmcM Unit
  | 0, _ => pure ()
  | n + 1, cur => do
    let dev ← getDev
    if isWrite then do
      let data ← read fun w => w.data dev.buf cur
      mmioWrite emmcData data
      transferWords isWrite n (cur + 1)
    else do
      let data ← mmioRead emmcData
      update fun w =>
        { w with data := Function.update w.data dev.buf (Function.update (w.data dev.buf) cur data) }
      transferWords isWrite n (cur + 1)

/-- The transfer of `n` blocks; whether there has been no error. -/
def transferBlocks (wrIrpt : U32) (isWrite : Bool) : ℕ → (cur : ℕ) → EmmcM Bool
  | 0, _ => pure true
  | n + 1, cur => do
    timeoutWait emmcInterrupt fun v => v &&& (wrIrpt ||| 0x8000) != 0
    let irpts ← mmioRead emmcInterrupt
    mmioWrite emmcInterrupt (0xffff0000 ||| wrIrpt)
    if irpts &&& (0xffff0000 ||| wrIrpt) ≠ wrIrpt then do
      setError irpts
      pure false
    else do
      let dev ← getDev
      let words := (dev.blockSize.toNat + 3) / 4
      transferWords isWrite words cur
      transferBlocks wrIrpt isWrite n (cur + words)

/-- The part of `sd_issue_command_int` for commands with data; whether there has been no error. -/
def transferData (cmdReg : U32) : EmmcM Bool :=
  if cmdReg &&& sdCmdIsdata ≠ 0 then do
    let dev ← getDev
    if cmdReg &&& sdCmdDatDirCh ≠ 0 then transferBlocks (sdBit 5) false dev.blocksToTransfer.toInt.toNat 0
    else transferBlocks (sdBit 4) true dev.blocksToTransfer.toInt.toNat 0
  else pure true

/-- The part of `sd_issue_command_int` that waits for the end of a transfer; whether there has been no
error. -/
def transferComplete (cmdReg : U32) : EmmcM Bool :=
  if cmdReg &&& sdCmdRspnsTypeMask = sdCmdRspnsType48b ∨ cmdReg &&& sdCmdIsdata ≠ 0 then do
    let status ← mmioRead emmcStatus
    if status &&& 0x2 = 0 then do
      mmioWrite emmcInterrupt 0xffff0002
      pure true
    else do
      timeoutWait emmcInterrupt fun v => v &&& 0x8002 != 0
      let irpts ← mmioRead emmcInterrupt
      mmioWrite emmcInterrupt 0xffff0002
      if irpts &&& 0xffff0002 ≠ 0x2 ∧ irpts &&& 0xffff0002 ≠ 0x100002 then do
        setError irpts
        pure false
      else do
        mmioWrite emmcInterrupt 0xffff0002
        pure true
  else pure true

/-- `sd_issue_command_int(dev, cmd_reg, argument, timeout)`. -/
def sdIssueCommandInt (cmdReg argument : U32) : EmmcM Unit := do
  setDev fun d => { d with lastCmdReg := cmdReg, lastCmdSuccess := false }
  waitWhile emmcStatus fun v => v &&& 0x1 != 0
  when (cmdReg &&& sdCmdRspnsTypeMask = sdCmdRspnsType48b ∧ cmdReg &&& sdCmdTypeMask ≠ sdCmdTypeAbort)
    (waitWhile emmcStatus fun v => v &&& 0x2 != 0)
  let dev ← getDev
  if (0xffff : U32).slt dev.blocksToTransfer then setDev fun d => { d with lastCmdSuccess := false }
  else do
    mmioWrite emmcBlksizecnt (dev.blockSize ||| dev.blocksToTransfer <<< 16)
    mmioWrite emmcArg1 argument
    mmioWrite emmcCmdtm cmdReg
    happen (.sent cmdReg argument)
    timeoutWait emmcInterrupt fun v => v &&& 0x8001 != 0
    let irpts ← mmioRead emmcInterrupt
    mmioWrite emmcInterrupt 0xffff0001
    if irpts &&& 0xffff0001 ≠ 0x1 then setError irpts
    else do
      sdReadResponse cmdReg
      let transferred ← transferData cmdReg
      if transferred then do
        let complete ← transferComplete cmdReg
        when complete (setDev fun d => { d with lastCmdSuccess := true })
      else pure ()

/-- `sd_handle_card_interrupt(dev)`. -/
def sdHandleCardInterrupt : EmmcM Unit := do
  let dev ← getDev
  when (dev.cardRca ≠ 0) (sdIssueCommandInt (sdCommands 13) (dev.cardRca <<< 16))

/-- `sd_handle_interrupts(dev)`. -/
def sdHandleInterrupts : EmmcM Unit := do
  let irpts ← mmioRead emmcInterrupt
  when (irpts &&& sdBit 4 ≠ 0) (discard sdResetDat)
  when (irpts &&& sdBit 5 ≠ 0) (discard sdResetDat)
  when (irpts &&& sdBit 7 ≠ 0) (setDev fun d => { d with cardRemoval := true })
  when (irpts &&& sdBit 8 ≠ 0) sdHandleCardInterrupt
  mmioWrite emmcInterrupt (irpts &&& 0x1ff ||| if irpts &&& 0x8000 ≠ 0 then 0xffff0000 else 0)

/-- The two parts of `sd_issue_command`, for the two kinds of commands. -/
def sdSendCommand (argument : U32) : SdCommand → EmmcM Unit
  | .acmd command =>
    if sdAcommands command = sdCmdReserved then setDev fun d => { d with lastCmdSuccess := false }
    else do
      setDev fun d => { d with lastCmd := some (.cmd appCmd) }
      let dev ← getDev
      sdIssueCommandInt (sdCommands appCmd) (if dev.cardRca ≠ 0 then dev.cardRca <<< 16 else 0)
      let dev ← getDev
      if dev.lastCmdSuccess then do
        setDev fun d => { d with lastCmd := some (.acmd command) }
        sdIssueCommandInt (sdAcommands command) argument
      else pure ()
  | .cmd command =>
    if sdCommands command = sdCmdReserved then setDev fun d => { d with lastCmdSuccess := false }
    else do
      setDev fun d => { d with lastCmd := some (.cmd command) }
      sdIssueCommandInt (sdCommands command) argument

/-- `sd_issue_command(dev, command, argument, timeout)`. -/
def sdIssueCommand (command : SdCommand) (argument : U32) : EmmcM Unit := do
  sdHandleInterrupts
  let dev ← getDev
  (if dev.cardRemoval then setDev fun d => { d with lastCmdSuccess := false }
    else sdSendCommand argument command)
  let dev ← getDev
  happen (.answered command dev.lastCmdSuccess dev.lastR0)

/-! ## Initialisation -/

/-- The part of `sd_card_init` in front of the device structure: the base clock, or `none` on a failure. -/
def initController : EmmcM (Option U32) := do
  discard bcm2708PowerCycle
  discard (mmioRead emmcSlotisrVer)
  let control1 ← mmioRead emmcControl1
  mmioWrite emmcControl1 ((control1 ||| sdBit 24) &&& ~~~sdBit 2 &&& ~~~sdBit 0)
  timeoutWait emmcControl1 fun v => v &&& (0x7 <<< 24) == 0
  let control1 ← mmioRead emmcControl1
  if control1 &&& (0x7 <<< 24) ≠ 0 then pure none
  else do
    discard (mmioRead emmcCapabilities0)
    discard (mmioRead emmcCapabilities1)
    timeoutWait emmcStatus fun v => v &&& sdBit 16 != 0
    let statusReg ← mmioRead emmcStatus
    if statusReg &&& sdBit 16 = 0 then pure none
    else do
      mmioWrite emmcControl2 0
      let baseClock ← sdGetBaseClockHz
      let baseClock := if baseClock = 0 then 100000000 else baseClock
      let control1 ← mmioRead emmcControl1
      let fId := BitVec.ofNat 32 (sdGetClockDivider baseClock.toNat sdClockId)
      mmioWrite emmcControl1 (control1 ||| 1 ||| fId ||| 7 <<< 16)
      timeoutWait emmcControl1 fun v => v &&& 0x2 != 0
      let control1 ← mmioRead emmcControl1
      if control1 &&& 0x2 = 0 then pure none
      else do
        let control1 ← mmioRead emmcControl1
        mmioWrite emmcControl1 (control1 ||| 4)
        mmioWrite emmcIrptEn 0
        mmioWrite emmcInterrupt 0xffffffff
        mmioWrite emmcIrptMask (0xffffffff &&& ~~~sdBit 8)
        pure (some baseClock)

/-- The device structure: `malloc` finds one where `*dev` is null. -/
def prepareDev (null : Bool) (baseClock : U32) : EmmcM Unit := do
  when null (update fun w => { w with allocated := true })
  setDev fun _ => EmmcDev.zero
  setDev fun d => { d with
    bdBlockSize := 512
    read := some .sdRead
    write := some .sdWrite
    baseClock := baseClock }

/-- The command line is reset where a command has timed out; whether this went well. -/
def recoverTimeout : EmmcM Bool := do
  let r ← sdResetCmd
  if r = -1 then pure false
  else do
    mmioWrite emmcInterrupt (sdBit 16)
    pure true

/-- The answer to `SEND_IF_COND`: `v2_later`, or `none` on a failure. -/
def checkIfCond : EmmcM (Option Bool) := do
  let dev ← getDev
  if dev.timeout then pure (some false)
  else if dev.cmdTimeout then do
    let ok ← recoverTimeout
    pure (if ok then some false else none)
  else if dev.fail then pure none
  else if dev.lastR0 &&& 0xfff ≠ 0x1aa then pure none
  else pure (some true)

/-- The answer to `IO_SET_OP_COND`, which is a failure unless it has timed out. -/
def checkIoSetOpCond : EmmcM Bool := do
  let dev ← getDev
  if dev.timeout then pure true
  else if dev.cmdTimeout then recoverTimeout
  else pure false

/-- The part of `sd_card_init` up to the inquiry: `v2_later`, or `none` on a failure. -/
def identifyCard : EmmcM (Option Bool) := do
  sdIssueCommand goIdleState 0
  let dev ← getDev
  if dev.fail then pure none
  else do
    sdIssueCommand sendIfCond 0x1aa
    let v2 ← checkIfCond
    match v2 with
    | none => pure none
    | some v2Later => do
      sdIssueCommand ioSetOpCond 0
      let ok ← checkIoSetOpCond
      if ok then do
        sdIssueCommand sdSendOpCond 0
        let dev ← getDev
        if dev.fail then pure none else pure (some v2Later)
      else pure none

/-- The argument of the initialisation `ACMD41`. -/
def opCondArgument (v2Later failedVoltageSwitch : Bool) : U32 :=
  0x00ff8000 ||| if v2Later then sdBit 30 ||| (if !failedVoltageSwitch then sdBit 24 else 0) else 0

/-- The loop of the initialisation `ACMD41`; whether it has not failed. -/
def opCondLoop (v2Later : Bool) : ℕ → EmmcM Bool
  | 0 => stop
  | fuel + 1 => do
    let dev ← getDev
    sdIssueCommand sdSendOpCond (opCondArgument v2Later dev.failedVoltageSwitch)
    let dev ← getDev
    if dev.fail then pure false
    else if dev.lastR0 >>> 31 &&& 0x1 ≠ 0 then do
      setDev fun d => { d with
        cardOcr := d.lastR0 >>> 8 &&& 0xffff
        cardSupportsSdhc := d.lastR0 >>> 30 &&& 0x1
        cardSupports18v := if !d.failedVoltageSwitch then d.lastR0 >>> 24 &&& 0x1 else d.cardSupports18v }
      pure true
    else opCondLoop v2Later fuel

/-- `sd_power_off()`. -/
def sdPowerOff : EmmcM Unit := do
  let control0 ← mmioRead emmcControl0
  mmioWrite emmcControl0 (control0 &&& ~~~sdBit 8)

/-- The switch to 1.8 V; whether it has not failed. -/
def switchVoltage : EmmcM Bool := do
  sdIssueCommand voltageSwitch 0
  let dev ← getDev
  if dev.fail then pure false
  else do
    let control1 ← mmioRead emmcControl1
    mmioWrite emmcControl1 (control1 &&& ~~~sdBit 2)
    let statusReg ← mmioRead emmcStatus
    if statusReg >>> 20 &&& 0xf ≠ 0 then pure false
    else do
      let control0 ← mmioRead emmcControl0
      mmioWrite emmcControl0 (control0 ||| sdBit 8)
      let control0 ← mmioRead emmcControl0
      if control0 >>> 8 &&& 0x1 = 0 then pure false
      else do
        let control1 ← mmioRead emmcControl1
        mmioWrite emmcControl1 (control1 ||| sdBit 2)
        let statusReg ← mmioRead emmcStatus
        if statusReg >>> 20 &&& 0xf ≠ 0xf then pure false else pure true

/-- `free(ret); return -1;`. -/
def failInit : EmmcM ℤ := do
  freeDev
  pure (-1)

/-- The bits of the response to `SEND_RELATIVE_ADDR`: no error, and ready. -/
def relativeAddrOk (r0 : U32) : Bool :=
  r0 >>> 15 &&& 0x1 == 0 && r0 >>> 14 &&& 0x1 == 0 && r0 >>> 13 &&& 0x1 == 0 && r0 >>> 8 &&& 0x1 != 0

/-- The state of the card in a response to `SELECT_CARD` is 3 or 4. -/
def selectCardOk (r0 : U32) : Bool := r0 >>> 9 &&& 0xf == 3 || r0 >>> 9 &&& 0xf == 4

/-- The bytes of a word in the other order. -/
def byteSwap (v : U32) : U32 :=
  v <<< 24 ||| v <<< 8 &&& 0xff0000 ||| v >>> 8 &&& 0xff00 ||| v >>> 24

/-- The end of `sd_card_init`: a bus of four bits, if the card has it. -/
def setupBus : EmmcM ℤ := do
  let scr0 ← read fun w => byteSwap (w.data .scr 0)
  when (scr0 >>> 16 &&& 0xf &&& 0x4 ≠ 0) do
    let oldIrptMask ← mmioRead emmcIrptMask
    mmioWrite emmcIrptMask (oldIrptMask &&& ~~~sdBit 8)
    sdIssueCommand setBusWidth 0x2
    let dev ← getDev
    when (!dev.fail) do
      let control0 ← mmioRead emmcControl0
      mmioWrite emmcControl0 (control0 ||| 0x2)
      mmioWrite emmcIrptMask oldIrptMask
  mmioWrite emmcInterrupt 0xffffffff
  pure 0

/-- The part of `sd_card_init` that reads the SCR register. -/
def readScr : EmmcM ℤ := do
  setDev fun d => { d with blockSize := 512 }
  let controllerBlockSize ← mmioRead emmcBlksizecnt
  mmioWrite emmcBlksizecnt (controllerBlockSize &&& ~~~0xfff ||| 0x200)
  setDev fun d => { d with buf := .scr, blockSize := 8, blocksToTransfer := 1 }
  sdIssueCommand sendScr 0
  setDev fun d => { d with blockSize := 512 }
  let dev ← getDev
  if dev.fail then failInit else setupBus

/-- The part of `sd_card_init` that selects the card. -/
def selectPhase : EmmcM ℤ := do
  let dev ← getDev
  sdIssueCommand selectCard (dev.cardRca <<< 16)
  let dev ← getDev
  if dev.fail then failInit
  else if !selectCardOk dev.lastR0 then failInit
  else if dev.cardSupportsSdhc = 0 then do
    sdIssueCommand setBlocklen 512
    let dev ← getDev
    if dev.fail then failInit else readScr
  else readScr

/-- The part of `sd_card_init` from `ALL_SEND_CID` on. -/
def dataPhase : EmmcM ℤ := do
  sdIssueCommand allSendCid 0
  let dev ← getDev
  if dev.fail then pure (-1)
  else do
    setDev fun d => { d with deviceId := [d.lastR0, d.lastR1, d.lastR2, d.lastR3] }
    sdIssueCommand sendRelativeAddr 0
    let dev ← getDev
    if dev.fail then failInit
    else do
      setDev fun d => { d with cardRca := d.lastR0 >>> 16 &&& 0xffff }
      if !relativeAddrOk dev.lastR0 then failInit else selectPhase

/-- The part of `sd_card_init` behind the device structure. `again` is the call of `sd_card_init` behind a failed
switch to 1.8 V, on this structure; `fuel` bounds the rounds of the loop. -/
def initCard (again : EmmcM ℤ) (fuel : ℕ) (baseClock : U32) : EmmcM ℤ := do
  let card ← identifyCard
  match card with
  | none => pure (-1)
  | some v2Later => do
    let ready ← opCondLoop v2Later fuel
    if ready then do
      sdSwitchClockRate baseClock sdClockNormal
      let dev ← getDev
      if dev.cardSupports18v ≠ 0 then do
        let switched ← switchVoltage
        if switched then dataPhase
        else do
          setDev fun d => { d with failedVoltageSwitch := true }
          happen .switchFailed
          sdPowerOff
          again
      else dataPhase
    else pure (-1)

/-- `sd_card_init(dev)`; `null` tells that `*dev` is null. `fuel` bounds the depth of calls. -/
def sdCardInit : ℕ → (null : Bool) → EmmcM ℤ
  | 0, _ => stop
  | fuel + 1, null => do
    let clock ← initController
    match clock with
    | none => pure (-1)
    | some baseClock => do
      prepareDev null baseClock
      initCard (sdCardInit fuel false) fuel baseClock

/-! ## Reading and writing -/

/-- `edev->card_rca = 0; return -1;`. -/
def failDataMode : EmmcM ℤ := do
  setDev fun d => { d with cardRca := 0 }
  pure (-1)

/-- The state of the card, as `SEND_STATUS` gives it. -/
def currentState (r0 : U32) : U32 := r0 >>> 9 &&& 0xf

/-- The second check of `sd_ensure_data_mode`. -/
def recheckState : EmmcM ℤ := do
  let dev ← getDev
  sdIssueCommand sendStatus (dev.cardRca <<< 16)
  let dev ← getDev
  if dev.fail then failDataMode
  else if currentState dev.lastR0 ≠ 4 then failDataMode
  else pure 0

/-- The part of `sd_ensure_data_mode` behind the first initialisation. -/
def ensureState (fuel : ℕ) : EmmcM ℤ := do
  let dev ← getDev
  sdIssueCommand sendStatus (dev.cardRca <<< 16)
  let dev ← getDev
  if dev.fail then failDataMode
  else if currentState dev.lastR0 = 3 then do
    sdIssueCommand selectCard (dev.cardRca <<< 16)
    let dev ← getDev
    if dev.fail then failDataMode else recheckState
  else if currentState dev.lastR0 = 5 then do
    sdIssueCommand stopTransmission 0
    let dev ← getDev
    if dev.fail then failDataMode
    else do
      discard sdResetDat
      recheckState
  else if currentState dev.lastR0 ≠ 4 then do
    let ret ← sdCardInit fuel false
    if ret ≠ 0 then pure ret else recheckState
  else pure 0

/-- `sd_ensure_data_mode(edev)`. -/
def sdEnsureDataMode (fuel : ℕ) : EmmcM ℤ := do
  let dev ← getDev
  if dev.cardRca = 0 then do
    let ret ← sdCardInit fuel false
    if ret ≠ 0 then pure ret else ensureState fuel
  else ensureState fuel

/-- The loop of `sd_do_data_command`, with as many tries left; whether one has been successful. -/
def dataTries (command : SdCommand) (blockNo : U32) : ℕ → EmmcM Bool
  | 0 => pure false
  | n + 1 => do
    sdIssueCommand command blockNo
    let dev ← getDev
    if dev.lastCmdSuccess then pure true else dataTries command blockNo n

/-- The command for a number of blocks. -/
def dataCommand (isWrite : Bool) (blocksToTransfer : U32) : SdCommand :=
  if isWrite then
    if (1 : U32).slt blocksToTransfer then writeMultipleBlock else writeBlock
  else if (1 : U32).slt blocksToTransfer then readMultipleBlock
  else readSingleBlock

/-- `sd_do_data_command(edev, is_write, buf, buf_size, block_no)`. It stops at a division by zero. -/
def sdDoDataCommand (isWrite : Bool) (bufSize blockNo : U32) : EmmcM ℤ := do
  let dev ← getDev
  let blockNo := if dev.cardSupportsSdhc = 0 then blockNo * 512 else blockNo
  if bufSize < dev.blockSize then pure (-1)
  else if dev.blockSize = 0 then stop
  else do
    setDev fun d => { d with blocksToTransfer := bufSize / d.blockSize }
    if bufSize % dev.blockSize ≠ 0 then pure (-1)
    else do
      setDev fun d => { d with buf := .user }
      let ok ← dataTries (dataCommand isWrite (bufSize / dev.blockSize)) blockNo 3
      if ok then pure 0 else failDataMode

/-- The common body of `sd_read(dev, buf, buf_size, block_no)` and `sd_write`. -/
def sdTransfer (fuel : ℕ) (isWrite : Bool) (bufSize blockNo : U32) : EmmcM ℤ := do
  let ret ← sdEnsureDataMode fuel
  if ret ≠ 0 then pure (-1)
  else do
    let ret ← sdDoDataCommand isWrite bufSize blockNo
    if ret < 0 then pure (-1) else pure bufSize.toInt

def sdRead (fuel : ℕ) : (bufSize blockNo : U32) → EmmcM ℤ := sdTransfer fuel false
def sdWrite (fuel : ℕ) : (bufSize blockNo : U32) → EmmcM ℤ := sdTransfer fuel true

/-- A call of `sd_read` or `sd_write`, with what is in the buffer. -/
structure SdCall where
  isWrite : Bool
  bufSize : U32
  blockNo : U32
  contents : ℕ → U32

/-- Calls on a device, as long as its structure is allocated. -/
def sdCalls (fuel : ℕ) : List SdCall → EmmcM Unit
  | [] => pure ()
  | call :: calls => do
    let allocated ← read EmmcWorld.allocated
    if allocated then do
      update fun w => { w with data := Function.update w.data .user call.contents }
      discard ((if call.isWrite then sdWrite else sdRead) fuel call.bufSize call.blockNo)
      sdCalls fuel calls
    else pure ()

end RpiBoot
