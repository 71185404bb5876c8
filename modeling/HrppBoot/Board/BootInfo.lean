import HrppBoot.Board.Loader

/-!
# The record handed to EBOOT

`osBoot_Mode_1245` looks for a reference text on USB and then on SD, loads the OS image the text
names, and leaves a `BSP_BOOT_INFO` record in the parameter area. The media, with every way they
can fail, are a parameter. What a run finds uninitialised is explicit: the local `FileSize` and
the content of RAM. The reference text is read into 128 bytes on the stack without a limit, so a
longer text, or a name that does not end there, has no defined result.

`settle` is the search alone: it decides from the media which image is loaded, if any.
`osBootMode1245_eq` shows that the routine is that search followed by one load.
The record also has key information and version texts: the routine does not write them, so they
are what RAM holds when it ends. LEDs, timers and messages are left out.
-/

open ByteMemory

namespace HrppBoot.Board

inductive BootDevice where
  /-- `WEIM_NOR_BOOT` -/
  | weimNor
  /-- `ONE_NAND_BOOT` -/
  | oneNand
  /-- `PATA_BOOT` -/
  | pata
  /-- `SATA_BOOT` -/
  | sata
  /-- `I2C_BOOT` -/
  | i2c
  /-- `SPI_NOR_BOOT` -/
  | spiNor
  /-- `SD_BOOT` -/
  | sd
  /-- `MMC_BOOT` -/
  | mmc
  /-- `NAND_BOOT` -/
  | nand
  /-- `UNKNOWN_BOOT` -/
  | unknown
  deriving DecidableEq, Repr

/-- `BSP_BOOT_INFO`, with its key information and version texts as 16 bytes each. -/
structure BspBootInfo where
  bootMode : Nat
  errorCode : Nat
  bootDevice : UInt32
  strage : Nat
  osImageSize : UInt32
  keyInfo : List UInt8
  ubootVer : List UInt8
  ebootVer : List UInt8
  boardVersion : UInt8
  deriving DecidableEq, Repr

/-- Address of the record: 72 bytes at the end of the parameter area. -/
def bootInfoAddress : Nat := 0x10001000 + 0x1000 - 72

/-- Address of its `bootDevice` field. -/
def bootDeviceAddress : Nat := bootInfoAddress + 8

/-- Address of its `KeyInfo` field; `UbootVer` and `EbootVer` follow. -/
def keyInfoAddress : Nat := bootInfoAddress + 20

/-- `ERROR_PP_BL_NO_USB_SD` -/
def errorNoUsbSd : Nat := 1

/-- `ERROR_PP_BL_FLASH_ERROR` -/
def errorFlashError : Nat := 9

/-- `ERROR_PP_BL_NK_SUM_ERROR` -/
def errorNkSumError : Nat := 10

namespace Medium

/-- `BOOT_STORAGE_USB`, `BOOT_STORAGE_SD` -/
def storage : Medium → Nat
  | usb => 1
  | mmc => 2

/-- `ERROR_PP_BL_USB_INVALID_FS`, `ERROR_PP_BL_SD_INVALID_FS` -/
def errorInvalidFs : Medium → Nat
  | usb => 2
  | mmc => 3

/-- `ERROR_PP_BL_USB_NO_REFTEXT`, `ERROR_PP_BL_SD_NO_REFTEXT` -/
def errorNoReftext : Medium → Nat
  | usb => 4
  | mmc => 5

/-- `ERROR_PP_BL_USB_NO_OSIMG`, `ERROR_PP_BL_SD_NO_OSIMG` -/
def errorNoOsimg : Medium → Nat
  | usb => 6
  | mmc => 7

end Medium

/-- The media with the USB host and the card detect line. -/
structure BootMedia (σ : Type) extends FatLayer σ where
  goUsbStart : σ → σ
  /-- `SDCardExistCheck`: a card is in the slot. -/
  sdCardExistCheck : σ → Bool × σ

/-- `READ_FILE_MAX_SIZE`: the limit passed for the reference text. -/
def readFileMaxSize : Nat := 256 * 1024 * 1024

/-- `"2016INST.TXT"` -/
def instTextFilename : List UInt8 :=
  [0x32, 0x30, 0x31, 0x36, 0x49, 0x4e, 0x53, 0x54, 0x2e, 0x54, 0x58, 0x54]

/-- `sizeof(FileName)` -/
def fileNameSize : Nat := 128

/-- Bytes written to the start of `FileName`; no result if they do not fit. -/
def writeFileName (fileName bytes : List UInt8) : Option (List UInt8) :=
  if bytes.length ≤ fileNameSize then some (bytes ++ fileName.drop bytes.length) else none

/-- The loop that ends the name at the first line break: up to the first NUL, carriage returns and
line feeds become NUL. -/
def terminateName : List UInt8 → List UInt8
  | [] => []
  | c :: rest =>
    if c = 0x00 then c :: rest
    else (if c = 0x0d ∨ c = 0x0a then 0x00 else c) :: terminateName rest

/-- The C string in a buffer; no result if it does not end there. -/
def cString (buffer : List UInt8) : Option (List UInt8) :=
  if 0x00 ∈ buffer then some (buffer.takeWhile (· ≠ 0x00)) else none

/-- `osBoot_fat_fsload` as it is used for the reference text: its return code and `FileName`
afterwards. No result if the text overruns `FileName`. -/
def osBootFatFsload {σ : Type} (layer : FatLayer σ) (medium : Medium) (filename : List UInt8)
    (fileName : List UInt8) (state : σ) : Option ((Int × List UInt8) × σ) :=
  let (present, state) := layer.getDev medium state
  if !present then some ((1, fileName), state)
  else
    let (ret, state) := registerPartition layer medium (· == -2) [1, 2, 3] 0 state
    if ret ≠ 0 then some ((2, fileName), state)
    else
      let (read, state) := layer.fileFatRead filename readFileMaxSize state
      match writeFileName fileName read.bytes with
      | none => none
      | some fileName => some ((if read.success then 0 else 3, fileName), state)

/-- The locals of `osBoot_Mode_1245`, with RAM and the image loads made so far. -/
structure BootLocals (σ : Type) where
  errCode : Nat
  /-- `bootMedia`: 0 while undecided. -/
  bootMedia : Nat
  fileSize : UInt32
  fileName : List UInt8
  ram : Memory
  /-- Calls of `osBoot_fat_fsload_bin`, latest first. -/
  loads : List (Medium × Exit)
  state : σ

/-- How a part of the routine ends. -/
inductive Outcome (α : Type) where
  | done (a : α)
  | fault
  /-- `FileName` is overrun. -/
  | undefined

/-- The error code for what the image load returned, once the reference text was found. -/
def imageErrCode (medium : Medium) (ret : Int) : Nat :=
  if ret = 3 then medium.errorNoOsimg
  else if ret = 1 then medium.errorNoOsimg
  else if ret = 2 then medium.errorInvalidFs
  else if ret = -3 then errorNkSumError
  else errorFlashError

section Routine

variable {σ : Type} (media : BootMedia σ)

/-- The branch taken when the reference text was read: cut the name at its line break and load
that image. -/
def loadNamed (medium : Medium) (l : BootLocals σ) : Outcome (BootLocals σ) :=
  let fileName := terminateName l.fileName
  match cString fileName with
  | none => .undefined
  | some name =>
    let (load, state) := osBootFatFsloadBin media.toFatLayer medium name l.state l.ram
    match load.exit with
    | .fault => .fault
    | .ret ret => .done
      { l with
        errCode := if ret ≠ 0 then imageErrCode medium ret else l.errCode
        bootMedia := medium.storage
        fileSize := load.filesize.getD l.fileSize
        fileName := fileName
        ram := load.state.mem
        loads := (medium, .ret ret) :: l.loads
        state := state }

/-- A USB medium without a usable text: SD is searched if a card is there, else the error is
fixed. -/
def usbGiveUp (errCode : Nat) (l : BootLocals σ) : BootLocals σ :=
  let (exist, state) := media.sdCardExistCheck l.state
  if exist then { l with errCode := 0, bootMedia := 0, state := state }
  else { l with errCode := errCode, bootMedia := Medium.usb.storage, state := state }

/-- The search on USB. -/
def searchUsb (l : BootLocals σ) : Outcome (BootLocals σ) :=
  match osBootFatFsload media.toFatLayer .usb instTextFilename l.fileName
      (media.goUsbStart l.state) with
  | none => .undefined
  | some ((ret, fileName), state) =>
    let l := { l with fileName := fileName, state := state }
    if ret = 0 then loadNamed media .usb l
    else if ret = 1 then .done l
    else if ret = 2 then .done (usbGiveUp media Medium.usb.errorInvalidFs l)
    else if ret = 3 then .done (usbGiveUp media Medium.usb.errorNoReftext l)
    else .done (usbGiveUp media l.errCode l)

/-- The search on SD. -/
def searchSd (l : BootLocals σ) : Outcome (BootLocals σ) :=
  let l := { l with bootMedia := Medium.mmc.storage }
  match osBootFatFsload media.toFatLayer .mmc instTextFilename l.fileName l.state with
  | none => .undefined
  | some ((ret, fileName), state) =>
    let l := { l with fileName := fileName, state := state }
    if ret = 0 then loadNamed media .mmc l
    else if ret = 1 then .done { l with errCode := errorNoUsbSd }
    else if ret = 2 then .done { l with errCode := Medium.mmc.errorInvalidFs }
    else if ret = 3 then .done { l with errCode := Medium.mmc.errorNoReftext }
    else .done l

/-- What the routine is called with, apart from the media. -/
structure BootCall where
  mode : Nat
  /-- `get_boot_device()` -/
  bootDevice : BootDevice
  boardVersion : UInt8

/-- What a run finds in storage it has not initialised. -/
structure Leftover where
  /-- The stack slot of `FileSize`. -/
  fileSize : UInt32
  ram : Memory

/-- The record left in the parameter area. `bootDevice` is written for two devices only, key
information and version texts are not written at all. -/
def bootInfo (call : BootCall) (errCode bootMedia : Nat) (fileSize : UInt32) (ram : Memory) :
    BspBootInfo where
  bootMode := if call.mode = 1 then 1 else if call.mode = 2 then 2 else if call.mode = 4 then 4 else 5
  errorCode := errCode
  bootDevice := match call.bootDevice with
    | .weimNor => 5
    | .sd => 0
    | _ => ram.word32 bootDeviceAddress
  strage := bootMedia
  osImageSize := fileSize
  keyInfo := ram.load keyInfoAddress 16
  ubootVer := ram.load (keyInfoAddress + 16) 16
  ebootVer := ram.load (keyInfoAddress + 32) 16
  boardVersion := call.boardVersion

/-- The locals at the start. -/
def BootLocals.initial (state : σ) (leftover : Leftover) : BootLocals σ where
  errCode := 0
  bootMedia := 0
  fileSize := leftover.fileSize
  fileName := List.replicate fileNameSize 0
  ram := leftover.ram
  loads := []
  state := state

/-- The end of the routine: the record is filled in from the locals. -/
def handOver (call : BootCall) : Outcome (BootLocals σ) → Outcome (BspBootInfo × List (Medium × Exit))
  | .undefined => .undefined
  | .fault => .fault
  | .done l => .done (bootInfo call l.errCode l.bootMedia l.fileSize l.ram, l.loads)

/-- What follows the search on USB: the search on SD if nothing has been fixed, then the record. -/
def afterUsb (call : BootCall) : Outcome (BootLocals σ) → Outcome (BspBootInfo × List (Medium × Exit))
  | .undefined => .undefined
  | .fault => .fault
  | .done l =>
    if l.errCode = 0 ∧ l.bootMedia = 0 then handOver call (searchSd media l)
    else handOver call (.done l)

/-- `osBoot_Mode_1245`: the record, and the image loads that led to it. -/
def osBootMode1245 (call : BootCall) (state : σ) (leftover : Leftover) :
    Outcome (BspBootInfo × List (Medium × Exit)) :=
  afterUsb media call (searchUsb media (BootLocals.initial state leftover))

/-! ## The search alone -/

/-- What the search of the media ends with. -/
inductive Settled (σ : Type) where
  /-- The reference text was read: the image it names is loaded next. -/
  | image (medium : Medium) (fileName : List UInt8) (state : σ)
  | error (errCode bootMedia : Nat)
  /-- `FileName` was overrun. -/
  | undefined

/-- The search on SD. -/
def settleSd (fileName : List UInt8) (state : σ) : Settled σ :=
  match osBootFatFsload media.toFatLayer .mmc instTextFilename fileName state with
  | none => .undefined
  | some ((ret, fileName), state) =>
    if ret = 0 then .image .mmc fileName state
    else if ret = 1 then .error errorNoUsbSd Medium.mmc.storage
    else if ret = 2 then .error Medium.mmc.errorInvalidFs Medium.mmc.storage
    else .error Medium.mmc.errorNoReftext Medium.mmc.storage

/-- USB first; SD if there is no USB medium, or if USB has no usable text and a card is there. -/
def settle (state : σ) : Settled σ :=
  match osBootFatFsload media.toFatLayer .usb instTextFilename (List.replicate fileNameSize 0)
      (media.goUsbStart state) with
  | none => .undefined
  | some ((ret, fileName), state) =>
    if ret = 0 then .image .usb fileName state
    else if ret = 1 then settleSd media fileName state
    else
      let (exist, state) := media.sdCardExistCheck state
      if exist then settleSd media fileName state
      else if ret = 2 then .error Medium.usb.errorInvalidFs Medium.usb.storage
      else .error Medium.usb.errorNoReftext Medium.usb.storage

theorem osBootFatFsload_ret {layer : FatLayer σ} {medium : Medium}
    {filename fileName name : List UInt8} {state after : σ} {ret : Int}
    (returned : osBootFatFsload layer medium filename fileName state = some ((ret, name), after)) :
    ret = 0 ∨ ret = 1 ∨ ret = 2 ∨ ret = 3 := by
  simp only [osBootFatFsload] at returned
  split at returned
  · cases returned
    simp
  · split at returned
    · cases returned
      simp
    · split at returned
      · cases returned
      · cases returned
        split <;> simp

/-- The record that follows from what the search ended with. -/
def conclude (call : BootCall) (leftover : Leftover) :
    Settled σ → Outcome (BspBootInfo × List (Medium × Exit))
  | .undefined => .undefined
  | .error errCode bootMedia =>
    .done (bootInfo call errCode bootMedia leftover.fileSize leftover.ram, [])
  | .image medium fileName state =>
    match cString (terminateName fileName) with
    | none => .undefined
    | some name =>
      let load := (osBootFatFsloadBin media.toFatLayer medium name state leftover.ram).1
      match load.exit with
      | .fault => .fault
      | .ret ret => .done (bootInfo call (if ret ≠ 0 then imageErrCode medium ret else 0)
          medium.storage (load.filesize.getD leftover.fileSize) load.state.mem, [(medium, .ret ret)])

/-- The locals are as they were at the start, apart from `FileName` and the media. -/
structure Fresh (leftover : Leftover) (l : BootLocals σ) : Prop where
  errCode : l.errCode = 0
  /-- `FileSize` is what the stack held. -/
  fileSize : l.fileSize = leftover.fileSize
  ram : l.ram = leftover.ram
  loads : l.loads = []

variable {l : BootLocals σ} {leftover : Leftover}

theorem handOver_loadNamed (call : BootCall) (medium : Medium) (fresh : Fresh leftover l) :
    handOver call (loadNamed media medium l) =
      conclude media call leftover (.image medium l.fileName l.state) := by
  simp only [loadNamed, conclude]
  split
  · rfl
  · rw [fresh.ram, fresh.errCode, fresh.fileSize, fresh.loads]
    split <;> rfl

theorem loadNamed_bootMedia {medium : Medium} {after : BootLocals σ}
    (loaded : loadNamed media medium l = .done after) : after.bootMedia = medium.storage := by
  simp only [loadNamed] at loaded
  split at loaded
  · cases loaded
  · split at loaded
    · cases loaded
    · cases loaded
      rfl

theorem handOver_searchSd (call : BootCall) (fresh : Fresh leftover l) :
    handOver call (searchSd media l) =
      conclude media call leftover (settleSd media l.fileName l.state) := by
  simp only [searchSd, settleSd]
  split
  · rfl
  · rename_i ret fileName state text
    split
    · exact handOver_loadNamed media call .mmc
        ⟨fresh.errCode, fresh.fileSize, fresh.ram, fresh.loads⟩
    · have codes := osBootFatFsload_ret text
      rcases codes with rfl | rfl | rfl | rfl <;>
        simp_all [handOver, conclude, fresh.fileSize, fresh.ram, fresh.loads]

theorem afterUsb_loadNamed (call : BootCall) (l : BootLocals σ) :
    afterUsb media call (loadNamed media .usb l) = handOver call (loadNamed media .usb l) := by
  cases loaded : loadNamed media .usb l with
  | undefined => rfl
  | fault => rfl
  | done after =>
    have fixed : after.bootMedia = 1 := loadNamed_bootMedia media loaded
    simp [afterUsb, fixed]

theorem afterUsb_usbGiveUp (call : BootCall) (fresh : Fresh leftover l) (errCode : Nat) :
    afterUsb media call (.done (usbGiveUp media errCode l)) =
      conclude media call leftover
        (if (media.sdCardExistCheck l.state).1 then
          settleSd media l.fileName (media.sdCardExistCheck l.state).2
        else .error errCode Medium.usb.storage) := by
  cases exist : (media.sdCardExistCheck l.state).1 with
  | true =>
    simp only [afterUsb, usbGiveUp, exist, ↓reduceIte, and_self]
    exact handOver_searchSd media call ⟨rfl, fresh.fileSize, fresh.ram, fresh.loads⟩
  | false =>
    simp [afterUsb, usbGiveUp, exist, Medium.storage, handOver, conclude, fresh.fileSize, fresh.ram,
      fresh.loads]

theorem osBootMode1245_eq (call : BootCall) (state : σ) (leftover : Leftover) :
    osBootMode1245 media call state leftover =
      conclude media call leftover (settle media state) := by
  rw [osBootMode1245, searchUsb, settle]
  cases text : osBootFatFsload media.toFatLayer .usb instTextFilename
      (List.replicate fileNameSize 0) (media.goUsbStart state) with
  | none => simp only [BootLocals.initial, text, afterUsb, conclude]
  | some found =>
    obtain ⟨⟨ret, fileName⟩, after⟩ := found
    have fresh : Fresh leftover
        { BootLocals.initial state leftover with fileName := fileName, state := after } :=
      ⟨rfl, rfl, rfl, rfl⟩
    simp only [BootLocals.initial, text] at fresh ⊢
    rcases osBootFatFsload_ret text with rfl | rfl | rfl | rfl
    · exact (afterUsb_loadNamed media call _).trans (handOver_loadNamed media call .usb fresh)
    · exact handOver_searchSd media call fresh
    · exact afterUsb_usbGiveUp media call fresh _
    · exact afterUsb_usbGiveUp media call fresh _

/-- The image the search settles on: medium, file name and state of the media. -/
def chosenImage (state : σ) : Option (Medium × List UInt8 × σ) :=
  match settle media state with
  | .image medium fileName state =>
    (cString (terminateName fileName)).map fun name => (medium, name, state)
  | _ => none

/-- The load of a chosen image. -/
def chosenLoad (choice : Medium × List UInt8 × σ) (ram : Memory) : ImageLoad :=
  (osBootFatFsloadBin media.toFatLayer choice.1 choice.2.1 choice.2.2 ram).1

end Routine

/-! ## Agreement of the record with the loads -/

/-- The error code is zero exactly for an image loaded from the medium the record names, and SD is
named only if no image load was tried on USB. -/
structure Agrees (info : BspBootInfo) (loads : List (Medium × Exit)) : Prop where
  errorCode : info.errorCode = 0 ↔
    ∃ medium, (medium, Exit.ret 0) ∈ loads ∧ info.strage = medium.storage
  preferred : info.strage = Medium.mmc.storage → ∀ exit, (Medium.usb, exit) ∉ loads

theorem imageErrCode_ne_zero (medium : Medium) (ret : Int) : imageErrCode medium ret ≠ 0 := by
  simp only [imageErrCode]
  cases medium <;> (repeat' split) <;> decide

section Record

variable {σ : Type} {media : BootMedia σ}

variable {state : σ}

theorem settleSd_error {fileName : List UInt8} {errCode bootMedia : Nat}
    (settled : settleSd media fileName state = .error errCode bootMedia) : errCode ≠ 0 := by
  simp only [settleSd] at settled
  repeat' split at settled
  all_goals cases settled
  all_goals decide

theorem settle_error {errCode bootMedia : Nat}
    (settled : settle media state = .error errCode bootMedia) : errCode ≠ 0 := by
  simp only [settle] at settled
  split at settled
  · cases settled
  · split at settled
    · cases settled
    · split at settled
      · exact settleSd_error settled
      · split at settled
        · exact settleSd_error settled
        · split at settled <;> cases settled <;> decide

theorem osBootMode1245_agrees {call : BootCall} {leftover : Leftover} {info : BspBootInfo}
    {loads : List (Medium × Exit)}
    (handed : osBootMode1245 media call state leftover = .done (info, loads)) :
    Agrees info loads := by
  rw [osBootMode1245_eq] at handed
  cases settled : settle media state with
  | undefined =>
    rw [settled] at handed
    cases handed
  | error errCode bootMedia =>
    rw [settled] at handed
    cases handed
    exact ⟨by simp [bootInfo, settle_error settled], by simp⟩
  | image medium fileName after =>
    simp only [settled, conclude] at handed
    split at handed
    · cases handed
    · split at handed
      · cases handed
      · rename_i ret _
        cases handed
        refine ⟨?_, by cases medium <;> simp [bootInfo, Medium.storage]⟩
        by_cases zero : ret = 0
        · simp [bootInfo, zero]
        · simp [bootInfo, zero, imageErrCode_ne_zero, Ne.symm zero]

end Record

/-! ## The size of the image -/

theorem loadImage_filesize (m : Memory) :
    ((loadImage m).exit ≠ .ret 0 ∧ (loadImage m).filesize = none) ∨
      ((loadImage m).exit = .ret 0 ∧
        (loadImage m).filesize = some (nkHdrAt m (nkImageStoreStart + 7)).dwSize ∧
        m.load nkImageStoreStart 7 = nkSignature ∧
        (nkHdrAt m (nkImageStoreStart + 7)).dwSize.toNat ≤ nkImageNorSize) := by
  rw [loadImage]
  by_cases signature : m.load nkImageStoreStart 7 = nkSignature
  · by_cases size : nkImageNorSize < (nkHdrAt m (nkImageStoreStart + 7)).dwSize.toNat
    · simp [signature, size]
    · simp only [signature, ne_eq, not_true_eq_false, ↓reduceIte, size, true_and]
      rcases recordLoop (LoadState.atRecords m) with ⟨exit, s⟩
      by_cases zero : exit = .ret 0
      · subst zero
        exact .inr ⟨rfl, rfl, Nat.not_lt.mp size⟩
      · simp [zero]
  · simp [signature]

variable {σ : Type}

theorem osBootFatFsloadBin_cases (layer : FatLayer σ) (medium : Medium) (filename : List UInt8)
    (state : σ) :
    (∀ ram, (osBootFatFsloadBin layer medium filename state ram).1.exit ≠ .ret 0 ∧
      (osBootFatFsloadBin layer medium filename state ram).1.filesize = none) ∨
    ∃ bytes, ∀ ram, (osBootFatFsloadBin layer medium filename state ram).1 =
      loadImage (ram.store nkImageStoreStart bytes) := by
  simp only [osBootFatFsloadBin]
  split
  · exact .inl fun ram => ⟨by simp, rfl⟩
  · split
    · exact .inl fun ram => ⟨by simp, rfl⟩
    · split
      · exact .inl fun ram => ⟨by simp, rfl⟩
      · split
        · exact .inl fun ram => ⟨by simp, rfl⟩
        · split
          · exact .inl fun ram => ⟨by simp, rfl⟩
          · exact .inr ⟨_, fun ram => rfl⟩

theorem osBootFatFsloadBin_filesize_none {layer : FatLayer σ} {medium : Medium}
    {filename : List UInt8} {state : σ} {ram : Memory}
    (failed : (osBootFatFsloadBin layer medium filename state ram).1.exit ≠ .ret 0) :
    (osBootFatFsloadBin layer medium filename state ram).1.filesize = none := by
  rcases osBootFatFsloadBin_cases layer medium filename state with refused | ⟨bytes, parsed⟩
  · exact (refused ram).2
  · rw [parsed ram] at failed ⊢
    rcases loadImage_filesize (ram.store nkImageStoreStart bytes) with ⟨-, none⟩ | ⟨zero, -⟩
    · exact none
    · exact absurd zero failed

theorem header_staged {bytes : List UInt8}
    (accepted : (loadImage (Memory.store (fun _ => 0xff) nkImageStoreStart bytes)).exit = .ret 0) :
    15 ≤ bytes.length := by
  rcases loadImage_filesize (Memory.store (fun _ => 0xff) nkImageStoreStart bytes) with
    ⟨failed, -⟩ | ⟨-, -, signature, size⟩
  · exact absurd accepted failed
  · by_contra short
    by_cases header : 7 ≤ bytes.length
    · have last : Memory.store (fun _ => 0xff) nkImageStoreStart bytes (nkImageStoreStart + 14) =
          0xff := Memory.store_outside _ _ _ _ (by omega)
      simp only [nkHdrAt, Memory.word32, le32_toNat, Nat.add_assoc, Nat.reduceAdd, last,
        nkImageNorSize] at size
      have top : (0xff : UInt8).toNat = 255 := rfl
      omega
    · have last : Memory.store (fun _ => 0xff) nkImageStoreStart bytes (nkImageStoreStart + 6) =
          0xff := Memory.store_outside _ _ _ _ (by omega)
      have sixth := congrArg (fun l => l[6]?) signature
      simp [Memory.load, nkSignature, last] at sixth

theorem osBootFatFsloadBin_filesize_stable {layer : FatLayer σ} {medium : Medium}
    {filename : List UInt8} {state : σ}
    (accepted : ∀ ram, (osBootFatFsloadBin layer medium filename state ram).1.exit = .ret 0) :
    ∃ size, ∀ ram, (osBootFatFsloadBin layer medium filename state ram).1.filesize = some size := by
  rcases osBootFatFsloadBin_cases layer medium filename state with refused | ⟨bytes, parsed⟩
  · exact absurd (accepted Memory.blank) (refused Memory.blank).1
  · simp only [parsed] at accepted ⊢
    have long := header_staged (accepted _)
    refine ⟨(nkHdrAt (Memory.blank.store nkImageStoreStart bytes) (nkImageStoreStart + 7)).dwSize,
      fun ram => ?_⟩
    rcases loadImage_filesize (ram.store nkImageStoreStart bytes) with ⟨failed, -⟩ | ⟨-, size, -⟩
    · exact absurd (accepted ram) failed
    · rw [size, nkHdrAt, nkHdrAt]
      refine congrArg some (Memory.word32_congr fun a inside => ?_)
      rw [Memory.store_inside _ _ _ _ (by omega), Memory.store_inside _ _ _ _ (by omega)]

/-! ## Dependence on leftovers -/

section Record

variable {σ : Type} (media : BootMedia σ)

/-- What is asked of the record: whatever the run found uninitialised, the same record is handed
over, and it agrees with the loads. -/
def Dependable (call : BootCall) (state : σ) : Prop :=
  ∃ info, ∀ leftover, ∃ loads,
    osBootMode1245 media call state leftover = .done (info, loads) ∧ Agrees info loads

/-- The word of the parameter area that the record keeps as boot device is written, by the routine
or by the load, or is not needed. -/
def BootDeviceFixed (call : BootCall) (choice : Medium × List UInt8 × σ) : Prop :=
  call.bootDevice = .weimNor ∨ call.bootDevice = .sd ∨
    ∃ word, ∀ ram, (chosenLoad media choice ram).state.mem.word32 bootDeviceAddress = word

/-- The load writes each of the 48 bytes that the record keeps as key information and version
texts, and the same bytes whatever RAM held. -/
def TextsFixed (choice : Medium × List UInt8 × σ) : Prop :=
  ∀ i < 48, ∃ byte, ∀ ram, (chosenLoad media choice ram).state.mem (keyInfoAddress + i) = byte

variable {call : BootCall} {state : σ}

theorem osBootMode1245_chosen {choice : Medium × List UInt8 × σ}
    (chosen : chosenImage media state = some choice) (leftover : Leftover) :
    osBootMode1245 media call state leftover =
      match (chosenLoad media choice leftover.ram).exit with
      | .fault => .fault
      | .ret ret => .done (bootInfo call (if ret ≠ 0 then imageErrCode choice.1 ret else 0)
          choice.1.storage
          ((chosenLoad media choice leftover.ram).filesize.getD leftover.fileSize)
          (chosenLoad media choice leftover.ram).state.mem, [(choice.1, .ret ret)]) := by
  simp only [chosenImage] at chosen
  split at chosen
  · rename_i medium fileName after settled
    obtain ⟨name, named, rfl⟩ := Option.map_eq_some_iff.mp chosen
    rw [osBootMode1245_eq, settled, conclude, named]
    rfl
  · cases chosen

theorem bootInfo_bootDevice (call : BootCall) :
    (∃ device, (call.bootDevice = .weimNor ∨ call.bootDevice = .sd) ∧
      ∀ errCode bootMedia fileSize ram,
        (bootInfo call errCode bootMedia fileSize ram).bootDevice = device) ∨
    ∀ errCode bootMedia fileSize ram,
      (bootInfo call errCode bootMedia fileSize ram).bootDevice = ram.word32 bootDeviceAddress := by
  obtain ⟨mode, device, version⟩ := call
  cases device
  case weimNor => exact .inl ⟨5, .inl rfl, fun _ _ _ _ => rfl⟩
  case sd => exact .inl ⟨0, .inr rfl, fun _ _ _ _ => rfl⟩
  all_goals exact .inr fun _ _ _ _ => rfl

theorem chosen_of_dependable (dependable : Dependable media call state) :
    ∃ choice, chosenImage media state = some choice := by
  obtain ⟨info, all⟩ := dependable
  obtain ⟨_, zero, -⟩ := all ⟨0, Memory.blank⟩
  obtain ⟨_, one, -⟩ := all ⟨1, Memory.blank⟩
  rw [osBootMode1245_eq] at zero one
  cases settled : settle media state with
  | undefined =>
    rw [settled] at zero
    cases zero
  | error errCode bootMedia =>
    simp only [settled, conclude, Outcome.done.injEq, Prod.mk.injEq] at zero one
    have sizes := congrArg BspBootInfo.osImageSize (zero.1.trans one.1.symm)
    exact absurd sizes (by simp [bootInfo])
  | image medium fileName after =>
    cases named : cString (terminateName fileName) with
    | none =>
      rw [settled, conclude, named] at zero
      cases zero
    | some name => exact ⟨(medium, name, after), by simp [chosenImage, settled, named]⟩

theorem accepted_of_dependable {choice : Medium × List UInt8 × σ}
    (dependable : Dependable media call state) (chosen : chosenImage media state = some choice)
    (ram : Memory) : (chosenLoad media choice ram).exit = .ret 0 := by
  obtain ⟨info, all⟩ := dependable
  obtain ⟨_, zero, -⟩ := all ⟨0, ram⟩
  obtain ⟨_, one, -⟩ := all ⟨1, ram⟩
  by_contra failed
  have none : (chosenLoad media choice ram).filesize = none :=
    osBootFatFsloadBin_filesize_none failed
  rw [osBootMode1245_chosen media chosen] at zero one
  cases exit : (chosenLoad media choice ram).exit with
  | fault =>
    simp only [exit] at zero
    cases zero
  | ret ret =>
    simp only [exit, none, Option.getD_none, Outcome.done.injEq, Prod.mk.injEq] at zero one
    have sizes := congrArg BspBootInfo.osImageSize (zero.1.trans one.1.symm)
    exact absurd sizes (by simp [bootInfo])

/-- The three texts of the record are one range of RAM. -/
theorem bootInfo_texts (call : BootCall) (errCode bootMedia : Nat) (fileSize : UInt32)
    (ram : Memory) :
    (bootInfo call errCode bootMedia fileSize ram).keyInfo ++
        (bootInfo call errCode bootMedia fileSize ram).ubootVer ++
        (bootInfo call errCode bootMedia fileSize ram).ebootVer = ram.load keyInfoAddress 48 := by
  simp only [bootInfo, Memory.load_append]

theorem fixed_of_dependable {choice : Medium × List UInt8 × σ}
    (dependable : Dependable media call state) (chosen : chosenImage media state = some choice) :
    BootDeviceFixed media call choice ∧ TextsFixed media choice := by
  have accepted := accepted_of_dependable media dependable chosen
  obtain ⟨info, all⟩ := dependable
  have handed : ∀ ram, ∃ fileSize, bootInfo call 0 choice.1.storage fileSize
      (chosenLoad media choice ram).state.mem = info := by
    intro ram
    obtain ⟨_, handed, -⟩ := all ⟨0, ram⟩
    rw [osBootMode1245_chosen media chosen, accepted ram] at handed
    simp only [Outcome.done.injEq, Prod.mk.injEq] at handed
    exact ⟨_, handed.1⟩
  constructor
  · rcases bootInfo_bootDevice call with ⟨_, written | written, -⟩ | kept
    · exact .inl written
    · exact .inr (.inl written)
    · refine .inr (.inr ⟨info.bootDevice, fun ram => ?_⟩)
      obtain ⟨fileSize, same⟩ := handed ram
      rw [← same, kept]
  · intro i inside
    refine ⟨(info.keyInfo ++ info.ubootVer ++ info.ebootVer).getD i 0, fun ram => ?_⟩
    obtain ⟨fileSize, same⟩ := handed ram
    rw [← same, bootInfo_texts]
    simp [Memory.load, List.getD, inside]

/-- The record agrees with the loads and does not depend on what the run found uninitialised,
exactly when the search settles on an image that loads whatever RAM holds, the boot device is
written, and the load itself overwrites the key information and the version texts. -/
theorem osBootMode1245_dependable_iff (call : BootCall) (state : σ) :
    Dependable media call state ↔ ∃ choice, chosenImage media state = some choice ∧
      (∀ ram, (chosenLoad media choice ram).exit = .ret 0) ∧
      BootDeviceFixed media call choice ∧ TextsFixed media choice := by
  constructor
  · intro dependable
    obtain ⟨choice, chosen⟩ := chosen_of_dependable media dependable
    exact ⟨choice, chosen, accepted_of_dependable media dependable chosen,
      fixed_of_dependable media dependable chosen⟩
  · rintro ⟨choice, chosen, accepted, fixed, texts⟩
    obtain ⟨size, stored⟩ : ∃ size, ∀ ram, (chosenLoad media choice ram).filesize = some size :=
      osBootFatFsloadBin_filesize_stable accepted
    refine ⟨bootInfo call 0 choice.1.storage size (chosenLoad media choice Memory.blank).state.mem,
      fun leftover => ⟨[(choice.1, .ret 0)], ?_⟩⟩
    have device : (bootInfo call 0 choice.1.storage size
        (chosenLoad media choice leftover.ram).state.mem).bootDevice =
        (bootInfo call 0 choice.1.storage size
          (chosenLoad media choice Memory.blank).state.mem).bootDevice := by
      rcases fixed with written | written | ⟨word, same⟩
      · simp only [bootInfo, written]
      · simp only [bootInfo, written]
      · simp only [bootInfo, same]
    have kept : ∀ a, keyInfoAddress ≤ a → a < keyInfoAddress + 48 →
        (chosenLoad media choice leftover.ram).state.mem a =
          (chosenLoad media choice Memory.blank).state.mem a := by
      intro a low high
      obtain ⟨byte, same⟩ := texts (a - keyInfoAddress) (by omega)
      rw [Nat.add_sub_cancel' low] at same
      rw [same, same]
    have text : ∀ offset ≤ 32,
        (chosenLoad media choice leftover.ram).state.mem.load (keyInfoAddress + offset) 16 =
          (chosenLoad media choice Memory.blank).state.mem.load (keyInfoAddress + offset) 16 :=
      fun offset inside => Memory.load_congr fun a range => kept a (by omega) (by omega)
    have first := text 0 (by omega)
    have second := text 16 (by omega)
    have third := text 32 (by omega)
    have handed : osBootMode1245 media call state leftover = .done
        (bootInfo call 0 choice.1.storage size (chosenLoad media choice Memory.blank).state.mem,
          [(choice.1, .ret 0)]) := by
      rw [osBootMode1245_chosen media chosen, accepted leftover.ram, stored leftover.ram]
      simp only [ne_eq, not_true_eq_false, ↓reduceIte, Option.getD_some]
      simp only [bootInfo] at device ⊢
      rw [Nat.add_zero] at first
      rw [device, first, second, third]
    exact ⟨handed, osBootMode1245_agrees handed⟩

end Record

/-- A pendant with neither a USB medium nor a card. -/
def noMedia : BootMedia Unit where
  getDev _ state := (false, state)
  fatRegisterDevice _ _ state := (-1, state)
  fatSize _ state := ((-1, 0), state)
  fileFatRead _ _ state := (⟨false, []⟩, state)
  bounded _ _ _ := Nat.zero_le _
  goUsbStart state := state
  sdCardExistCheck state := (false, state)

/-- Without media the size in the record is what the stack happened to hold. -/
theorem osBootMode1245_noMedia_undependable : ¬Dependable noMedia ⟨1, .weimNor, 3⟩ () := by
  intro dependable
  obtain ⟨choice, chosen⟩ := chosen_of_dependable noMedia dependable
  have none : chosenImage noMedia () = none := rfl
  rw [none] at chosen
  cases chosen

end HrppBoot.Board
