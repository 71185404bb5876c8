import HrppBoot.Net.NfsInside
import HrppBoot.Lib.CText
import Mathlib.Data.List.TakeWhile

/-!
# The path of an NFS boot file

`nfs_start` copies the boot file name to `nfs_path_buff`, and `nfs_readlink_reply` a link.
`basename` and `dirname` then look for the last slash from the end and split the text there, in
place. They stay inside the buffer exactly where there is a slash, and where a link fits.
-/

namespace HrppBoot.Net

open ByteMemory Traced

/-! ## The functions -/

/-- Where `nfs_path_buff` stands. -/
structure PathBuff where
  start : Nat
  front : 2 ≤ start

def PathBuff.stop (buff : PathBuff) : Nat := buff.start + nfsPathSize

/-- The loop of `basename` while a number of bytes of the path are left. -/
def basenameLoop (m : Memory) (path : Nat) : Nat → Traced Nat
  | 0 => pure (path - 1)
  | n + 1 => do
    let c ← readByte m (path + n)
    if c = 0x2f then pure (path + n + 1) else basenameLoop m path n

def basename (buff : PathBuff) (m : Memory) (path : Nat) : Traced Nat := do
  let n ← strlen m path buff.stop
  basenameLoop m path n

/-- `dirname`: the memory behind it. It returns the path that it was given. -/
def dirname (buff : PathBuff) (m : Memory) (path : Nat) : Traced Memory := do
  let fname ← basename buff m path
  writeBytes m (fname - 1) [0]

structure NfsNames where
  memory : Memory
  nfsPath : Nat
  nfsFilename : Nat

/-- `nfs_filename = basename(nfs_path)` and `nfs_path = dirname(nfs_path)`. -/
def splitNames (buff : PathBuff) (m : Memory) (path : Nat) : Traced NfsNames := do
  let filename ← basename buff m path
  let m ← dirname buff m path
  pure ⟨m, path, filename⟩

/-- The text in `net_boot_file_name`. -/
structure BootFileName where
  text : List UInt8
  ended : 0 ∉ text
  short : text.length < 128

/-- A digit of `%X`. -/
def upperDigit (d : Nat) : UInt8 := if d < 10 then UInt8.ofNat (48 + d) else UInt8.ofNat (55 + d)

/-- `%02X` of a byte of an address. -/
def upperHex (net_ip i : Nat) : List UInt8 :=
  [upperDigit (net_ip / 256 ^ i % 256 / 16), upperDigit (net_ip / 256 ^ i % 256 % 16)]

/-- `default_filename`: `/nfsroot/%02X%02X%02X%02X.img`. -/
def defaultFilename (net_ip : Nat) : List UInt8 :=
  [47, 110, 102, 115, 114, 111, 111, 116, 47] ++ (upperHex net_ip 0 ++ upperHex net_ip 1 ++
    upperHex net_ip 2 ++ upperHex net_ip 3) ++ [46, 105, 109, 103]

/-- What `nfs_start` copies to `nfs_path`: the default without a name, or the name behind the colon
of a server prefix, or the whole name. -/
def startPath (net_ip : Nat) (name : BootFileName) : List UInt8 :=
  if name.text = [] then defaultFilename net_ip
  else if 0x3a ∈ name.text then (name.text.dropWhile (· ≠ 0x3a)).tail
  else name.text

/-- `nfs_start`, up to the split. -/
def startNames (buff : PathBuff) (m : Memory) (net_ip : Nat) (name : BootFileName) :
    Traced NfsNames := do
  let m ← writeBytes m buff.start (startPath net_ip name ++ [0])
  splitNames buff m buff.start

/-- What `nfs_readlink_reply` writes. The length is an `int`, and below zero only where `memcpy` has
left the buffer. -/
def readlinkPath (buff : PathBuff) (reply : Memory) (s : NfsNames) : Traced Memory :=
  let rlen := replyData reply 1
  if reply 32 ≠ 0x2f then do
    let m ← strcat s.memory s.nfsPath buff.stop [0x2f]
    let pathlen ← strlen m s.nfsPath buff.stop
    let m ← writeBytes m (s.nfsPath + pathlen) (reply.load 32 rlen)
    writeBytes m (s.nfsPath + pathlen + rlen) [0]
  else do
    let m ← writeBytes s.memory s.nfsPath (reply.load 32 rlen)
    writeBytes m (s.nfsPath + rlen) [0]

def linkNames (buff : PathBuff) (reply : Memory) (s : NfsNames) : Traced NfsNames := do
  let m ← readlinkPath buff reply s
  splitNames buff m s.nfsPath

def linksNames (buff : PathBuff) : List Memory → NfsNames → Traced NfsNames
  | [], s => pure s
  | reply :: rest, s => do
    let s ← linkNames buff reply s
    linksNames buff rest s

/-- `nfs_start` and any number of links. -/
def runNames (buff : PathBuff) (m : Memory) (net_ip : Nat) (name : BootFileName)
    (links : List Memory) : Traced NfsNames := do
  let s ← startNames buff m net_ip name
  linksNames buff links s

/-! ## What they are for -/

def fileOf (text : List UInt8) : List UInt8 := (text.reverse.takeWhile (· ≠ 0x2f)).reverse

def dirOf (text : List UInt8) : List UInt8 := text.take (text.length - (fileOf text).length - 1)

def linkedText (text : List UInt8) (reply : Memory) : List UInt8 := linkedPath reply (dirOf text)

/-- The two names are the parts of a text, and lie in the buffer with their ends. -/
structure NamesOf (buff : PathBuff) (text : List UInt8) (s : NfsNames) : Prop where
  /-- `nfs_path` is where the buffer begins. -/
  pathStart : s.nfsPath = buff.start
  pathStop : s.nfsPath + (dirOf text).length < buff.stop
  path : s.memory.Holds s.nfsPath (dirOf text ++ [0])
  /-- `nfs_filename` begins in the buffer. -/
  filenameStart : buff.start ≤ s.nfsFilename
  filenameStop : s.nfsFilename + (fileOf text).length < buff.stop
  filename : s.memory.Holds s.nfsFilename (fileOf text ++ [0])

/-- The links of a run fit, each behind the text of those before it. -/
def LinksFit : List UInt8 → List Memory → Prop
  | _, [] => True
  | text, reply :: rest =>
    Nfs.LinkFits reply (dirOf text) ∧ LinksFit (linkedText text reply) rest

/-! ## Texts -/

variable {buff : PathBuff} {m : Memory} {text init : List UInt8} {c : UInt8}

theorem fileOf_slash : fileOf (init ++ [0x2f]) = [] := by
  rw [fileOf, List.reverse_append, List.reverse_singleton, List.singleton_append,
    List.takeWhile_cons_of_neg (by decide), List.reverse_nil]

theorem fileOf_other (other : c ≠ 0x2f) : fileOf (init ++ [c]) = fileOf init ++ [c] := by
  rw [fileOf, List.reverse_append, List.reverse_singleton, List.singleton_append,
    List.takeWhile_cons_of_pos (by simpa using other), List.reverse_cons, fileOf]

theorem dirOf_fileOf (slash : 0x2f ∈ text) : text = dirOf text ++ 0x2f :: fileOf text := by
  induction text using List.reverseRecOn with
  | nil => cases slash
  | append_singleton init c ih =>
    by_cases last : c = 0x2f
    · subst last
      rw [dirOf, fileOf_slash]
      simp
    · have before : 0x2f ∈ init := by
        rcases List.mem_append.mp slash with before | here
        · exact before
        · exact absurd (List.mem_singleton.mp here).symm last
      have whole := ih before
      have size := congrArg List.length whole
      rw [List.length_append, List.length_cons] at size
      have same : dirOf (init ++ [c]) = dirOf init := by
        rw [dirOf, fileOf_other last, List.length_append, List.length_append,
          List.take_append_of_le_length (by omega), dirOf]
        congr 1
        omega
      rw [same, fileOf_other last]
      conv_lhs => rw [whole]
      simp

theorem ended_dirOf (ended : 0 ∉ text) : 0 ∉ dirOf text :=
  fun member => ended (List.mem_of_mem_take member)

theorem ended_zeroEnded (bytes : List UInt8) : 0 ∉ zeroEnded bytes := by
  intro member
  have nonzero := List.mem_takeWhile_imp member
  simp at nonzero

theorem holds_zeroEnded {a : Nat} {front bytes : List UInt8}
    (stands : m.Holds a (front ++ (bytes ++ [0]))) :
    m.Holds a (front ++ zeroEnded bytes ++ [0]) := by
  induction bytes generalizing front with
  | nil => simpa [zeroEnded] using stands
  | cons c rest ih =>
    by_cases zero : c = 0
    · subst zero
      have split : front ++ (0 :: rest ++ [0]) = (front ++ [0]) ++ (rest ++ [0]) := by simp
      rw [split] at stands
      have head := ((Memory.holds_append _ _ _ _).mp stands).1
      simpa [zeroEnded] using head
    · have split : front ++ (c :: rest ++ [0]) = (front ++ [c]) ++ (rest ++ [0]) := by simp
      rw [split] at stands
      have later := ih stands
      have same : zeroEnded (c :: rest) = c :: zeroEnded rest :=
        List.takeWhile_cons_of_pos (by simpa using zero)
      rw [same]
      simpa using later

/-! ## One split -/

/-- The loop of `basename` ends behind the last slash, or in front of the path. -/
theorem keeps_basenameLoop {low high path : Nat} {wanted : Nat → Prop} (stands : m.Holds path text)
    (above : low ≤ path) (fits : path + text.length ≤ high) :
    (basenameLoop m path text.length).Keeps low high wanted ↔
      wanted (if 0x2f ∈ text then path + (dirOf text).length + 1 else path - 1) := by
  induction text using List.reverseRecOn with
  | nil =>
    rw [List.length_nil, basenameLoop, keeps_pure, if_neg List.not_mem_nil]
  | append_singleton init c ih =>
    obtain ⟨front, last⟩ := (Memory.holds_append _ _ _ _).mp stands
    have byte : m (path + init.length) = c := last 0 Nat.one_pos
    rw [List.length_append, List.length_singleton] at fits
    have inside : low ≤ path + init.length ∧ path + init.length < high := by omega
    rw [List.length_append, List.length_singleton, basenameLoop, keeps_bind, keeps_readByte,
      and_iff_right inside, byte]
    by_cases slash : c = 0x2f
    · subst slash
      have size : (dirOf (init ++ [0x2f])).length = init.length := by
        rw [dirOf, fileOf_slash]
        simp
      rw [if_pos rfl, keeps_pure, if_pos (List.mem_append_right _ List.mem_cons_self), size]
    · rw [if_neg slash, ih front (by omega)]
      have same : 0x2f ∈ init ++ [c] ↔ 0x2f ∈ init := by
        rw [List.mem_append, List.mem_singleton, or_iff_left (Ne.symm slash)]
      by_cases before : 0x2f ∈ init
      · have whole := congrArg List.length (dirOf_fileOf (same.mpr before))
        have part := congrArg List.length (dirOf_fileOf before)
        rw [fileOf_other slash] at whole
        simp only [List.length_append, List.length_cons, List.length_nil] at whole part
        rw [if_pos before, if_pos (same.mpr before)]
        have size : (dirOf (init ++ [c])).length = (dirOf init).length := by omega
        rw [size]
      · rw [if_neg before, if_neg (mt same.mp before)]

theorem keeps_basename {wanted : Nat → Prop} (stands : m.Holds buff.start (text ++ [0]))
    (ended : 0 ∉ text) (fits : text.length < nfsPathSize) :
    (basename buff m buff.start).Keeps buff.start buff.stop wanted ↔
      wanted (if 0x2f ∈ text then buff.start + (dirOf text).length + 1 else buff.start - 1) := by
  have stop : buff.stop = buff.start + nfsPathSize := rfl
  rw [basename, keeps_bind, keeps_strlen stands ended (Nat.le_refl _) (by omega)]
  exact keeps_basenameLoop ((Memory.holds_append _ _ _ _).mp stands).1 (Nat.le_refl _) (by omega)

theorem keeps_splitNames {wanted : NfsNames → Prop} (stands : m.Holds buff.start (text ++ [0]))
    (ended : 0 ∉ text) (fits : text.length < nfsPathSize) :
    (splitNames buff m buff.start).Keeps buff.start buff.stop wanted ↔
      0x2f ∈ text ∧ wanted ⟨m.store (buff.start + (dirOf text).length) [0], buff.start,
        buff.start + (dirOf text).length + 1⟩ := by
  have stop : buff.stop = buff.start + nfsPathSize := rfl
  have front := buff.front
  rw [splitNames, keeps_bind, keeps_basename stands ended fits, keeps_bind, dirname, keeps_bind,
    keeps_basename stands ended fits, keeps_writeBytes, keeps_pure]
  by_cases slash : 0x2f ∈ text
  · have size := congrArg List.length (dirOf_fileOf slash)
    rw [List.length_append, List.length_cons] at size
    rw [if_pos slash, and_iff_right slash, Nat.add_sub_cancel, and_iff_right]
    exact .inr ⟨Nat.le_add_right _ _,
      show buff.start + (dirOf text).length + 1 ≤ buff.stop by omega⟩
  · rw [if_neg slash]
    refine iff_of_false ?_ fun both => slash both.1
    rintro ⟨none | inside, -⟩
    · cases none
    · have below : buff.start ≤ buff.start - 1 - 1 := inside.1
      omega

theorem namesOf_split (stands : m.Holds buff.start (text ++ [0])) (slash : 0x2f ∈ text)
    (fits : text.length < nfsPathSize) :
    NamesOf buff text ⟨m.store (buff.start + (dirOf text).length) [0], buff.start,
      buff.start + (dirOf text).length + 1⟩ := by
  have stop : buff.stop = buff.start + nfsPathSize := rfl
  have whole := dirOf_fileOf slash
  have size := congrArg List.length whole
  rw [List.length_append, List.length_cons] at size
  rw [whole, List.append_assoc, List.cons_append, ← List.singleton_append] at stands
  obtain ⟨path, rest⟩ := (Memory.holds_append _ _ _ _).mp stands
  obtain ⟨-, filename⟩ := (Memory.holds_append _ _ _ _).mp rest
  exact {
    pathStart := rfl
    pathStop := show buff.start + (dirOf text).length < buff.stop by omega
    path := (Memory.holds_append _ _ _ _).mpr
      ⟨path.store_apart (.inl (Nat.le_refl _)), Memory.store_holds _ _ _⟩
    filenameStart := show buff.start ≤ buff.start + (dirOf text).length + 1 by omega
    filenameStop :=
      show buff.start + (dirOf text).length + 1 + (fileOf text).length < buff.stop by omega
    filename := filename.store_apart (.inr (Nat.le_refl _)) }

/-! ## Links -/

/-- The bytes of a link fit behind what they are copied to. -/
def CopyFits (reply : Memory) (dir : List UInt8) : Prop :=
  if reply 32 ≠ 0x2f then dir.length + 1 + replyData reply 1 < nfsPathSize
  else replyData reply 1 < nfsPathSize

theorem linkFits_iff (reply : Memory) (dir : List UInt8) :
    Nfs.LinkFits reply dir ↔ CopyFits reply dir ∧ 0x2f ∈ linkedPath reply dir := by
  unfold Nfs.LinkFits CopyFits linkedPath
  by_cases relative : reply 32 ≠ 0x2f
  · rw [if_pos relative, if_pos relative, if_pos relative]
    exact (and_iff_left (List.mem_append_right _ List.mem_cons_self)).symm
  · rw [if_neg relative, if_neg relative, if_neg relative, and_comm]
    refine and_congr_right fun _ => ?_
    constructor
    · exact slash_mem_zeroEnded (not_not.mp relative)
    · intro slash
      refine Nat.pos_of_ne_zero fun none => ?_
      rw [none] at slash
      cases slash

variable {dir : List UInt8} {s : NfsNames}

theorem ended_linkedPath {reply : Memory} (ended : 0 ∉ dir) :
    0 ∉ linkedPath reply dir := by
  have text := ended_zeroEnded (reply.load 32 (replyData reply 1))
  rw [linkedPath]
  split
  · intro member
    rcases List.mem_append.mp member with front | slash
    · exact ended front
    · rcases List.mem_cons.mp slash with none | back
      · cases none
      · exact text back
  · exact text

theorem linkedPath_fits {reply : Memory} (fits : CopyFits reply dir) :
    (linkedPath reply dir).length < nfsPathSize := by
  have short := zeroEnded_length_le reply (replyData reply 1)
  unfold CopyFits at fits
  rw [linkedPath]
  split at fits
  · rw [if_pos (by assumption), List.length_append, List.length_cons]
    omega
  · rw [if_neg (by assumption)]
    omega

theorem keeps_writeEnded {a : Nat} {bytes : List UInt8} {wanted : Memory → Prop}
    (above : buff.start ≤ a) :
    (do let m ← writeBytes m a bytes
        writeBytes m (a + bytes.length) [0]).Keeps buff.start buff.stop wanted ↔
      a + bytes.length < buff.stop ∧ wanted (m.store a (bytes ++ [0])) := by
  rw [keeps_bind, keeps_writeBytes, keeps_writeBytes, Memory.store_append, ← and_assoc]
  refine and_congr_left fun _ => ?_
  simp only [Span.Within, Span.Inside, List.length_singleton]
  omega

/-- What `nfs_readlink_reply` writes is inside where the bytes of the link fit, and is then the path
after the link. -/
theorem keeps_readlinkPath (reply : Memory) (path : s.nfsPath = buff.start)
    (stands : s.memory.Holds buff.start (dir ++ [0])) (ended : 0 ∉ dir)
    (fits : dir.length < nfsPathSize) :
    ∃ after : Memory,
      (CopyFits reply dir → after.Holds buff.start (linkedPath reply dir ++ [0])) ∧
      ∀ wanted, (readlinkPath buff reply s).Keeps buff.start buff.stop wanted ↔
        CopyFits reply dir ∧ wanted after := by
  have stop : buff.stop = buff.start + nfsPathSize := rfl
  have size : (reply.load 32 (replyData reply 1)).length = replyData reply 1 :=
    Memory.length_load _ _ _
  unfold readlinkPath CopyFits linkedPath
  rw [path]
  dsimp only
  by_cases relative : reply 32 ≠ 0x2f
  · have slashed : (s.memory.store (buff.start + dir.length) [0x2f, 0]).Holds buff.start
        (dir ++ [0x2f] ++ [0]) := by
      rw [List.append_assoc]
      exact stands.store_behind _
    have noZero : 0 ∉ dir ++ [0x2f] := by
      intro member
      rcases List.mem_append.mp member with front | slash
      · exact ended front
      · cases List.mem_singleton.mp slash
    refine ⟨(s.memory.store (buff.start + dir.length) [0x2f, 0]).store
      (buff.start + (dir ++ [0x2f]).length) (reply.load 32 (replyData reply 1) ++ [0]), ?_, ?_⟩
    · intro _
      rw [if_pos relative]
      have behind := slashed.store_behind (reply.load 32 (replyData reply 1) ++ [0])
      have ends := holds_zeroEnded behind
      rwa [List.append_assoc dir, List.singleton_append] at ends
    · intro wanted
      rw [if_pos relative, if_pos relative, keeps_bind,
        keeps_strcat stands ended (Nat.le_refl _) (by omega)]
      have whole : dir.length + 1 + replyData reply 1 < nfsPathSize ↔
          buff.start + dir.length + [(0x2f : UInt8)].length < buff.stop ∧
            buff.start + (dir ++ [0x2f]).length + replyData reply 1 < buff.stop := by
        rw [List.length_append, List.length_singleton]
        omega
      rw [whole, and_assoc]
      refine and_congr_right fun room => ?_
      have inside : buff.start + (dir ++ [0x2f]).length < buff.stop := by
        rw [List.length_append]
        omega
      rw [List.singleton_append, keeps_bind, keeps_strlen slashed noZero (Nat.le_refl _) inside]
      have last := @keeps_writeEnded buff
        (s.memory.store (buff.start + dir.length) [0x2f, 0])
        (buff.start + (dir ++ [0x2f]).length) (reply.load 32 (replyData reply 1)) wanted
        (Nat.le_add_right _ _)
      rwa [size] at last
  · refine ⟨s.memory.store buff.start (reply.load 32 (replyData reply 1) ++ [0]), ?_, ?_⟩
    · intro _
      rw [if_neg relative]
      have behind := Memory.store_holds s.memory buff.start
        (reply.load 32 (replyData reply 1) ++ [0])
      rw [← List.nil_append (reply.load 32 _ ++ [0])] at behind
      exact holds_zeroEnded behind
    · intro wanted
      have last := @keeps_writeEnded buff s.memory buff.start
        (reply.load 32 (replyData reply 1)) wanted (Nat.le_refl _)
      rw [size] at last
      rw [if_neg relative, if_neg relative, last]
      refine and_congr_left fun _ => ?_
      omega

theorem keeps_linkNames (reply : Memory) (names : NamesOf buff text s) (ended : 0 ∉ text) :
    ∃ after : NfsNames,
      (Nfs.LinkFits reply (dirOf text) → NamesOf buff (linkedText text reply) after) ∧
      ∀ wanted, (linkNames buff reply s).Keeps buff.start buff.stop wanted ↔
        Nfs.LinkFits reply (dirOf text) ∧ wanted after := by
  have stop : buff.stop = buff.start + nfsPathSize := rfl
  have path := names.path
  have short := names.pathStop
  rw [names.pathStart] at path short
  obtain ⟨m, copied, kept⟩ := keeps_readlinkPath reply names.pathStart path (ended_dirOf ended)
    (by omega)
  refine ⟨⟨m.store (buff.start + (dirOf (linkedText text reply)).length) [0], buff.start,
    buff.start + (dirOf (linkedText text reply)).length + 1⟩, ?_, ?_⟩
  · intro fits
    obtain ⟨room, slash⟩ := (linkFits_iff _ _).mp fits
    exact namesOf_split (copied room) slash (linkedPath_fits room)
  · intro wanted
    rw [linkNames, keeps_bind, kept, linkFits_iff, and_assoc, names.pathStart]
    refine and_congr_right fun room => ?_
    exact keeps_splitNames (copied room) (ended_linkedPath (ended_dirOf ended))
      (linkedPath_fits room)

theorem keeps_linksNames (links : List Memory) (names : NamesOf buff text s) (ended : 0 ∉ text) :
    (linksNames buff links s).Keeps buff.start buff.stop
      (NamesOf buff (links.foldl linkedText text)) ↔ LinksFit text links := by
  induction links generalizing s text with
  | nil =>
    rw [linksNames, keeps_pure]
    exact iff_of_true names trivial
  | cons reply rest ih =>
    obtain ⟨after, next, kept⟩ := keeps_linkNames reply names ended
    rw [linksNames, keeps_bind, kept, LinksFit, List.foldl_cons]
    exact and_congr_right fun fits => ih (next fits) (ended_linkedPath (ended_dirOf ended))

/-! ## The start -/

theorem upperDigit_ne_zero {d : Nat} (digit : d < 16) : upperDigit d ≠ 0 := by
  intro zero
  have value := congrArg UInt8.toNat zero
  unfold upperDigit at value
  split at value
  all_goals
    rw [UInt8.toNat_ofNat', Nat.mod_eq_of_lt (by omega)] at value
    simp at value

theorem ended_upperHex (net_ip i : Nat) : 0 ∉ upperHex net_ip i := by
  intro member
  have high : net_ip / 256 ^ i % 256 / 16 < 16 := by omega
  rcases List.mem_cons.mp member with zero | last
  · exact upperDigit_ne_zero high zero.symm
  · exact upperDigit_ne_zero (Nat.mod_lt _ (by decide)) (List.mem_singleton.mp last).symm

theorem ended_startPath (net_ip : Nat) (name : BootFileName) : 0 ∉ startPath net_ip name := by
  unfold startPath
  split
  · simp only [defaultFilename, List.mem_append, not_or]
    refine ⟨⟨by decide, ⟨⟨?_, ?_⟩, ?_⟩, ?_⟩, by decide⟩ <;> exact ended_upperHex _ _
  · split
    · intro member
      exact name.ended ((List.dropWhile_sublist _).subset (List.mem_of_mem_tail member))
    · exact name.ended

theorem startPath_fits (net_ip : Nat) (name : BootFileName) :
    (startPath net_ip name).length < nfsPathSize := by
  have short := name.short
  unfold startPath
  split
  · exact show 21 < 2048 by decide
  · split
    · have size := (@List.dropWhile_sublist _ name.text (· ≠ 0x3a)).length_le
      rw [List.length_tail, nfsPathSize]
      omega
    · rw [nfsPathSize]
      omega

theorem keeps_startNames (buff : PathBuff) (m : Memory) (net_ip : Nat) (name : BootFileName) :
    ∃ after : NfsNames,
      (0x2f ∈ startPath net_ip name → NamesOf buff (startPath net_ip name) after) ∧
      ∀ wanted, (startNames buff m net_ip name).Keeps buff.start buff.stop wanted ↔
        0x2f ∈ startPath net_ip name ∧ wanted after := by
  have stop : buff.stop = buff.start + nfsPathSize := rfl
  have fits := startPath_fits net_ip name
  have stands := Memory.store_holds m buff.start (startPath net_ip name ++ [0])
  have inside : Span.Within ⟨buff.start, (startPath net_ip name ++ [0]).length⟩ buff.start
      buff.stop := by
    refine .inr ⟨Nat.le_refl _, ?_⟩
    show buff.start + (startPath net_ip name ++ [0]).length ≤ buff.stop
    rw [List.length_append, List.length_singleton]
    omega
  refine ⟨_, fun slash => namesOf_split stands slash fits, fun wanted => ?_⟩
  rw [startNames, keeps_bind, keeps_writeBytes, and_iff_right inside,
    keeps_splitNames stands (ended_startPath net_ip name) fits]

/-- In every run from a boot file name over any number of links, the accesses stay in the buffer and
the two names are the parts of the path exactly where the name has a slash and the links fit. -/
theorem nfs_names_iff (buff : PathBuff) (m : Memory) (net_ip : Nat) (name : BootFileName)
    (links : List Memory) :
    (runNames buff m net_ip name links).Keeps buff.start buff.stop
        (NamesOf buff (links.foldl linkedText (startPath net_ip name))) ↔
      0x2f ∈ startPath net_ip name ∧ LinksFit (startPath net_ip name) links := by
  obtain ⟨after, names, kept⟩ := keeps_startNames buff m net_ip name
  rw [runNames, keeps_bind, kept]
  exact and_congr_right fun slash =>
    keeps_linksNames links (names slash) (ended_startPath net_ip name)

/-- The boot file name `uImage`. -/
def plainName : BootFileName := ⟨[117, 73, 109, 97, 103, 101], by decide, by decide⟩

def sampleBuff : PathBuff := ⟨4096, by decide⟩

/-- Without a slash the bytes in front of the buffer are used. -/
theorem plainName_outside :
    ¬(runNames sampleBuff Memory.blank 0 plainName []).Keeps sampleBuff.start sampleBuff.stop
      (NamesOf sampleBuff (startPath 0 plainName)) := by
  obtain ⟨after, -, kept⟩ := keeps_startNames sampleBuff Memory.blank 0 plainName
  rw [runNames, keeps_bind, kept]
  rintro ⟨slash, -⟩
  exact absurd slash (by decide)

end HrppBoot.Net
