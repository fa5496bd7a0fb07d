import TocinOS.FatRoot
import TocinOS.Processes
import TocinOS.StoreRuns
import TocinOS.VfsFiles
import TocinOS.VmmTables

/-! The stores of the system calls of `kernel/syscall.c` through the pointers they are given. The
handlers pass the argument words on as pointers; `vfs_read`, `fat_list_dir`, `process_getcwd` and
`process_wait` compare them with null and nothing else. -/

namespace TocinOS.SyscallStores

open Fat (Ide)
open StoreRuns (NoGap reach straight)
open Vmm (dirIndex pagePresent pageUser)

abbrev Addr := BitVec 32
abbrev Byte := BitVec 8

def strLen (src : List Byte) : Nat := (src.takeWhile fun c => c != 0).length

/-- What the calls read. `cwd` has the bytes of the array of each process, and `typed` the
characters typed during the call. `vfs_open` hands out descriptors from 3 on, the count of root
entries is a field of 16 bits, and `cwd` is an array of 256 bytes. -/
structure Kernel where
  vfsInitialized : Bool
  files : VfsFiles.State
  processes : Processes.State
  cwd : Nat → List Byte
  typed : List Byte
  standard : ∀ fd, 0 < fd → fd < 3 → (files.fdTable fd).node = false
  rootEntries : files.fat.info.rootEntryCount < 2 ^ 16
  cwdFits : ∀ p, strLen (cwd p) < 256

inductive Call
  | read (fd buf count : BitVec 32)
  | readdir (path entries maxEntries : BitVec 32)
  | getcwd (buf size : BitVec 32)
  | wait (pid status options : BitVec 32)
  | waitpid (pid status options : BitVec 32)

/-- The stores of a call one after another: the unit of the buffer and its bytes. They are those
of a call that does not overwrite what it still has to read, so they are the call's own up to and
including the first one that hits the kernel. -/
abbrev Stores := List (Nat × List Byte)

def stdinStores (size : Nat) : Nat → List Byte → Stores
  | _, [] => []
  | i, c :: typed =>
    if i < size then
      if c = 0x08 then stdinStores size (i - 1) typed
      else if c = 0x0A then [(i, [c])]
      else (i, [c]) :: stdinStores size (i + 1) typed
    else []

def strCopy (max : BitVec 32) : Nat → List Byte → List Byte
  | _, [] => [0]
  | i, c :: src => if c ≠ 0 ∧ (i : Int) < (max - 1).toInt then c :: strCopy max (i + 1) src else [0]

def wordBytes (v : BitVec 32) : List Byte := (List.range 4).map fun j => v.extractLsb' (8 * j) 8

section

variable (ide : Ide)

namespace Kernel

def fileBytes (k : Kernel) (fd count : BitVec 32) : List Byte :=
  match VfsFiles.vfsRead ide k.files fd.toInt count [] with
  | some (_, _, bytes) => bytes
  | none => []

def sysRead (k : Kernel) (fd buf count : BitVec 32) : Stores :=
  if !k.vfsInitialized ∨ buf = 0 then []
  else if fd = 0 then stdinStores count.toNat 0 k.typed
  else straight ((k.fileBytes ide fd count).map fun b => [b]) 0

def entryWords (entry : Fat.Record) : List (List Byte) :=
  (List.range 8).map fun w => (entry.drop (4 * w)).take 4

def sysReaddir (k : Kernel) (entries maxEntries : BitVec 32) : Stores :=
  if entries = 0 then []
  else straight ((Fat.fatListDir ide k.files.fat maxEntries.toInt).2.2.flatMap entryWords) 0

def sysGetcwd (k : Kernel) (buf size : BitVec 32) : Stores :=
  match k.processes.current with
  | none => []
  | some p =>
    if buf = 0 ∨ size = 0 then []
    else if size.toNat < strLen (k.cwd p) + 1 then []
    else straight ((strCopy size 0 (k.cwd p)).map fun b => [b]) 0

/-- One pass of `process_wait`; a pass after `task_yield` is a call of its own. -/
def sysWait (k : Kernel) (pid status options : BitVec 32) : Stores :=
  match (k.processes.processWait pid options).1 with
  | .returned _ (some exitCode) =>
    if status = 0 then [] else [(0, wordBytes exitCode)]
  | _ => []

def stores (k : Kernel) : Call → Stores
  | .read fd buf count => k.sysRead ide fd buf count
  | .readdir _ entries maxEntries => k.sysReaddir ide entries maxEntries
  | .getcwd buf size => k.sysGetcwd buf size
  | .wait pid status options => k.sysWait pid status options
  | .waitpid pid status options => k.sysWait pid status options

end Kernel

end

namespace Call

def pointer : Call → Addr
  | read _ buf _ => buf
  | readdir _ entries _ => entries
  | getcwd buf _ => buf
  | wait _ status _ => status
  | waitpid _ status _ => status

def width : Call → Nat
  | read .. => 1
  | readdir .. => 4
  | getcwd .. => 1
  | wait .. => 4
  | waitpid .. => 4

/-- The units of the buffer that the caller announces, as far as the kernel can have data for them:
a descriptor that can be a file, the entries of the sectors that `fat_list_dir` goes through, a
path of a process. A size above 2 ^ 31 turns negative in `str_copy`, which then ends the text at
once. -/
def units : Call → Nat
  | read fd buf count => if buf = 0 ∨ fd = 1 ∨ fd = 2 ∨ 256 ≤ fd.toNat then 0 else count.toNat
  | readdir _ entries maxEntries => if entries = 0 then 0 else 8 * min maxEntries.toInt.toNat 65520
  | getcwd buf size =>
    if buf = 0 then 0 else if 2 ^ 31 < size.toNat then 1 else min size.toNat 256
  | wait pid status _ => waited pid status
  | waitpid pid status _ => waited pid status
where
  waited (pid status : BitVec 32) : Nat :=
    if status = 0 ∨ pid ≠ -1 ∧ pid.toInt ≤ 0 then 0 else 1

def address (c : Call) (unit j : Nat) : Addr := c.pointer + BitVec.ofNat 32 (c.width * unit + j)

end Call

variable {c : Call} {size i : Nat}

section

variable (vm : Vmm.State) (own : Addr → Prop)

/-- A store of the kernel to `a` goes through. The pages that the handler of page faults brings in
during the call count as mapped; for any other page it halts the machine. -/
def Mapped (a : Addr) : Prop :=
  vm.dirEntry (dirIndex a) &&& pagePresent ≠ 0 ∧ vm.entry a &&& pagePresent ≠ 0

instance (a : Addr) : Decidable (Mapped vm a) :=
  inferInstanceAs (Decidable (_ ∧ _))

/-- `a` lies in a page mapped for the user, below the kernel's half and outside the memory that
the kernel has for itself. -/
structure UserByte (a : Addr) : Prop where
  mapped : Mapped vm a
  dirUser : vm.dirEntry (dirIndex a) &&& pageUser ≠ 0
  user : vm.entry a &&& pageUser ≠ 0
  low : a < 0xC0000000#32
  notOwn : ¬ own a

namespace Call

def UnitMapped (c : Call) (unit : Nat) : Prop := ∀ j < c.width, Mapped vm (c.address unit j)

instance (c : Call) (unit : Nat) : Decidable (c.UnitMapped vm unit) :=
  inferInstanceAs (Decidable (∀ j < c.width, Mapped vm (c.address unit j)))

def UnitUser (c : Call) (unit : Nat) : Prop := ∀ j < c.width, UserByte vm own (c.address unit j)

def bytesOf (c : Call) (w : Nat × List Byte) : List (Addr × Byte) :=
  w.2.zipIdx.map fun b => (c.address w.1 b.2, b.1)

def performed (c : Call) (ws : Stores) : List (Addr × Byte) :=
  (ws.takeWhile fun w => c.UnitMapped vm w.1).flatMap c.bytesOf

end Call

/-- All writes go to bytes of the user, and memory elsewhere is as it was. -/
structure Confined (memory : Addr → Byte) (writes : List (Addr × Byte)) : Prop where
  user : ∀ w ∈ writes, UserByte vm own w.1
  kept : ∀ a, ¬ UserByte vm own a → StoreRuns.apply writes memory a = memory a

variable {vm own}

theorem confined_iff {memory : Addr → Byte} {writes : List (Addr × Byte)} :
    Confined vm own memory writes ↔ ∀ w ∈ writes, UserByte vm own w.1 := by
  refine ⟨Confined.user, fun huser => ⟨huser, fun a ha => ?_⟩⟩
  exact StoreRuns.apply_of_notMem memory fun w hw h => ha (h ▸ huser w hw)

structure Filling (c : Call) (ws : Stores) : Prop where
  noGap : NoGap ws 0
  full : ∀ w ∈ ws, w.2.length = c.width

theorem Call.mem_bytesOf {w : Nat × List Byte} {a : Addr} (h : w.2.length = c.width) :
    (∃ b, (a, b) ∈ c.bytesOf w) ↔ ∃ j < c.width, c.address w.1 j = a := by
  simp only [bytesOf, List.mem_map, Prod.mk.injEq]
  constructor
  · rintro ⟨b, ⟨x, j⟩, hx, rfl, -⟩
    exact ⟨j, h ▸ List.snd_lt_of_mem_zipIdx hx, rfl⟩
  · rintro ⟨j, hj, rfl⟩
    exact ⟨w.2[j], (w.2[j], j), List.mk_mem_zipIdx_iff_getElem?.mpr (by simp), rfl, rfl⟩

theorem Filling.confined_iff {ws : Stores} (h : Filling c ws) (memory : Addr → Byte) :
    Confined vm own memory (c.performed vm ws) ↔
      ∀ k < reach ws 0, (∀ j ≤ k, c.UnitMapped vm j) → c.UnitUser vm own k := by
  have hunits : (∀ w ∈ c.performed vm ws, UserByte vm own w.1) ↔
      ∀ w ∈ ws.takeWhile fun w => c.UnitMapped vm w.1, c.UnitUser vm own w.1 := by
    simp only [Call.performed, List.mem_flatMap]
    constructor
    · intro hall w hw j hj
      obtain ⟨b, hb⟩ := (Call.mem_bytesOf (h.full w ((List.takeWhile_sublist _).subset hw))).mpr ⟨j, hj, rfl⟩
      exact hall _ ⟨w, hw, hb⟩
    · rintro hall ⟨a, b⟩ ⟨w, hw, hb⟩
      obtain ⟨j, hj, rfl⟩ := (Call.mem_bytesOf (h.full w ((List.takeWhile_sublist _).subset hw))).mp ⟨b, hb⟩
      exact hall w hw j hj
  have hmapped (k : Nat) (huser : c.UnitUser vm own k) : decide (c.UnitMapped vm k) = true :=
    decide_eq_true fun j hj => (huser j hj).mapped
  rw [SyscallStores.confined_iff, hunits,
    StoreRuns.forall_takeWhile_iff hmapped h.noGap fun k hk => absurd hk (Nat.not_lt_zero k)]
  simp only [decide_eq_true_eq]

end

/-! ### No call stores past the units that the caller announces -/

theorem noGap_stdinStores (size : Nat) {n : Nat} (h : i ≤ n) (typed : List Byte) :
    NoGap (stdinStores size i typed) n := by
  induction typed generalizing i n with
  | nil => trivial
  | cons c typed ih =>
    simp only [stdinStores]
    split_ifs with hroom hback hline
    · exact ih (by omega)
    · exact ⟨h, trivial⟩
    · exact ⟨h, ih (Nat.le_max_right _ _)⟩
    · trivial

theorem reach_stdinStores {n : Nat} (h : n ≤ size) (i : Nat) (typed : List Byte) :
    reach (stdinStores size i typed) n ≤ size := by
  induction typed generalizing i n with
  | nil => exact h
  | cons c typed ih =>
    simp only [stdinStores]
    split_ifs with hroom hback hline
    · exact ih h _
    · exact Nat.max_le.mpr ⟨h, hroom⟩
    · exact ih (Nat.max_le.mpr ⟨h, hroom⟩) _
    · exact h

theorem full_stdinStores {typed : List Byte} {w : Nat × List Byte}
    (h : w ∈ stdinStores size i typed) : w.2.length = 1 := by
  induction typed generalizing i with
  | nil => exact nomatch h
  | cons c typed ih =>
    simp only [stdinStores] at h
    split_ifs at h with hroom hback hline
    · exact ih h
    · rw [List.mem_singleton.mp h]; rfl
    · rcases List.mem_cons.mp h with rfl | h
      · rfl
      · exact ih h
    · exact nomatch h

theorem strLen_cons (c : Byte) (src : List Byte) :
    strLen (c :: src) = if c = 0 then 0 else strLen src + 1 := by
  by_cases hc : c = 0
  · simp [strLen, hc]
  · have hne : (c != 0) = true := bne_iff_ne.mpr hc
    rw [if_neg hc, strLen, List.takeWhile_cons, if_pos hne]
    rfl

theorem strCopy_of_neg {max : BitVec 32} (h : (max - 1).toInt < 0) (i : Nat) (src : List Byte) :
    strCopy max i src = [0] := by
  cases src with
  | nil => rfl
  | cons c src => exact if_neg fun hgo => by omega

theorem length_strCopy {max : BitVec 32} (h : 0 ≤ (max - 1).toInt) {src : List Byte}
    (hroom : i + strLen src < max.toNat) : (strCopy max i src).length = strLen src + 1 := by
  have hpred : (max - 1).toInt = (max.toNat : Int) - 1 := by
    rw [BitVec.toInt_eq_toNat_cond] at h ⊢
    have htoNat : (max - 1).toNat = max.toNat - 1 := by bv_omega
    omega
  induction src generalizing i with
  | nil => rfl
  | cons c src ih =>
    rw [strLen_cons] at hroom ⊢
    by_cases hc : c = 0
    · rw [strCopy, if_neg fun hgo => hgo.1 hc, if_pos hc]
      rfl
    · rw [if_neg hc] at hroom ⊢
      rw [strCopy, if_pos ⟨hc, by omega⟩, List.length_cons, ih (by omega)]

theorem readLoop_length {ide : Ide} {fuel : Nat} {s t : Fat.State} {file file' : Fat.File}
    {buf buf' : List Byte} (h : Fat.readLoop ide size fuel s file buf = some (t, file', buf'))
    (hbuf : buf.length ≤ size) : buf'.length ≤ size := by
  induction fuel generalizing s file buf with
  | zero =>
    simp only [Fat.readLoop] at h
    split_ifs at h
    cases h
    exact hbuf
  | succ fuel ih =>
    by_cases hmore : buf.length < size ∧ file.currentCluster ≠ Fat.endOfChain
    · have hcopy := s.info.copySize_le file.position (size - buf.length)
      simp only [Fat.readLoop, if_pos hmore] at h
      generalize s.info.copySize file.position (size - buf.length) = count at h hcopy
      split_ifs at h with hfail
      · cases h
        exact hbuf
      all_goals
        refine ih h ?_
        simp only [List.length_append, List.length_map, List.length_range]
        omega
    · simp only [Fat.readLoop, if_neg hmore] at h
      cases h
      exact hbuf

theorem fatRead_length {ide : Ide} {s t : Fat.State} {file file' : Fat.File} {ret : BitVec 32}
    {bytes : List Byte} (hsize : size < 2 ^ 32)
    (h : Fat.fatRead ide s file size = some (t, file', ret, bytes)) : bytes.length ≤ size := by
  simp only [Fat.fatRead] at h
  split_ifs at h with hclosed hend
  · cases h
    exact Nat.zero_le _
  · cases h
    exact Nat.zero_le _
  all_goals
    split at h
    · cases h
    · rename_i hloop
      cases h
      have hle := readLoop_length hloop (Nat.zero_le _)
      omega

theorem Kernel.length_fileBytes (ide : Ide) (k : Kernel) {fd : BitVec 32} (hfd : fd ≠ 0)
    (count : BitVec 32) : (k.fileBytes ide fd count).length ≤
      if fd = 1 ∨ fd = 2 ∨ 256 ≤ fd.toNat then 0 else count.toNat := by
  have hint : fd.toInt ≠ 0 := fun h => hfd (BitVec.eq_of_toInt_eq h)
  unfold fileBytes
  split
  case h_2 => exact Nat.zero_le _
  case h_1 bytes h =>
    simp only [VfsFiles.vfsRead, if_neg hint] at h
    split_ifs at h with hrange hclosed
    · cases h
      exact Nat.zero_le _
    · cases h
      exact Nat.zero_le _
    · have hfile : ¬ (fd = 1 ∨ fd = 2 ∨ 256 ≤ fd.toNat) := by
        have htoInt := BitVec.toInt_eq_toNat_cond fd
        rintro (rfl | rfl | hlarge)
        · exact hclosed (.inl (congrArg not (k.standard 1 (by omega) (by omega))))
        · exact hclosed (.inl (congrArg not (k.standard 2 (by omega) (by omega))))
        · have hmax : VfsFiles.maxFds = 256 := rfl
          split_ifs at htoInt <;> omega
      rw [if_neg hfile]
      split at h
      · exact nomatch h
      · rename_i hread
        cases h
        exact fatRead_length count.isLt hread

structure Listed (max : Int) (entries : List Fat.Record) : Prop where
  fit : entries.length ≤ max.toNat
  full : ∀ e ∈ entries, e.length = 32

theorem Listed.listEntries {max : Int} {entries : List Fat.Record} (h : Listed max entries)
    (sector : Fat.Sector) (js : List Nat) :
    Listed max (Fat.listEntries sector max js entries).1 ∧
      (Fat.listEntries sector max js entries).1.length ≤ entries.length + js.length := by
  induction js generalizing entries with
  | nil => exact ⟨h, Nat.le_refl _⟩
  | cons j js ih =>
    simp only [Fat.listEntries, List.length_cons]
    split_ifs with hroom hend hdeleted hattr
    · exact ⟨h, Nat.le_add_right _ _⟩
    · exact ⟨(ih h).1, (ih h).2.trans (by omega)⟩
    · exact ⟨(ih h).1, (ih h).2.trans (by omega)⟩
    · have hnext : Listed max (entries ++ [Fat.recordOf sector j]) := by
        refine ⟨?_, fun e he => ?_⟩
        · rw [List.length_append, List.length_singleton]
          omega
        · rcases List.mem_append.mp he with he | he
          · exact h.full e he
          · rw [List.mem_singleton.mp he, Fat.recordOf, List.length_map, List.length_range]
      refine ⟨(ih hnext).1, (ih hnext).2.trans ?_⟩
      rw [List.length_append, List.length_singleton]
      omega
    · exact ⟨h, Nat.le_add_right _ _⟩

theorem Listed.listSectors (ide : Ide) {max : Int} {entries : List Fat.Record}
    (h : Listed max entries) (n : Nat) (s : Fat.State) (sector : BitVec 32) :
    Listed max (Fat.listSectors ide max n s sector entries).2 ∧
      (Fat.listSectors ide max n s sector entries).2.length ≤ entries.length + 16 * n := by
  induction n generalizing s sector entries with
  | zero => exact ⟨h, Nat.le_refl _⟩
  | succ n ih =>
    simp only [Fat.listSectors]
    split_ifs with hroom hfail
    · exact ⟨h, Nat.le_add_right _ _⟩
    · have hsector := h.listEntries (Fat.fatReadSector ide s sector).1.sectorBuffer (List.range 16)
      rw [List.length_range] at hsector
      split
      · rename_i hlist
        rw [hlist] at hsector
        exact ⟨hsector.1, hsector.2.trans (by omega)⟩
      · rename_i hlist
        rw [hlist] at hsector
        have hrest := ih hsector.1 (Fat.fatReadSector ide s sector).1 (sector + 1)
        exact ⟨hrest.1, hrest.2.trans (by omega)⟩
    · exact ⟨h, Nat.le_add_right _ _⟩

theorem listed_fatListDir (ide : Ide) (s : Fat.State) (max : Int) :
    Listed max (Fat.fatListDir ide s max).2.2 ∧
      (Fat.fatListDir ide s max).2.2.length ≤ 16 * (s.info.rootEntryCount / 16) := by
  have hnil : Listed max [] := ⟨Nat.zero_le _, fun e he => (nomatch he)⟩
  simp only [Fat.fatListDir]
  split_ifs
  · exact ⟨hnil, Nat.zero_le _⟩
  · have h := hnil.listSectors ide (s.info.rootEntryCount / 16) s (Fat.rootSector s)
    rwa [List.length_nil, Nat.zero_add] at h

theorem length_flatMap_entryWords (entries : List Fat.Record) :
    (entries.flatMap Kernel.entryWords).length = 8 * entries.length := by
  induction entries with
  | nil => rfl
  | cons e entries ih =>
    rw [List.flatMap_cons, List.length_append, ih, List.length_cons, Kernel.entryWords,
      List.length_map, List.length_range]
    omega

theorem length_of_mem_entryWords {entry : Fat.Record} (h : entry.length = 32) {word : List Byte}
    (hword : word ∈ Kernel.entryWords entry) : word.length = 4 := by
  obtain ⟨w, hw, rfl⟩ := List.mem_map.mp hword
  have hlt := List.mem_range.mp hw
  rw [List.length_take, List.length_drop]
  omega

theorem reach_bytes (bytes : List Byte) :
    reach (straight (bytes.map fun b => [b]) 0) 0 = bytes.length := by
  rw [StoreRuns.reach_straight, List.length_map, Nat.zero_add]

theorem reach_entryWords (entries : List Fat.Record) :
    reach (straight (entries.flatMap Kernel.entryWords) 0) 0 = 8 * entries.length := by
  rw [StoreRuns.reach_straight, length_flatMap_entryWords, Nat.zero_add]

theorem Filling.straight {units : List (List Byte)} (h : ∀ u ∈ units, u.length = c.width) :
    Filling c (straight units 0) :=
  ⟨StoreRuns.noGap_straight units 0, fun w hw => h w.2 (StoreRuns.mem_straight hw)⟩

theorem Filling.bytes (hwidth : c.width = 1) (bytes : List Byte) :
    Filling c (StoreRuns.straight (bytes.map fun b => [b]) 0) := by
  refine .straight fun u hu => ?_
  obtain ⟨b, -, rfl⟩ := List.mem_map.mp hu
  exact hwidth.symm

structure Within (c : Call) (ws : Stores) : Prop where
  filling : Filling c ws
  reach : reach ws 0 ≤ c.units

theorem Within.nil (c : Call) : Within c [] :=
  ⟨⟨trivial, fun _ hw => (nomatch hw)⟩, Nat.zero_le _⟩

section

variable (ide : Ide)

theorem within_read (k : Kernel) (fd buf count : BitVec 32) :
    Within (.read fd buf count) (k.sysRead ide fd buf count) := by
  unfold Kernel.sysRead
  split_ifs with hnull hstdin
  · exact .nil _
  · refine ⟨⟨noGap_stdinStores _ (Nat.le_refl 0) _, fun w hw => full_stdinStores hw⟩, ?_⟩
    subst hstdin
    have hunits : ¬ (buf = 0 ∨ (0 : BitVec 32) = 1 ∨ (0 : BitVec 32) = 2 ∨
        256 ≤ (0 : BitVec 32).toNat) := by
      rintro (h | h | h | h)
      · exact hnull (.inr h)
      all_goals exact absurd h (by decide)
    rw [Call.units, if_neg hunits]
    exact reach_stdinStores (Nat.zero_le _) 0 _
  · refine ⟨.bytes rfl _, ?_⟩
    have hlength := k.length_fileBytes ide hstdin count
    have hbuf : buf ≠ 0 := fun h => hnull (.inr h)
    rw [reach_bytes, Call.units]
    simp only [hbuf, false_or]
    exact hlength

theorem within_readdir (k : Kernel) (path entries maxEntries : BitVec 32) :
    Within (.readdir path entries maxEntries) (k.sysReaddir ide entries maxEntries) := by
  unfold Kernel.sysReaddir
  split_ifs with hnull
  · exact .nil _
  · obtain ⟨hlisted, hsectors⟩ := listed_fatListDir ide k.files.fat maxEntries.toInt
    refine ⟨.straight fun u hu => ?_, ?_⟩
    · obtain ⟨e, he, hu⟩ := List.mem_flatMap.mp hu
      exact length_of_mem_entryWords (hlisted.full e he) hu
    · have hcount := k.rootEntries
      have hfit := hlisted.fit
      rw [reach_entryWords, Call.units, if_neg hnull]
      omega

theorem within_getcwd (k : Kernel) (buf size : BitVec 32) :
    Within (.getcwd buf size) (k.sysGetcwd buf size) := by
  unfold Kernel.sysGetcwd
  split
  · exact .nil _
  · rename_i p _
    split_ifs with hnull hroom
    · exact .nil _
    · exact .nil _
    · refine ⟨.bytes rfl _, ?_⟩
      have hpred : (size - 1).toNat = size.toNat - 1 := by bv_omega
      have htoInt := BitVec.toInt_eq_toNat_cond (size - 1)
      have hfits := k.cwdFits p
      rw [reach_bytes, Call.units, if_neg fun h => hnull (.inl h)]
      split_ifs with hlarge
      · rw [strCopy_of_neg (by omega)]
        exact Nat.le_refl 1
      · rw [length_strCopy (by omega) (by omega)]
        omega

theorem within_wait (hwidth : c.width = 4) {pid status : BitVec 32}
    (hunits : c.units = Call.units.waited pid status) (k : Kernel) (options : BitVec 32) :
    Within c (k.sysWait pid status options) := by
  unfold Kernel.sysWait
  split
  · rename_i hwait
    split_ifs with hnull
    · exact .nil c
    · refine ⟨⟨⟨Nat.le_refl 0, trivial⟩, fun w hw => ?_⟩, ?_⟩
      · rw [List.mem_singleton.mp hw, hwidth]
        rfl
      · have hpid : ¬ (pid ≠ -1 ∧ pid.toInt ≤ 0) := by
          rintro ⟨hany, hneg⟩
          unfold Processes.State.processWait at hwait
          split at hwait
          · cases hwait
          · simp only [if_neg (not_lt.mpr hneg), if_neg hany] at hwait
            cases hwait
        rw [hunits, Call.units.waited, if_neg (not_or.mpr ⟨hnull, hpid⟩)]
        exact Nat.le_refl 1
  · exact .nil c

theorem within_stores (k : Kernel) (c : Call) : Within c (k.stores ide c) := by
  cases c with
  | read fd buf count => exact within_read ide k fd buf count
  | readdir path entries maxEntries => exact within_readdir ide k path entries maxEntries
  | getcwd buf size => exact within_getcwd k buf size
  | wait pid status options => exact within_wait rfl rfl k options
  | waitpid pid status options => exact within_wait rfl rfl k options

end

/-! ### A kernel that has data for all of them

A drive with the word 2 everywhere: as a table of FAT32 it links cluster 2 to itself, so that a file
there never ends, and as a directory it is full. -/

def looped : Ide := fun _ _ _ => some fun i => if i % 4 = 0 then 2 else 0

def loopedInfo : Fat.Info where
  type := .fat32
  fatStart := 32
  dataStart := 2048
  rootStart := 2048
  rootCluster := 2
  clusterCount := 65536
  bytesPerSector := 512
  sectorsPerCluster := 1
  reservedSectors := 32
  fatCount := 2
  sectorsPerFat := 1008
  rootEntryCount := 65520

def endless : Fat.File := ⟨2, 2, 0, 2 ^ 32 - 1, true⟩

/-- Every file is open and as long as can be, the path of the process and the line typed have the
length that is asked for, and process `pid` has exited. -/
def plenty (size : Nat) (pid : BitVec 32) : Kernel where
  vfsInitialized := true
  files :=
    { fat := ⟨loopedInfo, true, 0, 0, fun _ => 0, 0⟩
      fdBitmap := fun _ => 0xFF
      fdTable := fun fd => ⟨decide (3 ≤ fd), 0⟩
      fatFiles := fun _ => endless }
  processes :=
    { procs := fun i =>
        if i = 0 then { pid := pid - 1, state := .running, children := some 1 }
        else { pid := pid, ppid := pid - 1, state := .zombie }
      inUse := fun i => decide (i < 2)
      current := some 0 }
  cwd _ := List.replicate (min (size - 1) 255) 0x61
  typed := List.replicate size 0x61
  standard fd _ hfd := decide_eq_false (by omega)
  rootEntries := by decide
  cwdFits _ := by
    rw [strLen, List.takeWhile_replicate]
    simp

theorem reach_typed (n i : Nat) :
    reach (stdinStores (i + n) i (List.replicate n 0x61)) i = i + n := by
  induction n generalizing i with
  | zero => rfl
  | succ n ih =>
    have hroom : i < i + (n + 1) := by omega
    rw [List.replicate_succ, stdinStores, if_pos hroom, if_neg (by decide), if_neg (by decide),
      reach, Nat.max_eq_right (Nat.le_succ i)]
    have hnext := ih (i + 1)
    rwa [show i + 1 + n = i + (n + 1) by omega] at hnext

theorem fatReadSector_looped (s : Fat.State) (sector : BitVec 32) :
    (Fat.fatReadSector looped s sector).2 = 0 ∧
      (Fat.fatReadSector looped s sector).1.info = s.info ∧
      (Fat.fatReadSector looped s sector).1.mounted = s.mounted ∧
      ∀ i < 512, (Fat.fatReadSector looped s sector).1.sectorBuffer i =
        if i % 4 = 0 then 2 else 0 :=
  ⟨rfl, rfl, rfl, fun _ hi => if_pos hi⟩

theorem fatGetNextCluster_looped {s : Fat.State} (hinfo : s.info = loopedInfo)
    (hmounted : s.mounted = true) :
    (Fat.fatGetNextCluster looped s 2).1.info = loopedInfo ∧
      (Fat.fatGetNextCluster looped s 2).1.mounted = true ∧
      (Fat.fatGetNextCluster looped s 2).2 = 2 := by
  have htype : s.info.type = .fat32 := by rw [hinfo]; rfl
  have hbytes : s.info.bytesPerSector = 512 := by rw [hinfo]; rfl
  simp only [Fat.fatGetNextCluster, hmounted, htype, Fat.readEntry, hbytes]
  exact ⟨hinfo, hmounted, rfl⟩

theorem readLoop_looped {s : Fat.State} (file : Fat.File) {fuel : Nat} (buf : List Byte)
    (hinfo : s.info = loopedInfo) (hmounted : s.mounted = true) (hcluster : file.currentCluster = 2)
    (hbuf : buf.length ≤ size) (hfuel : size ≤ buf.length + fuel) :
    ∃ t file' buf', Fat.readLoop looped size fuel s file buf = some (t, file', buf') ∧
      buf'.length = size := by
  induction fuel generalizing s file buf with
  | zero =>
    refine ⟨s, file, buf, if_neg fun h => ?_, by omega⟩
    omega
  | succ fuel ih =>
    by_cases hmore : buf.length < size
    · have hgo : buf.length < size ∧ file.currentCluster ≠ Fat.endOfChain :=
        ⟨hmore, by rw [hcluster]; decide⟩
      have hcopy := s.info.copySize_le file.position (size - buf.length)
      have hpos := s.info.copySize_pos file.position (by rw [hinfo]; decide)
        (by rw [hinfo]; decide) (Nat.sub_pos_of_lt hmore)
      rw [Fat.readLoop, if_pos hgo]
      generalize s.info.copySize file.position (size - buf.length) = count at hcopy hpos
      dsimp only
      rw [if_neg (by simp [(fatReadSector_looped s _).1])]
      split_ifs with hlast
      · rw [hcluster]
        obtain ⟨hinfo', hmounted', hnext⟩ :=
          fatGetNextCluster_looped (s := (Fat.fatReadSector looped s _).1) hinfo hmounted
        refine ih _ _ hinfo' hmounted' hnext ?_ ?_
        all_goals
          rw [List.length_append, List.length_map, List.length_range]
          omega
      · refine ih _ _ hinfo hmounted hcluster ?_ ?_
        all_goals
          rw [List.length_append, List.length_map, List.length_range]
          omega
    · refine ⟨s, file, buf, if_neg fun h => hmore h.1, by omega⟩

theorem fatRead_endless {s : Fat.State} (hinfo : s.info = loopedInfo) (hmounted : s.mounted = true)
    (count : BitVec 32) :
    ∃ t file bytes, Fat.fatRead looped s endless count.toNat =
      some (t, file, BitVec.ofNat 32 bytes.length, bytes) ∧ bytes.length = count.toNat := by
  obtain ⟨t, file, bytes, hloop, hlength⟩ := readLoop_looped endless [] hinfo hmounted
    rfl (Nat.zero_le _) (Nat.le_add_left count.toNat 0)
  refine ⟨t, file, bytes, ?_, hlength⟩
  have hsize : ¬ endless.size < (endless.position + count.toNat) % 2 ^ 32 := by
    have hmax : endless.size = 2 ^ 32 - 1 := rfl
    omega
  rw [Fat.fatRead, if_neg (by rw [hmounted]; decide), if_neg (by decide)]
  dsimp only
  rw [if_neg hsize, hloop]

theorem listEntries_looped {sector : Fat.Sector}
    (h : ∀ i < 512, sector i = if i % 4 = 0 then 2 else 0)
    (max : Int) {js : List Nat} (hjs : ∀ j ∈ js, j < 16) (entries : List Fat.Record)
    (hfit : entries.length ≤ max.toNat) :
    (Fat.listEntries sector max js entries).1.length =
      min max.toNat (entries.length + js.length) ∧
      (Fat.listEntries sector max js entries).2 = false := by
  induction js generalizing entries with
  | nil => exact ⟨(Nat.min_eq_right hfit).symm, rfl⟩
  | cons j js ih =>
    have hj := hjs j List.mem_cons_self
    have hbyte (b : Nat) (hb : b < 32) : (Fat.recordOf sector j).byte b = sector (32 * j + b) := by
      rw [Fat.Record.byte, Fat.recordOf, List.getD_eq_getElem?_getD, List.getElem?_map,
        List.getElem?_range hb]
      rfl
    have hused : (Fat.recordOf sector j).byte 0 = 2 := by
      rw [hbyte 0 (by omega), h _ (by omega), if_pos (by omega)]
    have hattr : (Fat.recordOf sector j).attributes = 0 := by
      rw [Fat.Record.attributes, hbyte 11 (by omega), h _ (by omega), if_neg (by omega)]
    simp only [Fat.listEntries, hused, hattr]
    rw [if_neg (show (2 : Byte) ≠ 0 by decide), if_neg (show (2 : Byte) ≠ 0xE5 by decide),
      if_neg (show ¬ (0 : Byte) &&& 0x0F ≠ 0 by decide)]
    split_ifs with hroom
    · have hnext := ih (fun j hj => hjs j (List.mem_cons_of_mem _ hj))
        (entries ++ [Fat.recordOf sector j]) (by rw [List.length_append, List.length_singleton]; omega)
      rw [List.length_append, List.length_singleton] at hnext
      rw [List.length_cons]
      exact ⟨by omega, hnext.2⟩
    · rw [List.length_cons]
      refine ⟨?_, rfl⟩
      dsimp only
      omega

theorem listSectors_looped (max : Int) (n : Nat) (s : Fat.State) (sector : BitVec 32)
    (entries : List Fat.Record) (hfit : entries.length ≤ max.toNat) :
    (Fat.listSectors looped max n s sector entries).2.length =
      min max.toNat (entries.length + 16 * n) := by
  induction n generalizing s sector entries with
  | zero => exact (Nat.min_eq_right hfit).symm
  | succ n ih =>
    simp only [Fat.listSectors]
    split_ifs with hroom hfail
    · exact absurd (fatReadSector_looped s sector).1 hfail
    · have hsector := listEntries_looped (fatReadSector_looped s sector).2.2.2 max
        (fun j hj => List.mem_range.mp hj) entries hfit
      rw [List.length_range] at hsector
      split
      · rename_i hlist
        rw [hlist] at hsector
        cases hsector.2
      · rename_i hlist
        rw [hlist] at hsector
        dsimp only at hsector
        rw [ih _ _ _ (by omega)]
        omega
    · dsimp only
      omega

theorem reach_read_plenty {fd buf : BitVec 32} (h : ¬ (buf = 0 ∨ fd = 1 ∨ fd = 2 ∨ 256 ≤ fd.toNat))
    (count : BitVec 32) :
    reach ((plenty count.toNat 0).sysRead looped fd buf count) 0 = count.toNat := by
  obtain ⟨hbuf, hone, htwo, hsmall⟩ := by simpa only [not_or] using h
  have hready : ¬ ((!(plenty count.toNat 0).vfsInitialized) = true ∨ buf = 0) :=
    not_or.mpr ⟨Bool.false_ne_true, hbuf⟩
  rw [Kernel.sysRead, if_neg hready]
  split_ifs with hstdin
  · have htyped := reach_typed count.toNat 0
    rwa [Nat.zero_add] at htyped
  · rw [reach_bytes, Kernel.fileBytes]
    have htoInt : fd.toInt = fd.toNat := by
      rw [BitVec.toInt_eq_toNat_cond, if_pos (by omega)]
    have hfile : 3 ≤ fd.toNat := by bv_omega
    have hrange : ¬ (fd.toInt < 0 ∨ (VfsFiles.maxFds : Int) ≤ fd.toInt) := by
      have hmax : VfsFiles.maxFds = 256 := rfl
      omega
    have hclosed : ¬ ((!((plenty count.toNat 0).files.fdTable fd.toInt.toNat).node) = true ∨
        (!((plenty count.toNat 0).files.fatFiles fd.toInt.toNat).isOpen) = true) := by
      rw [htoInt, Int.toNat_natCast]
      simp [plenty, endless, hfile]
    obtain ⟨t, file, bytes, hread, hlength⟩ := fatRead_endless
      (s := (plenty count.toNat 0).files.fat) rfl rfl count
    have hfiles : (plenty count.toNat 0).files.fatFiles fd.toInt.toNat = endless := rfl
    rw [VfsFiles.vfsRead, if_neg hrange, if_neg (by omega), if_neg hclosed, hfiles, hread]
    exact hlength

theorem length_fatListDir_plenty (max : BitVec 32) :
    (Fat.fatListDir looped (plenty 0 0).files.fat max.toInt).2.2.length =
      min max.toInt.toNat 65520 := by
  have h := listSectors_looped max.toInt 4095 (plenty 0 0).files.fat
    (Fat.rootSector (plenty 0 0).files.fat) [] (Nat.zero_le _)
  rw [List.length_nil, Nat.zero_add] at h
  exact h

theorem reach_getcwd_plenty (buf size : BitVec 32) :
    reach ((plenty size.toNat 0).sysGetcwd buf size) 0 = (Call.getcwd buf size).units := by
  have hlen : strLen ((plenty size.toNat 0).cwd 0) = min (size.toNat - 1) 255 := by
    simp [plenty, strLen]
  show reach (if buf = 0 ∨ size = 0 then [] else if size.toNat < _ then [] else _) 0 = _
  by_cases hnull : buf = 0
  · rw [if_pos (.inl hnull), Call.units, if_pos hnull]
    rfl
  by_cases hzero : size = 0
  · rw [if_pos (.inr hzero), Call.units, if_neg hnull, hzero]
    rfl
  have hpos : 0 < size.toNat := by bv_omega
  have hpred : (size - 1).toNat = size.toNat - 1 := by bv_omega
  have htoInt := BitVec.toInt_eq_toNat_cond (size - 1)
  rw [if_neg (not_or.mpr ⟨hnull, hzero⟩), if_neg (by omega), reach_bytes, Call.units, if_neg hnull]
  split_ifs with hlarge
  · rw [strCopy_of_neg (by omega)]
    rfl
  · rw [length_strCopy (by omega) (by omega)]
    omega

theorem processGetByPid_plenty (size : Nat) (pid : BitVec 32) :
    (plenty size pid).processes.processGetByPid pid = some 1 := by
  have hparent : ((plenty size pid).processes.procs 0).pid ≠ pid := by
    show pid - 1 ≠ pid
    bv_omega
  have hslots : List.range Processes.maxProcesses = 0 :: 1 :: List.range' 2 254 := by
    rw [List.range_eq_range']
    rfl
  rw [Processes.State.processGetByPid, hslots, List.find?_cons_of_neg (by simp [hparent])]
  exact List.find?_cons_of_pos (by simp [plenty])

theorem childList_plenty (size : Nat) (pid : BitVec 32) :
    (plenty size pid).processes.childList 0 = [1] := rfl

theorem reach_wait_plenty (pid status options : BitVec 32) :
    reach ((plenty 0 (if pid = -1 then 2 else pid)).sysWait pid status options) 0 =
      Call.units.waited pid status := by
  by_cases hpid : pid ≠ -1 ∧ pid.toInt ≤ 0
  · have hwithin := (within_wait (c := .wait pid status options) rfl rfl
      (plenty 0 (if pid = -1 then 2 else pid)) options).reach
    have hnone : status = 0 ∨ pid ≠ -1 ∧ pid.toInt ≤ 0 := .inr hpid
    rw [Call.units, Call.units.waited, if_pos hnone] at hwithin
    rw [Call.units.waited, if_pos hnone]
    exact Nat.le_zero.mp hwithin
  have hexited : ((plenty 0 (if pid = -1 then 2 else pid)).processes.processWait pid options).1 =
      .returned (if pid = -1 then 2 else pid) (some 0) := by
    by_cases hany : pid = -1
    · subst hany
      rfl
    · have hpos : 0 < pid.toInt := by
        by_contra hneg
        exact hpid ⟨hany, not_lt.mp hneg⟩
      have hchild : ((plenty 0 pid).processes.processGetByPid pid).filter
          (fun c => ((plenty 0 pid).processes.procs c).ppid ==
            ((plenty 0 pid).processes.procs 0).pid) = some 1 := by
        rw [processGetByPid_plenty]
        simp [plenty]
      have hzombie : ((plenty 0 pid).processes.childList 0).find?
          (fun c => (pid == -1 || ((plenty 0 pid).processes.procs c).pid == pid) &&
            ((plenty 0 pid).processes.procs c).state == .zombie) = some 1 := by
        rw [childList_plenty]
        exact List.find?_cons_of_pos (by simp [plenty])
      have hcurrent : (plenty 0 pid).processes.current = some 0 := rfl
      rw [if_neg hany]
      simp only [Processes.State.processWait, hcurrent, if_pos hpos, hchild, hzombie]
      rfl
  rw [Kernel.sysWait, hexited, Call.units.waited]
  dsimp only
  by_cases hnull : status = 0
  · have hnone : status = 0 ∨ pid ≠ -1 ∧ pid.toInt ≤ 0 := .inl hnull
    rw [if_pos hnull, if_pos hnone]
    rfl
  · rw [if_neg hnull, if_neg (not_or.mpr ⟨hnull, hpid⟩)]
    rfl

theorem exists_full (c : Call) : ∃ (ide : Ide) (k : Kernel), reach (k.stores ide c) 0 = c.units := by
  cases c with
  | read fd buf count =>
    refine ⟨looped, plenty count.toNat 0, ?_⟩
    have hwithin := (within_read looped (plenty count.toNat 0) fd buf count).reach
    by_cases hnone : buf = 0 ∨ fd = 1 ∨ fd = 2 ∨ 256 ≤ fd.toNat
    · rw [Call.units, if_pos hnone] at hwithin ⊢
      exact Nat.le_zero.mp hwithin
    · rw [Call.units, if_neg hnone]
      exact reach_read_plenty hnone count
  | readdir path entries maxEntries =>
    refine ⟨looped, plenty 0 0, ?_⟩
    simp only [Kernel.stores, Kernel.sysReaddir, Call.units]
    split_ifs with hnull
    · rfl
    · rw [reach_entryWords, length_fatListDir_plenty]
  | getcwd buf size => exact ⟨looped, plenty size.toNat 0, reach_getcwd_plenty buf size⟩
  | wait pid status options => exact ⟨looped, plenty 0 _, reach_wait_plenty pid status options⟩
  | waitpid pid status options => exact ⟨looped, plenty 0 _, reach_wait_plenty pid status options⟩

/-- A call writes only to bytes of the user, and changes no other memory, whatever the kernel has
for it, just when the units of the range that it is given are the user's up to the first one that
is not mapped. -/
theorem call_confined_iff (vm : Vmm.State) (own : Addr → Prop) (c : Call) :
    (∀ ide k memory, Confined vm own memory (c.performed vm (Kernel.stores ide k c))) ↔
      ∀ unit < c.units, (∀ j ≤ unit, c.UnitMapped vm j) → c.UnitUser vm own unit := by
  constructor
  · intro h
    obtain ⟨ide, k, hreach⟩ := exists_full c
    rw [← hreach]
    exact ((within_stores ide k c).filling.confined_iff fun _ => 0).mp (h ide k _)
  · intro h ide k memory
    have hwithin := within_stores ide k c
    refine (hwithin.filling.confined_iff memory).mpr fun unit hunit => ?_
    exact h unit (hunit.trans_le hwithin.reach)

/-- The tables of `vmm_init`: the first 4 MiB are mapped to themselves, for the kernel. -/
def initialTables : Vmm.State where
  pmm := ⟨fun _ => 0, 0, 0⟩
  mem a :=
    if a = 0x9C000 then 0x9D003
    else if 0x9D000 ≤ a ∧ a < 0x9E000 then BitVec.ofNat 32 ((a - 0x9D000) / 4 * 4096) ||| 3
    else 0

def inRoot : Kernel where
  vfsInitialized := true
  files := VfsFiles.vfsInit ⟨⟨.fat12, 0, 0, 0, 0, 0, 0, 0, 0, 0, 0, 0⟩, false, 0, 0, fun _ => 0, 0⟩
  processes := { current := some 0 }
  cwd _ := [0x2F, 0]
  typed := []
  standard _ _ _ := rfl
  rootEntries := by decide
  cwdFits _ := by decide

/-- `getcwd` puts the path of the process over the kernel at 1 MiB. -/
theorem getcwd_over_kernel :
    ¬ Confined initialTables (fun a => a < 0x400000) (fun _ => 0)
      ((Call.getcwd 0x100000 256).performed initialTables
        (inRoot.stores (fun _ _ _ => none) (.getcwd 0x100000 256))) := by
  intro h
  have hwritten : ((0x100000, 0x2F) : Addr × Byte) ∈
      (Call.getcwd 0x100000 256).performed initialTables
        (inRoot.stores (fun _ _ _ => none) (.getcwd 0x100000 256)) := by decide +kernel
  exact (h.user _ hwritten).notOwn (by decide)

end TocinOS.SyscallStores
