import TocinOS.Ext2WriteFile
import TocinOS.Jbd2

/-! Where `jbd2_commit` writes. Positions in the log count from `j_start_block`, a transaction is laid
out without a wrap, and the wrap behind it goes to position 0, where the superblock of the journal is. -/

namespace TocinOS.Jbd2.Log

open Ext2
open Ext2 (Faults noFaults)
open Ext2.Faulty (Disk)

structure Store where
  disk : Disk
  currentJournal : Option Journal
  currentHandle : Option Handle

def Store.plain (s : Store) : State := ⟨s.disk.toState, s.currentJournal, s.currentHandle⟩

section

variable (faults : Faults) (fs : Fs)

/-- The position behind the copies of the blocks, `none` where `jbd2_commit` returns -1, and the blocks
that `ext2_write_block` was called for. -/
def logBlocks (startBlock : BitVec 32) :
    List (BitVec 32) → BitVec 32 → Bytes → Disk → Option (BitVec 32) × List (BitVec 32) × Disk
  | [], pos, _, d => (some pos, [], d)
  | blockNum :: blocks, pos, buffer, d =>
    match Faulty.ext2ReadBlock faults fs blockNum buffer d with
    | (false, _, d) => (none, [], d)
    | (true, buffer, d) =>
      match Faulty.ext2WriteBlock faults fs (startBlock + pos) buffer d with
      | (false, d) => (none, [startBlock + pos], d)
      | (true, d) =>
        let (result, written, d) := logBlocks startBlock blocks (pos + 1) buffer d
        (result, (startBlock + pos) :: written, d)

structure Commit where
  ok : Bool
  written : List (BitVec 32)
  store : Store

def jbd2Commit (s : Store) : Commit :=
  match s.currentJournal, s.currentHandle with
  | some journal, some handle =>
    if handle.blocks = [] then
      ⟨true, [], { s with
        currentJournal := some { journal with running := false }, currentHandle := none }⟩
    else
      let buffer := putTags handle.blocks (putHeader descriptorBlock handle.sequence)
      let first := journal.startBlock + journal.head
      match Faulty.ext2WriteBlock faults fs first buffer s.disk with
      | (false, disk) => ⟨false, [first], { s with disk }⟩
      | (true, disk) =>
        match logBlocks faults fs journal.startBlock handle.blocks (journal.head + 1) buffer disk with
        | (none, written, disk) => ⟨false, first :: written, { s with disk }⟩
        | (some pos, written, disk) =>
          let last := journal.startBlock + pos
          match Faulty.ext2WriteBlock faults fs last (putHeader commitBlock handle.sequence) disk with
          | (false, disk) => ⟨false, first :: written ++ [last], { s with disk }⟩
          | (true, disk) =>
            ⟨true, first :: written ++ [last],
              { disk
                currentJournal := some { journal with head := journal.wrap (pos + 1), running := false }
                currentHandle := none }⟩
  | _, _ => ⟨false, [], s⟩

end

def jbd2Abort (s : Store) : Store :=
  { s with
    currentJournal := if s.currentHandle.isSome then s.currentJournal.map ({ · with running := false })
      else s.currentJournal
    currentHandle := none }

/-! ### The blocks of a commit -/

def targets (startBlock : BitVec 32) : BitVec 32 → Nat → List (BitVec 32)
  | _, 0 => []
  | pos, n + 1 => (startBlock + pos) :: targets startBlock (pos + 1) n

theorem add_ofNat_succ (pos : BitVec 32) (n : Nat) :
    pos + 1 + BitVec.ofNat 32 n = pos + BitVec.ofNat 32 (n + 1) := by
  rw [BitVec.add_assoc, BitVec.ofNat_add, BitVec.add_comm (BitVec.ofNat 32 n)]
  rfl

variable {b : BitVec 32} {n : Nat} {j j₀ : Journal} {inode : Bytes}

theorem mem_targets {startBlock pos : BitVec 32} :
    b ∈ targets startBlock pos n ↔ ∃ i < n, b = startBlock + (pos + BitVec.ofNat 32 i) := by
  induction n generalizing pos with
  | zero => simp [targets]
  | succ n ih =>
    rw [targets, List.mem_cons, ih]
    constructor
    · rintro (rfl | ⟨i, hi, rfl⟩)
      · exact ⟨0, Nat.succ_pos n, by rw [BitVec.add_zero]⟩
      · exact ⟨i + 1, Nat.succ_lt_succ hi, by rw [add_ofNat_succ]⟩
    · rintro ⟨i, hi, rfl⟩
      cases i with
      | zero => exact .inl (by rw [BitVec.add_zero])
      | succ i => exact .inr ⟨i, Nat.lt_of_succ_lt_succ hi, by rw [add_ofNat_succ]⟩

theorem targets_succ (startBlock pos : BitVec 32) (n : Nat) : targets startBlock pos (n + 1) =
    targets startBlock pos n ++ [startBlock + (pos + BitVec.ofNat 32 n)] := by
  induction n generalizing pos with
  | zero => rw [targets, targets, BitVec.add_zero]; rfl
  | succ n ih => rw [targets, ih, targets, add_ofNat_succ, List.cons_append]

theorem logBlocks_written (faults : Faults) (fs : Fs) (startBlock : BitVec 32) (blocks : List (BitVec 32))
    (pos : BitVec 32) (buffer : Bytes) (d : Disk) :
    (logBlocks faults fs startBlock blocks pos buffer d).2.1 <+: targets startBlock pos blocks.length ∧
      ∀ pos', (logBlocks faults fs startBlock blocks pos buffer d).1 = some pos' →
        pos' = pos + BitVec.ofNat 32 blocks.length ∧
        (logBlocks faults fs startBlock blocks pos buffer d).2.1 = targets startBlock pos blocks.length := by
  induction blocks generalizing pos buffer d with
  | nil =>
    refine ⟨List.prefix_rfl, fun pos' h => ?_⟩
    obtain rfl := Option.some_inj.mp h
    exact ⟨(BitVec.add_zero _).symm, rfl⟩
  | cons blockNum blocks ih =>
    rw [logBlocks, List.length_cons, targets]
    obtain ⟨read, buffer', d'⟩ := Faulty.ext2ReadBlock faults fs blockNum buffer d
    cases read with
    | false => exact ⟨List.nil_prefix, fun _ h => nomatch h⟩
    | true =>
      dsimp only
      obtain ⟨stored, d''⟩ := Faulty.ext2WriteBlock faults fs (startBlock + pos) buffer' d'
      cases stored with
      | false => exact ⟨List.cons_prefix_cons.mpr ⟨rfl, List.nil_prefix⟩, fun _ h => nomatch h⟩
      | true =>
        obtain ⟨hstart, hall⟩ := ih (pos + 1) buffer' d''
        refine ⟨List.cons_prefix_cons.mpr ⟨rfl, hstart⟩, fun pos' h => ?_⟩
        obtain ⟨hpos, hwritten⟩ := hall pos' h
        exact ⟨hpos.trans (add_ofNat_succ ..), congrArg _ hwritten⟩

structure Effect (j : Journal) (h : Handle) (r : Commit) : Prop where
  written : r.written <+: targets j.startBlock j.head (h.blocks.length + 2)
  done : r.ok = true → r.written = targets j.startBlock j.head (h.blocks.length + 2) ∧
    r.store.currentJournal = some { j with
      head := j.wrap (j.head + BitVec.ofNat 32 (h.blocks.length + 2)), running := false } ∧
    r.store.currentHandle = none
  failed : r.ok = false → r.store.currentJournal = some j ∧ r.store.currentHandle = some h

theorem commit_effect (faults : Faults) (fs : Fs) {s : Store} {h : Handle}
    (hj : s.currentJournal = some j) (hh : s.currentHandle = some h) (hne : h.blocks ≠ []) :
    Effect j h (jbd2Commit faults fs s) := by
  rw [jbd2Commit, hj, hh]
  dsimp only
  rw [if_neg hne]
  have hlayout : targets j.startBlock j.head (h.blocks.length + 2) = (j.startBlock + j.head) ::
      targets j.startBlock (j.head + 1) h.blocks.length ++
        [j.startBlock + (j.head + 1 + BitVec.ofNat 32 h.blocks.length)] := by
    rw [targets, targets_succ, List.cons_append]
  generalize putTags h.blocks (putHeader descriptorBlock h.sequence) = buffer
  obtain ⟨stored, d⟩ := Faulty.ext2WriteBlock faults fs (j.startBlock + j.head) buffer s.disk
  cases stored with
  | false =>
    refine ⟨?_, fun h => (nomatch h), fun _ => ⟨rfl, rfl⟩⟩
    rw [hlayout, List.cons_append]
    exact List.cons_prefix_cons.mpr ⟨rfl, List.nil_prefix⟩
  | true =>
    dsimp only
    have hlog := logBlocks_written faults fs j.startBlock h.blocks (j.head + 1) buffer d
    generalize logBlocks faults fs j.startBlock h.blocks (j.head + 1) buffer d = logged at hlog
    obtain ⟨pos, written, d'⟩ := logged
    cases pos with
    | none =>
      refine ⟨?_, fun h => (nomatch h), fun _ => ⟨rfl, rfl⟩⟩
      rw [hlayout, List.cons_append]
      exact List.cons_prefix_cons.mpr ⟨rfl, hlog.1.trans (List.prefix_append ..)⟩
    | some pos =>
      obtain ⟨rfl, hwritten⟩ := hlog.2 pos rfl
      dsimp only at hwritten ⊢
      obtain ⟨stored, d''⟩ := Faulty.ext2WriteBlock faults fs
        (j.startBlock + (j.head + 1 + BitVec.ofNat 32 h.blocks.length))
        (putHeader commitBlock h.sequence) d'
      have hnext : j.head + 1 + BitVec.ofNat 32 h.blocks.length + 1 =
          j.head + BitVec.ofNat 32 (h.blocks.length + 2) := by
        rw [add_ofNat_succ, BitVec.ofNat_add h.blocks.length 2, BitVec.ofNat_add h.blocks.length 1,
          BitVec.add_assoc, BitVec.add_assoc]
        rfl
      rw [hwritten]
      cases stored with
      | false => exact ⟨hlayout ▸ List.prefix_rfl, fun h => (nomatch h), fun _ => ⟨rfl, rfl⟩⟩
      | true =>
        refine ⟨hlayout ▸ List.prefix_rfl, fun _ => ⟨hlayout.symm, ?_, rfl⟩, fun h => (nomatch h)⟩
        rw [hnext]

/-! ### Drives that work -/

section

variable {faults : Faults} (fs : Fs) (hr : ∀ t, faults.reads t = true) (hw : ∀ t, faults.writes t = .done)

include hr in
theorem readBlock_plain (b : BitVec 32) (buffer : Bytes) (d : Disk) :
    ∃ time, Faulty.ext2ReadBlock faults fs b buffer d = (true, (ext2ReadBlock fs b buffer d.toState).1,
      d.io (ext2ReadBlock fs b buffer d.toState).2 time) := by
  obtain ⟨ok, buffer', s, time, hread, hok, hplain, -⟩ :=
    Faulty.ext2ReadBlock_cases faults fs b buffer d
  obtain rfl : ok = true := hok hr
  obtain ⟨rfl, rfl⟩ := hplain rfl
  exact ⟨time, hread⟩

include hr hw in
theorem logBlocks_works (startBlock : BitVec 32) (blocks : List (BitVec 32)) (pos : BitVec 32)
    (buffer : Bytes) (d : Disk) : (logBlocks faults fs startBlock blocks pos buffer d).1.isSome = true := by
  induction blocks generalizing pos buffer d with
  | nil => rfl
  | cons blockNum blocks ih =>
    obtain ⟨time, hread⟩ := readBlock_plain fs hr blockNum buffer d
    rw [logBlocks, hread]
    dsimp only
    rw [Faulty.ext2WriteBlock_done hw]
    exact ih ..

include hr hw in
theorem commit_works {s : Store} {j : Journal} {h : Handle} (hj : s.currentJournal = some j)
    (hh : s.currentHandle = some h) : (jbd2Commit faults fs s).ok = true := by
  rw [jbd2Commit, hj, hh]
  dsimp only
  split
  · rfl
  rw [Faulty.ext2WriteBlock_done hw]
  dsimp only
  generalize putTags h.blocks (putHeader descriptorBlock h.sequence) = buffer
  generalize s.disk.io _ _ = d
  have hlog := logBlocks_works fs hr hw j.startBlock h.blocks (j.head + 1) buffer d
  generalize logBlocks faults fs j.startBlock h.blocks (j.head + 1) buffer d = logged at hlog
  obtain ⟨pos, written, d'⟩ := logged
  obtain ⟨pos, rfl⟩ := Option.isSome_iff_exists.mp hlog
  dsimp only
  rw [Faulty.ext2WriteBlock_done hw]

include hr hw in
theorem written_of_works {s : Store} {j : Journal} {h : Handle} (hj : s.currentJournal = some j)
    (hh : s.currentHandle = some h) (hne : h.blocks ≠ []) :
    (jbd2Commit faults fs s).written = targets j.startBlock j.head (h.blocks.length + 2) :=
  ((commit_effect faults fs hj hh hne).done (commit_works fs hr hw hj hh)).1

end

/-! ### The log area -/

/-- The block is one of the journal inode's, behind the superblock and from `s_first` on. -/
def InLogArea (fs : Fs) (drives : Drives) (inode : Bytes) (j : Journal) (b : BitVec 32) : Prop :=
  ∃ k, 1 ≤ k ∧ j.first.toNat ≤ k ∧ k < j.size.toNat ∧ fs.blockMap drives inode k = b

/-- The blocks of the journal inode lie one after the other, as `jbd2_commit` takes them to. -/
def Contiguous (fs : Fs) (drives : Drives) (inode : Bytes) (j : Journal) : Prop :=
  ∀ k < j.size.toNat, fs.blockMap drives inode k = j.startBlock + BitVec.ofNat 32 k

theorem Contiguous.inLogArea_iff {fs : Fs} {drives : Drives} (h : Contiguous fs drives inode j)
    {pos : BitVec 32} : InLogArea fs drives inode j (j.startBlock + pos) ↔
      1 ≤ pos.toNat ∧ j.first.toNat ≤ pos.toNat ∧ pos.toNat < j.size.toNat := by
  constructor
  · rintro ⟨k, hpos, hfirst, hsize, hmap⟩
    rw [h k hsize, BitVec.add_right_inj] at hmap
    have hk : k < 2 ^ 32 := hsize.trans j.size.isLt
    have heq : pos.toNat = k := by rw [← hmap, BitVec.toNat_ofNat, Nat.mod_eq_of_lt hk]
    rw [heq]
    exact ⟨hpos, hfirst, hsize⟩
  · rintro ⟨hpos, hfirst, hsize⟩
    refine ⟨pos.toNat, hpos, hfirst, hsize, ?_⟩
    rw [h _ hsize, BitVec.ofNat_toNat, BitVec.setWidth_eq]

def Room (j : Journal) (n : Nat) : Prop :=
  1 ≤ j.head.toNat ∧ j.first.toNat ≤ j.head.toNat ∧ j.head.toNat + n + 2 ≤ j.size.toNat

theorem Room.toNat_add (h : Room j n) {i : Nat} (hi : i < n + 2) :
    (j.head + BitVec.ofNat 32 i).toNat = j.head.toNat + i := by
  have hsize := j.size.isLt
  obtain ⟨-, -, hend⟩ := h
  rw [BitVec.toNat_add, BitVec.toNat_ofNat]
  omega

theorem Contiguous.targets_iff {fs : Fs} {drives : Drives} (h : Contiguous fs drives inode j)
    (n : Nat) :
    (∀ b ∈ targets j.startBlock j.head (n + 2), InLogArea fs drives inode j b) ↔ Room j n := by
  constructor
  · intro hall
    have hat (i : Nat) (hi : i < n + 2) := h.inLogArea_iff.mp (hall _ (mem_targets.mpr ⟨i, hi, rfl⟩))
    -- a position that leaves the 32 bits would come by 0 first
    have hadd (i : Nat) (hi : i < n + 2) : (j.head + BitVec.ofNat 32 i).toNat = j.head.toNat + i := by
      induction i with
      | zero => rw [BitVec.add_zero, Nat.add_zero]
      | succ i ih =>
        have hlast := ih (Nat.lt_of_succ_lt hi)
        have hnext := (hat (i + 1) hi).1
        rw [BitVec.ofNat_add, ← BitVec.add_assoc, BitVec.toNat_add, hlast, BitVec.toNat_ofNat] at hnext ⊢
        have hlt := (hat i (Nat.lt_of_succ_lt hi)).2.2
        have hsize := j.size.isLt
        omega
    obtain ⟨hpos, hfirst, -⟩ := hat 0 (Nat.succ_pos _)
    obtain ⟨-, -, hend⟩ := hat (n + 1) (Nat.lt_succ_self _)
    rw [hadd 0 (Nat.succ_pos _)] at hpos hfirst
    rw [hadd (n + 1) (Nat.lt_succ_self _)] at hend
    exact ⟨hpos, hfirst, hend⟩
  · intro hroom b hb
    obtain ⟨i, hi, rfl⟩ := mem_targets.mp hb
    rw [h.inLogArea_iff, hroom.toNat_add hi]
    obtain ⟨hpos, hfirst, hend⟩ := hroom
    omega

/-! ### Runs -/

/-- The journal in use, and the blocks that the commits of the run have put into the log. Nothing in the
kernel checkpoints them. -/
structure Config where
  store : Store
  logged : List (BitVec 32)

/-- What happens to a journal: the calls of a transaction, and whatever else the system does to the
disk meanwhile. -/
inductive Call where
  | start
  | access (blockNum : BitVec 32)
  | commit (faults : Faults)
  | abort
  | work (disk : Disk)

def Config.call (fs : Fs) (c : Config) : Call → Config
  | .start =>
    let s := (jbd2Start c.store.plain).2
    { c with store := ⟨c.store.disk, s.currentJournal, s.currentHandle⟩ }
  | .access blockNum =>
    { c with store := { c.store with
      currentHandle := c.store.currentHandle.map fun handle => (jbd2GetWriteAccess handle blockNum).2 } }
  | .commit faults =>
    let r := jbd2Commit faults fs c.store
    ⟨r.store, if r.ok then c.logged ++ r.written else c.logged⟩
  | .abort => { c with store := jbd2Abort c.store }
  | .work disk => { c with store := { c.store with disk } }

def Config.Fits (c : Config) : Prop :=
  ∀ j h, c.store.currentJournal = some j → c.store.currentHandle = some h → h.blocks ≠ [] →
    Room j h.blocks.length

def Step (fs : Fs) (c c' : Config) : Prop :=
  ∃ call : Call, ((∃ faults, call = .commit faults) → c.Fits) ∧ c' = c.call fs call

/-- `jbd2_init` has accepted the journal `j` of `inode` in the state `s`; recovery moves the tail only. -/
structure Start (fs : Fs) (s : State) (inode : Bytes) (j : Journal) (c : Config) : Prop where
  inum : fs.journalInum ≠ 0
  inode : (ext2ReadInode fs fs.journalInum s.io).1 = some inode
  accepted : (jbd2Init fs s).1 = 0
  journal : (jbd2Init fs s).2.currentJournal = some j
  current : ∃ tail, c.store.currentJournal = some { j with tail }
  idle : c.store.currentHandle = none
  logged : c.logged = []

/-- Once the head has wrapped there is no room any more; until then the logged blocks are behind it. -/
structure Inv (j₀ : Journal) (j : Journal) (c : Config) : Prop where
  journal : c.store.currentJournal = some j
  startBlock : j.startBlock = j₀.startBlock
  size : j.size = j₀.size
  first : j.first = j₀.first
  logged : j.head = 0 ∨ ∀ b ∈ c.logged, ∃ k < j.head.toNat, b = j.startBlock + BitVec.ofNat 32 k

variable {c : Config}

theorem Start.inv {fs : Fs} {s : State} (h : Start fs s inode j c) : ∃ j', Inv j j' c := by
  obtain ⟨tail, hj⟩ := h.current
  refine ⟨_, hj, rfl, rfl, rfl, .inr ?_⟩
  rw [h.logged]
  exact fun b hb => absurd hb List.not_mem_nil

theorem Inv.fresh (h : Inv j₀ j c) (hroom : Room j n)
    (hb : b ∈ targets j.startBlock j.head (n + 2)) : b ∉ c.logged := by
  intro hlogged
  obtain ⟨i, hi, rfl⟩ := mem_targets.mp hb
  have hadd := hroom.toNat_add hi
  obtain ⟨hpos, -, -⟩ := hroom
  rcases h.logged with hzero | hbehind
  · rw [hzero] at hpos
    exact absurd hpos (by decide)
  · obtain ⟨k, hk, heq⟩ := hbehind _ hlogged
    rw [BitVec.add_right_inj] at heq
    have hk' : k < 2 ^ 32 := hk.trans j.head.isLt
    rw [heq, BitVec.toNat_ofNat, Nat.mod_eq_of_lt hk'] at hadd
    omega

theorem Inv.wrap (h : Inv j₀ j c) (hroom : Room j n)
    (hb : b ∈ c.logged ++ targets j.startBlock j.head (n + 2))
    (hhead : j.wrap (j.head + BitVec.ofNat 32 (n + 2)) ≠ 0) :
    ∃ k < (j.wrap (j.head + BitVec.ofNat 32 (n + 2))).toNat, b = j.startBlock + BitVec.ofNat 32 k := by
  have hunwrapped : j.wrap (j.head + BitVec.ofNat 32 (n + 2)) = j.head + BitVec.ofNat 32 (n + 2) := by
    rw [Journal.wrap] at hhead ⊢
    split at hhead
    · exact absurd rfl hhead
    · rw [if_neg ‹_›]
  have hsize := j.size.isLt
  have hnext : (j.head + BitVec.ofNat 32 (n + 2)).toNat = j.head.toNat + (n + 2) := by
    rw [BitVec.toNat_add, BitVec.toNat_ofNat]
    have hend := hroom.2.2
    omega
  rw [hunwrapped, hnext]
  rcases List.mem_append.mp hb with hold | hnew
  · rcases h.logged with hzero | hbehind
    · have hpos := hroom.1
      rw [hzero] at hpos
      exact absurd hpos (by decide)
    · obtain ⟨k, hk, heq⟩ := hbehind b hold
      exact ⟨k, by omega, heq⟩
  · obtain ⟨i, hi, rfl⟩ := mem_targets.mp hnew
    refine ⟨j.head.toNat + i, by omega, ?_⟩
    rw [BitVec.ofNat_add, BitVec.ofNat_toNat, BitVec.setWidth_eq]

theorem Inv.commit {fs : Fs} (h : Inv j₀ j c) (hfits : c.Fits) (faults : Faults) :
    ∃ j', Inv j₀ j' (c.call fs (.commit faults)) := by
  have hj := h.journal
  rw [Config.call]
  cases hh : c.store.currentHandle with
  | none =>
    have hcall : jbd2Commit faults fs c.store = ⟨false, [], c.store⟩ := by rw [jbd2Commit, hj, hh]
    rw [hcall]
    exact ⟨j, hj, h.startBlock, h.size, h.first, h.logged⟩
  | some handle =>
    by_cases hne : handle.blocks = []
    · have hcall : jbd2Commit faults fs c.store =
          ⟨true, [], { c.store with
            currentJournal := some { j with running := false }, currentHandle := none }⟩ := by
        rw [jbd2Commit, hj, hh]
        exact if_pos hne
      rw [hcall]
      refine ⟨_, rfl, h.startBlock, h.size, h.first, ?_⟩
      dsimp only
      rw [if_pos rfl, List.append_nil]
      exact h.logged
    · have hroom := hfits j handle hj hh hne
      have heffect := commit_effect faults fs hj hh hne
      cases hok : (jbd2Commit faults fs c.store).ok with
      | false => exact ⟨j, (heffect.failed hok).1, h.startBlock, h.size, h.first, h.logged⟩
      | true =>
        obtain ⟨hwritten, hjournal, -⟩ := heffect.done hok
        refine ⟨_, hjournal, h.startBlock, h.size, h.first, ?_⟩
        dsimp only
        rw [if_pos rfl, hwritten, or_iff_not_imp_left]
        exact fun hhead b hb => h.wrap hroom hb hhead

theorem Inv.step {fs : Fs} {c' : Config} (h : Inv j₀ j c) (hstep : Step fs c c') :
    ∃ j', Inv j₀ j' c' := by
  obtain ⟨call, hfits, rfl⟩ := hstep
  have hj := h.journal
  cases call with
  | start =>
    cases hh : c.store.currentHandle with
    | none =>
      refine ⟨{ j with sequence := j.sequence + 1, running := true }, ?_, h.startBlock, h.size, h.first,
        h.logged⟩
      simp only [Config.call, Store.plain, jbd2Start, hj, hh]
    | some handle =>
      refine ⟨j, ?_, h.startBlock, h.size, h.first, h.logged⟩
      simp only [Config.call, Store.plain, jbd2Start, hj, hh]
  | access blockNum => exact ⟨j, hj, h.startBlock, h.size, h.first, h.logged⟩
  | commit faults => exact h.commit (hfits ⟨faults, rfl⟩) faults
  | abort =>
    cases hh : c.store.currentHandle with
    | none =>
      refine ⟨j, ?_, h.startBlock, h.size, h.first, h.logged⟩
      simp [Config.call, jbd2Abort, hj, hh]
    | some handle =>
      refine ⟨{ j with running := false }, ?_, h.startBlock, h.size, h.first, h.logged⟩
      simp [Config.call, jbd2Abort, hj, hh]
  | work disk => exact ⟨j, hj, h.startBlock, h.size, h.first, h.logged⟩

theorem Inv.run {fs : Fs} {c' : Config} (h : Inv j₀ j c)
    (hrun : Relation.ReflTransGen (Step fs) c c') : ∃ j', Inv j₀ j' c' := by
  induction hrun with
  | refl => exact ⟨j, h⟩
  | tail _ hstep ih =>
    obtain ⟨j', hj'⟩ := ih
    exact hj'.step hstep

/-- In every run whose commits have room in a contiguous log, a commit that comes next keeps to the log
area and to blocks that no earlier commit has used, whatever the drive does, exactly if it has room. -/
theorem commits_stay_in_log_iff {fs : Fs} {s : State} {inode : Bytes} {j : Journal} {c c' : Config}
    (hstart : Start fs s inode j c) (hcontiguous : Contiguous fs s.io.drives inode j)
    (hrun : Relation.ReflTransGen (Step fs) c c') :
    (∀ faults, ∀ b ∈ (jbd2Commit faults fs c'.store).written,
      InLogArea fs s.io.drives inode j b ∧ b ∉ c'.logged) ↔ c'.Fits := by
  obtain ⟨j₁, hinv₁⟩ := hstart.inv
  obtain ⟨j', hinv⟩ := hinv₁.run hrun
  have harea (b : BitVec 32) : InLogArea fs s.io.drives inode j b ↔ InLogArea fs s.io.drives inode j' b := by
    rw [InLogArea, InLogArea, hinv.size, hinv.first]
  have hcontiguous' : Contiguous fs s.io.drives inode j' := by
    rw [Contiguous, hinv.size, hinv.startBlock]
    exact hcontiguous
  constructor
  · intro hall j'' h hj hh hne
    obtain rfl : j' = j'' := Option.some_inj.mp (hinv.journal.symm.trans hj)
    refine (hcontiguous'.targets_iff _).mp fun b hb => (harea b).mp (hall noFaults b ?_).1
    rwa [written_of_works fs (fun _ => rfl) (fun _ => rfl) hj hh hne]
  · intro hfits faults b hb
    cases hh : c'.store.currentHandle with
    | none =>
      rw [jbd2Commit, hinv.journal, hh] at hb
      exact absurd hb List.not_mem_nil
    | some h =>
      by_cases hne : h.blocks = []
      · rw [jbd2Commit, hinv.journal, hh] at hb
        dsimp only at hb
        rw [if_pos hne] at hb
        exact absurd hb List.not_mem_nil
      · have hroom := hfits j' h hinv.journal hh hne
        have htarget := (commit_effect faults fs hinv.journal hh hne).written.subset hb
        exact ⟨(harea b).mpr ((hcontiguous'.targets_iff _).mpr hroom b htarget), hinv.fresh hroom htarget⟩

/-! ### A small journal -/

end TocinOS.Jbd2.Log

def TocinOS.Jbd2.smallFs : TocinOS.Ext2.Fs where
  device := 0
  blockSize := 1024
  blockSize_dvd := dvd_rfl
  blockSize_pos := Nat.succ_pos 1023
  blockSize_le := Nat.le_add_right 1024 3072
  numGroups := 1
  inodesPerGroup := 8
  inodeTable := fun _ => 3
  inodeSize := 128
  revLevel := 1
  journalInum := 8

namespace TocinOS.Jbd2.Log

open Ext2
open Ext2 (Faults noFaults)
open Ext2.Faulty (Disk)

def logDrives (start : Nat) : Drives := fun _ sector =>
  if sector = 7 then
    (List.range 8).foldl (fun bytes k => LittleEndian.put bytes (424 + 4 * k) 4 (10 + k))
      (LittleEndian.put (fun _ => 0) 388 4 8192)
  else if sector = 20 then
    LittleEndian.put (LittleEndian.put (LittleEndian.put (putHeader 4 1) 20 4 1) 24 4 1) 28 4 start
  else fun _ => 0

def logState (start : Nat) : State := ⟨⟨logDrives start, fun _ => {}, 0, []⟩, none, none⟩

def logInode (start : Nat) : Bytes := fun i =>
  (ext2ReadBlock smallFs (smallFs.inodeBlock 8) (fun _ => 0) (logState start).io).1
    (smallFs.inodeOffset 8 + i)

def logJournal (start : Nat) : Journal := (jbd2Init smallFs (logState start)).2.currentJournal.getD {}

def logConfig (start : Nat) : Config :=
  ⟨⟨{ drives := logDrives start, blockCache := fun _ => {}, cacheAccessCounter := 0, history := []
      groupFree := fun _ => 0, freeBlocks := 0 }, some (logJournal start), none⟩, []⟩

theorem logConfig_start {start : Nat} (haccepted : (jbd2Init smallFs (logState start)).1 = 0)
    (hjournal : (jbd2Init smallFs (logState start)).2.currentJournal.isSome = true) :
    Start smallFs (logState start) (logInode start) (logJournal start) (logConfig start) := by
  have hcurrent : (logConfig start).store.currentJournal = some (logJournal start) := rfl
  refine ⟨by decide, ?_, haccepted, ?_, ⟨(logJournal start).tail, ?_⟩, rfl, rfl⟩
  · rw [ext2ReadInode, if_neg (by decide), if_neg (by decide)]
    rfl
  · rw [logJournal]
    exact (Option.some_get hjournal).symm.trans (by rw [Option.get_eq_getD])
  · rw [hcurrent]

def Config.holding (c : Config) (blocks : List (BitVec 32)) : Config :=
  blocks.foldl (fun c b => c.call smallFs (.access b)) (c.call smallFs .start)

theorem holding_run (c : Config) (blocks : List (BitVec 32)) :
    Relation.ReflTransGen (Step smallFs) c (c.holding blocks) := by
  have hstart : Step smallFs c (c.call smallFs .start) := ⟨.start, fun ⟨_, h⟩ => (nomatch h), rfl⟩
  refine .head hstart ?_
  rw [Config.holding]
  generalize c.call smallFs .start = c'
  induction blocks generalizing c' with
  | nil => exact .refl
  | cons b blocks ih => exact .head ⟨.access b, fun ⟨_, h⟩ => (nomatch h), rfl⟩ (ih _)

theorem holding_journal (start : Nat) (blocks : List (BitVec 32)) :
    ((logConfig start).holding blocks).store.currentJournal =
      some { logJournal start with sequence := (logJournal start).sequence + 1, running := true } := by
  have haccess (c : Config) : (blocks.foldl (fun c b => c.call smallFs (.access b)) c).store.currentJournal =
      c.store.currentJournal := by
    induction blocks generalizing c with
    | nil => rfl
    | cons b blocks ih => exact ih _
  rw [Config.holding, haccess]
  rfl

theorem logJournal_fields (start : Nat) (hstart : start ∈ [0, 1]) : (logJournal start).head = start ∧
    (logJournal start).first = 1 ∧ (logJournal start).size = 8 ∧ (logJournal start).startBlock = 10 := by
  revert start
  decide +kernel

theorem log_contiguous (start : Nat) (hstart : start ∈ [0, 1]) :
    Contiguous smallFs (logDrives start) (logInode start) (logJournal start) := by
  obtain ⟨-, -, hsize, hfirst⟩ := logJournal_fields start hstart
  rw [Contiguous, hsize, hfirst]
  clear hsize hfirst
  revert start
  decide +kernel

theorem first_commit_in_log :
    (jbd2Commit noFaults smallFs ((logConfig 1).holding [100]).store).written = [11, 12, 13] ∧
    ∀ b ∈ ([11, 12, 13] : List (BitVec 32)), InLogArea smallFs (logDrives 1) (logInode 1) (logJournal 1) b := by
  have hstart := @logConfig_start 1 (by decide +kernel) (by decide +kernel)
  have hwritten : (jbd2Commit noFaults smallFs ((logConfig 1).holding [100]).store).written =
      [11, 12, 13] := by decide +kernel
  have hfits : ((logConfig 1).holding [100]).Fits := by
    intro j h hj hh _
    rw [holding_journal] at hj
    obtain rfl := Option.some_inj.mp hj
    have hblocks : ((logConfig 1).holding [100]).store.currentHandle.map (·.blocks.length) = some 1 := by
      decide +kernel
    rw [hh] at hblocks
    obtain ⟨hhead, hfirst, hsize, -⟩ := logJournal_fields 1 (by decide)
    have hlength : h.blocks.length = 1 := Option.some_inj.mp hblocks
    rw [Room, hlength]
    dsimp only
    rw [hhead, hfirst, hsize]
    decide
  refine ⟨hwritten, fun b hb => ?_⟩
  have hlog := (commits_stay_in_log_iff hstart (log_contiguous 1 (by decide)) (holding_run _ [100])).mpr hfits
  exact (hlog noFaults b (hwritten ▸ hb)).1

/-- The log of a journal that was closed cleanly starts at 0, and the first commit overwrites the
superblock. A transaction of six blocks from position 1 on runs past the last of the eight blocks; one of
four blocks just fits, but then the head goes back and the next descriptor meets the first. -/
theorem commits_leave_log :
    Start smallFs (logState 0) (logInode 0) (logJournal 0) (logConfig 0) ∧
    Contiguous smallFs (logDrives 0) (logInode 0) (logJournal 0) ∧
    smallFs.blockMap (logDrives 0) (logInode 0) 0 = 10 ∧
    10 ∈ (jbd2Commit noFaults smallFs ((logConfig 0).holding [100]).store).written ∧
    Start smallFs (logState 1) (logInode 1) (logJournal 1) (logConfig 1) ∧
    Contiguous smallFs (logDrives 1) (logInode 1) (logJournal 1) ∧
    18 ∈ (jbd2Commit noFaults smallFs
      ((logConfig 1).holding [100, 101, 102, 103, 104, 105]).store).written ∧
    ¬InLogArea smallFs (logDrives 1) (logInode 1) (logJournal 1) 18 ∧
    ∃ b ∈ (jbd2Commit noFaults smallFs ((((logConfig 1).holding [100, 101, 102, 103]).call smallFs
        (.commit noFaults)).holding [104]).store).written,
      b ∈ (((logConfig 1).holding [100, 101, 102, 103]).call smallFs (.commit noFaults)).logged := by
  refine ⟨@logConfig_start 0 (by decide +kernel) (by decide +kernel), log_contiguous 0 (by decide),
    by decide +kernel, by decide +kernel, @logConfig_start 1 (by decide +kernel) (by decide +kernel),
    log_contiguous 1 (by decide), by decide +kernel, fun h => ?_, 11, by decide +kernel, by decide +kernel⟩
  obtain ⟨-, -, hsize, hfirst⟩ := logJournal_fields 1 (by decide)
  have hblock : (18 : BitVec 32) = (logJournal 1).startBlock + 8 := by rw [hfirst]; rfl
  rw [hblock, (log_contiguous 1 (by decide)).inLogArea_iff, hsize] at h
  exact absurd h.2.2 (by decide)

end TocinOS.Jbd2.Log
