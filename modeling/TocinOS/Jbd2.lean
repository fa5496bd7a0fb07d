import TocinOS.Ext2

/-! The journal of `kernel/ext2.c`: its blocks, `jbd2_init`, and how a transaction begins. -/

namespace TocinOS.Jbd2

open Ext2 LittleEndian

def magicNumber : BitVec 32 := 0xC03B3998
def descriptorBlock : BitVec 32 := 1
def commitBlock : BitVec 32 := 2
def flagLastTag : BitVec 16 := 0x08
abbrev headerSize : Nat := 12
abbrev tagSize : Nat := 8
abbrev maxBlocks : Nat := 64

structure Journal where
  inode : BitVec 32 := 0
  startBlock : BitVec 32 := 0
  size : BitVec 32 := 0
  first : BitVec 32 := 0
  sequence : BitVec 32 := 0
  head : BitVec 32 := 0
  tail : BitVec 32 := 0
  running : Bool := false

structure Handle where
  sequence : BitVec 32
  blocks : List (BitVec 32)

structure State where
  io : Ext2.State
  currentJournal : Option Journal
  currentHandle : Option Handle

/-! ### Fields of journal blocks -/

def word (buffer : Bytes) (pos : Nat) : BitVec 32 := BitVec.ofNat 32 (get buffer pos 4)

def hMagic (buffer : Bytes) : BitVec 32 := word buffer 0
def sFirst (buffer : Bytes) : BitVec 32 := word buffer 20
def sSequence (buffer : Bytes) : BitVec 32 := word buffer 24
def sStart (buffer : Bytes) : BitVec 32 := word buffer 28

def putHeader (blocktype sequence : BitVec 32) : Bytes :=
  put (put (put (fun _ => 0) 0 4 magicNumber.toNat) 4 4 blocktype.toNat) 8 4 sequence.toNat

def putTag (buffer : Bytes) (tag : Nat) (blocknr : BitVec 32) (flags : BitVec 16) : Bytes :=
  put (put (put buffer tag 4 blocknr.toNat) (tag + 4) 2 0) (tag + 6) 2 flags.toNat

def putTags (blocks : List (BitVec 32)) (buffer : Bytes) : Bytes :=
  blocks.zipIdx.foldl (fun buffer (blocknr, i) =>
    putTag buffer (headerSize + tagSize * i) blocknr
      (if i = blocks.length - 1 then flagLastTag else 0)) buffer

/-! ### Mounting -/

/-- The result and the state after `jbd2_init`. The journal is current even when the
initialisation fails. -/
def jbd2Init (fs : Fs) (s : State) : Int × State :=
  if fs.journalInum = 0 then (0, s)
  else
    let journal :=
      { s.currentJournal.getD {} with inode := fs.journalInum, running := false }
    match ext2ReadInode fs fs.journalInum s.io with
    | (none, io) => (-1, { s with io, currentJournal := some journal })
    | (some inode, io) =>
      let journal := { journal with
        startBlock := iBlock inode 0
        size := iSize inode / BitVec.ofNat 32 fs.blockSize }
      let (buffer, io) := ext2ReadBlock fs journal.startBlock (fun _ => 0) io
      if hMagic buffer ≠ magicNumber then (-1, { s with io, currentJournal := some journal })
      else
        let journal := { journal with
          first := sFirst buffer
          sequence := sSequence buffer
          head := sStart buffer
          tail := sStart buffer }
        (0, { s with io, currentJournal := some journal })

/-- The log positions are compared with `j_size - j_first`. -/
def Journal.wrap (j : Journal) (pos : BitVec 32) : BitVec 32 :=
  if j.size - j.first ≤ pos then 0 else pos

/-! ### Transactions -/

def jbd2Start (s : State) : Option Handle × State :=
  match s.currentJournal, s.currentHandle with
  | some journal, none =>
    let handle := ⟨journal.sequence, []⟩
    (some handle, { s with
      currentJournal := some { journal with sequence := journal.sequence + 1, running := true }
      currentHandle := some handle })
  | _, _ => (none, s)

def jbd2GetWriteAccess (handle : Handle) (blockNum : BitVec 32) : Int × Handle :=
  if maxBlocks ≤ handle.blocks.length then (-1, handle)
  else if blockNum ∈ handle.blocks then (0, handle)
  else (0, { handle with blocks := handle.blocks ++ [blockNum] })

end TocinOS.Jbd2
