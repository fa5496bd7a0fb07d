import TocinOS.SparseBlocks

/-! The memory file system of `fs/tmpfs.c`. Inodes are named by their addresses, strings are
lists of characters without the terminating zero, and `allocs` says which of the calls of
`kmalloc` to come return memory, by whatever rule the heap has. -/

namespace TocinOS.Tmpfs

open SparseBlocks (copyAt)

abbrev Byte := BitVec 8
abbrev Bytes := Nat → Byte
abbrev Str := List Char

abbrev blockSize : Nat := 4096
abbrev maxFileSize : Nat := 1024 * 1024
abbrev maxName : Nat := 64
abbrev defaultMaxSize : BitVec 32 := 16 * 1024 * 1024

inductive InodeType
  | file
  | dir
  | symlink
  deriving DecidableEq

structure Inode where
  type : InodeType
  size : BitVec 32 := 0
  blocks : List (Option Bytes) := []
  entries : List (Str × Nat) := []

structure Instance where
  mountpoint : Str
  maxSize : BitVec 32
  usedSize : BitVec 32
  root : Nat

structure State where
  instances : List Instance
  inodes : Nat → Inode
  next : Nat
  allocs : Nat → Bool

def later (allocs : Nat → Bool) : Nat → Bool := fun k => allocs (k + 1)

/-! ### Files -/

def readLoop (toRead : Nat) : List (Option Bytes) → Nat → Nat → Bytes → Nat × Bytes
  | [], _, bytesRead, dst => (bytesRead, dst)
  | block :: rest, blockOffset, bytesRead, dst =>
    if bytesRead < toRead then
      let chunk := min (blockSize - blockOffset) (toRead - bytesRead)
      readLoop toRead rest 0 (bytesRead + chunk)
        (copyAt bytesRead chunk (fun i => block.getD (fun _ => 0) (blockOffset + i)) dst)
    else (bytesRead, dst)

def tmpfsFileRead (inode : Inode) (offset : BitVec 32) (buffer : Bytes) (size : BitVec 32) :
    Int × Bytes :=
  if inode.type ≠ .file then (-1, buffer)
  else if inode.size ≤ offset then (0, buffer)
  else
    let toRead := if inode.size < offset + size then inode.size - offset else size
    let r := readLoop toRead.toNat (inode.blocks.drop (offset.toNat / blockSize))
      (offset.toNat % blockSize) 0 buffer
    (r.1, r.2)

structure Writing where
  blocks : List (Option Bytes)
  usedSize : BitVec 32
  allocs : Nat → Bool

/-- Append `n` blocks without data; false if there is no memory for one. -/
def ensureBlocks : Nat → Writing → Bool × Writing
  | 0, w => (true, w)
  | n + 1, w =>
    if w.allocs 0 = true then
      ensureBlocks n { w with blocks := w.blocks ++ [none], allocs := later w.allocs }
    else (false, { w with allocs := later w.allocs })

/-- The data of block `k`, allocated if it has none. -/
def blockData (k : Nat) (w : Writing) : Option Bytes × Writing :=
  match w.blocks[k]? with
  | some (some data) => (some data, w)
  | _ =>
    if w.allocs 0 = true then
      (some fun _ => 0, { w with usedSize := w.usedSize + 4096, allocs := later w.allocs })
    else (none, { w with allocs := later w.allocs })

def Writing.setBlock (w : Writing) (k : Nat) (data : Bytes) : Writing :=
  { w with blocks := w.blocks.set k (some data) }

def nextBlock (k : Nat) (w : Writing) : Bool × Writing :=
  if k + 1 < w.blocks.length then (true, w)
  else if w.allocs 0 = true then
    (true, { w with blocks := w.blocks ++ [none], allocs := later w.allocs })
  else (false, { w with allocs := later w.allocs })

def writeLoop (src : Bytes) (size : Nat) :
    Nat → Nat → Nat → Nat → Writing → Nat × Writing
  | 0, _, _, written, w => (written, w)
  | fuel + 1, k, blockOffset, written, w =>
    if written < size then
      match blockData k w with
      | (none, w) => (written, w)
      | (some data, w) =>
        let chunk := min (blockSize - blockOffset) (size - written)
        let w := w.setBlock k (copyAt blockOffset chunk (fun i => src (written + i)) data)
        if written + chunk < size then
          match nextBlock k w with
          | (false, w) => (written + chunk, w)
          | (true, w) => writeLoop src size fuel (k + 1) 0 (written + chunk) w
        else (written + chunk, w)
    else (written, w)

def quotaPasses (fs : Instance) (inode : Inode) (offset size : BitVec 32) : Bool :=
  let newBlocksNeeded := (offset + size + 4095) / 4096
  let currentBlocks := (inode.size + 4095) / 4096
  if currentBlocks < newBlocksNeeded then
    decide (fs.usedSize + (newBlocksNeeded - currentBlocks) * 4096 ≤ fs.maxSize)
  else true

/-- The blocks are written from `offset` on; every round writes at least one byte. -/
def writeBlocks (offset : Nat) (src : Bytes) (size : Nat) (w : Writing) : Option Nat × Writing :=
  let k := offset / blockSize
  match ensureBlocks (k + 1 - w.blocks.length) w with
  | (false, w) => (none, w)
  | (true, w) =>
    let r := writeLoop src size (size + 1) k (offset % blockSize) 0 w
    (some r.1, r.2)

def tmpfsFileWrite (fs : Instance) (inode : Inode) (offset : BitVec 32) (buffer : Option Bytes)
    (size : BitVec 32) (allocs : Nat → Bool) : Int × Inode × Instance × (Nat → Bool) :=
  match buffer with
  | none => (-1, inode, fs, allocs)
  | some src =>
    if inode.type ≠ .file then (-1, inode, fs, allocs)
    else if BitVec.ofNat 32 maxFileSize < offset + size then (-1, inode, fs, allocs)
    else if quotaPasses fs inode offset size = false then (-1, inode, fs, allocs)
    else
      match writeBlocks offset.toNat src size.toNat ⟨inode.blocks, fs.usedSize, allocs⟩ with
      | (none, w) => (0, { inode with blocks := w.blocks }, { fs with usedSize := w.usedSize },
          w.allocs)
      | (some written, w) =>
        let stop := offset + BitVec.ofNat 32 written
        (written,
          { inode with blocks := w.blocks, size := if inode.size < stop then stop else inode.size },
          { fs with usedSize := w.usedSize }, w.allocs)

def tmpfsFileTruncate (fs : Instance) (inode : Inode) (size : BitVec 32) :
    Int × Inode × Instance :=
  if inode.type ≠ .file then (-1, inode, fs)
  else if BitVec.ofNat 32 maxFileSize < size then (-1, inode, fs)
  else
    let newBlocks := ((size + 4095) / 4096).toNat
    let freed := ((inode.blocks.drop newBlocks).filter Option.isSome).length
    (0, { inode with blocks := inode.blocks.take newBlocks, size := size },
      { fs with usedSize := fs.usedSize - BitVec.ofNat 32 (freed * 4096) })

def State.setInode (s : State) (i : Nat) (inode : Inode) : State :=
  { s with inodes := Function.update s.inodes i inode }

/-- `tmpfs_vfs_write` accounts every file to the first instance. -/
def tmpfsVfsWrite (s : State) (i : Nat) (offset size : BitVec 32) (buffer : Option Bytes) :
    State × Int :=
  match s.instances with
  | [] => (s, -1)
  | inst :: rest =>
    let r := tmpfsFileWrite inst (s.inodes i) offset buffer size s.allocs
    ({ s.setInode i r.2.1 with instances := r.2.2.1 :: rest, allocs := r.2.2.2 }, r.1)

def tmpfsVfsRead (s : State) (i : Nat) (offset size : BitVec 32) (buffer : Bytes) : Int × Bytes :=
  tmpfsFileRead (s.inodes i) offset buffer size

/-! ### Directories and paths -/

def tmpfsCreateInode (s : State) (type : InodeType) : Option Nat × State :=
  if s.allocs 0 = true then
    (some s.next,
      { s.setInode s.next { type } with next := s.next + 1, allocs := later s.allocs })
  else (none, { s with allocs := later s.allocs })

def tmpfsDirAddEntry (s : State) (dir : Nat) (name : Str) (inode : Nat) : State × Int :=
  if (s.inodes dir).type ≠ .dir then (s, -1)
  else if s.allocs 0 = true then
    ({ s.setInode dir { s.inodes dir with entries := (name, inode) :: (s.inodes dir).entries }
        with allocs := later s.allocs }, 0)
  else ({ s with allocs := later s.allocs }, -1)

def tmpfsDirFindEntry (inodes : Nat → Inode) (dir : Nat) (name : Str) : Option Nat :=
  if (inodes dir).type ≠ .dir then none
  else ((inodes dir).entries.find? fun e => e.1 = name).map Prod.snd

/-- A string argument, with what stands behind its terminator: `beyond n` is the string that
starts `n` characters after its first. -/
structure Path where
  text : Str
  beyond : Nat → Str

def Path.from_ (path : Path) (n : Nat) : Str :=
  if n ≤ path.text.length then path.text.drop n else path.beyond n

def matchesMountpoint : Str → Str → Bool
  | a :: s, b :: t => if a ≠ b then false else matchesMountpoint s t
  | _, _ => true

def skipSlash : Str → Str
  | '/' :: s => s
  | s => s

def relPath (mountpoint : Str) (path : Path) : Str :=
  skipSlash <|
    if path.text.head? = some '/' ∧ 1 < mountpoint.length ∧
        matchesMountpoint path.text mountpoint = true then
      skipSlash (path.from_ mountpoint.length)
    else path.text

inductive Resolved
  | found (inode : Nat)
  | missing (parent : Nat) (name : Str)
  deriving DecidableEq

/-- `component` is the part of the current name read so far; it keeps 63 characters. -/
def resolveLoop (inodes : Nat → Inode) (current : Nat) (component : Str) : Str → Resolved
  | [] =>
    if component = [] then .found current
    else
      match tmpfsDirFindEntry inodes current component with
      | none => .missing current component
      | some inode => .found inode
  | c :: rest =>
    if c = '/' then
      if component = [] then resolveLoop inodes current [] rest
      else
        match tmpfsDirFindEntry inodes current component with
        | none => .missing current component
        | some inode => resolveLoop inodes inode [] rest
    else if component.length < maxName - 1 then
      resolveLoop inodes current (component ++ [c]) rest
    else resolveLoop inodes current component rest

def tmpfsResolvePath (fs : Instance) (inodes : Nat → Inode) (path : Path) : Resolved :=
  if path.text = fs.mountpoint then .found fs.root
  else resolveLoop inodes fs.root [] (relPath fs.mountpoint path)

def tmpfsVfsMount (s : State) (mountpoint : Str) : State × Int :=
  if s.allocs 0 = true then
    match tmpfsCreateInode { s with allocs := later s.allocs } .dir with
    | (none, s) => (s, -1)
    | (some root, s) =>
      let s := (tmpfsDirAddEntry s root ['.'] root).1
      let s := (tmpfsDirAddEntry s root ['.', '.'] root).1
      ({ s with instances := ⟨mountpoint, defaultMaxSize, 0, root⟩ :: s.instances }, 0)
  else ({ s with allocs := later s.allocs }, -1)

def tmpfsCreateFile (s : State) (path : Path) (data : Option Bytes) (size : BitVec 32) :
    State × Int :=
  match s.instances with
  | [] => (s, -1)
  | inst :: rest =>
    match tmpfsResolvePath inst s.inodes path with
    | .found i =>
      if (s.inodes i).type ≠ .file then (s, -1)
      else
        let t := tmpfsFileTruncate inst (s.inodes i) 0
        let s := { s.setInode i t.2.1 with instances := t.2.2 :: rest }
        tmpfsVfsWrite s i 0 size data
    | .missing parent name =>
      if (s.inodes parent).type ≠ .dir then (s, -1)
      else
        match tmpfsCreateInode s .file with
        | (none, s) => (s, -1)
        | (some i, s) =>
          let s := (tmpfsDirAddEntry s parent name i).1
          if data.isSome ∧ 0 < size then tmpfsVfsWrite s i 0 size data else (s, 0)

end TocinOS.Tmpfs
