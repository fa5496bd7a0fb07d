import TocinOS.MemoryWords

/-! The headers of ELF files as they lie in memory, and block stores into memory. -/

namespace ElfFormat

open MemoryWords (Memory)

structure Ehdr where
  type : Nat
  machine : Nat
  entry : Nat
  phoff : Nat
  phentsize : Nat
  phnum : Nat

structure Phdr where
  type : Nat
  offset : Nat
  vaddr : Nat
  paddr : Nat
  filesz : Nat
  memsz : Nat
  deriving DecidableEq

abbrev ptLoad : Nat := 1
abbrev ehdrSize32 : Nat := 52
abbrev phdrSize32 : Nat := 32
abbrev ehdrSize64 : Nat := 64
abbrev phdrSize64 : Nat := 56

def ehdr32 (m : Memory) (a : Nat) : Ehdr where
  type := LittleEndian.get m (a + 16) 2
  machine := LittleEndian.get m (a + 18) 2
  entry := LittleEndian.get m (a + 24) 4
  phoff := LittleEndian.get m (a + 28) 4
  phentsize := LittleEndian.get m (a + 42) 2
  phnum := LittleEndian.get m (a + 44) 2

def phdr32 (m : Memory) (a : Nat) : Phdr where
  type := LittleEndian.get m a 4
  offset := LittleEndian.get m (a + 4) 4
  vaddr := LittleEndian.get m (a + 8) 4
  paddr := LittleEndian.get m (a + 12) 4
  filesz := LittleEndian.get m (a + 16) 4
  memsz := LittleEndian.get m (a + 20) 4

def ehdr64 (m : Memory) (a : Nat) : Ehdr where
  type := LittleEndian.get m (a + 16) 2
  machine := LittleEndian.get m (a + 18) 2
  entry := LittleEndian.get m (a + 24) 8
  phoff := LittleEndian.get m (a + 32) 8
  phentsize := LittleEndian.get m (a + 54) 2
  phnum := LittleEndian.get m (a + 56) 2

def phdr64 (m : Memory) (a : Nat) : Phdr where
  type := LittleEndian.get m a 4
  offset := LittleEndian.get m (a + 8) 8
  vaddr := LittleEndian.get m (a + 16) 8
  paddr := LittleEndian.get m (a + 24) 8
  filesz := LittleEndian.get m (a + 32) 8
  memsz := LittleEndian.get m (a + 40) 8

variable {m m' : Memory} {a : Nat}

theorem phdr32_congr (h : ∀ x, a ≤ x → x < a + phdrSize32 → m' x = m x) :
    phdr32 m' a = phdr32 m a := by
  have hget {k n : Nat} (hk : k + n ≤ 32) :
      LittleEndian.get m' (a + k) n = LittleEndian.get m (a + k) n :=
    LittleEndian.get_congr fun x hx hx' => h x (by omega) (by simp only [phdrSize32]; omega)
  have hzero : LittleEndian.get m' a 4 = LittleEndian.get m a 4 := hget (k := 0) (by omega)
  simp only [phdr32, hzero, hget (show 4 + 4 ≤ 32 by omega), hget (show 8 + 4 ≤ 32 by omega),
    hget (show 12 + 4 ≤ 32 by omega), hget (show 16 + 4 ≤ 32 by omega),
    hget (show 20 + 4 ≤ 32 by omega)]

theorem phdr64_congr (h : ∀ x, a ≤ x → x < a + phdrSize64 → m' x = m x) :
    phdr64 m' a = phdr64 m a := by
  have hget {k n : Nat} (hk : k + n ≤ 56) :
      LittleEndian.get m' (a + k) n = LittleEndian.get m (a + k) n :=
    LittleEndian.get_congr fun x hx hx' => h x (by omega) (by simp only [phdrSize64]; omega)
  have hzero : LittleEndian.get m' a 4 = LittleEndian.get m a 4 := hget (k := 0) (by omega)
  simp only [phdr64, hzero, hget (show 8 + 8 ≤ 56 by omega), hget (show 16 + 8 ≤ 56 by omega),
    hget (show 24 + 8 ≤ 56 by omega), hget (show 32 + 8 ≤ 56 by omega),
    hget (show 40 + 8 ≤ 56 by omega)]

def copyBytes (m : Memory) (dst src n : Nat) : Memory := fun x =>
  if dst ≤ x ∧ x < dst + n then m (src + (x - dst)) else m x

def zeroBytes (m : Memory) (dst n : Nat) : Memory := fun x =>
  if dst ≤ x ∧ x < dst + n then 0 else m x

def placeBytes (m : Memory) (dst src filesz n : Nat) : Memory :=
  zeroBytes (copyBytes m dst src filesz) (dst + filesz) (n - filesz)

variable {dst src filesz n x : Nat}

theorem placeBytes_of_outside (h : filesz ≤ n) (hx : x < dst ∨ dst + n ≤ x) :
    placeBytes m dst src filesz n x = m x := by
  rw [placeBytes, zeroBytes, if_neg (by omega), copyBytes, if_neg (by omega)]

theorem placeBytes_inside {k : Nat} (h : filesz ≤ n) (hk : k < n) :
    placeBytes m dst src filesz n (dst + k) = if k < filesz then m (src + k) else 0 := by
  rw [placeBytes, zeroBytes]
  by_cases hlt : k < filesz
  · rw [if_neg (by omega), copyBytes, if_pos (by omega), if_pos hlt, Nat.add_sub_cancel_left]
  · rw [if_pos (by omega), if_neg hlt]

end ElfFormat
