import TocinOS.VmmTables

/-! The page cache of `kernel/mm/page_cache.c`. Entries live in a fixed pool; the hash
chains, the list in order of use and the list of free entries are lists of their indices.
Counters and time stamps that nothing reads are left out. -/

namespace TocinOS.PageCache

open Function (update)
open Pmm (pageSize lowPages maxPages pmmFreePage)

abbrev vmmPageCachePoolSize : Nat := 512

structure Entry where
  inode : BitVec 32 := 0
  offset : BitVec 32 := 0
  physAddr : BitVec 32 := 0
  refCount : BitVec 32 := 0
  dirty : Bool := false
  locked : Bool := false
  uptodate : Bool := false

structure Cache where
  initialized : Bool
  pool : Nat → Entry
  freeList : List Nat
  hash : Nat → List Nat
  lru : List Nat

def Cache.modify (c : Cache) (i : Nat) (f : Entry → Entry) : Cache :=
  { c with pool := update c.pool i (f (c.pool i)) }

def pageCacheHashFn (inode offset : BitVec 32) : Nat :=
  ((inode ^^^ (offset <<< 4) ^^^ (offset >>> 3)) &&& 0xFF#32).toNat

def Entry.bucket (e : Entry) : Nat := pageCacheHashFn e.inode e.offset

def lruTouch (c : Cache) (i : Nat) : Cache :=
  if c.lru.head? = some i then c else { c with lru := i :: c.lru.erase i }

def vmmPageCacheInit (c : Cache) : Cache :=
  if c.initialized then c
  else
    { c with
      initialized := true
      freeList := List.range vmmPageCachePoolSize
      hash := fun _ => []
      lru := [] }

def vmmPageCacheLookup (c : Cache) (inode offset : BitVec 32) : Cache × Option Nat :=
  let c := vmmPageCacheInit c
  match (c.hash (pageCacheHashFn inode offset)).find? fun i =>
      (c.pool i).inode == inode && (c.pool i).offset == offset with
  | some i => (lruTouch c i, some i)
  | none => (c, none)

/-- Writing back a dirty page is a message on the serial line only. -/
def vmmPageCacheRemove (c : Cache) (m : Pmm.State) (i : Nat) : Cache × Pmm.State :=
  let e := c.pool i
  let c := { c with
    hash := update c.hash e.bucket ((c.hash e.bucket).erase i)
    lru := c.lru.erase i
    freeList := i :: c.freeList }
  if e.refCount ≤ 1 ∧ e.physAddr ≠ 0 then (c, pmmFreePage m e.physAddr.toNat) else (c, m)

def Entry.evictable (e : Entry) : Bool := !(e.locked || decide (1 < e.refCount))

def victim (c : Cache) : Option Nat := c.lru.reverse.find? fun i => (c.pool i).evictable

def evictLoop : Nat → Cache → Pmm.State → Cache × Pmm.State
  | 0, c, m => (c, m)
  | n + 1, c, m =>
    match victim c with
    | none => (c, m)
    | some i =>
      let (c, m) := vmmPageCacheRemove c m i
      evictLoop n c m

def vmmPageCacheEvict (c : Cache) (m : Pmm.State) (numPages : BitVec 32) : Cache × Pmm.State :=
  if !c.initialized then (c, m) else evictLoop numPages.toNat c m

def cacheEntryAlloc (c : Cache) (m : Pmm.State) : Cache × Pmm.State × Option Nat :=
  let (c, m) := if c.freeList = [] then vmmPageCacheEvict c m 4 else (c, m)
  match c.freeList with
  | [] => (c, m, none)
  | i :: rest => ({ c with freeList := rest, pool := update c.pool i {} }, m, some i)

def vmmPageCacheInsert (c : Cache) (m : Pmm.State) (inode offset physAddr : BitVec 32) :
    Cache × Pmm.State × Option Nat :=
  match vmmPageCacheLookup c inode offset with
  | (c, some i) => (c, m, some i)
  | (c, none) =>
    match cacheEntryAlloc c m with
    | (c, m, none) => (c, m, none)
    | (c, m, some i) =>
      let e := { c.pool i with inode, offset, physAddr, refCount := 1, uptodate := true }
      let bucket := pageCacheHashFn inode offset
      ({ c with
        pool := update c.pool i e
        hash := update c.hash bucket (i :: c.hash bucket)
        lru := i :: c.lru }, m, some i)

end TocinOS.PageCache
