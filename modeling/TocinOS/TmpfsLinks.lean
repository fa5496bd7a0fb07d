import TocinOS.Tmpfs

/-! The link counts and inode lists of `fs/tmpfs.c`, with the calls that make and remove names.
`tmpfs_create_inode` starts the count at one, before there is a name. -/

namespace TocinOS.TmpfsLinks

open Function
open Tmpfs (Bytes Inode InodeType Str later tmpfsDirFindEntry)

/-- The file system, the count of every inode, and the inode list of every instance, in the order of
the instances. -/
structure State where
  fs : Tmpfs.State
  nlink : Nat → BitVec 16
  lists : List (List Nat)

def tmpfsCreateInode (s : State) (type : InodeType) : Option Nat × State :=
  match Tmpfs.tmpfsCreateInode s.fs type with
  | (none, fs) => (none, { s with fs })
  | (some i, fs) => (some i, { s with fs, nlink := update s.nlink i 1 })

def State.enlist (s : State) (i : Nat) : State :=
  match s.lists with
  | [] => s
  | l :: rest => { s with lists := (i :: l) :: rest }

def tmpfsDirAddEntry (s : State) (dir : Nat) (name : Str) (inode : Nat) : State × Int :=
  match Tmpfs.tmpfsDirAddEntry s.fs dir name inode with
  | (fs, r) =>
    ({ s with fs, nlink := if r = 0 then update s.nlink inode (s.nlink inode + 1) else s.nlink }, r)

def tmpfsDirRemoveEntry (s : State) (dir : Nat) (name : Str) : State × Int :=
  if (s.fs.inodes dir).type ≠ .dir then (s, -1)
  else
    match (s.fs.inodes dir).entries.find? fun e => e.1 = name with
    | none => (s, -1)
    | some e =>
      ({ s with
        fs := s.fs.setInode dir
          { s.fs.inodes dir with entries := (s.fs.inodes dir).entries.eraseP fun e => e.1 = name }
        nlink := update s.nlink e.2 (s.nlink e.2 - 1) }, 0)

def tmpfsFreeInode (s : State) (i : Nat) : State :=
  match s.fs.instances, s.lists with
  | inst :: rest, l :: lists =>
    let inode := s.fs.inodes i
    let data := if inode.type = .file then (inode.blocks.filter Option.isSome).length else 0
    { s with
      fs := { s.fs.setInode i { inode with blocks := [], entries := [] } with
        instances := { inst with usedSize := inst.usedSize - BitVec.ofNat 32 (data * 4096) } :: rest }
      lists := l.erase i :: lists }
  | _, _ => s

def tmpfsVfsMount (s : State) (mountpoint : Str) : State × Int :=
  if s.fs.allocs 0 = true then
    match tmpfsCreateInode { s with fs := { s.fs with allocs := later s.fs.allocs } } .dir with
    | (none, s) => (s, -1)
    | (some root, s) =>
      let s := { s with lists := [root] :: s.lists }
      let s := (tmpfsDirAddEntry s root ['.'] root).1
      let s := (tmpfsDirAddEntry s root ['.', '.'] root).1
      ({ s with fs := { s.fs with
        instances := ⟨mountpoint, Tmpfs.defaultMaxSize, 0, root⟩ :: s.fs.instances } }, 0)
  else ({ s with fs := { s.fs with allocs := later s.fs.allocs } }, -1)

theorem tmpfsVfsMount_fs (s : State) (mountpoint : Str) :
    (tmpfsVfsMount s mountpoint).1.fs = (Tmpfs.tmpfsVfsMount s.fs mountpoint).1 := by
  rw [tmpfsVfsMount, Tmpfs.tmpfsVfsMount]
  split
  · rw [tmpfsCreateInode]
    rcases Tmpfs.tmpfsCreateInode _ .dir with ⟨_ | root, fs⟩ <;> rfl
  · rfl

abbrev vfsTypeDir : BitVec 32 := 2

def tmpfsVfsCreate (s : State) (dir : Nat) (name : Str) (type : BitVec 32) : State × Int :=
  if (s.fs.inodes dir).type ≠ .dir then (s, -1)
  else if (tmpfsDirFindEntry s.fs.inodes dir name).isSome then (s, -1)
  else
    let inodeType : InodeType := if type = vfsTypeDir then .dir else .file
    match tmpfsCreateInode s inodeType with
    | (none, s) => (s, -1)
    | (some i, s) =>
      let s := s.enlist i
      let s := if inodeType = .dir then
          (tmpfsDirAddEntry (tmpfsDirAddEntry s i ['.'] i).1 i ['.', '.'] dir).1
        else s
      tmpfsDirAddEntry s dir name i

def dropName (s : State) (dir : Nat) (name : Str) (i : Nat) : State :=
  let s := (tmpfsDirRemoveEntry s dir name).1
  if s.nlink i = 0 then tmpfsFreeInode s i else s

def tmpfsVfsUnlink (s : State) (dir : Nat) (name : Str) : State × Int :=
  match tmpfsDirFindEntry s.fs.inodes dir name with
  | none => (s, -1)
  | some i => if (s.fs.inodes i).type = .dir then (s, -1) else (dropName s dir name i, 0)

def tmpfsVfsRmdir (s : State) (dir : Nat) (name : Str) : State × Int :=
  match tmpfsDirFindEntry s.fs.inodes dir name with
  | none => (s, -1)
  | some i =>
    if (s.fs.inodes i).type ≠ .dir then (s, -1)
    else if 2 < (s.fs.inodes i).entries.length then (s, -1)
    else (dropName s dir name i, 0)

def tmpfsVfsWrite (s : State) (i : Nat) (offset size : BitVec 32) (buffer : Option Bytes) : State :=
  { s with fs := (Tmpfs.tmpfsVfsWrite s.fs i offset size buffer).1 }

def namesIn (inode : Inode) (i : Nat) : Nat := inode.entries.countP fun e => e.2 = i

def State.naming (s : State) (i : Nat) : Nat :=
  ∑ j ∈ Finset.range s.fs.next, namesIn (s.fs.inodes j) i

inductive Call
  | mount (mountpoint : Str)
  | create (dir : Nat) (name : Str) (type : BitVec 32)
  | unlink (dir : Nat) (name : Str)
  | rmdir (dir : Nat) (name : Str)
  | write (i : Nat) (offset size : BitVec 32) (buffer : Option Bytes)

def Call.run (s : State) : Call → State
  | .mount mountpoint => (tmpfsVfsMount s mountpoint).1
  | .create dir name type => (tmpfsVfsCreate s dir name type).1
  | .unlink dir name => (tmpfsVfsUnlink s dir name).1
  | .rmdir dir name => (tmpfsVfsRmdir s dir name).1
  | .write i offset size buffer => tmpfsVfsWrite s i offset size buffer

def Call.Removes : Call → Prop
  | .unlink .. | .rmdir .. => True
  | _ => False

/-- The inodes exist, and where a name is removed the number of names fits in 16 bits. -/
def Call.Proper (s : State) : Call → Prop
  | .mount _ => True
  | .create dir _ _ => dir < s.fs.next
  | .unlink dir _ | .rmdir dir _ => dir < s.fs.next ∧ ∀ i < s.fs.next, s.naming i < 2 ^ 16
  | .write i _ _ _ => i < s.fs.next

def Step (s s' : State) : Prop := ∃ call : Call, call.Proper s ∧ s' = call.run s

/-! ### One changed directory -/

variable {s t : State} {i j dir : Nat} {inode : Inode}

theorem naming_update (hdir : dir < s.fs.next) (hnext : t.fs.next = s.fs.next)
    (hinodes : t.fs.inodes = update s.fs.inodes dir inode) :
    t.naming i + namesIn (s.fs.inodes dir) i = s.naming i + namesIn inode i := by
  have hmem : dir ∈ Finset.range s.fs.next := Finset.mem_range.mpr hdir
  have hrest : ∑ j ∈ (Finset.range s.fs.next).erase dir, namesIn (t.fs.inodes j) i =
      ∑ j ∈ (Finset.range s.fs.next).erase dir, namesIn (s.fs.inodes j) i := by
    refine Finset.sum_congr rfl fun j hj => ?_
    rw [hinodes, update_of_ne (Finset.ne_of_mem_erase hj)]
  have hdirNames : namesIn (t.fs.inodes dir) i = namesIn inode i := by
    rw [hinodes, update_self]
  rw [State.naming, State.naming, hnext,
    ← Finset.add_sum_erase _ (fun j => namesIn (t.fs.inodes j) i) hmem,
    ← Finset.add_sum_erase _ (fun j => namesIn (s.fs.inodes j) i) hmem, hrest, hdirNames]
  omega

theorem naming_congr (hnext : t.fs.next = s.fs.next)
    (hentries : ∀ j < s.fs.next, (t.fs.inodes j).entries = (s.fs.inodes j).entries) :
    t.naming i = s.naming i := by
  rw [State.naming, State.naming, hnext]
  refine Finset.sum_congr rfl fun j hj => ?_
  rw [namesIn, namesIn, hentries j (Finset.mem_range.mp hj)]

/-- The count of every inode is one more than its names, up to the 16 bits that it has. -/
structure Inv (s : State) : Prop where
  counted : ∀ i < s.fs.next, s.nlink i = BitVec.ofNat 16 (s.naming i + 1)
  named : ∀ j < s.fs.next, ∀ e ∈ (s.fs.inodes j).entries, e.2 < s.fs.next
  listed : ∀ i < s.fs.next, ∃ l ∈ s.lists, i ∈ l

theorem Inv.same (h : Inv s) (hnlink : t.nlink = s.nlink) (hlists : t.lists = s.lists)
    (hnext : t.fs.next = s.fs.next)
    (hentries : ∀ j < s.fs.next, (t.fs.inodes j).entries = (s.fs.inodes j).entries) : Inv t where
  counted i hi := by
    rw [hnext] at hi
    rw [hnlink, naming_congr hnext hentries]
    exact h.counted i hi
  named j hj e he := by
    rw [hnext] at hj ⊢
    rw [hentries j hj] at he
    exact h.named j hj e he
  listed i hi := by
    rw [hnext] at hi
    rw [hlists]
    exact h.listed i hi

theorem Inv.rename (h : Inv s) (hdir : dir < s.fs.next) (hlists : t.lists = s.lists)
    (hnext : t.fs.next = s.fs.next) (hinodes : t.fs.inodes = update s.fs.inodes dir inode)
    {x : BitVec 16} (hnlink : t.nlink = update s.nlink i x)
    (hx : ∀ n, n + namesIn (s.fs.inodes dir) i = s.naming i + namesIn inode i →
      x = BitVec.ofNat 16 (n + 1))
    (hother : ∀ k, k ≠ i → namesIn inode k = namesIn (s.fs.inodes dir) k)
    (hnamed : ∀ e ∈ inode.entries, e.2 < s.fs.next) : Inv t where
  counted k hk := by
    rw [hnlink]
    by_cases hki : k = i
    · rw [hki, update_self]
      exact hx _ (naming_update hdir hnext hinodes)
    · have hsum := naming_update (i := k) hdir hnext hinodes
      rw [hother k hki] at hsum
      rw [update_of_ne hki, Nat.add_right_cancel hsum]
      exact h.counted k (hnext ▸ hk)
  named j hj e he := by
    rw [hnext] at hj ⊢
    rw [hinodes] at he
    by_cases hjd : j = dir
    · rw [hjd, update_self] at he
      exact hnamed e he
    · rw [update_of_ne hjd] at he
      exact h.named j hj e he
  listed k hk := by
    rw [hnext] at hk
    rw [hlists]
    exact h.listed k hk

/-! ### The calls -/

theorem Inv.addEntry (h : Inv s) (hdir : dir < s.fs.next) (hi : i < s.fs.next) (name : Str) :
    Inv (tmpfsDirAddEntry s dir name i).1 := by
  by_cases htype : (s.fs.inodes dir).type ≠ .dir
  · simp only [tmpfsDirAddEntry, Tmpfs.tmpfsDirAddEntry, if_pos htype]
    exact h.same rfl rfl rfl fun _ _ => rfl
  by_cases halloc : s.fs.allocs 0 = true
  · simp only [tmpfsDirAddEntry, Tmpfs.tmpfsDirAddEntry, if_neg htype, if_pos halloc, if_pos]
    have hnames (k : Nat) : namesIn { s.fs.inodes dir with
        entries := (name, i) :: (s.fs.inodes dir).entries } k =
          namesIn (s.fs.inodes dir) k + if i = k then 1 else 0 := by
      simp only [namesIn, List.countP_cons, decide_eq_true_eq]
    refine h.rename (i := i) hdir rfl rfl rfl rfl ?_ ?_ ?_
    · intro n hn
      rw [hnames, if_pos rfl] at hn
      rw [h.counted i hi, show n = s.naming i + 1 by omega, BitVec.ofNat_add (s.naming i + 1) 1]
      rfl
    · intro k hk
      rw [hnames, if_neg (Ne.symm hk), Nat.add_zero]
    · intro e he
      rcases List.mem_cons.mp he with rfl | he
      · exact hi
      · exact h.named dir hdir e he
  · simp only [tmpfsDirAddEntry, Tmpfs.tmpfsDirAddEntry, if_neg htype, if_neg halloc]
    exact h.same rfl rfl rfl fun _ _ => rfl

theorem next_addEntry (s : State) (dir i : Nat) (name : Str) :
    (tmpfsDirAddEntry s dir name i).1.fs.next = s.fs.next := by
  simp only [tmpfsDirAddEntry, Tmpfs.tmpfsDirAddEntry]
  split_ifs <;> rfl

variable {name : Str}

theorem lt_addEntry {k : Nat} (h : k < s.fs.next) :
    k < (tmpfsDirAddEntry s dir name i).1.fs.next := by
  rw [next_addEntry]
  exact h

theorem Inv.naming_eq_zero (h : Inv s) (hi : s.fs.next ≤ i) : s.naming i = 0 := by
  refine Finset.sum_eq_zero fun j hj => List.countP_eq_zero.mpr fun e he hei => ?_
  have hlt := h.named j (Finset.mem_range.mp hj) e he
  rw [of_decide_eq_true hei] at hlt
  omega

theorem Inv.fresh (h : Inv s) (hnext : t.fs.next = s.fs.next + 1) {type : InodeType}
    (hinodes : t.fs.inodes = update s.fs.inodes s.fs.next { type })
    (hnlink : t.nlink = update s.nlink s.fs.next 1)
    (hlists : ∀ l ∈ s.lists, ∃ l' ∈ t.lists, l ⊆ l') (hnew : ∃ l ∈ t.lists, s.fs.next ∈ l) :
    Inv t := by
  have hold {j : Nat} (hj : j < s.fs.next) : t.fs.inodes j = s.fs.inodes j := by
    rw [hinodes, update_of_ne (Nat.ne_of_lt hj)]
  have hnaming (i : Nat) : t.naming i = s.naming i := by
    have hlast : namesIn (t.fs.inodes s.fs.next) i = 0 := by
      rw [hinodes, update_self]
      rfl
    have hsum : ∑ j ∈ Finset.range s.fs.next, namesIn (t.fs.inodes j) i = s.naming i :=
      Finset.sum_congr rfl fun j hj => by rw [hold (Finset.mem_range.mp hj)]
    rw [State.naming, hnext, Finset.sum_range_succ, hlast, hsum, Nat.add_zero]
  refine ⟨fun i hi => ?_, fun j hj e he => ?_, fun i hi => ?_⟩
  · rw [hnlink, hnaming]
    by_cases heq : i = s.fs.next
    · rw [heq, update_self, h.naming_eq_zero (Nat.le_refl _)]
      rfl
    · rw [update_of_ne heq]
      exact h.counted i (by omega)
  · by_cases heq : j = s.fs.next
    · rw [heq, hinodes, update_self] at he
      exact absurd he List.not_mem_nil
    · rw [hold (by omega)] at he
      have hlt := h.named j (by omega) e he
      omega
  · by_cases heq : i = s.fs.next
    · rw [heq]
      exact hnew
    · obtain ⟨l, hl, hmem⟩ := h.listed i (by omega)
      obtain ⟨l', hl', hsub⟩ := hlists l hl
      exact ⟨l', hl', hsub hmem⟩

theorem Inv.create (h : Inv s) (hdir : dir < s.fs.next) (name : Str) (type : BitVec 32) :
    Inv (tmpfsVfsCreate s dir name type).1 := by
  simp only [tmpfsVfsCreate, tmpfsCreateInode, Tmpfs.tmpfsCreateInode]
  generalize (if type = vfsTypeDir then InodeType.dir else .file) = inodeType
  by_cases htype : (s.fs.inodes dir).type ≠ .dir
  · rw [if_pos htype]
    exact h
  by_cases hfound : (tmpfsDirFindEntry s.fs.inodes dir name).isSome = true
  · rw [if_neg htype, if_pos hfound]
    exact h
  by_cases halloc : s.fs.allocs 0 = true
  · obtain ⟨l, hl, -⟩ := h.listed dir hdir
    obtain ⟨first, rest, hlists⟩ := List.exists_cons_of_ne_nil (List.ne_nil_of_mem hl)
    simp only [if_neg htype, if_neg hfound, if_pos halloc, State.enlist, hlists]
    generalize ht : ({ fs := _, nlink := _, lists := (s.fs.next :: first) :: rest } : State) = t
    have hnext : t.fs.next = s.fs.next + 1 := by rw [← ht]
    have hnew : Inv t := by
      refine h.fresh hnext (by rw [← ht]; rfl) (by rw [← ht]) ?_ ?_
      · intro l hl
        rw [← ht]
        rw [hlists] at hl
        rcases List.mem_cons.mp hl with rfl | hl
        · exact ⟨_, List.mem_cons_self, List.subset_cons_self ..⟩
        · exact ⟨l, List.mem_cons_of_mem _ hl, List.Subset.refl l⟩
      · rw [← ht]
        exact ⟨_, List.mem_cons_self, List.mem_cons_self⟩
    have hself : s.fs.next < t.fs.next := by omega
    have hparent : dir < t.fs.next := by omega
    by_cases hkind : inodeType = .dir
    · rw [if_pos hkind]
      have hdot := hnew.addEntry hself hself ['.']
      have hdots := hdot.addEntry (lt_addEntry hself) (lt_addEntry hparent) ['.', '.']
      exact hdots.addEntry (lt_addEntry (lt_addEntry hparent)) (lt_addEntry (lt_addEntry hself)) name
    · rw [if_neg hkind]
      exact hnew.addEntry hparent hself name
  · simp only [if_neg htype, if_neg hfound, if_neg halloc]
    exact h.same rfl rfl rfl fun _ _ => rfl

theorem Inv.mount (h : Inv s) (mountpoint : Str) : Inv (tmpfsVfsMount s mountpoint).1 := by
  simp only [tmpfsVfsMount, tmpfsCreateInode, Tmpfs.tmpfsCreateInode]
  by_cases hfirst : s.fs.allocs 0 = true
  · rw [if_pos hfirst]
    by_cases hroot : later s.fs.allocs 0 = true
    · simp only [if_pos hroot]
      generalize ht : ({ fs := _, nlink := _, lists := [s.fs.next] :: s.lists } : State) = t
      have hnext : t.fs.next = s.fs.next + 1 := by rw [← ht]
      have hnew : Inv t := by
        refine h.fresh hnext (by rw [← ht]; rfl) (by rw [← ht]) ?_ ?_
        · intro l hl
          rw [← ht]
          exact ⟨l, List.mem_cons_of_mem _ hl, List.Subset.refl l⟩
        · rw [← ht]
          exact ⟨_, List.mem_cons_self, List.mem_singleton_self _⟩
      have hself : s.fs.next < t.fs.next := by omega
      have hdot := hnew.addEntry hself hself ['.']
      have hdots := hdot.addEntry (lt_addEntry hself) (lt_addEntry hself) ['.', '.']
      exact hdots.same rfl rfl rfl fun _ _ => rfl
    · rw [if_neg hroot]
      exact h.same rfl rfl rfl fun _ _ => rfl
  · rw [if_neg hfirst]
    exact h.same rfl rfl rfl fun _ _ => rfl

theorem namesIn_eraseP {e : Str × Nat} (hfind : inode.entries.find? (fun e => e.1 = name) = some e)
    (k : Nat) : namesIn { inode with entries := inode.entries.eraseP fun e => e.1 = name } k +
      (if e.2 = k then 1 else 0) = namesIn inode k := by
  obtain ⟨hname, before, after, hentries, hbefore⟩ := List.find?_eq_some_iff_append.mp hfind
  have herase : inode.entries.eraseP (fun e => e.1 = name) = before ++ after := by
    rw [hentries, List.eraseP_append_right _ fun b hb => by simpa using hbefore b hb,
      List.eraseP_cons, hname, cond_true]
  simp only [namesIn, herase]
  simp only [hentries, List.countP_append, List.countP_cons, decide_eq_true_eq]
  omega

theorem Inv.removeEntry (h : Inv s) (hdir : dir < s.fs.next)
    (hfound : tmpfsDirFindEntry s.fs.inodes dir name = some i) :
    Inv (tmpfsDirRemoveEntry s dir name).1 ∧
      (tmpfsDirRemoveEntry s dir name).1.nlink i = BitVec.ofNat 16 (s.naming i) ∧
      i < s.fs.next ∧ 0 < s.naming i := by
  rw [tmpfsDirFindEntry] at hfound
  split_ifs at hfound with htype
  obtain ⟨e, hfind, rfl⟩ := Option.map_eq_some_iff.mp hfound
  have hmem := List.mem_of_find?_eq_some hfind
  have hlt := h.named dir hdir e hmem
  have hnames := namesIn_eraseP hfind
  have hpos : 0 < s.naming e.2 := by
    have hle : namesIn (s.fs.inodes dir) e.2 ≤ s.naming e.2 :=
      Finset.single_le_sum (f := fun j => namesIn (s.fs.inodes j) e.2) (fun _ _ => Nat.zero_le _)
        (Finset.mem_range.mpr hdir)
    have hone := hnames e.2
    rw [if_pos rfl] at hone
    omega
  have hcount : s.nlink e.2 - 1 = BitVec.ofNat 16 (s.naming e.2) := by
    rw [h.counted _ hlt, BitVec.ofNat_add]
    exact BitVec.add_sub_cancel _ _
  simp only [tmpfsDirRemoveEntry, if_neg htype, hfind]
  refine ⟨h.rename (i := e.2) hdir rfl rfl rfl rfl ?_ ?_ ?_, ?_, hlt, hpos⟩
  · intro n hn
    have hone := hnames e.2
    rw [if_pos rfl] at hone
    rw [hcount, show n + 1 = s.naming e.2 by omega]
  · intro k hk
    have hnone := hnames k
    rwa [if_neg (Ne.symm hk), Nat.add_zero] at hnone
  · exact fun e' he' => h.named dir hdir e' (List.mem_of_mem_eraseP he')
  · rw [update_self, hcount]

theorem Inv.dropName_eq (h : Inv s) (hdir : dir < s.fs.next)
    (hfit : ∀ i < s.fs.next, s.naming i < 2 ^ 16)
    (hfound : tmpfsDirFindEntry s.fs.inodes dir name = some i) :
    dropName s dir name i = (tmpfsDirRemoveEntry s dir name).1 := by
  obtain ⟨-, hcount, hlt, hpos⟩ := h.removeEntry hdir hfound
  have hne : BitVec.ofNat 16 (s.naming i) ≠ 0 := by
    intro hzero
    have hmod := congrArg BitVec.toNat hzero
    rw [BitVec.toNat_ofNat, Nat.mod_eq_of_lt (hfit i hlt)] at hmod
    exact Nat.ne_of_gt hpos hmod
  simp only [dropName, hcount]
  exact if_neg hne

structure Holds (s t : State) : Prop where
  lists : t.lists = s.lists
  instances : t.fs.instances = s.fs.instances
  blocks : ∀ i, (t.fs.inodes i).blocks = (s.fs.inodes i).blocks
  size : ∀ i, (t.fs.inodes i).size = (s.fs.inodes i).size

theorem Holds.refl (s : State) : Holds s s := ⟨rfl, rfl, fun _ => rfl, fun _ => rfl⟩

theorem holds_removeEntry (s : State) (dir : Nat) (name : Str) :
    Holds s (tmpfsDirRemoveEntry s dir name).1 := by
  simp only [tmpfsDirRemoveEntry]
  split_ifs
  · exact Holds.refl s
  split
  · exact Holds.refl s
  · refine ⟨rfl, rfl, fun i => ?_, fun i => ?_⟩
    all_goals
      by_cases hi : i = dir
      · subst hi
        simp only [Tmpfs.State.setInode, update_self]
      · simp only [Tmpfs.State.setInode, update_of_ne hi]

/-- Both calls do nothing, or they drop a name that is in the directory. -/
theorem removal_cases (s : State) {call : Call} {dir : Nat}
    (hcall : call = .unlink dir name ∨ call = .rmdir dir name) :
    call.run s = s ∨ ∃ i, tmpfsDirFindEntry s.fs.inodes dir name = some i ∧
      call.run s = dropName s dir name i := by
  rcases hcall with rfl | rfl
  · simp only [Call.run, tmpfsVfsUnlink]
    cases tmpfsDirFindEntry s.fs.inodes dir name with
    | none => exact .inl rfl
    | some i =>
      dsimp only
      split_ifs
      · exact .inl rfl
      · exact .inr ⟨i, rfl, rfl⟩
  · simp only [Call.run, tmpfsVfsRmdir]
    cases tmpfsDirFindEntry s.fs.inodes dir name with
    | none => exact .inl rfl
    | some i =>
      dsimp only
      split_ifs
      · exact .inl rfl
      · exact .inl rfl
      · exact .inr ⟨i, rfl, rfl⟩

theorem Inv.removal (h : Inv s) {call : Call} (hremoves : call.Removes) (hproper : call.Proper s) :
    Inv (call.run s) ∧ Holds s (call.run s) := by
  have hdrop {dir : Nat} {name : Str} (hcall : call = .unlink dir name ∨ call = .rmdir dir name)
      (hdir : dir < s.fs.next) (hfit : ∀ i < s.fs.next, s.naming i < 2 ^ 16) :
      Inv (call.run s) ∧ Holds s (call.run s) := by
    rcases removal_cases s hcall with hsame | ⟨i, hfound, hrun⟩
    · rw [hsame]
      exact ⟨h, Holds.refl s⟩
    · rw [hrun, h.dropName_eq hdir hfit hfound]
      exact ⟨(h.removeEntry hdir hfound).1, holds_removeEntry s dir name⟩
  cases call with
  | unlink dir name => exact hdrop (.inl rfl) hproper.1 hproper.2
  | rmdir dir name => exact hdrop (.inr rfl) hproper.1 hproper.2
  | mount => exact hremoves.elim
  | create => exact hremoves.elim
  | write => exact hremoves.elim

theorem Inv.write (h : Inv s) (i : Nat) (offset size : BitVec 32) (buffer : Option Bytes) :
    Inv (tmpfsVfsWrite s i offset size buffer) := by
  have hentries : (Tmpfs.tmpfsVfsWrite s.fs i offset size buffer).1.next = s.fs.next ∧
      ∀ j, ((Tmpfs.tmpfsVfsWrite s.fs i offset size buffer).1.inodes j).entries =
        (s.fs.inodes j).entries := by
    simp only [Tmpfs.tmpfsVfsWrite]
    split
    · exact ⟨rfl, fun _ => rfl⟩
    · refine ⟨rfl, fun j => ?_⟩
      by_cases hj : j = i
      · subst hj
        simp only [Tmpfs.State.setInode, update_self, Tmpfs.tmpfsFileWrite]
        split
        · rfl
        · split_ifs
          · rfl
          · rfl
          · rfl
          · split <;> rfl
      · simp only [Tmpfs.State.setInode, update_of_ne hj]
  exact h.same rfl rfl hentries.1 fun j _ => hentries.2 j

theorem Inv.step (h : Inv s) (hstep : Step s t) : Inv t := by
  obtain ⟨call, hproper, rfl⟩ := hstep
  cases call with
  | mount mountpoint => exact h.mount mountpoint
  | create dir name type => exact h.create hproper name type
  | unlink dir name => exact (h.removal (show (Call.unlink dir name).Removes from trivial) hproper).1
  | rmdir dir name => exact (h.removal (show (Call.rmdir dir name).Removes from trivial) hproper).1
  | write i offset size buffer => exact h.write i offset size buffer

def start (inodes : Nat → Inode) (nlink : Nat → BitVec 16) (allocs : Nat → Bool) : State where
  fs := { instances := [], inodes, next := 0, allocs }
  nlink := nlink
  lists := []

theorem start_inv (inodes : Nat → Inode) (nlink : Nat → BitVec 16) (allocs : Nat → Bool) :
    Inv (start inodes nlink allocs) where
  counted _ hi := absurd hi (Nat.not_lt_zero _)
  named _ hj := absurd hj (Nat.not_lt_zero _)
  listed _ hi := absurd hi (Nat.not_lt_zero _)

theorem Inv.reach (h : Inv s) (hrun : Relation.ReflTransGen Step s t) : Inv t := by
  induction hrun with
  | refl => exact h
  | tail _ hstep ih => exact ih.step hstep

/-- In every state no inode has as many names as its count says, and no removal of a name takes an
inode off its list, releases a block or lowers `used_size`. -/
theorem links_never_kept {inodes : Nat → Inode} {nlink : Nat → BitVec 16} {allocs : Nat → Bool}
    (hrun : Relation.ReflTransGen Step (start inodes nlink allocs) s) :
    (∀ i < s.fs.next, (s.nlink i).toNat ≠ s.naming i ∧ ∃ l ∈ s.lists, i ∈ l) ∧
      ∀ call : Call, call.Removes → call.Proper s → Holds s (call.run s) := by
  have h := (start_inv inodes nlink allocs).reach hrun
  refine ⟨fun i hi => ⟨fun heq => ?_, h.listed i hi⟩, fun call hremoves hproper =>
    (h.removal hremoves hproper).2⟩
  rw [h.counted i hi, BitVec.toNat_ofNat] at heq
  omega

/-! ### A file that is made and removed -/

def mounted : State := (Call.mount ['/']).run (start (fun _ => { type := .file }) (fun _ => 0) fun _ => true)

def withFile : State := (Call.create 0 ['a'] 1).run mounted

theorem mounted_reached :
    Relation.ReflTransGen Step (start (fun _ => { type := .file }) (fun _ => 0) fun _ => true) mounted :=
  .single ⟨.mount ['/'], trivial, rfl⟩

theorem mounted_not_kept :
    (mounted.nlink 0).toNat ≠ mounted.naming 0 ∧ ∃ l ∈ mounted.lists, 0 ∈ l :=
  (links_never_kept mounted_reached).1 0 (by decide)

/-- The file has no name any more, its count is 1, and it stays on the list. -/
theorem removed_file_listed :
    ∃ s t, Relation.ReflTransGen Step mounted s ∧ Step s t ∧ s.naming 1 = 1 ∧ t.naming 1 = 0 ∧
      t.nlink 1 = 1 ∧ ∃ l ∈ t.lists, 1 ∈ l := by
  have hroot : 0 < mounted.fs.next := by decide
  refine ⟨withFile, (Call.unlink 0 ['a']).run withFile, .single ⟨.create 0 ['a'] 1, hroot, rfl⟩,
    ⟨.unlink 0 ['a'], ⟨?_, ?_⟩, rfl⟩, ?_, ?_, ?_, [1, 0], ?_, ?_⟩
  · decide
  · decide
  · decide
  · decide
  · decide
  · decide
  · decide

end TocinOS.TmpfsLinks
