import TocinOS.FirstMatch

/-! The mount table of `kernel/vfs.c`. Strings are lists of characters without the
terminating zero. -/

namespace TocinOS.Vfs

abbrev Str := List Char

/-- The components of a path between its slashes. -/
def split : Str → Str → List Str
  | component, [] => if component = [] then [] else [component]
  | component, c :: s =>
    if c = '/' then if component = [] then split [] s else component :: split [] s
    else split (component ++ [c]) s

def components (s : Str) : List Str := split [] s

abbrev maxPath : Nat := 256
abbrev maxMounts : Nat := 16
abbrev maxFilesystems : Nat := 16

structure FileSystem where
  name : Str
  hasMount : Bool
  hasUnmount : Bool

def FileSystem.text (fs : FileSystem) : Str := fs.name.take 31

structure Mount where
  device : Str
  mountpoint : Str
  fs : Nat
  deriving DecidableEq

def Mount.text (m : Mount) : Str := m.mountpoint.take (maxPath - 1)

inductive Call
  | mount (fs : Nat) (device mountpoint : Str)
  | unmount (fs : Nat) (mountpoint : Str)
  deriving DecidableEq

/-- The tables after `vfs_init`. `calls` is newest first. -/
structure State where
  registeredFs : List FileSystem
  mounts : List Mount
  calls : List Call

def vfsInit : State := ⟨[], [], []⟩

def vfsRegisterFs (s : State) (fs : FileSystem) : State × Int :=
  if maxFilesystems ≤ s.registeredFs.length then (s, -1)
  else ({ s with registeredFs := s.registeredFs ++ [fs] }, 0)

/-- The comparison loop of `vfs_mount` and `vfs_unmount`: it ends with the shorter string. -/
def matches_ : Str → Str → Bool
  | a :: s, b :: t => if a ≠ b then false else matches_ s t
  | _, _ => true

/-- `vfs_mount` once the file system is found. `outcome` is what the mount operation of each
file system returns in this call. -/
def mountOn (s : State) (outcome : Nat → Int) (device mountpoint : Str) (fs : Nat) :
    State × Int :=
  let calls :=
    if ((s.registeredFs[fs]?).map FileSystem.hasMount).getD false then
      .mount fs device mountpoint :: s.calls
    else s.calls
  if ((s.registeredFs[fs]?).map FileSystem.hasMount).getD false ∧ outcome fs ≠ 0 then
    ({ s with calls }, outcome fs)
  else ({ s with calls, mounts := s.mounts ++ [⟨device, mountpoint, fs⟩] }, 0)

def vfsMount (s : State) (outcome : Nat → Int) (device mountpoint fstype : Str) :
    State × Int :=
  if maxMounts ≤ s.mounts.length then (s, -1)
  else
    match s.registeredFs.findIdx? fun fs => matches_ fs.text fstype with
    | none => (s, -1)
    | some fs => mountOn s outcome device mountpoint fs

def vfsUnmount (s : State) (mountpoint : Str) : State × Int :=
  match s.mounts.findIdx? fun m => matches_ m.text mountpoint with
  | none => (s, -1)
  | some i =>
    let calls :=
      match s.mounts[i]? with
      | none => s.calls
      | some m =>
        if ((s.registeredFs[m.fs]?).map FileSystem.hasUnmount).getD false then
          .unmount m.fs mountpoint :: s.calls
        else s.calls
    ({ s with calls, mounts := s.mounts.eraseIdx i }, 0)

/-- The loop over one mount point: the length reached, or nothing on a difference. -/
def matchLength : Str → Str → Option Nat
  | a :: s, b :: t => if a ≠ b then none else (matchLength s t).map (· + 1)
  | _, _ => some 0

def findLoop (path : Str) : List Mount → Nat → Option Nat → Nat → Option Nat
  | [], _, bestMatch, _ => bestMatch
  | m :: rest, i, bestMatch, bestLength =>
    match matchLength m.text path with
    | none => findLoop path rest (i + 1) bestMatch bestLength
    | some length =>
      if bestLength < length then findLoop path rest (i + 1) (some i) length
      else findLoop path rest (i + 1) bestMatch bestLength

def vfsFindMount (s : State) (path : Str) : Option Nat := findLoop path s.mounts 0 none 0

/-! ### The comparisons -/

def Overlaps (s t : Str) : Prop := s <+: t ∨ t <+: s

instance (s t : Str) : Decidable (Overlaps s t) := inferInstanceAs (Decidable (_ ∨ _))

def overlap (s t : Str) : Nat := if Overlaps s t then min s.length t.length else 0

theorem overlaps_cons {a b : Char} {s t : Str} :
    Overlaps (a :: s) (b :: t) ↔ a = b ∧ Overlaps s t := by
  simp only [Overlaps, List.cons_prefix_cons]
  constructor
  · rintro (⟨rfl, h⟩ | ⟨rfl, h⟩)
    · exact ⟨rfl, .inl h⟩
    · exact ⟨rfl, .inr h⟩
  · rintro ⟨rfl, h | h⟩
    · exact .inl ⟨rfl, h⟩
    · exact .inr ⟨rfl, h⟩

theorem matches_iff {s t : Str} : matches_ s t = true ↔ Overlaps s t := by
  induction s generalizing t with
  | nil => simp [matches_, Overlaps]
  | cons a s ih =>
    cases t with
    | nil => simp [matches_, Overlaps]
    | cons b t =>
      rw [matches_, overlaps_cons, ← ih]
      split <;> simp_all

theorem matchLength_getD (s t : Str) : (matchLength s t).getD 0 = overlap s t := by
  suffices h : matchLength s t = if Overlaps s t then some (min s.length t.length) else none by
    rw [h, overlap]
    split <;> rfl
  induction s generalizing t with
  | nil => simp [matchLength, Overlaps]
  | cons a s ih =>
    cases t with
    | nil => simp [matchLength, Overlaps]
    | cons b t =>
      rw [matchLength]
      split
      · rename_i hne
        rw [if_neg fun h => hne (overlaps_cons.1 h).1]
      · rename_i heq
        rw [ih t]
        simp only [overlaps_cons, not_not.1 heq, true_and]
        split
        · simp [Nat.succ_min_succ]
        · rfl

theorem overlaps_take (s : Str) (n : Nat) : Overlaps (s.take n) s := .inl (List.take_prefix n s)

/-! ### Lookup by path -/

def mountWeight (path : Str) (m : Mount) : Nat := overlap m.text path

theorem findLoop_heaviest {path : Str} {done : List Mount} {bestMatch : Option Nat}
    (rest : List Mount) (h : FirstMatch.Heaviest (mountWeight path) done bestMatch) :
    FirstMatch.Heaviest (mountWeight path) (done ++ rest)
      (findLoop path rest done.length bestMatch
        (FirstMatch.bestWeight (mountWeight path) done bestMatch)) := by
  induction rest generalizing done bestMatch with
  | nil =>
    rw [List.append_nil]
    exact h
  | cons m rest ih =>
    have hweight : (matchLength m.text path).getD 0 = mountWeight path m := matchLength_getD _ _
    have hpass (hle : mountWeight path m ≤
        FirstMatch.bestWeight (mountWeight path) done bestMatch) :=
      ih (h.append_le hle)
    have htake (hlt : FirstMatch.bestWeight (mountWeight path) done bestMatch <
        mountWeight path m) :=
      ih (h.append_lt hlt)
    rw [List.append_assoc, List.singleton_append, FirstMatch.bestWeight_append h,
      List.length_append, List.length_singleton] at hpass
    simp only [List.append_assoc, List.singleton_append, List.length_append,
      List.length_singleton, FirstMatch.bestWeight, Option.bind_some, Option.map_some,
      Option.getD_some, List.getElem?_concat_length] at htake
    rw [findLoop]
    cases hm : matchLength m.text path with
    | none =>
      rw [hm] at hweight
      exact hpass (by rw [← hweight]; exact Nat.zero_le _)
    | some length =>
      rw [hm] at hweight
      obtain rfl : length = mountWeight path m := hweight
      dsimp only
      split
      · rename_i hlt
        exact htake hlt
      · rename_i hle
        exact hpass (by omega)

theorem vfsFindMount_heaviest (s : State) (path : Str) :
    FirstMatch.Heaviest (mountWeight path) s.mounts (vfsFindMount s path) := by
  have h : FirstMatch.Heaviest (mountWeight path) [] none := fun _ hm => absurd hm (by simp)
  exact findLoop_heaviest s.mounts h

/-! ### What the calls are for -/

def ComponentPrefix (mountpoint path : Str) : Prop :=
  mountpoint.head? = some '/' ∧ components mountpoint <+: components path

def Longest (mounts : List Mount) (path : Str) (i : Nat) : Prop :=
  ∃ m, mounts[i]? = some m ∧ ComponentPrefix m.mountpoint path ∧
    ∀ m' ∈ mounts, ComponentPrefix m'.mountpoint path →
      (components m'.mountpoint).length ≤ (components m.mountpoint).length

def FindsLongest (s : State) (path : Str) : Prop :=
  FirstMatch.Answers (∃ m ∈ s.mounts, ComponentPrefix m.mountpoint path)
    (Longest s.mounts path) (vfsFindMount s path)

/-- The call goes to a file system registered under that name, or fails without effect if
there is none. A full table is reported before the file system is looked for. -/
def MountsType (s : State) (outcome : Nat → Int) (device mountpoint fstype : Str) : Prop :=
  let r := vfsMount s outcome device mountpoint fstype
  (s.mounts.length < maxMounts ∧ ∃ i fs, s.registeredFs[i]? = some fs ∧ fs.name = fstype ∧
      r = mountOn s outcome device mountpoint i) ∨
    ((maxMounts ≤ s.mounts.length ∨ ∀ fs ∈ s.registeredFs, fs.name ≠ fstype) ∧ r = (s, -1))

def UnmountsExactly (s : State) (mountpoint : Str) : Prop :=
  let r := vfsUnmount s mountpoint
  (∃ i m, s.mounts[i]? = some m ∧ m.mountpoint = mountpoint ∧ r.2 = 0 ∧
      r.1.mounts = s.mounts.eraseIdx i) ∨
    ((∀ m ∈ s.mounts, m.mountpoint ≠ mountpoint) ∧ r.2 = -1 ∧ r.1.mounts = s.mounts)

/-- Some longest mount overlaps the path if there is a longest one, and each other mount
that overlaps it shares fewer characters, or as many and stands later. -/
def PathSafe (mounts : List Mount) (path : Str) : Prop :=
  ((∃ m ∈ mounts, ComponentPrefix m.mountpoint path) →
    ∃ j m, Longest mounts path j ∧ mounts[j]? = some m ∧ 0 < overlap m.text path) ∧
  ∀ (i : Nat) m, mounts[i]? = some m → 0 < overlap m.text path → ¬Longest mounts path i →
    ∃ j m', Longest mounts path j ∧ mounts[j]? = some m' ∧
      (overlap m.text path < overlap m'.text path ∨
        overlap m.text path = overlap m'.text path ∧ j < i)

def TypeSafe (s : State) (fstype : Str) : Prop :=
  ∀ (i : Nat) fs, s.registeredFs[i]? = some fs → Overlaps fs.text fstype →
    ∃ j ≤ i, ∃ fs', s.registeredFs[j]? = some fs' ∧ fs'.name = fstype

def UnmountSafe (s : State) (mountpoint : Str) : Prop :=
  ∀ (i : Nat) m, s.mounts[i]? = some m → Overlaps m.text mountpoint →
    ∃ j ≤ i, ∃ m', s.mounts[j]? = some m' ∧ m'.mountpoint = mountpoint

theorem findsLongest_iff (s : State) (path : Str) :
    FindsLongest s path ↔ PathSafe s.mounts path :=
  (vfsFindMount_heaviest s path).good_iff _ _

theorem findType_hits_iff (s : State) (fstype : Str) :
    FirstMatch.Hits (fun fs : FileSystem => fs.name = fstype) s.registeredFs
      (s.registeredFs.findIdx? fun fs => matches_ fs.text fstype) ↔ TypeSafe s fstype := by
  rw [FirstMatch.hits_findIdx?_iff]
  · simp only [FirstMatch.Guarded, matches_iff, TypeSafe]
  · rintro fs - rfl
    exact matches_iff.2 (overlaps_take _ _)

theorem findMountpoint_hits_iff (s : State) (mountpoint : Str) :
    FirstMatch.Hits (fun m : Mount => m.mountpoint = mountpoint) s.mounts
      (s.mounts.findIdx? fun m => matches_ m.text mountpoint) ↔ UnmountSafe s mountpoint := by
  rw [FirstMatch.hits_findIdx?_iff]
  · simp only [FirstMatch.Guarded, matches_iff, UnmountSafe]
  · rintro m - rfl
    exact matches_iff.2 (overlaps_take _ _)

theorem mountOn_injective {s : State} {outcome : Nat → Int} {device mountpoint : Str} {i j : Nat}
    (h : mountOn s outcome device mountpoint i = mountOn s outcome device mountpoint j) :
    i = j := by
  have hcalls := congrArg (fun r => r.1.calls) h
  have hmounts := congrArg (fun r => r.1.mounts) h
  dsimp only [mountOn] at hcalls hmounts
  generalize ((s.registeredFs[i]?).map FileSystem.hasMount).getD false = opi at hcalls hmounts
  generalize ((s.registeredFs[j]?).map FileSystem.hasMount).getD false = opj at hcalls hmounts
  cases opi <;> cases opj
  · simpa using hmounts
  · simp [apply_ite] at hcalls
  · simp [apply_ite] at hcalls
  · simpa [apply_ite] using hcalls

theorem mountOn_ne (s : State) (outcome : Nat → Int) (device mountpoint : Str) (i : Nat) :
    mountOn s outcome device mountpoint i ≠ (s, -1) := by
  intro h
  have hcalls := congrArg (fun r => r.1.calls) h
  have hmounts := congrArg (fun r => r.1.mounts) h
  dsimp only [mountOn] at hcalls hmounts
  generalize ((s.registeredFs[i]?).map FileSystem.hasMount).getD false = op at hcalls hmounts
  cases op
  · simp at hmounts
  · simp [apply_ite] at hcalls

theorem mountsType_iff (s : State) (outcome : Nat → Int) (device mountpoint fstype : Str) :
    MountsType s outcome device mountpoint fstype ↔
      maxMounts ≤ s.mounts.length ∨ TypeSafe s fstype := by
  rw [← findType_hits_iff, MountsType, vfsMount]
  by_cases hfull : maxMounts ≤ s.mounts.length
  · simp [hfull]
  rw [if_neg hfull]
  cases s.registeredFs.findIdx? fun fs => matches_ fs.text fstype with
  | none =>
    constructor
    · rintro (⟨-, i, fs, -, -, hr⟩ | ⟨hnone, -⟩)
      · exact absurd hr.symm (mountOn_ne s outcome device mountpoint i)
      · exact hnone
    · intro hnone
      exact .inr ⟨hnone, rfl⟩
  | some i =>
    constructor
    · rintro (⟨-, j, fs, hfs, hname, hr⟩ | ⟨-, hr⟩)
      · obtain rfl := mountOn_injective hr
        exact .inr ⟨fs, hfs, hname⟩
      · exact absurd hr (mountOn_ne s outcome device mountpoint i)
    · intro hfound
      obtain ⟨fs, hfs, hname⟩ := hfound.resolve_left hfull
      exact .inl ⟨by omega, i, fs, hfs, hname, rfl⟩

theorem unmountsExactly_iff (s : State) (mountpoint : Str) :
    UnmountsExactly s mountpoint ↔ UnmountSafe s mountpoint := by
  rw [← findMountpoint_hits_iff, UnmountsExactly, vfsUnmount]
  cases hfind : s.mounts.findIdx? fun m => matches_ m.text mountpoint with
  | none =>
    constructor
    · rintro (⟨i, m, -, -, hr, -⟩ | ⟨hnone, -⟩)
      · exact absurd hr (show (-1 : Int) ≠ 0 by decide)
      · exact hnone
    · intro hnone
      exact .inr ⟨hnone, rfl, rfl⟩
  | some i =>
    obtain ⟨⟨m, hm, -⟩, -⟩ := FirstMatch.findIdx?_some hfind
    constructor
    · rintro (⟨j, m', hm', hpoint, -, hr⟩ | ⟨-, hr, -⟩)
      · obtain rfl := FirstMatch.getElem?_eq_of_eraseIdx_eq hm hm' hr
        exact ⟨m, hm, hpoint⟩
      · exact absurd hr (show (0 : Int) ≠ -1 by decide)
    · rintro ⟨m', hm', hpoint⟩
      exact .inl ⟨i, m', hm', hpoint, rfl, rfl⟩

/-- In every state of the tables, so after every sequence of calls, and for all arguments. -/
theorem mount_calls_iff (s : State) :
    (∀ path, FindsLongest s path ↔ PathSafe s.mounts path) ∧
    (∀ outcome device mountpoint fstype, MountsType s outcome device mountpoint fstype ↔
      maxMounts ≤ s.mounts.length ∨ TypeSafe s fstype) ∧
    ∀ mountpoint, UnmountsExactly s mountpoint ↔ UnmountSafe s mountpoint :=
  ⟨findsLongest_iff s, mountsType_iff s, unmountsExactly_iff s⟩

def rootAndMnt : State :=
  let names := ["ext4", "ext3", "ext2", "devfs", "proc", "tmpfs"]
  let s := names.foldl (fun s name => (vfsRegisterFs s ⟨name.toList, true, true⟩).1) vfsInit
  let s := (vfsMount s (fun _ => 0) "/dev/hda".toList "/".toList "ext4".toList).1
  (vfsMount s (fun _ => 0) "none".toList "/mnt".toList "tmpfs".toList).1

def rootMount : Mount := ⟨"/dev/hda".toList, "/".toList, 0⟩
def mntMount : Mount := ⟨"none".toList, "/mnt".toList, 5⟩

theorem rootAndMnt_mounts : rootAndMnt.mounts = [rootMount, mntMount] := rfl

theorem rootAndMnt_names : rootAndMnt.registeredFs.map FileSystem.name =
    ["ext4".toList, "ext3".toList, "ext2".toList, "devfs".toList, "proc".toList,
      "tmpfs".toList] := rfl

theorem longest_mnt : Longest rootAndMnt.mounts "/mnt/file".toList 1 := by
  refine ⟨mntMount, rfl, ⟨rfl, by decide⟩, fun m hm _ => ?_⟩
  rw [rootAndMnt_mounts] at hm
  obtain rfl | rfl : m = rootMount ∨ m = mntMount := by simpa using hm
  · decide
  · exact Nat.le_refl _

theorem rootAndMnt_calls :
    FindsLongest rootAndMnt "/mnt/file".toList ∧
      MountsType rootAndMnt (fun _ => 0) "/dev/hdb".toList "/home".toList "ext4".toList ∧
      UnmountsExactly rootAndMnt "/".toList := by
  obtain ⟨hfind, hmount, hunmount⟩ := mount_calls_iff rootAndMnt
  refine ⟨(hfind _).2 ⟨fun _ => ⟨1, mntMount, longest_mnt, rfl, by decide⟩, ?_⟩,
    (hmount _ _ _ _).2 (.inr ?_), (hunmount _).2 ?_⟩
  · intro i m hm _ hnot
    match i with
    | 0 =>
      obtain rfl : rootMount = m := Option.some.inj hm
      exact ⟨1, mntMount, longest_mnt, rfl, .inl (by decide)⟩
    | 1 => exact absurd longest_mnt hnot
    | _ + 2 => exact nomatch hm
  · intro i fs _ _
    exact ⟨0, Nat.zero_le i, ⟨"ext4".toList, true, true⟩, rfl, rfl⟩
  · intro i m hm _
    exact ⟨0, Nat.zero_le i, rootMount, rfl, rfl⟩

/-- The path `/mnt2` is given to the mount on `/mnt`, the type `procfs` to the file system
`proc`, and unmounting `/mnt` removes the root. -/
theorem rootAndMnt_wrong :
    (vfsFindMount rootAndMnt "/mnt2".toList = some 1 ∧
      ¬FindsLongest rootAndMnt "/mnt2".toList) ∧
    ¬MountsType rootAndMnt (fun _ => 0) "none".toList "/proc".toList "procfs".toList ∧
    ((vfsUnmount rootAndMnt "/mnt".toList).1.mounts = [mntMount] ∧
      ¬UnmountsExactly rootAndMnt "/mnt".toList) := by
  have hfind : vfsFindMount rootAndMnt "/mnt2".toList = some 1 := by decide
  refine ⟨⟨hfind, ?_⟩, ?_, rfl, ?_⟩
  · intro h
    rw [FindsLongest, hfind] at h
    obtain ⟨m, hm, hprefix, -⟩ := h
    obtain rfl : mntMount = m := Option.some.inj hm
    exact absurd hprefix.2 (by decide)
  · rw [mountsType_iff]
    rintro (hfull | hsafe)
    · exact absurd hfull (by decide)
    · obtain ⟨j, -, fs, hfs, hname⟩ :=
        hsafe 4 ⟨"proc".toList, true, true⟩ rfl (by decide)
      have hmem := List.mem_map_of_mem (f := FileSystem.name) (List.mem_of_getElem? hfs)
      rw [rootAndMnt_names, hname] at hmem
      exact absurd hmem (by decide)
  · rw [unmountsExactly_iff]
    intro hsafe
    obtain ⟨j, hj, m, hm, hpoint⟩ := hsafe 0 rootMount rfl (by decide)
    obtain rfl : j = 0 := by omega
    obtain rfl : rootMount = m := Option.some.inj hm
    exact absurd hpoint (by decide)

end TocinOS.Vfs
