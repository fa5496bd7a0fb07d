import TocinOS.FatRuns

/-! The root directory of a FAT volume: the files that `fat_open` finds, the entries that
`fat_list_dir` reports, and the entries that are there. -/

namespace TocinOS.Fat

abbrev Record := List (BitVec 8)

def recordOf (sector : Sector) (j : Nat) : Record := (List.range 32).map fun i => sector (32 * j + i)

def sectorRecords (sector : Sector) : List Record := (List.range 16).map (recordOf sector)

variable {r : Record} {width : Nat} {text : Str}

namespace Record

def byte (r : Record) (i : Nat) : BitVec 8 := r.getD i 0

def name (r : Record) : Str := r.take 11

def attributes (r : Record) : BitVec 8 := r.byte 11

def used (r : Record) : Bool := r.byte 0 != 0

def live (r : Record) : Bool := r.byte 0 != 0xE5 && r.attributes &&& 0x08 == 0

def visible (r : Record) : Bool := r.byte 0 != 0xE5 && r.attributes &&& 0x0F == 0

theorem used_iff : r.used = true ↔ r.byte 0 ≠ 0 := bne_iff_ne

theorem live_iff : r.live = true ↔ r.byte 0 ≠ 0xE5 ∧ r.attributes &&& 0x08 = 0 := by
  rw [live, Bool.and_eq_true, bne_iff_ne, beq_iff_eq]

theorem visible_iff : r.visible = true ↔ r.byte 0 ≠ 0xE5 ∧ r.attributes &&& 0x0F = 0 := by
  rw [visible, Bool.and_eq_true, bne_iff_ne, beq_iff_eq]

end Record

def listEntries (sector : Sector) (max : Int) : List Nat → List Record → List Record × Bool
  | [], entries => (entries, false)
  | j :: js, entries =>
    if entries.length < max then
      let entry := recordOf sector j
      if entry.byte 0 = 0 then (entries, true)
      else if entry.byte 0 = 0xE5 then listEntries sector max js entries
      else if entry.attributes &&& 0x0F ≠ 0 then listEntries sector max js entries
      else listEntries sector max js (entries ++ [entry])
    else (entries, false)

section

variable (ide : Ide)

def listSectors (max : Int) : Nat → State → BitVec 32 → List Record → State × List Record
  | 0, s, _, entries => (s, entries)
  | n + 1, s, sector, entries =>
    if entries.length < max then
      let (s, result) := fatReadSector ide s sector
      if result ≠ 0 then (s, entries)
      else
        match listEntries s.sectorBuffer max (List.range 16) entries with
        | (entries, true) => (s, entries)
        | (entries, false) => listSectors max n s (sector + 1) entries
    else (s, entries)

def fatListDir (s : State) (max : Int) : State × Int × List Record :=
  if !s.mounted then (s, -1, [])
  else
    let (s, entries) := listSectors ide max (s.info.rootEntryCount / 16) s (rootSector s) []
    (s, entries.length, entries)

end

/-! ### The scans of the driver over the entries as a list -/

def records (v : Volume) (m n : Nat) : List Record :=
  (List.range' m n).flatMap fun k => sectorRecords (v k)

theorem records_succ (v : Volume) (m n : Nat) :
    records v m (n + 1) = sectorRecords (v m) ++ records v (m + 1) n := by
  rw [records, List.range'_succ, List.flatMap_cons, records]

theorem sectorRecords_congr {a b : Sector} (h : ∀ i < 512, a i = b i) :
    sectorRecords a = sectorRecords b := by
  refine List.map_congr_left fun j hj => List.map_congr_left fun i hi => h _ ?_
  have hj' := List.mem_range.mp hj
  have hi' := List.mem_range.mp hi
  omega

def shown (l : List Record) : List Record := (l.takeWhile Record.used).filter Record.visible

theorem shown_cons (r : Record) (l : List Record) : shown (r :: l) =
    if r.used then if r.visible then r :: shown l else shown l else [] := by
  rw [shown, List.takeWhile_cons]
  split_ifs with hused hvisible
  · rw [List.filter_cons_of_pos hvisible, shown]
  · rw [List.filter_cons_of_neg hvisible, shown]
  · rfl

theorem shown_append (l l' : List Record) :
    shown (l ++ l') = if l.all Record.used then shown l ++ shown l' else shown l := by
  induction l with
  | nil => rfl
  | cons r l ih =>
    rw [List.cons_append, shown_cons, shown_cons, ih, List.all_cons]
    cases r.used <;> cases r.visible <;> cases l.all Record.used <;> simp

theorem listEntries_eq (sector : Sector) (max : Int) (js : List Nat) (entries : List Record)
    (hmax : entries.length + js.length ≤ max) : listEntries sector max js entries =
      (entries ++ shown (js.map (recordOf sector)), !(js.map (recordOf sector)).all Record.used) := by
  induction js generalizing entries with
  | nil => simp [listEntries, shown]
  | cons j js ih =>
    rw [List.length_cons] at hmax
    have hroom : (entries.length : Int) < max := by omega
    rw [listEntries, if_pos hroom, List.map_cons, shown_cons, List.all_cons]
    have hlater := ih entries (by omega)
    have hnext := ih (entries ++ [recordOf sector j]) (by simp; omega)
    by_cases hend : (recordOf sector j).byte 0 = 0
    · have hused : (recordOf sector j).used = false :=
        Bool.eq_false_iff.mpr fun h => Record.used_iff.mp h hend
      rw [if_pos hend, hused]
      simp
    · rw [if_neg hend, Record.used_iff.mpr hend]
      by_cases hdeleted : (recordOf sector j).byte 0 = 0xE5
      · have hvisible : (recordOf sector j).visible = false :=
          Bool.eq_false_iff.mpr fun h => (Record.visible_iff.mp h).1 hdeleted
        rw [if_pos hdeleted, hlater, hvisible]
        simp
      · rw [if_neg hdeleted]
        by_cases hattr : (recordOf sector j).attributes &&& 0x0F = 0
        · rw [if_neg (not_not.mpr hattr), hnext, Record.visible_iff.mpr ⟨hdeleted, hattr⟩]
          simp
        · have hvisible : (recordOf sector j).visible = false :=
            Bool.eq_false_iff.mpr fun h => hattr (Record.visible_iff.mp h).2
          rw [if_pos hattr, hlater, hvisible]
          simp

def Search.Says (name83 : Str) (l : List Record) : Search → Prop
  | .goOn => l.all Record.used = true ∧ ∀ r ∈ shown l, r.name ≠ name83
  | .ended => l.all Record.used = false ∧ ∀ r ∈ shown l, r.name ≠ name83
  | .found _ => ∃ r ∈ shown l, r.name = name83

theorem Search.Says.pass {name83 : Str} {l : List Record} {x : Search} (h : x.Says name83 l)
    (hused : r.used = true) (hskip : r.visible = true → r.name ≠ name83) :
    x.Says name83 (r :: l) := by
  have hshown : shown (r :: l) = if r.visible then r :: shown l else shown l := by
    rw [shown_cons, if_pos hused]
  have hnames (hl : ∀ r' ∈ shown l, r'.name ≠ name83) : ∀ r' ∈ shown (r :: l), r'.name ≠ name83 := by
    rw [hshown]
    split_ifs with hvisible
    · exact List.forall_mem_cons.mpr ⟨hskip hvisible, hl⟩
    · exact hl
  cases x with
  | goOn => exact ⟨by rw [List.all_cons, hused, h.1]; rfl, hnames h.2⟩
  | ended => exact ⟨by rw [List.all_cons, hused, h.1]; rfl, hnames h.2⟩
  | found file =>
    obtain ⟨r', hr', hname⟩ := h
    refine ⟨r', ?_, hname⟩
    rw [hshown]
    split_ifs
    · exact List.mem_cons_of_mem _ hr'
    · exact hr'

theorem volume_of_mask {a : BitVec 8} (h : a &&& 0x0F = 0) : a &&& 0x08 = 0 := by
  rw [show (0x08 : BitVec 8) = 0x0F &&& 0x08 from rfl, ← BitVec.and_assoc, h]
  rfl

theorem scanEntries_says (sector : Sector) (name83 : Str) (js : List Nat) :
    (scanEntries sector name83 js).Says name83 (js.map (recordOf sector)) := by
  induction js with
  | nil => exact ⟨rfl, fun r hr => absurd hr List.not_mem_nil⟩
  | cons j js ih =>
    have hbyte (i : Nat) (hi : i < 32) : (recordOf sector j).byte i = sector (32 * j + i) := by
      simp [Record.byte, recordOf, hi]
    have hname : (List.range 11).map (fun i => sector (32 * j + i)) = (recordOf sector j).name := by
      rw [Record.name, recordOf, ← List.map_take, List.take_range]
      rfl
    rw [scanEntries, List.map_cons]
    simp only [← hbyte 0 (by decide), ← hbyte 11 (by decide), hname]
    split_ifs with hend hdeleted hattr hvolume hfound
    · have hused : (recordOf sector j).used = false :=
        Bool.eq_false_iff.mpr fun h => Record.used_iff.mp h hend
      refine ⟨by rw [List.all_cons, hused]; rfl, ?_⟩
      rw [shown_cons, hused]
      exact fun r hr => absurd hr List.not_mem_nil
    · exact ih.pass (Record.used_iff.mpr hend) fun h => absurd hdeleted (Record.visible_iff.mp h).1
    · exact ih.pass (Record.used_iff.mpr hend) fun h => absurd (Record.visible_iff.mp h).2 hattr
    · exact absurd (volume_of_mask (not_not.mp hattr)) hvolume
    · refine ⟨recordOf sector j, ?_, hfound⟩
      rw [shown_cons, if_pos (Record.used_iff.mpr hend),
        if_pos (Record.visible_iff.mpr ⟨hdeleted, not_not.mp hattr⟩)]
      exact List.mem_cons_self
    · exact ih.pass (Record.used_iff.mpr hend) fun _ => hfound

section

variable {ide : Ide} {s : State} {v : Volume}

theorem Mounted.listSectors (h : Mounted ide s v) (max : Int) (n m : Nat) (entries : List Record)
    (hmax : entries.length + 16 * n ≤ max) :
    (listSectors ide max n s (BitVec.ofNat 32 m) entries).2 = entries ++ shown (records v m n) := by
  induction n generalizing s m entries with
  | zero => simp [Fat.listSectors, records, shown]
  | succ n ih =>
    obtain ⟨t, ht, hm, hbuffer⟩ := h.readSector (rfl : BitVec.ofNat 32 m = _)
    have hroom : (entries.length : Int) < max := by omega
    have hentries := listEntries_eq t.sectorBuffer max (List.range 16) entries (by simp; omega)
    rw [← sectorRecords, sectorRecords_congr hbuffer] at hentries
    have hlength : (shown (sectorRecords (v m))).length ≤ 16 := by
      have hle : (shown (sectorRecords (v m))).length ≤ (sectorRecords (v m)).length :=
        (List.filter_sublist.trans (List.takeWhile_sublist Record.used)).length_le
      simpa [sectorRecords] using hle
    have hnext := ih hm (m + 1) (entries ++ shown (sectorRecords (v m))) (by
      rw [List.length_append]
      push_cast
      omega)
    rw [records_succ, shown_append]
    simp only [Fat.listSectors, if_pos hroom, ht, ne_eq, not_true_eq_false, if_false, hentries]
    rw [BitVec.ofNat_add] at hnext
    cases (sectorRecords (v m)).all Record.used with
    | false => rfl
    | true =>
      rw [if_pos rfl, ← List.append_assoc]
      exact hnext

theorem Mounted.searchSectors (h : Mounted ide s v) (name83 : Str) (n m : Nat) :
    (searchSectors ide name83 n s (BitVec.ofNat 32 m)).2.isSome = true ↔
      ∃ r ∈ shown (records v m n), r.name = name83 := by
  induction n generalizing s m with
  | zero => simp [Fat.searchSectors, records, shown]
  | succ n ih =>
    obtain ⟨t, ht, hm, hbuffer⟩ := h.readSector (rfl : BitVec.ofNat 32 m = _)
    have hsaid := scanEntries_says t.sectorBuffer name83 (List.range 16)
    rw [← sectorRecords, sectorRecords_congr hbuffer] at hsaid
    have hnext := ih hm (m + 1)
    rw [BitVec.ofNat_add] at hnext
    rw [records_succ, shown_append]
    simp only [Fat.searchSectors, ht, ne_eq, not_true_eq_false, if_false]
    cases hscan : scanEntries t.sectorBuffer name83 (List.range 16) with
    | goOn =>
      rw [hscan] at hsaid
      rw [if_pos hsaid.1]
      refine hnext.trans ⟨fun hlater => hlater.imp fun r hr => ⟨List.mem_append_right _ hr.1, hr.2⟩, ?_⟩
      rintro ⟨r, hr, hname⟩
      obtain hr | hr := List.mem_append.mp hr
      · exact absurd hname (hsaid.2 r hr)
      · exact ⟨r, hr, hname⟩
    | ended =>
      rw [hscan] at hsaid
      rw [if_neg (by rw [hsaid.1]; decide)]
      refine ⟨fun hsome => absurd hsome Bool.false_ne_true, ?_⟩
      rintro ⟨r, hr, hname⟩
      exact absurd hname (hsaid.2 r hr)
    | found file =>
      rw [hscan] at hsaid
      obtain ⟨r, hr, hname⟩ := hsaid
      refine ⟨fun _ => ⟨r, ?_, hname⟩, fun _ => rfl⟩
      split_ifs
      · exact List.mem_append_left _ hr
      · exact hr

end

/-! ### The names that paths lead to -/

/-- Eleven characters without small letters, and no dot in the first eight. -/
structure IsName (n : Str) : Prop where
  length : n.length = 11
  chars : ∀ c ∈ n, c ≠ 0 ∧ ¬(0x61 ≤ c ∧ c ≤ 0x7A)
  dotless : 0x2E ∉ n.take 8

theorem toUpper_chars (c : BitVec 8) (hc : c ≠ 0) :
    toUpper c ≠ 0 ∧ ¬(0x61 ≤ toUpper c ∧ toUpper c ≤ 0x7A) ∧ (c ≠ 0x2E → toUpper c ≠ 0x2E) := by
  revert c
  decide

theorem toUpper_of_not_small {c : BitVec 8} (h : ¬(0x61 ≤ c ∧ c ≤ 0x7A)) : toUpper c = c := if_neg h

theorem padded_length (h : text.length ≤ width) : (padded width text).length = width := by
  simp [padded, h]

theorem mem_padded {c : BitVec 8} (h : c ∈ padded width text) : c ∈ text ∨ c = 0x20 := by
  obtain h | h := List.mem_append.mp h
  · exact .inl h
  · exact .inr (List.eq_of_mem_replicate h)

theorem dot_not_mem_base (name : Str) :
    0x2E ∉ name.take (min 8 (((name.take 12).idxOf? 0x2E).getD 8)) := by
  intro hmem
  obtain ⟨j, hj, hget⟩ := List.mem_take_iff_getElem.mp hmem
  cases hdot : (name.take 12).idxOf? 0x2E with
  | none =>
    have hno := List.idxOf?_eq_none_iff.mp hdot
    exact hno (List.mem_take_iff_getElem.mpr ⟨j, by omega, hget⟩)
  | some d =>
    rw [hdot, Option.getD_some] at hj
    obtain ⟨hlt, -, hbefore⟩ := List.idxOf?_eq_some_iff.mp hdot
    refine hbefore j (by omega) ?_
    rwa [List.getElem_take]

theorem isName_of_parts {base ext : Str} (hbase : ∀ c ∈ base, c ≠ 0) (hext : ∀ c ∈ ext, c ≠ 0)
    (hbaseLen : base.length ≤ 8) (hextLen : ext.length ≤ 3) (hdotless : 0x2E ∉ base) :
    IsName (padded 8 (base.map toUpper) ++ padded 3 (ext.map toUpper)) := by
  rw [← List.length_map toUpper] at hbaseLen hextLen
  -- the characters come from the path or are blanks
  have hchars {width : Nat} {text : Str} (htext : ∀ c ∈ text, c ≠ 0) :
      ∀ c ∈ padded width (text.map toUpper), c ≠ 0 ∧ ¬(0x61 ≤ c ∧ c ≤ 0x7A) := by
    intro c hc
    obtain hc | rfl := mem_padded hc
    · obtain ⟨b, hb, rfl⟩ := List.mem_map.mp hc
      exact ⟨(toUpper_chars b (htext b hb)).1, (toUpper_chars b (htext b hb)).2.1⟩
    · decide
  refine ⟨?_, fun c hc => ?_, ?_⟩
  · rw [List.length_append, padded_length hbaseLen, padded_length hextLen]
  · obtain hc | hc := List.mem_append.mp hc
    · exact hchars hbase c hc
    · exact hchars hext c hc
  · rw [List.take_append_of_le_length (by rw [padded_length hbaseLen])]
    intro hdot
    obtain hdot | hdot := mem_padded (List.mem_of_mem_take hdot)
    · obtain ⟨b, hb, hupper⟩ := List.mem_map.mp hdot
      refine (toUpper_chars b (hbase b hb)).2.2 ?_ hupper
      rintro rfl
      exact hdotless hb
    · exact absurd hdot (by decide)

theorem fatNameTo83_isName {path : Str} (hpath : 0 ∉ path) : IsName (fatNameTo83 path) := by
  rw [fatNameTo83]
  generalize hname : (if path.head? = some 0x2F then path.tail else path) = name
  have hzero : ∀ c ∈ name, c ≠ 0 := by
    rintro c hc rfl
    rw [← hname] at hc
    split_ifs at hc
    · exact hpath (List.mem_of_mem_tail hc)
    · exact hpath hc
  refine isName_of_parts (fun c hc => hzero c (List.mem_of_mem_take hc)) (fun c hc => ?_) ?_ ?_
    (dot_not_mem_base name)
  · split at hc
    · exact hzero c (List.mem_of_mem_drop (List.mem_of_mem_take hc))
    · exact absurd hc List.not_mem_nil
  · rw [List.length_take]
    omega
  · split
    · exact List.length_take_le ..
    · exact Nat.zero_le 3

theorem padded_of_length (h : text.length = width) : padded width text = text := by
  rw [padded, h, Nat.sub_self, List.replicate_zero, List.append_nil]

theorem IsName.path {n : Str} (h : IsName n) :
    fatNameTo83 (0x2F :: (n.take 8 ++ 0x2E :: n.drop 8)) = n := by
  have hlen : (n.take 8).length = 8 := by
    rw [List.length_take, h.length]
    rfl
  have hname : (n.take 8 ++ 0x2E :: n.drop 8).length = 12 := by
    simp [h.length]
  have hdot : ((n.take 8 ++ 0x2E :: n.drop 8).take 12).idxOf? 0x2E = some 8 := by
    rw [List.take_of_length_le (by rw [hname])]
    refine List.idxOf?_eq_some_iff.mpr ⟨by omega, ?_, fun j hj hget => h.dotless ?_⟩
    · rw [List.getElem_append_right (by omega)]
      simp [hlen]
    · rw [List.getElem_append_left (by omega)] at hget
      exact hget ▸ List.getElem_mem _
  have hupper : n.map toUpper = n := by
    refine (List.map_congr_left fun c hc => ?_).trans (List.map_id n)
    exact toUpper_of_not_small (h.chars c hc).2
  have hbase : (n.take 8).map toUpper = n.take 8 := by rw [List.map_take, hupper]
  have hext : (n.drop 8).map toUpper = n.drop 8 := by rw [List.map_drop, hupper]
  have hextLen : (n.drop 8).length = 3 := by
    rw [List.length_drop, h.length]
  have hafter : ((n.take 8 ++ 0x2E :: n.drop 8).drop (8 + 1)).take 3 = n.drop 8 := by
    rw [show n.take 8 ++ 0x2E :: n.drop 8 = n.take 8 ++ [0x2E] ++ n.drop 8 by simp,
      List.drop_left' (by simp [hlen]), List.take_of_length_le (by rw [hextLen])]
  rw [fatNameTo83]
  simp only [List.head?_cons, if_true, List.tail_cons, hdot, Option.getD_some, Nat.min_self, hafter]
  rw [List.take_left' hlen, hbase, hext, padded_of_length hlen, padded_of_length hextLen,
    List.take_append_drop]

/-! ### The root directory of a volume -/

namespace Volume

variable (v : Volume) (chain : List Nat)

def rootSectors : List Nat :=
  if v.type = .fat32 then
    chain.flatMap fun c =>
      List.range' (v.dataStart + (c - 2) * v.bpb.sectorsPerCluster) v.bpb.sectorsPerCluster
  else
    List.range' (v.bpb.reservedSectors + v.bpb.fatCount * v.bpb.sectorsPerFat16)
      (rootDirSectors v.bpb.rootEntryCount v.bpb.bytesPerSector)

def rootDir : List Record :=
  let all := (v.rootSectors chain).flatMap fun k => sectorRecords (v k)
  if v.type = .fat32 then all else all.take v.bpb.rootEntryCount

def liveAmong (n : Nat) : List Record :=
  (((v.rootDir chain).take n).takeWhile Record.used).filter Record.live

def liveEntries : List Record := ((v.rootDir chain).takeWhile Record.used).filter Record.live

def searchedSectors : Nat :=
  min 4 (if v.type = .fat32 then v.bpb.sectorsPerCluster else v.bpb.rootEntryCount / 16)

structure Rooted : Prop where
  bytesPerSector : v.bpb.bytesPerSector = 512
  sectorsPerCluster : 0 < v.bpb.sectorsPerCluster
  chained : v.type = .fat32 → v.Chain v.bpb.rootCluster chain ∧ v.bpb.rootEntryCount = 0

end Volume

theorem length_sectorRecords (sector : Sector) : (sectorRecords sector).length = 16 := by
  simp [sectorRecords]

theorem take_flatMap_records (v : Volume) (l : List Nat) (n : Nat) :
    (l.flatMap fun k => sectorRecords (v k)).take (16 * n) =
      (l.take n).flatMap fun k => sectorRecords (v k) := by
  induction l generalizing n with
  | nil => simp
  | cons k l ih =>
    cases n with
    | zero => simp
    | succ n =>
      rw [List.flatMap_cons, List.take_succ_cons, List.flatMap_cons, Nat.mul_succ, Nat.add_comm,
        ← length_sectorRecords (v k), List.take_length_add_append, length_sectorRecords, ih]

section

variable {ide : Ide} {s : State} {v : Volume} {chain : List Nat}

def Volume.rootBase (v : Volume) : Nat :=
  if v.type = .fat32 then v.dataStart + (v.bpb.rootCluster - 2) * v.bpb.sectorsPerCluster
  else v.bpb.reservedSectors + v.bpb.fatCount * v.bpb.sectorsPerFat16

theorem Mounted.rootSector_eq (h : Mounted ide s v) (hv : v.Rooted chain) :
    rootSector s = BitVec.ofNat 32 v.rootBase := by
  have htype : s.info.type = v.type := by simp [h.info, Info.ofBpb, Volume.type]
  rw [rootSector, htype, Volume.rootBase]
  split_ifs with ht
  · have hroot : s.info.rootCluster = v.bpb.rootCluster := by
      simp only [h.info, Info.ofBpb]
      exact if_pos ht
    have hmem : v.bpb.rootCluster ∈ chain := List.mem_of_mem_head? (hv.chained ht).1.head
    have hsector := Volume.dataSector h.info ((hv.chained ht).1.cluster _ hmem).1 0
    rw [hroot]
    simpa using hsector
  · simp only [h.info, Info.ofBpb]
    rw [if_neg (show ¬ fatDetectType v.bpb = .fat32 from ht), BitVec.ofNat_add, BitVec.ofNat_mul]

theorem Volume.Rooted.records_eq (hv : v.Rooted chain) {n : Nat}
    (hn : n ≤ if v.type = .fat32 then v.bpb.sectorsPerCluster else v.bpb.rootEntryCount / 16) :
    records v v.rootBase n = (v.rootDir chain).take (16 * n) := by
  rw [rootDir, rootSectors, rootBase, records]
  split_ifs at hn ⊢ with ht
  · obtain ⟨c, rest, rfl⟩ := List.exists_cons_of_ne_nil (l := chain) (by
      rintro rfl
      exact absurd (hv.chained ht).1.head nofun)
    have hroot : c = v.bpb.rootCluster := by simpa using (hv.chained ht).1.head
    rw [take_flatMap_records, List.flatMap_cons, List.take_append_of_le_length (by simpa using hn),
      hroot, List.take_range'_of_length_ge hn]
  · have hsectors : n ≤ rootDirSectors v.bpb.rootEntryCount v.bpb.bytesPerSector := by
      rw [rootDirSectors, hv.bytesPerSector]
      omega
    rw [List.take_take, Nat.min_eq_left (by omega), take_flatMap_records,
      List.take_range'_of_length_ge hsectors]

def Openable (ide : Ide) (s : State) (n : Str) : Prop :=
  ∃ path, 0 ∉ path ∧ fatNameTo83 path = n ∧ ∀ file, (fatOpen ide s path file).2.2 = 0

theorem Mounted.listDir (h : Mounted ide s v) (hv : v.Rooted chain) {max : Int}
    (hmax : (v.rootDir chain).length ≤ max) : (fatListDir ide s max).2.2 =
      shown ((v.rootDir chain).take (16 * (v.bpb.rootEntryCount / 16))) := by
  have hcount : s.info.rootEntryCount = v.bpb.rootEntryCount := by simp [h.info, Info.ofBpb]
  have hfits : v.bpb.rootEntryCount / 16 ≤
      if v.type = .fat32 then v.bpb.sectorsPerCluster else v.bpb.rootEntryCount / 16 := by
    split_ifs with ht
    · rw [(hv.chained ht).2]
      exact Nat.zero_le _
    · exact Nat.le_refl _
  have hrecords := hv.records_eq hfits
  have hlength : 16 * (v.bpb.rootEntryCount / 16) ≤ (v.rootDir chain).length := by
    have hlen := congrArg List.length hrecords
    rw [List.length_take, records, List.length_flatMap] at hlen
    simp only [length_sectorRecords, List.map_const', List.sum_replicate_nat, List.length_range'] at hlen
    omega
  have hlist := h.listSectors max (v.bpb.rootEntryCount / 16) v.rootBase [] (by
    simp only [List.length_nil]
    omega)
  rw [List.nil_append, hrecords] at hlist
  rw [← hlist, fatListDir, h.mounted, h.rootSector_eq hv, hcount]
  rfl

theorem Mounted.openable_iff (h : Mounted ide s v) (hv : v.Rooted chain) (n : Str) :
    Openable ide s n ↔ IsName n ∧
      ∃ r ∈ shown ((v.rootDir chain).take (16 * v.searchedSectors)), r.name = n := by
  have htype : s.info.type = v.type := by simp [h.info, Info.ofBpb, Volume.type]
  have hsearched : (if 4 < s.info.maxEntries / 16 then 4 else s.info.maxEntries / 16) =
      v.searchedSectors := by
    rw [Info.maxEntries, htype, Volume.searchedSectors]
    simp only [h.info, Info.ofBpb, hv.bytesPerSector]
    split_ifs <;> omega
  have hfits : v.searchedSectors ≤
      if v.type = .fat32 then v.bpb.sectorsPerCluster else v.bpb.rootEntryCount / 16 :=
    Nat.min_le_right _ _
  have hopen (path : Str) (file : File) : (fatOpen ide s path file).2.2 = 0 ↔
      ∃ r ∈ shown ((v.rootDir chain).take (16 * v.searchedSectors)), r.name = fatNameTo83 path := by
    rw [← hv.records_eq hfits, ← h.searchSectors, fatOpen, h.mounted, hsearched,
      h.rootSector_eq hv]
    simp only [Bool.not_true, Bool.false_eq_true, if_false]
    generalize Fat.searchSectors ide (fatNameTo83 path) v.searchedSectors s
      (BitVec.ofNat 32 v.rootBase) = found
    obtain ⟨t, _ | file'⟩ := found
    · exact ⟨fun he => absurd (show (-1 : Int) = 0 from he) (by decide), fun hsome => absurd hsome Bool.false_ne_true⟩
    · exact ⟨fun _ => rfl, fun _ => rfl⟩
  constructor
  · rintro ⟨path, hpath, rfl, hall⟩
    exact ⟨fatNameTo83_isName hpath, (hopen path ⟨0, 0, 0, 0, false⟩).mp (hall _)⟩
  · rintro ⟨hname, hr⟩
    refine ⟨_, ?_, hname.path, fun file => (hopen _ file).mpr (by rwa [hname.path])⟩
    intro hzero
    have hchars : ∀ c ∈ n, c ≠ 0 := fun c hc => (hname.chars c hc).1
    simp only [List.mem_cons, List.mem_append] at hzero
    obtain hzero | hzero | hzero | hzero := hzero
    · exact absurd hzero (by decide)
    · exact hchars 0 (List.mem_of_mem_take hzero) rfl
    · exact absurd hzero (by decide)
    · exact hchars 0 (List.mem_of_mem_drop hzero) rfl

/-- The names that can be opened are those of the live entries reported to a large enough buffer,
and both are all live entries. -/
structure RootAgrees (ide : Ide) (s : State) (v : Volume) (chain : List Nat) : Prop where
  names : ∀ max : Int, (v.rootDir chain).length ≤ max → ∀ n,
    Openable ide s n ↔ ∃ r ∈ (fatListDir ide s max).2.2, r.live ∧ r.name = n
  listed : ∀ max : Int, (v.rootDir chain).length ≤ max →
    (fatListDir ide s max).2.2 = v.liveEntries chain
  opened : ∀ r ∈ v.liveEntries chain, Openable ide s r.name

/-- What the live entries have to be like: they are neither read-only nor hidden nor of the system,
they lie in the sectors that are listed, and each name is proper and can be found in the sectors
that are searched. -/
structure RootReached (v : Volume) (chain : List Nat) : Prop where
  plain : ∀ r ∈ v.liveEntries chain, r.attributes &&& 0x07 = 0
  listed : v.liveAmong chain (16 * (v.bpb.rootEntryCount / 16)) = v.liveEntries chain
  named : ∀ r ∈ v.liveEntries chain, IsName r.name
  searched : ∀ r ∈ v.liveEntries chain,
    ∃ r' ∈ v.liveAmong chain (16 * v.searchedSectors), r'.name = r.name

theorem mask_iff (a : BitVec 8) : a &&& 0x0F = 0 ↔ a &&& 0x08 = 0 ∧ a &&& 0x07 = 0 := by
  revert a
  decide

theorem Record.visible_iff_live : r.visible = true ↔ r.live = true ∧ r.attributes &&& 0x07 = 0 := by
  rw [visible_iff, live_iff, mask_iff, and_assoc]

theorem shown_sublist_liveAmong (v : Volume) (chain : List Nat) (n : Nat) :
    (shown ((v.rootDir chain).take n)).Sublist (v.liveAmong chain n) :=
  List.monotone_filter_right _ fun _ h => (Record.visible_iff_live.mp h).1

theorem liveAmong_sublist (v : Volume) (chain : List Nat) (n : Nat) :
    (v.liveAmong chain n).Sublist (v.liveEntries chain) := by
  rw [Volume.liveAmong, Volume.liveEntries, ← List.take_takeWhile]
  exact (List.take_sublist n _).filter _

theorem RootReached.shown_eq (h : RootReached v chain) (n : Nat) :
    shown ((v.rootDir chain).take n) = v.liveAmong chain n := by
  refine List.filter_congr fun r hr => Bool.eq_iff_iff.mpr ?_
  rw [Record.visible_iff_live, and_iff_left_iff_imp]
  intro hlive
  exact h.plain r ((liveAmong_sublist v chain n).subset (List.mem_filter.mpr ⟨hr, hlive⟩))

end

/-- A FAT12 volume with a root directory of one sector, in which a file A has the given
attributes. -/
def oneFile (attributes : BitVec 8) (lba : BitVec 32) : Sector := fun i =>
  if lba = 0 then
    match i with
    | 12 => 2
    | 13 => 1
    | 14 => 1
    | 16 => 1
    | 17 => 16
    | 19 => 100
    | 22 => 1
    | 510 => 0x55
    | 511 => 0xAA
    | _ => 0
  else if lba = 2 then
    if i = 0 then 0x41 else if i < 11 then 0x20 else if i = 11 then attributes else 0
  else 0

def oneFileIde (attributes : BitVec 8) : Ide := fun _ _ lba => some (oneFile attributes lba)

def oneFileMounted (attributes : BitVec 8) : State := (fatMount (oneFileIde attributes) unmounted 0).1

def oneFileVolume (attributes : BitVec 8) : Volume := fun n =>
  oneFile attributes (BitVec.ofNat 32 n + 0)

theorem oneFile_mounted (attributes : BitVec 8) :
    Mounted (oneFileIde attributes) (oneFileMounted attributes) (oneFileVolume attributes) :=
  ⟨rfl, congrArg Info.ofBpb (Bpb.parse_congr fun _ hi => if_pos hi), fun _ _ => rfl⟩

end TocinOS.Fat
