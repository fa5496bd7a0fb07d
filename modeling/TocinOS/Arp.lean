import TocinOS.IpReceive

/-! Address resolution, `kernel/net/arp.c`: the cache, the packets that fill it and the
resolver that waits for them. Tick counts are arguments of the calls that read them. The
resolver is cut where it waits, inside `net_send_packet` and in the delay of its loop. -/

namespace TocinOS.Arp

open Tcp (Byte Packet bigEndian16 bigEndian32)
open IpReceive (word32)

abbrev cacheSize : Nat := 64
abbrev pendingTimeout : BitVec 32 := 3000
abbrev maxRetries : BitVec 32 := 3
abbrev packetSize : Nat := 28
abbrev opRequest : BitVec 16 := 1
abbrev opReply : BitVec 16 := 2
abbrev broadcastIp : BitVec 32 := 0xFFFFFFFF

abbrev Mac := Fin 6 → Byte

inductive EntryState where
  | free
  | pending
  | resolved
deriving DecidableEq

structure Entry where
  ipAddr : BitVec 32 := 0
  macAddr : Mac := fun _ => 0
  state : EntryState := .free
  timestamp : BitVec 32 := 0
  retries : BitVec 32 := 0

structure State where
  cache : Nat → Entry := fun _ => {}
  localMac : Mac := fun _ => 0
  localIp : BitVec 32 := 0
  sent : List (List Byte) := []

def State.modify (s : State) (i : Nat) (f : Entry → Entry) : State :=
  { s with cache := Function.update s.cache i (f (s.cache i)) }

@[simp] theorem State.modify_self (s : State) (i : Nat) (f : Entry → Entry) :
    (s.modify i f).cache i = f (s.cache i) := Function.update_self i _ _

variable {i : Nat} {s : State} {ip : BitVec 32} {p : Packet}

theorem State.modify_of_ne (s : State) {j : Nat} (f : Entry → Entry) (h : j ≠ i) :
    (s.modify i f).cache j = s.cache j := Function.update_of_ne h _ _

def arpInit (mac : Mac) : State := { localMac := mac }

/-! ### The cache -/

def arpCacheFind (s : State) (ip : BitVec 32) : Option Nat :=
  (List.range cacheSize).find? fun i => (s.cache i).state != .free && (s.cache i).ipAddr == ip

def oldestEntry (s : State) : Nat :=
  (List.range' 1 (cacheSize - 1)).foldl
    (fun oldest i => if (s.cache i).timestamp < (s.cache oldest).timestamp then i else oldest) 0

def arpCacheAlloc (s : State) : Nat × State :=
  match (List.range cacheSize).find? fun i => (s.cache i).state == .free with
  | some i => (i, s)
  | none => (oldestEntry s, s.modify (oldestEntry s) fun e => { e with state := .free })

def arpCacheAdd (s : State) (now ip : BitVec 32) (mac : Mac) : State :=
  let (i, s) :=
    match arpCacheFind s ip with
    | some i => (i, s)
    | none => arpCacheAlloc s
  s.modify i fun e => { e with ipAddr := ip, macAddr := mac, state := .resolved, timestamp := now }

def arpCacheClear (s : State) : State :=
  { s with cache := fun i => if i < cacheSize then { s.cache i with state := .free } else s.cache i }

/-! ### Packets -/

def arpBytes (operation : BitVec 16) (senderMac : Mac) (senderIp : BitVec 32) (targetMac : Mac)
    (targetIp : BitVec 32) : List Byte :=
  bigEndian16 1 ++ bigEndian16 0x0800 ++ [6, 4] ++ bigEndian16 operation ++ List.ofFn senderMac
    ++ bigEndian32 senderIp ++ List.ofFn targetMac ++ bigEndian32 targetIp

def State.transmit (s : State) (dest : Mac) (operation : BitVec 16) (targetMac : Mac)
    (targetIp : BitVec 32) : State :=
  { s with sent := s.sent ++ [List.ofFn dest ++ List.ofFn s.localMac ++ bigEndian16 0x0806
      ++ arpBytes operation s.localMac s.localIp targetMac targetIp] }

def arpSendRequest (s : State) (targetIp : BitVec 32) : State :=
  s.transmit (fun _ => 0xFF) opRequest (fun _ => 0) targetIp

def arpSendReply (s : State) (targetIp : BitVec 32) (targetMac : Mac) : State :=
  s.transmit targetMac opReply targetMac targetIp

def arpAnnounce (s : State) : State := arpSendRequest s s.localIp

def senderHwAddr (p : Packet) : Mac := fun k => p.byte (8 + k)
def senderProtoAddr (p : Packet) : BitVec 32 := word32 p.byte 14
def targetProtoAddr (p : Packet) : BitVec 32 := word32 p.byte 24

/-- The test of `arp_receive`. The operation is not part of it. -/
def Valid (p : Packet) : Prop :=
  packetSize ≤ p.length ∧ p.byte 0 ++ p.byte 1 = (1 : BitVec 16) ∧
    p.byte 2 ++ p.byte 3 = (0x0800 : BitVec 16) ∧ p.byte 4 = 6 ∧ p.byte 5 = 4

instance : DecidablePred Valid := fun _ => inferInstanceAs (Decidable (_ ∧ _ ∧ _ ∧ _ ∧ _))

def arpReceive (s : State) (now : BitVec 32) (p : Packet) : Int × State :=
  if ¬ Valid p then (-1, s)
  else
    let s := arpCacheAdd s now (senderProtoAddr p) (senderHwAddr p)
    if p.byte 6 ++ p.byte 7 = opRequest ∧ targetProtoAddr p = s.localIp then
      (0, arpSendReply s (senderProtoAddr p) (senderHwAddr p))
    else (0, s)

/-! ### Resolving -/

inductive Progress where
  | found (mac : Mac)
  | failed
  | sending (entry : Nat)
  | waiting (entry : Option Nat) (start : BitVec 32)

def Entry.pend (now ip : BitVec 32) (e : Entry) : Entry :=
  { e with ipAddr := ip, state := .pending, retries := 0, timestamp := now }

def arpResolve (s : State) (now ip : BitVec 32) : Progress × State :=
  if ip = broadcastIp then (.found fun _ => 0xFF, s)
  else
    match arpCacheFind s ip with
    | some i =>
      if (s.cache i).state = .resolved then (.found (s.cache i).macAddr, s)
      else (.sending i, arpSendRequest s ip)
    | none =>
      let (i, s) := arpCacheAlloc s
      (.sending i, arpSendRequest (s.modify i (Entry.pend now ip)) ip)

def requestSent (s : State) (now : BitVec 32) (entry : Nat) : Progress × State :=
  (.waiting (some entry) now, s.modify entry fun e => { e with retries := e.retries + 1 })

/-- One round of the waiting loop, or what follows it. The entry held when time is up was
found in an earlier round, and may hold another address by now. A retry reads the time
again. -/
def arpWait (s : State) (now later ip : BitVec 32) (entry : Option Nat) (start : BitVec 32) :
    Progress × State :=
  if now - start < pendingTimeout then
    match arpCacheFind s ip with
    | some i =>
      if (s.cache i).state = .resolved then (.found (s.cache i).macAddr, s)
      else (.waiting (some i) start, s)
    | none => (.waiting none start, s)
  else
    match entry with
    | some i => if (s.cache i).retries.slt maxRetries then arpResolve s later ip else (.failed, s)
    | none => (.failed, s)

/-! ### Runs -/

inductive Call where
  | receive (now : BitVec 32) (p : Packet)
  | clear
  | setIp (ip : BitVec 32)
  | announce
  | resolve (now ip : BitVec 32)
  | resume (now later : BitVec 32)

structure Config where
  state : State
  resolving : Option (BitVec 32 × Progress) := none
  received : List Packet := []

def Config.progress (c : Config) (ip : BitVec 32) : Progress × State → Config
  | (.found _, s) | (.failed, s) => { c with state := s, resolving := none }
  | (p, s) => { c with state := s, resolving := some (ip, p) }

def Config.advance (c : Config) (now later : BitVec 32) : Option (BitVec 32 × (Progress × State)) :=
  match c.resolving with
  | some (ip, .sending entry) => some (ip, requestSent c.state now entry)
  | some (ip, .waiting entry start) => some (ip, arpWait c.state now later ip entry start)
  | _ => none

def Config.resolution (c : Config) : Call → Option (BitVec 32 × (Progress × State))
  | .resolve now ip =>
    if c.resolving.isSome then none else some (ip, arpResolve c.state now ip)
  | .resume now later => c.advance now later
  | _ => none

def Config.call (c : Config) (k : Call) : Config :=
  match k with
  | .receive now p =>
    { c with state := (arpReceive c.state now p).2, received := p :: c.received }
  | .clear => { c with state := arpCacheClear c.state }
  | .setIp ip => { c with state := { c.state with localIp := ip } }
  | .announce => { c with state := arpAnnounce c.state }
  | k =>
    match c.resolution k with
    | some (ip, p) => c.progress ip p
    | none => c

def Step (c c' : Config) : Prop := ∃ k, c' = c.call k

def Start (c : Config) : Prop := ∃ mac, c = { state := arpInit mac }

def latest (received : List Packet) (ip : BitVec 32) : Option Mac :=
  (received.find? fun p => decide (Valid p) && senderProtoAddr p == ip).map senderHwAddr

structure Inv (c : Config) : Prop where
  unique : ∀ i < cacheSize, ∀ j < cacheSize, (c.state.cache i).state ≠ .free →
    (c.state.cache j).state ≠ .free → (c.state.cache i).ipAddr = (c.state.cache j).ipAddr → i = j
  fresh : ∀ i < cacheSize, (c.state.cache i).state = .resolved →
    latest c.received (c.state.cache i).ipAddr = some (c.state.cache i).macAddr

/-! ### Searches -/

theorem arpCacheFind_some (h : arpCacheFind s ip = some i) :
    i < cacheSize ∧ (s.cache i).state ≠ .free ∧ (s.cache i).ipAddr = ip := by
  have hmem := List.mem_of_find?_eq_some h
  have htest := List.find?_some h
  simp only [Bool.and_eq_true, bne_iff_ne, ne_eq, beq_iff_eq] at htest
  exact ⟨List.mem_range.mp hmem, htest.1, htest.2⟩

theorem arpCacheFind_none (h : arpCacheFind s ip = none) (hi : i < cacheSize)
    (hstate : (s.cache i).state ≠ .free) : (s.cache i).ipAddr ≠ ip := by
  intro hip
  have htest := List.find?_eq_none.mp h i (List.mem_range.mpr hi)
  simp [hstate, hip] at htest

theorem arpCacheAlloc_cache (s : State) {j : Nat} (hj : j ≠ (arpCacheAlloc s).1) :
    (arpCacheAlloc s).2.cache j = s.cache j := by
  unfold arpCacheAlloc at hj ⊢
  cases hfind : (List.range cacheSize).find? fun i => (s.cache i).state == .free with
  | some i => rfl
  | none =>
    simp only [hfind] at hj ⊢
    exact State.modify_of_ne _ _ hj

/-! ### One entry is replaced -/

/-- Entry `i` becomes a used one for an address that no other used entry has; the rest of
the cache stays. -/
structure Places (s s' : State) (i : Nat) (ip : BitVec 32) : Prop where
  others : ∀ j ≠ i, s'.cache j = s.cache j
  entry : (s'.cache i).ipAddr = ip
  alone : ∀ j < cacheSize, j ≠ i → (s.cache j).state ≠ .free → (s.cache j).ipAddr ≠ ip

theorem Places.alloc (hnone : arpCacheFind s ip = none) {f : Entry → Entry}
    (hf : ∀ e, (f e).ipAddr = ip) :
    Places s ((arpCacheAlloc s).2.modify (arpCacheAlloc s).1 f) (arpCacheAlloc s).1 ip where
  others j hj := (State.modify_of_ne _ _ hj).trans (arpCacheAlloc_cache s hj)
  entry := by rw [State.modify_self, hf]
  alone j hj _ hstate := arpCacheFind_none hnone hj hstate

variable {c c' : Config}

/-- Replacing an entry keeps the invariant if it is resolved only to the latest address,
and if the latest addresses of the others stay. -/
theorem Inv.place (h : Inv c) (hplace : Places c.state c'.state i ip)
    (hentry : (c'.state.cache i).state = .resolved →
      latest c'.received ip = some (c'.state.cache i).macAddr)
    (hlatest : ∀ ip' ≠ ip, latest c'.received ip' = latest c.received ip') : Inv c' where
  unique j hj k hk hused hused' heq := by
    by_cases hji : j = i <;> by_cases hki : k = i
    · rw [hji, hki]
    · subst hji
      rw [hplace.entry, hplace.others k hki] at heq
      rw [hplace.others k hki] at hused'
      exact absurd heq.symm (hplace.alone k hk hki hused')
    · subst hki
      rw [hplace.entry, hplace.others j hji] at heq
      rw [hplace.others j hji] at hused
      exact absurd heq (hplace.alone j hj hji hused)
    · rw [hplace.others j hji] at hused heq
      rw [hplace.others k hki] at hused' heq
      exact h.unique j hj k hk hused hused' heq
  fresh j hj hresolved := by
    by_cases hji : j = i
    · subst hji
      rw [hplace.entry]
      exact hentry hresolved
    · rw [hplace.others j hji] at hresolved ⊢
      have hused : (c.state.cache j).state ≠ .free := by simp [hresolved]
      rw [hlatest _ (hplace.alone j hj hji hused)]
      exact h.fresh j hj hresolved

theorem Inv.congr (h : Inv c)
    (hcache : ∀ i, (c'.state.cache i).ipAddr = (c.state.cache i).ipAddr ∧
      (c'.state.cache i).macAddr = (c.state.cache i).macAddr ∧
      (c'.state.cache i).state = (c.state.cache i).state)
    (hlatest : ∀ ip, latest c'.received ip = latest c.received ip) : Inv c' where
  unique i hi j hj hused hused' heq := by
    simp only [(hcache _).1, (hcache _).2.2] at hused hused' heq
    exact h.unique i hi j hj hused hused' heq
  fresh i hi hresolved := by
    simp only [(hcache _).2.2] at hresolved
    rw [hlatest, (hcache i).1, (hcache i).2.1]
    exact h.fresh i hi hresolved

/-! ### Receiving -/

theorem latest_cons_of_valid (hvalid : Valid p) (received : List Packet) (ip : BitVec 32) :
    latest (p :: received) ip =
      if senderProtoAddr p = ip then some (senderHwAddr p) else latest received ip := by
  unfold latest
  split_ifs with hip <;> simp [hvalid, hip]

theorem latest_cons_of_not_valid (hvalid : ¬ Valid p) (received : List Packet) (ip : BitVec 32) :
    latest (p :: received) ip = latest received ip := by
  simp [latest, hvalid]

theorem Inv.places_add (h : Inv c) (now ip : BitVec 32) (mac : Mac) :
    ∃ i, Places c.state (arpCacheAdd c.state now ip mac) i ip ∧
      ((arpCacheAdd c.state now ip mac).cache i).macAddr = mac := by
  unfold arpCacheAdd
  cases hfind : arpCacheFind c.state ip with
  | some i =>
    obtain ⟨hi, hused, hip⟩ := arpCacheFind_some hfind
    refine ⟨i, ⟨fun j hj => State.modify_of_ne _ _ hj, ?_, fun j hj hji hused' hip' => ?_⟩, ?_⟩
    · rw [State.modify_self]
    · exact hji (h.unique j hj i hi hused' hused (hip'.trans hip.symm))
    · rw [State.modify_self]
  | none =>
    refine ⟨(arpCacheAlloc c.state).1, Places.alloc hfind fun _ => rfl, ?_⟩
    rw [State.modify_self]

theorem arpReceive_cache (hvalid : Valid p) (now : BitVec 32) : (arpReceive s now p).2.cache =
      (arpCacheAdd s now (senderProtoAddr p) (senderHwAddr p)).cache := by
  rw [arpReceive, if_neg (not_not.mpr hvalid)]
  dsimp only
  split_ifs <;> rfl

theorem Inv.receive (h : Inv c) (now : BitVec 32) (p : Packet) : Inv (c.call (.receive now p)) := by
  by_cases hvalid : Valid p
  · obtain ⟨i, hplace, hmac⟩ := h.places_add now (senderProtoAddr p) (senderHwAddr p)
    have hcache := arpReceive_cache (s := c.state) hvalid now
    refine h.place (i := i) ⟨fun j hj => ?_, ?_, hplace.alone⟩ (fun _ => ?_) fun ip' hip' => ?_
    · exact (congrFun hcache j).trans (hplace.others j hj)
    · exact (congrArg Entry.ipAddr (congrFun hcache i)).trans hplace.entry
    · show latest (p :: c.received) _ = some ((arpReceive c.state now p).2.cache i).macAddr
      rw [latest_cons_of_valid hvalid, if_pos rfl, hcache, hmac]
    · exact (latest_cons_of_valid hvalid _ _).trans (if_neg hip'.symm)
  · have hstate : (arpReceive c.state now p).2 = c.state := by rw [arpReceive, if_pos hvalid]
    refine h.congr (fun i => ?_) (latest_cons_of_not_valid hvalid _)
    have hcache := congrArg (State.cache · i) hstate
    exact ⟨congrArg Entry.ipAddr hcache, congrArg Entry.macAddr hcache, congrArg Entry.state hcache⟩

theorem Inv.clear (c : Config) : Inv (c.call .clear) where
  unique i hi j _ hused := by
    have hfree : ((c.call .clear).state.cache i).state = .free := by
      simp [Config.call, arpCacheClear, hi]
    exact absurd hfree hused
  fresh i hi hresolved := by
    have hfree : ((c.call .clear).state.cache i).state = .free := by
      simp [Config.call, arpCacheClear, hi]
    rw [hfree] at hresolved
    cases hresolved

/-! ### Resolving -/

structure Sound (c : Config) (ip : BitVec 32) (r : Progress × State) : Prop where
  inv : Inv { c with state := r.2 }
  answer : ∀ mac, r.1 = .found mac → ip ≠ broadcastIp → latest c.received ip = some mac

theorem Inv.sound_found (h : Inv c) (hfind : arpCacheFind c.state ip = some i)
    (hresolved : (c.state.cache i).state = .resolved) :
    Sound c ip (.found (c.state.cache i).macAddr, c.state) where
  inv := h
  answer mac hmac _ := by
    obtain ⟨hi, -, hip⟩ := arpCacheFind_some hfind
    cases hmac
    rw [← hip]
    exact h.fresh i hi hresolved

theorem Inv.sound_resolve (h : Inv c) (now ip : BitVec 32) :
    Sound c ip (arpResolve c.state now ip) := by
  unfold arpResolve
  by_cases hip : ip = broadcastIp
  · rw [if_pos hip]
    exact ⟨h, fun _ _ hne => absurd hip hne⟩
  rw [if_neg hip]
  cases hfind : arpCacheFind c.state ip with
  | some i =>
    dsimp only
    split_ifs with hresolved
    · exact h.sound_found hfind hresolved
    · exact ⟨h.congr (fun _ => ⟨rfl, rfl, rfl⟩) (fun _ => rfl), fun _ hmac => by cases hmac⟩
  | none =>
    have hpending : Inv { c with
        state := (arpCacheAlloc c.state).2.modify (arpCacheAlloc c.state).1 (Entry.pend now ip) } :=
      h.place (Places.alloc hfind fun _ => rfl)
        (fun hresolved => by simp [Entry.pend] at hresolved) fun _ _ => rfl
    exact ⟨hpending.congr (fun _ => ⟨rfl, rfl, rfl⟩) (fun _ => rfl), fun _ hmac => by cases hmac⟩

theorem Inv.sound_sent (h : Inv c) (now ip : BitVec 32) (entry : Nat) :
    Sound c ip (requestSent c.state now entry) where
  inv := by
    refine h.congr (fun i => ?_) fun _ => rfl
    by_cases hi : i = entry <;> simp [requestSent, State.modify, hi]
  answer _ hmac := by cases hmac

theorem Inv.sound_wait (h : Inv c) (now later ip : BitVec 32) (entry : Option Nat)
    (start : BitVec 32) : Sound c ip (arpWait c.state now later ip entry start) := by
  have hstay : ∀ p : Progress, (∀ mac, p ≠ .found mac) → Sound c ip (p, c.state) :=
    fun p hp => ⟨h, fun mac hmac => absurd hmac (hp mac)⟩
  unfold arpWait
  split_ifs with htime
  · cases hfind : arpCacheFind c.state ip with
    | some i =>
      dsimp only
      split_ifs with hresolved
      · exact h.sound_found hfind hresolved
      · exact hstay _ nofun
    | none => exact hstay _ nofun
  · cases entry with
    | some i =>
      dsimp only
      split_ifs
      · exact h.sound_resolve later ip
      · exact hstay _ nofun
    | none => exact hstay _ nofun

theorem Inv.sound_resolution (h : Inv c) {k : Call} {r : Progress × State}
    (hr : c.resolution k = some (ip, r)) : Sound c ip r := by
  cases k with
  | resolve now ip' =>
    simp only [Config.resolution] at hr
    split_ifs at hr
    cases hr
    exact h.sound_resolve now ip
  | resume now later =>
    simp only [Config.resolution, Config.advance] at hr
    split at hr <;> cases hr
    · exact h.sound_sent now ip _
    · exact h.sound_wait now later ip _ _
  | _ => cases hr

theorem Inv.progress {r : Progress × State} (h : Sound c ip r) : Inv (c.progress ip r) := by
  obtain ⟨p, s⟩ := r
  cases p <;> exact h.inv.congr (fun _ => ⟨rfl, rfl, rfl⟩) fun _ => rfl

theorem Inv.call (h : Inv c) (k : Call) : Inv (c.call k) := by
  have hresolver : Inv (match c.resolution k with
      | some (ip, p) => c.progress ip p
      | none => c) := by
    cases hr : c.resolution k with
    | some r => exact Inv.progress (h.sound_resolution hr)
    | none => exact h
  cases k with
  | receive now p => exact h.receive now p
  | clear => exact Inv.clear c
  | setIp ip => exact h.congr (fun _ => ⟨rfl, rfl, rfl⟩) fun _ => rfl
  | announce => exact h.congr (fun _ => ⟨rfl, rfl, rfl⟩) fun _ => rfl
  | resolve now ip => exact hresolver
  | resume now later => exact hresolver

theorem Inv.start (h : Start c) : Inv c := by
  obtain ⟨mac, rfl⟩ := h
  exact ⟨fun _ _ _ _ hused => absurd rfl hused, fun _ _ hresolved => by cases hresolved⟩

theorem Inv.run (hc : Start c) (h : Relation.ReflTransGen Step c c') : Inv c' := by
  induction h with
  | refl => exact Inv.start hc
  | tail _ hstep ih =>
    obtain ⟨k, rfl⟩ := hstep
    exact ih.call k

/-- In every run, whatever arrives while the resolver waits, no address has two used
entries, and an address that is resolved is the one of the latest valid packet. -/
theorem resolved_addresses_latest {c c' : Config} (hc : Start c)
    (h : Relation.ReflTransGen Step c c') :
    (∀ i < cacheSize, ∀ j < cacheSize, (c'.state.cache i).state ≠ .free →
      (c'.state.cache j).state ≠ .free →
      (c'.state.cache i).ipAddr = (c'.state.cache j).ipAddr → i = j) ∧
    ∀ k ip mac s, c'.resolution k = some (ip, (.found mac, s)) → ip ≠ broadcastIp →
      latest c'.received ip = some mac := by
  have hinv := Inv.run hc h
  exact ⟨hinv.unique, fun k ip mac s hr hip => (hinv.sound_resolution hr).answer mac rfl hip⟩

def gatewayReply : Packet where
  length := 28
  byte := fun k => (([0, 1, 8, 0, 6, 4, 0, 2, 0x52, 0x55, 10, 0, 2, 2, 10, 0, 2, 2,
    0x52, 0x54, 0, 0x12, 0x34, 0x56, 10, 0, 2, 15] : List Byte)).getD k 0
  length_lt := by decide

def answered : Config :=
  ((({ state := arpInit fun _ => 0 } : Config).call (.resolve 0 0x0A000202)).call
    (.resume 1 1)).call (.receive 2 gatewayReply)

theorem gateway_resolved :
    (answered.resolution (.resume 3 3)).map (fun r => r.2.1) =
        some (.found (senderHwAddr gatewayReply)) ∧
      latest answered.received 0x0A000202 = some (senderHwAddr gatewayReply) := by
  have hr : answered.resolution (.resume 3 3) =
      some (0x0A000202, (.found (senderHwAddr gatewayReply), answered.state)) := rfl
  refine ⟨by rw [hr]; rfl, (resolved_addresses_latest ⟨fun _ => 0, rfl⟩ ?_).2 _ _ _ _ hr
    (by decide)⟩
  exact .tail (.tail (.tail .refl ⟨.resolve 0 0x0A000202, rfl⟩) ⟨.resume 1 1, rfl⟩)
    ⟨.receive 2 gatewayReply, rfl⟩

end TocinOS.Arp
