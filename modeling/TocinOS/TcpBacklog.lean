import TocinOS.TcpAccept

/-! The connections of one listening socket over runs of segments, `tcp_accept` and
`tcp_close_socket`. -/

namespace TocinOS.Tcp.Listener

/-- The state with what has happened to the connections in use: those that `tcp_accept`
on the listener has returned, and those whose handshake has been completed. -/
structure Config where
  state : State
  accepted : Nat → Prop
  complete : Nat → Prop

def Config.pending (c : Config) (l : Nat) : List Nat :=
  (c.state.connections l).pendingConnections

/-- The bookkeeping for a call that leads to `s` and hands out `returned`. Releasing a
block forgets its connection. -/
def Config.after (c : Config) (s : State) (returned : Option Nat) : Config where
  state := s
  accepted j := (s.connections j).inUse = true ∧ (c.accepted j ∨ returned = some j)
  complete j := (s.connections j).inUse = true ∧
    ((s.connections j).state = .established ∨ c.complete j)

inductive Call where
  | receive (srcIp destIp : BitVec 32) (p : Packet)
  | accept (sockfd : Int)
  | close (sockfd : Int)

def Config.call (env : Env) (l : Nat) (c : Config) : Call → Config
  | .receive srcIp destIp p => c.after (tcpReceive env c.state srcIp destIp p).2 none
  | .accept sockfd => c.after (tcpAccept c.state sockfd).2
      (if sockfd = l then (tcpAccept c.state sockfd).1 else none)
  | .close sockfd => c.after (tcpCloseSocket env c.state sockfd) none

structure Asks (s : State) (l : Nat) (srcIp destIp : BitVec 32) (p : Packet) : Prop where
  length : headerMinSize ≤ p.length
  checksum : tcpChecksum srcIp destIp p.byte p.length = 0
  found : tcpFindConnection s destIp p.destPort srcIp p.srcPort = some l
  syn : has p.flags flagSyn = true
  free : ∃ j < maxConnections, (s.connections j).inUse = false

/-- The calls that the queue of the listener can take: a SYN while there is room in it,
`tcp_accept` when the handshake of its first connection is complete, and
`tcp_close_socket` on connections that are not in it. -/
def Call.Allowed (l : Nat) (c : Config) : Call → Prop
  | .receive srcIp destIp p => Asks c.state l srcIp destIp p →
      ((c.pending l).length : Int) < (c.state.connections l).backlog
  | .accept sockfd => sockfd = l → ∀ j, (c.pending l).head? = some j → c.complete j
  | .close sockfd => ∀ j ∈ c.pending l, sockfd ≠ j

inductive Step (env : Env) (l : Nat) (c : Config) : Config → Prop
  | call (a : Call) (h : a.Allowed l c) : Step env l c (c.call env l a)

structure Queue (l : Nat) (c : Config) : Prop where
  inUse : (c.state.connections l).inUse = true
  listening : (c.state.connections l).state = .listen
  bound : (c.pending l).length ≤ (c.state.connections l).backlog.toNat
  nodup : (c.pending l).Nodup
  entry : ∀ j ∈ c.pending l, (c.state.connections j).inUse = true ∧
    (c.state.connections j).parentSocket = l ∧ (c.state.connections j).state.unclosed = true
  waiting : ∀ j ∈ c.pending l, ¬ c.accepted j
  covered : ∀ j, (c.state.connections j).inUse = true →
    (c.state.connections j).parentSocket = l → j ∈ c.pending l ∨ c.accepted j
  alive : ∀ j, c.accepted j → (c.state.connections j).inUse = true

/-! ### What a call does to the queue -/

/-- A call that leaves the listener alone. It creates no connection for the listener and
neither releases nor closes one of its queue. -/
structure Quiet (l : Nat) (s s' : State) : Prop where
  listener : s'.connections l = s.connections l
  owned : ∀ j, (s'.connections j).inUse = true → (s'.connections j).parentSocket = l →
    (s.connections j).inUse = true ∧ (s.connections j).parentSocket = l
  queued : ∀ j ∈ (s.connections l).pendingConnections, (s.connections j).inUse = true →
    (s.connections j).parentSocket = l → (s.connections j).state.unclosed = true →
      (s'.connections j).inUse = true ∧ (s'.connections j).parentSocket = l ∧
        (s'.connections j).state.unclosed = true

variable {l i j : Nat} {s s' : State} {c : Config} {env : Env}

theorem Quiet.of_kept (hl : s'.connections l = s.connections l)
    (h : ∀ j, BlockKept (s.connections j) (s'.connections j)) : Quiet l s s' where
  listener := hl
  owned j hj hparent := by
    obtain ⟨huse, heq⟩ := (h j).parent hj
    exact ⟨huse, heq ▸ hparent⟩
  queued j _ huse hparent hstate := by
    obtain ⟨huse', hstate'⟩ := (h j).unclosed huse hstate
    exact ⟨huse', ((h j).parent huse').2.trans hparent, hstate'⟩

theorem Quiet.of_nothing (hl : (s.connections l).inUse = true)
    (same : ∀ j, (s.connections j).inUse = true → s'.connections j = s.connections j)
    (free : ∀ j, (s.connections j).inUse = false → (s'.connections j).inUse = false) :
    Quiet l s s' := by
  refine .of_kept (same l hl) fun j => ?_
  cases hj : (s.connections j).inUse with
  | true =>
    rw [same j hj]
    exact .refl _
  | false => exact ⟨by simp [free j hj], by simp [hj]⟩

theorem Quiet.of_created (hl : (s.connections l).inUse = true) (hil : i ≠ l)
    (free : (s.connections j).inUse = false) (parent : (s'.connections j).parentSocket = i)
    (others : ∀ k, k ≠ i → k ≠ j → s'.connections k = s.connections k)
    (listener : BlockKept (s.connections i) (s'.connections i)) : Quiet l s s' := by
  have hfresh : ∀ k, (s.connections k).inUse = true → k ≠ j := by
    rintro k hk rfl
    rw [hk] at free
    cases free
  have hkept : ∀ k, k ≠ j → BlockKept (s.connections k) (s'.connections k) := by
    intro k hkj
    by_cases hki : k = i
    · rw [hki]
      exact listener
    · rw [others k hki hkj]
      exact .refl _
  constructor
  · exact others l (Ne.symm hil) (hfresh l hl)
  · intro k hk hparent
    by_cases hkj : k = j
    · rw [hkj, parent] at hparent
      omega
    · obtain ⟨huse, heq⟩ := (hkept k hkj).parent hk
      exact ⟨huse, heq ▸ hparent⟩
  · intro k _ huse hparent hstate
    have hk := hkept k (hfresh k huse)
    obtain ⟨huse', hstate'⟩ := hk.unclosed huse hstate
    exact ⟨huse', (hk.parent huse').2.trans hparent, hstate'⟩

theorem Quiet.of_connections (h : s'.connections = s.connections) : Quiet l s s' :=
  .of_kept (by rw [h]) fun j => by rw [h]; exact .refl _

theorem Queue.quiet (h : Queue l c) (hq : Quiet l c.state s) : Queue l (c.after s none) where
  inUse := by
    show (s.connections l).inUse = true
    rw [hq.listener, h.inUse]
  listening := by
    show (s.connections l).state = _
    rw [hq.listener, h.listening]
  bound := by
    show (s.connections l).pendingConnections.length ≤ (s.connections l).backlog.toNat
    rw [hq.listener]
    exact h.bound
  nodup := by
    show (s.connections l).pendingConnections.Nodup
    rw [hq.listener]
    exact h.nodup
  entry j hj := by
    change j ∈ (s.connections l).pendingConnections at hj
    rw [hq.listener] at hj
    obtain ⟨huse, hparent, hstate⟩ := h.entry j hj
    exact hq.queued j hj huse hparent hstate
  waiting j hj := by
    change j ∈ (s.connections l).pendingConnections at hj
    rw [hq.listener] at hj
    rintro ⟨-, hacc | hret⟩
    · exact h.waiting j hj hacc
    · cases hret
  covered j huse hparent := by
    obtain ⟨huse', hparent'⟩ := hq.owned j huse hparent
    rcases h.covered j huse' hparent' with hj | hj
    · left
      show j ∈ (s.connections l).pendingConnections
      rwa [hq.listener]
    · exact .inr ⟨huse, .inl hj⟩
  alive j hj := hj.1

theorem Queue.ne_listener {k : Nat} (h : Queue l c) (hk : k ∈ c.pending l) : k ≠ l := by
  rintro rfl
  have hstate := (h.entry k hk).2.2
  rw [h.listening] at hstate
  cases hstate

theorem Queue.accept {rest : List Nat} (h : Queue l c) (hpending : c.pending l = j :: rest) :
    Queue l (c.after (c.state.modify l fun tcb => { tcb with pendingConnections := rest })
      (some j)) := by
  have hnodup := h.nodup
  rw [hpending, List.nodup_cons] at hnodup
  constructor
  case inUse => simpa [Config.after] using h.inUse
  case listening => simpa [Config.after] using h.listening
  case bound =>
    have := h.bound
    rw [hpending, List.length_cons] at this
    simp only [Config.after, Config.pending, modify_connections_self]
    omega
  case nodup => simpa [Config.after, Config.pending] using hnodup.2
  case entry =>
    intro k hk
    have hk' : k ∈ c.pending l := by
      rw [hpending]
      simp only [Config.after, Config.pending, modify_connections_self] at hk
      exact List.mem_cons_of_mem _ hk
    simpa [Config.after, State.modify, h.ne_listener hk'] using h.entry k hk'
  case waiting =>
    intro k hk
    simp only [Config.after, Config.pending, modify_connections_self] at hk
    rintro ⟨-, hacc | hret⟩
    · exact h.waiting k (by rw [hpending]; exact List.mem_cons_of_mem _ hk) hacc
    · cases hret
      exact hnodup.1 hk
  case covered =>
    intro k huse hparent
    have hold : (c.state.connections k).inUse = true ∧
        (c.state.connections k).parentSocket = l := by
      by_cases hk : k = l
      · subst hk
        simpa [Config.after] using And.intro huse hparent
      · simpa [Config.after, State.modify, hk] using And.intro huse hparent
    rcases h.covered k hold.1 hold.2 with hk | hk
    · rw [hpending, List.mem_cons] at hk
      rcases hk with rfl | hk
      · exact .inr ⟨huse, .inr rfl⟩
      · exact .inl (by simpa [Config.after, Config.pending] using hk)
    · exact .inr ⟨huse, .inl hk⟩
  case alive => exact fun k hk => hk.1

theorem Queue.created (h : Queue l c) (hfree : (c.state.connections j).inUse = false)
    (huse : (s.connections j).inUse = true) (hparent : (s.connections j).parentSocket = l)
    (hstate : (s.connections j).state = .synReceived)
    (hothers : ∀ k, k ≠ l → k ≠ j → s.connections k = c.state.connections k)
    (hl : s.connections l =
      { c.state.connections l with pendingConnections := c.pending l ++ [j] })
    (hroom : ((c.pending l).length : Int) < (c.state.connections l).backlog) :
    Queue l (c.after s none) := by
  have hpending : (c.after s none).pending l = c.pending l ++ [j] := by
    show (s.connections l).pendingConnections = _
    rw [hl]
  have hfresh : ∀ k, (c.state.connections k).inUse = true → k ≠ j := by
    rintro k hk rfl
    rw [hfree] at hk
    cases hk
  constructor
  case inUse =>
    show (s.connections l).inUse = true
    rw [hl, h.inUse]
  case listening =>
    show (s.connections l).state = _
    rw [hl, h.listening]
  case bound =>
    rw [hpending]
    show _ ≤ (s.connections l).backlog.toNat
    rw [hl, List.length_append, List.length_singleton]
    dsimp only
    omega
  case nodup =>
    rw [hpending]
    refine List.nodup_append.mpr ⟨h.nodup, by simp, fun a ha b hb => ?_⟩
    rw [List.mem_singleton.mp hb]
    exact hfresh a (h.entry a ha).1
  case entry =>
    intro k hk
    rw [hpending, List.mem_append, List.mem_singleton] at hk
    rcases hk with hk | rfl
    · obtain ⟨huse', hparent', hstate'⟩ := h.entry k hk
      have heq := hothers k (h.ne_listener hk) (hfresh k huse')
      show (s.connections k).inUse = true ∧ (s.connections k).parentSocket = l ∧
        (s.connections k).state.unclosed = true
      rw [heq]
      exact ⟨huse', hparent', hstate'⟩
    · refine ⟨huse, hparent, ?_⟩
      show (s.connections k).state.unclosed = true
      rw [hstate]
      rfl
  case waiting =>
    intro k hk
    rw [hpending, List.mem_append, List.mem_singleton] at hk
    rintro ⟨-, hacc | hret⟩
    · rcases hk with hk | rfl
      · exact h.waiting k hk hacc
      · exact hfresh k (h.alive k hacc) rfl
    · cases hret
  case covered =>
    intro k hk hkl
    rw [hpending, List.mem_append, List.mem_singleton]
    by_cases hkj : k = j
    · exact .inl (.inr hkj)
    · have hold : (c.state.connections k).inUse = true ∧
          (c.state.connections k).parentSocket = l := by
        change (s.connections k).inUse = true at hk
        change (s.connections k).parentSocket = l at hkl
        by_cases hl' : k = l
        · subst hl'
          rw [hl] at hk hkl
          exact ⟨hk, hkl⟩
        · rw [hothers k hl' hkj] at hk hkl
          exact ⟨hk, hkl⟩
      rcases h.covered k hold.1 hold.2 with h' | h'
      · exact .inl (.inl h')
      · exact .inr ⟨hk, .inl h'⟩
  case alive => exact fun k hk => hk.1

/-! ### The calls -/

theorem tcpFindConnection_inUse {localIp remoteIp : BitVec 32} {localPort remotePort : BitVec 16}
    (h : tcpFindConnection s localIp localPort remoteIp remotePort = some i) :
    (s.connections i).inUse = true := by
  rw [tcpFindConnection, Option.orElse_eq_some] at h
  rcases h with h | ⟨-, h⟩
  · have := List.find?_some h
    simp only [Bool.and_eq_true] at this
    exact this.1.1.1.1
  · have := List.find?_some h
    simp only [Bool.and_eq_true] at this
    exact this.1.1.1

theorem quiet_stateMachine (env : Env) (hl : (s.connections l).inUse = true) (hil : i ≠ l)
    (hi : (s.connections i).inUse = true) (srcIp destIp : BitVec 32) (p : Packet) :
    Quiet l s (stateMachine env s i srcIp destIp p) := by
  by_cases hlisten : (s.connections i).state = .listen
  · rw [stateMachine_of_listen env hlisten]
    cases receiveListen_listened env s i p hi srcIp destIp with
    | nothing same free => exact .of_nothing hl same free
    | created asked lt free inUse parent state others listener =>
      exact .of_created hl hil free parent others (by rw [listener]; exact .of_fields rfl rfl id)
  · refine .of_kept (stateMachine_of_not_listen env (Ne.symm hil) hlisten srcIp destIp p)
      fun j => ?_
    by_cases hj : j = i
    · subst hj
      exact blockKept_stateMachine env s j p srcIp destIp hlisten
    · rw [stateMachine_of_not_listen env hj hlisten]
      exact .refl _

theorem tcpCloseSocket_parent (env : Env) {sockfd : Int}
    (hj : ((tcpCloseSocket env s sockfd).connections j).inUse = true) :
    (s.connections j).inUse = true ∧
      ((tcpCloseSocket env s sockfd).connections j).parentSocket =
        (s.connections j).parentSocket := by
  by_cases hfd : sockfd = j
  · subst hfd
    revert hj
    simp only [tcpCloseSocket, Int.toNat_natCast]
    split_ifs
    · exact fun hj => ⟨hj, rfl⟩
    · exact fun hj => ⟨hj, rfl⟩
    · split <;> simp
  · rw [tcpCloseSocket_of_ne env hfd] at hj ⊢
    exact ⟨hj, rfl⟩

theorem quiet_close (env : Env) {sockfd : Int} (hl : (s.connections l).state = .listen)
    (h : ∀ j ∈ (s.connections l).pendingConnections, sockfd ≠ j) :
    Quiet l s (tcpCloseSocket env s sockfd) where
  listener := by
    by_cases hfd : sockfd = l
    · subst hfd
      simp only [tcpCloseSocket, Int.toNat_natCast, hl]
      split_ifs <;> rfl
    · exact tcpCloseSocket_of_ne env hfd
  owned j hj hparent := by
    obtain ⟨huse, heq⟩ := tcpCloseSocket_parent env hj
    exact ⟨huse, heq ▸ hparent⟩
  queued j hj huse hparent hstate := by
    rw [tcpCloseSocket_of_ne env (h j hj)]
    exact ⟨huse, hparent, hstate⟩

theorem tcpAccept_cases (s : State) (sockfd : Int) :
    tcpAccept s sockfd = (none, s) ∨
      ∃ i j rest, sockfd = (i : Nat) ∧ (s.connections i).state = .listen ∧
        (s.connections i).pendingConnections = j :: rest ∧
        tcpAccept s sockfd =
          (some j, s.modify i fun tcb => { tcb with pendingConnections := rest }) := by
  simp only [tcpAccept]
  split_ifs with hrange huse
  · exact .inl rfl
  · exact .inl rfl
  · cases hp : (s.connections sockfd.toNat).pendingConnections with
    | nil => exact .inl rfl
    | cons j rest =>
      refine .inr ⟨sockfd.toNat, j, rest, by omega, ?_, hp, rfl⟩
      simp only [Bool.or_eq_true, not_or, bne_iff_ne, ne_eq, not_not] at huse
      exact huse.2

theorem Queue.receive (h : Queue l c) {srcIp destIp : BitVec 32} {p : Packet}
    (hallowed : (Call.receive srcIp destIp p).Allowed l c) :
    Queue l (c.call env l (.receive srcIp destIp p)) := by
  show Queue l (c.after (tcpReceive env c.state srcIp destIp p).2 none)
  by_cases hlen : p.length < headerMinSize
  · simp only [tcpReceive, if_pos hlen]
    exact h.quiet (.of_connections rfl)
  by_cases hsum : tcpChecksum srcIp destIp p.byte p.length = 0
  swap
  · simp only [tcpReceive, if_neg hlen, if_pos hsum]
    exact h.quiet (.of_connections rfl)
  rcases tcpReceive_cases env c.state srcIp destIp p with hcall | ⟨i, hfind, hcall⟩
  · exact h.quiet (.of_connections hcall)
  rw [hcall]
  by_cases hil : i = l
  swap
  · exact h.quiet (quiet_stateMachine env h.inUse hil (tcpFindConnection_inUse hfind) ..)
  subst hil
  rw [stateMachine_of_listen env h.listening]
  cases receiveListen_listened env c.state i p h.inUse srcIp destIp with
  | nothing same free => exact h.quiet (.of_nothing h.inUse same free)
  | created asked lt free inUse parent state others listener =>
    have hroom := hallowed ⟨by omega, hsum, hfind, asked, _, lt, free⟩
    have hqueue := listener.trans (congrArg _ (if_pos hroom))
    exact h.created free inUse parent state others hqueue hroom

theorem Queue.acceptCall (h : Queue l c) (sockfd : Int) :
    Queue l (c.call env l (.accept sockfd)) := by
  show Queue l (c.after (tcpAccept c.state sockfd).2 _)
  rcases tcpAccept_cases c.state sockfd with hcall | ⟨i, j, rest, rfl, -, hp, hcall⟩
  · rw [hcall, ite_self]
    exact h.quiet (.of_connections rfl)
  · rw [hcall]
    by_cases hil : i = l
    · subst hil
      rw [if_pos rfl]
      exact h.accept hp
    · rw [if_neg (by omega)]
      refine h.quiet (.of_kept (by simp [State.modify, Ne.symm hil]) fun k => ?_)
      by_cases hk : k = i
      · subst hk
        exact .of_fields (by simp) (by simp) fun hs => by simpa using hs
      · simp only [State.modify, Function.update_of_ne hk]
        exact .refl _

theorem Queue.step {c' : Config} (h : Queue l c) (hs : Step env l c c') : Queue l c' := by
  obtain ⟨a, hallowed⟩ := hs
  cases a with
  | receive srcIp destIp p => exact h.receive hallowed
  | accept sockfd => exact h.acceptCall sockfd
  | close sockfd => exact h.quiet (quiet_close env h.listening hallowed)

structure Start (l : Nat) (s : State) : Prop where
  inUse : (s.connections l).inUse = true
  listening : (s.connections l).state = .listen
  empty : (s.connections l).pendingConnections = []
  childless : ∀ j, (s.connections j).inUse = true → (s.connections j).parentSocket ≠ l

def Config.start (s : State) : Config :=
  ⟨s, fun _ => False, fun j => (s.connections j).inUse = true ∧ (s.connections j).state = .established⟩

theorem Start.queue (h : Start l s) : Queue l (.start s) := by
  have hempty : (Config.start s).pending l = [] := h.empty
  constructor
  case inUse => exact h.inUse
  case listening => exact h.listening
  case bound => simp [hempty]
  case nodup => simp [hempty]
  case entry => simp [hempty]
  case waiting => simp [hempty]
  case covered => exact fun j hj hparent => absurd hparent (h.childless j hj)
  case alive => exact fun j hj => hj.elim

theorem Queue.run {c' : Config} (h : Queue l c) (hrun : Relation.ReflTransGen (Step env l) c c') :
    Queue l c' := by
  induction hrun with
  | refl => exact h
  | tail _ hs ih => exact ih.step hs

/-- In every run of such calls on a listening socket, its queue stays within the backlog,
every connection created for it is queued, accepted or released, and what `tcp_accept`
returns is a connection of it with a complete handshake, returned for the first time. -/
theorem listener_queue_sound {env : Env} {l : Nat} {s : State} {c : Config} (h : Start l s)
    (hrun : Relation.ReflTransGen (Step env l) (.start s) c) :
    (c.pending l).length ≤ (c.state.connections l).backlog.toNat ∧
      (∀ j, (c.state.connections j).inUse = true → (c.state.connections j).parentSocket = l →
        j ∈ c.pending l ∨ c.accepted j) ∧
      ∀ j, (Call.accept l).Allowed l c → (tcpAccept c.state l).1 = some j →
        (c.state.connections j).inUse = true ∧ (c.state.connections j).parentSocket = l ∧
          c.complete j ∧ ¬ c.accepted j := by
  have hq := h.queue.run hrun
  refine ⟨hq.bound, hq.covered, fun j hallowed hj => ?_⟩
  rcases tcpAccept_cases c.state l with hcall | ⟨i, k, rest, hil, -, hp, hcall⟩
  · rw [hcall] at hj
    cases hj
  · obtain rfl : l = i := by omega
    rw [hcall] at hj
    cases hj
    have hpending : c.pending l = j :: rest := hp
    have hmem : j ∈ c.pending l := by simp [hpending]
    obtain ⟨huse, hparent, -⟩ := hq.entry j hmem
    exact ⟨huse, hparent, hallowed rfl j (by simp [hpending]), hq.waiting j hmem⟩

def listenState : State where
  connections := fun i =>
    if i = 0 then
      { inUse := true, state := .listen, localPort := 80, backlog := 1, parentSocket := -1 }
    else {}
  iss := 0

def handshakePacket (seq ack : BitVec 32) (flags : Byte) : Packet where
  length := 20
  byte := fun k => (Tcb.segment { localIp := 2, localPort := 1000, remoteIp := 1
                                  remotePort := 80, sndNxt := seq, rcvNxt := ack }
    flags []).bytes.getD k 0
  length_lt := finPacket.length_lt

theorem listenState_start : Start 0 listenState where
  inUse := rfl
  listening := rfl
  empty := rfl
  childless j := by
    by_cases hj : j = 0
    · subst hj
      decide
    · simp [listenState, hj]

def synCall : Call := .receive 2 1 (handshakePacket 0 0 flagSyn)

def ackCall : Call := .receive 2 1 (handshakePacket 1 64001 flagAck)

def shaken : Config := ((Config.start listenState).call reliableEnv 0 synCall).call reliableEnv 0
  ackCall

theorem shaken_reached :
    Relation.ReflTransGen (Step reliableEnv 0) (.start listenState) shaken := by
  refine .tail (.single (.call synCall fun _ => by decide)) (.call ackCall fun hasks => ?_)
  have hsyn := hasks.syn
  revert hsyn
  decide

theorem shaken_accept : shaken.complete 1 ∧ ¬ shaken.accepted 1 := by
  have hallowed : (Call.accept 0).Allowed 0 shaken := by
    intro _ j hj
    obtain rfl : j = 1 := by
      have hhead : (shaken.pending 0).head? = some 1 := by decide
      exact Option.some.inj (hj.symm.trans hhead)
    exact ⟨by decide, .inl (by decide)⟩
  have hreturned : (tcpAccept shaken.state 0).1 = some 1 := by decide
  exact ((listener_queue_sound listenState_start shaken_reached).2.2 1 hallowed hreturned).2.2

/-- `tcp_accept` right after a SYN returns a connection whose handshake has only begun. -/
theorem half_open_accepted : Start 0 listenState ∧
    Step reliableEnv 0 (.start listenState) ((Config.start listenState).call reliableEnv 0 synCall) ∧
    (tcpAccept ((Config.start listenState).call reliableEnv 0 synCall).state 0).1 = some 1 ∧
    ¬ ((Config.start listenState).call reliableEnv 0 synCall).complete 1 := by
  refine ⟨listenState_start, .call synCall fun _ => by decide, by decide, ?_⟩
  rintro ⟨-, hstate | ⟨huse, -⟩⟩
  · revert hstate
    decide
  · revert huse
    decide

end TocinOS.Tcp.Listener
