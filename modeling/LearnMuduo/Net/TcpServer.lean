/-
  LearnMuduo.Net.TcpServer

  `bing::TcpServer` with its `Accepter` and `EventLoopThreadPool` (Net/TcpServer.cc,
  Net/Accepter.cc, Net/EventLoopThreadPool.cc), as the main loop runs them: the table of the
  connections by name, and the loops they are given to in turn.

  A `TcpConnectionPtr` is the place of its object among those constructed.  `startLoop i` is
  the EventLoop that the `i`-th thread of the pool publishes.  `Kept` is what every call keeps.
-/
import Mathlib.Data.Int.CardIntervalMod
import Mathlib.Logic.Function.Basic
import LearnMuduo.Base.CTypes
import LearnMuduo.Lib.Decimal
import LearnMuduo.Lib.Run

namespace LearnMuduo

open Lib

/-- `sockaddr_in`, of the family `AF_INET`. -/
structure InetAddress where
  sin_port : UInt16
  sin_addr : UInt32
  deriving DecidableEq, Repr

/-! ## EventLoopThreadPool -/

structure EventLoopThreadPool (L : Type) where
  baseLoop_ : L
  started_ : Bool
  numThreads_ : Int
  next_ : Nat
  loops_ : List L
  deriving DecidableEq, Repr

namespace EventLoopThreadPool

variable {L : Type}

def new (baseloop : L) : EventLoopThreadPool L :=
  { baseLoop_ := baseloop, started_ := false, numThreads_ := 0, next_ := 0, loops_ := [] }

def setThreaadNum (p : EventLoopThreadPool L) (num : Int) : EventLoopThreadPool L :=
  { p with numThreads_ := num }

def start (startLoop : Nat → L) (p : EventLoopThreadPool L) : EventLoopThreadPool L :=
  let loops := (List.range p.numThreads_.toNat).map fun i => startLoop (p.loops_.length + i)
  { p with started_ := true, loops_ := p.loops_ ++ loops }

def getNextLoop (p : EventLoopThreadPool L) : Except Fault (L × EventLoopThreadPool L) :=
  if p.loops_.isEmpty then .ok (p.baseLoop_, p)
  else
    match p.loops_[p.next_]? with
    | some loop =>
      let next := p.next_ + 1
      .ok (loop, { p with next_ := if next ≥ p.loops_.length then 0 else next })
    | none => .error .outOfBounds

/-- The loop whose turn it is when `n` have been given out. -/
def turn (p : EventLoopThreadPool L) (n : Nat) : L :=
  p.loops_.getD (n % p.loops_.length) p.baseLoop_

theorem getNextLoop_turn {p : EventLoopThreadPool L} {n : Nat}
    (hnext : p.loops_ ≠ [] → p.next_ = n % p.loops_.length) :
    ∃ next, p.getNextLoop = .ok (p.turn n, { p with next_ := next }) ∧
      (p.loops_ ≠ [] → next = (n + 1) % p.loops_.length) := by
  unfold getNextLoop
  by_cases hempty : p.loops_ = []
  · refine ⟨p.next_, ?_, fun hne => absurd hempty hne⟩
    rw [turn, hempty, List.getD_nil, ← hempty, if_pos (by rw [hempty]; rfl)]
  · have hpos : 0 < p.loops_.length := List.length_pos_of_ne_nil hempty
    have hlt : p.next_ < p.loops_.length := hnext hempty ▸ Nat.mod_lt _ hpos
    have hturn : p.loops_[p.next_] = p.turn n := by
      rw [turn, ← hnext hempty, List.getD, List.getElem?_eq_getElem hlt, Option.getD_some]
    rw [if_neg (by simpa using hempty), List.getElem?_eq_getElem hlt, hturn]
    refine ⟨_, rfl, fun _ => ?_⟩
    rw [← Nat.mod_add_mod, ← hnext hempty]
    split
    · rename_i hwrap
      have hlast : p.next_ + 1 = p.loops_.length := Nat.le_antisymm hlt hwrap
      rw [hlast, Nat.mod_self]
    · rename_i hmore
      rw [Nat.mod_eq_of_lt (by omega)]

end EventLoopThreadPool

/-! ## TcpServer -/

/-- What the constructor of a `TcpConnection` is given. -/
structure Accepted (L : Type) where
  loop_ : L
  name_ : Bytes
  sockfd : Int
  localAddr : InetAddress
  peerAddr : InetAddress
  deriving DecidableEq, Repr

inductive ServerFunctor where
  | connectEstablished
  | connectDestoryed
  deriving DecidableEq, Repr

structure TcpServer (L : Type) where
  loop_ : L
  name_ : Bytes
  threadPool_ : EventLoopThreadPool L
  started_ : Bool
  /-- `listening_` of the Accepter. -/
  listening_ : Bool
  nextConnId_ : Nat
  connections_ : Bytes → Option Nat
  /-- The connections constructed, in their order. -/
  objects : List (Accepted L)
  /-- The functors handed to the loops of the connections, with the connection. -/
  handed : List (L × ServerFunctor × Nat)

/-- The outcome of `accept4`, with the addresses of the two ends. -/
inductive AcceptResult where
  | connected (connfd : Nat) (localAddr peerAddr : InetAddress)
  | error (errno : Errno)
  deriving DecidableEq, Repr

/-- `snprintf` into a buffer of that size. -/
def snprintf (size : Nat) (text : Bytes) : Bytes := text.take (size - 1)

namespace TcpServer

variable {L : Type}

def new (loop : L) (nameArg : Bytes) : TcpServer L :=
  { loop_ := loop
    name_ := nameArg
    threadPool_ := EventLoopThreadPool.new loop
    started_ := false
    listening_ := false
    nextConnId_ := 1
    connections_ := fun _ => none
    objects := []
    handed := [] }

def setThreadNum (s : TcpServer L) (numThreads : Int) : Except Fault (TcpServer L) :=
  if 0 ≤ numThreads then .ok { s with threadPool_ := s.threadPool_.setThreaadNum numThreads }
  else .error .assertion

/-- `start`, called on the main loop, where `runInLoop` calls `Accepter::listen` at once. -/
def start (startLoop : Nat → L) (s : TcpServer L) : TcpServer L :=
  { s with
    started_ := true
    threadPool_ := if s.started_ then s.threadPool_ else s.threadPool_.start startLoop
    listening_ := true }

/-- The name of the connection with that number. -/
def connName (s : TcpServer L) (id : Nat) : Bytes :=
  s.name_ ++ snprintf 32 (ascii "#" ++ Decimal.signed id)

def newConnection (s : TcpServer L) (sockfd : Int) (localAddr peerAddr : InetAddress) :
    Except Fault (TcpServer L) :=
  s.threadPool_.getNextLoop >>= fun p =>
    let name := s.connName s.nextConnId_
    let conn := s.objects.length
    -- `++nextConnId_`
    if s.nextConnId_ + 1 < 2 ^ 31 then
      .ok { s with
        threadPool_ := p.2
        nextConnId_ := s.nextConnId_ + 1
        connections_ := Function.update s.connections_ name (some conn)
        objects := s.objects ++
          [{ loop_ := p.1, name_ := name, sockfd := sockfd, localAddr := localAddr,
             peerAddr := peerAddr }]
        handed := s.handed ++ [(p.1, .connectEstablished, conn)] }
    else .error .overflow

/-- `Accepter::NewConnection`, the callback of the listening socket; the connection callback
    is `newConnection`. -/
def NewConnection (s : TcpServer L) : AcceptResult → Except Fault (TcpServer L)
  | .connected connfd localAddr peerAddr => s.newConnection connfd localAddr peerAddr
  | .error _ => .ok s

def removeConnectionInLoop (s : TcpServer L) (conn : Nat) : Except Fault (TcpServer L) :=
  match s.objects[conn]? with
  | some object =>
    .ok { s with
      connections_ := Function.update s.connections_ object.name_ none
      handed := s.handed ++ [(object.loop_, .connectDestoryed, conn)] }
  | none => .error .dangling

end TcpServer

/-- A call of the server's user, or a callback of the main loop. -/
inductive ServerCall where
  | setThreadNum (numThreads : Int)
  | start
  | NewConnection (r : AcceptResult)
  | removeConnectionInLoop (conn : Nat)
  deriving DecidableEq, Repr

namespace TcpServer

def call (startLoop : Nat → L) (s : TcpServer L) : ServerCall → Except Fault (TcpServer L)
  | .setThreadNum numThreads => s.setThreadNum numThreads
  | .start => .ok (s.start startLoop)
  | .NewConnection r => s.NewConnection r
  | .removeConnectionInLoop conn => s.removeConnectionInLoop conn

/-- The socket is polled once it listens, and a functor is bound to a connection there is. -/
def Possible (s : TcpServer L) : ServerCall → Prop
  | .setThreadNum numThreads => 0 ≤ numThreads
  | .start => True
  | .NewConnection _ => s.listening_ = true
  | .removeConnectionInLoop conn => conn < s.objects.length

/-! ## Names -/

section Names

variable {s : TcpServer L} {a b : Nat}

theorem signed_injective {i j : Int} (h : Decimal.signed i = Decimal.signed j) : i = j := by
  have hi := (Decimal.canonical_signed i).value
  rw [h, (Decimal.canonical_signed j).value] at hi
  exact (Option.some.inj hi).symm

/-- The text of a number of a connection is not cut off. -/
theorem connName_eq (h : a < 2 ^ 31) :
    s.connName a = s.name_ ++ (ascii "#" ++ Decimal.signed a) := by
  have hdigits : (HttpReader.digits (a : Int).natAbs).length ≤ 10 :=
    (Decimal.digits_length_le_iff (by decide)).mpr (by omega)
  have hsigned : Decimal.signed (a : Int) = HttpReader.digits (a : Int).natAbs :=
    if_neg (by omega)
  have hsharp : (ascii "#").length = 1 := rfl
  rw [connName, snprintf, List.take_of_length_le]
  rw [List.length_append, hsigned, hsharp]
  omega

theorem connName_injective (ha : a < 2 ^ 31) (hb : b < 2 ^ 31) (h : s.connName a = s.connName b) :
    a = b := by
  rw [connName_eq ha, connName_eq hb] at h
  have htext := List.append_cancel_left (List.append_cancel_left h)
  exact Int.ofNat_inj.mp (signed_injective htext)

end Names

/-! ## What every call keeps -/

structure Kept (startLoop : Nat → L) (s : TcpServer L) : Prop where
  count : s.nextConnId_ = s.objects.length + 1
  bound : s.nextConnId_ < 2 ^ 31
  silent : s.started_ = false →
    s.listening_ = false ∧ s.objects = [] ∧ s.threadPool_.loops_ = [] ∧ s.threadPool_.next_ = 0
  next : s.threadPool_.loops_ ≠ [] →
    s.threadPool_.next_ = s.objects.length % s.threadPool_.loops_.length
  loops : s.threadPool_.loops_ = (List.range s.threadPool_.loops_.length).map startLoop
  object : ∀ c o, s.objects[c]? = some o →
    o.name_ = s.connName (c + 1) ∧ o.loop_ = s.threadPool_.turn c
  handed : ∀ h ∈ s.handed, ∃ o, s.objects[h.2.2]? = some o ∧ h.1 = o.loop_
  table : ∀ key c, s.connections_ key = some c ↔
    (∃ o, s.objects[c]? = some o ∧ o.name_ = key) ∧
      ∀ loop, (loop, ServerFunctor.connectDestoryed, c) ∉ s.handed
  base : s.threadPool_.baseLoop_ = s.loop_

theorem Kept.new (startLoop : Nat → L) (loop : L) (nameArg : Bytes) :
    (new loop nameArg).Kept startLoop where
  count := rfl
  bound := (by decide : 1 < 2 ^ 31)
  silent _ := ⟨rfl, rfl, rfl, rfl⟩
  next h := absurd rfl h
  loops := rfl
  object _ _ h := by cases h
  handed _ h := absurd h List.not_mem_nil
  table key c := by
    constructor
    · intro h
      cases h
    · rintro ⟨⟨o, ho, -⟩, -⟩
      cases ho
  base := rfl

section Step

/-- An entry of a list and one more. -/
theorem concat_cases {α : Type} {xs : List α} {x y : α} {c : Nat} (h : (xs ++ [x])[c]? = some y) :
    xs[c]? = some y ∨ c = xs.length ∧ y = x := by
  rcases Nat.lt_or_ge c xs.length with hlt | hge
  · exact Or.inl (List.getElem?_append_left hlt ▸ h)
  · have hlast := (List.getElem?_eq_some_iff.mp h).1
    rw [List.length_append, List.length_singleton] at hlast
    obtain rfl : c = xs.length := by omega
    rw [List.getElem?_concat_length] at h
    exact Or.inr ⟨rfl, (Option.some.inj h).symm⟩

variable {startLoop : Nat → L} {s s' : TcpServer L}

/-- No two connections have one name. -/
theorem Kept.name_injective {c d : Nat} {o o' : Accepted L} (h : s.Kept startLoop)
    (hc : s.objects[c]? = some o) (hd : s.objects[d]? = some o') (hname : o.name_ = o'.name_) :
    c = d := by
  have hbound := h.bound
  have hcount := h.count
  have hclen := (List.getElem?_eq_some_iff.mp hc).1
  have hdlen := (List.getElem?_eq_some_iff.mp hd).1
  rw [(h.object c o hc).1, (h.object d o' hd).1] at hname
  have heq := connName_injective (by omega) (by omega) hname
  omega

theorem Kept.start (h : s.Kept startLoop) : (s.start startLoop).Kept startLoop := by
  cases hstarted : s.started_ with
  | true =>
    have hpool : (s.start startLoop).threadPool_ = s.threadPool_ := if_pos hstarted
    exact
      { count := h.count
        bound := h.bound
        silent := nofun
        next := by rw [hpool]; exact h.next
        loops := by rw [hpool]; exact h.loops
        object := by rw [hpool]; exact h.object
        handed := h.handed
        table := h.table
        base := by rw [hpool]; exact h.base }
  | false =>
    obtain ⟨-, hobjects, hloops, hnext⟩ := h.silent hstarted
    have hpool : (s.start startLoop).threadPool_ = s.threadPool_.start startLoop :=
      if_neg (by rw [hstarted]; exact Bool.false_ne_true)
    have hthreads : (s.threadPool_.start startLoop).loops_ =
        (List.range s.threadPool_.numThreads_.toNat).map startLoop := by
      simp only [EventLoopThreadPool.start, hloops, List.nil_append, List.length_nil, Nat.zero_add]
    have hobjects' : (s.start startLoop).objects = [] := hobjects
    exact
      { count := h.count
        bound := h.bound
        silent := nofun
        next := fun _ => by
          rw [hpool, hobjects', List.length_nil, Nat.zero_mod]
          exact hnext
        loops := by rw [hpool, hthreads, List.length_map, List.length_range]
        object := by
          rw [hobjects']
          nofun
        handed := h.handed
        table := h.table
        base := by rw [hpool]; exact h.base }

theorem Kept.newConnection {sockfd : Int} {localAddr peerAddr : InetAddress}
    (h : s.Kept startLoop) (hstarted : s.started_ = true)
    (hcall : s.newConnection sockfd localAddr peerAddr = .ok s') : s'.Kept startLoop := by
  obtain ⟨next, hturn, hnext⟩ := EventLoopThreadPool.getNextLoop_turn h.next
  obtain ⟨p, hp, hcall⟩ := then_ok_iff.mp hcall
  obtain rfl := Except.ok.inj (hturn.symm.trans hp)
  split at hcall
  · rename_i hbound
    obtain rfl := Except.ok.inj hcall
    have hcount := h.count
    generalize hnew : ({ loop_ := s.threadPool_.turn s.objects.length
                         name_ := s.connName s.nextConnId_
                         sockfd := sockfd
                         localAddr := localAddr
                         peerAddr := peerAddr } : Accepted L) = new
    have hlen : (s.objects ++ [new]).length = s.objects.length + 1 := by
      rw [List.length_append, List.length_singleton]
    have hnewName : new.name_ = s.connName (s.objects.length + 1) := by rw [← hnew, ← hcount]
    have hnewLoop : new.loop_ = s.threadPool_.turn s.objects.length := by rw [← hnew]
    have hkept : ∀ {c o}, s.objects[c]? = some o → (s.objects ++ [new])[c]? = some o := fun hc =>
      (List.getElem?_append_left (List.getElem?_eq_some_iff.mp hc).1).trans hc
    -- nothing has been handed over for the new one
    have hfirst : ∀ loop f, (loop, f, s.objects.length) ∉ s.handed := fun loop f hf => by
      obtain ⟨o, ho, -⟩ := h.handed _ hf
      exact Nat.lt_irrefl _ (List.getElem?_eq_some_iff.mp ho).1
    have hsame : ∀ loop c, (loop, ServerFunctor.connectDestoryed, c) ∈
        s.handed ++ [(s.threadPool_.turn s.objects.length, .connectEstablished, s.objects.length)] ↔
        (loop, ServerFunctor.connectDestoryed, c) ∈ s.handed := fun loop c => by
      rw [List.mem_append, List.mem_singleton, or_iff_left]
      rintro heq
      obtain ⟨-, heq⟩ := Prod.mk.inj heq
      obtain ⟨heq, -⟩ := Prod.mk.inj heq
      cases heq
    have hnewest : (s.objects ++ [new])[s.objects.length]? = some new := List.getElem?_concat_length
    refine ⟨by rw [hlen, hcount], hbound, fun hfresh => ?_, fun hne => ?_, h.loops,
      fun c o ho => ?_, fun g hg => ?_, fun key d => ?_, h.base⟩
    · exact absurd (hfresh.symm.trans hstarted) Bool.false_ne_true
    · rw [hlen]
      exact hnext hne
    · rcases concat_cases ho with hold | ⟨rfl, rfl⟩
      · exact h.object c o hold
      · exact ⟨hnewName, hnewLoop⟩
    · rcases List.mem_append.mp hg with hg | hg
      · obtain ⟨o, ho, hloop⟩ := h.handed g hg
        exact ⟨o, hkept ho, hloop⟩
      · obtain rfl := List.mem_singleton.mp hg
        exact ⟨new, List.getElem?_concat_length, hnewLoop.symm⟩
    · dsimp only
      rw [Function.update_apply]
      split
      · rename_i hkey
        constructor
        · rintro heq
          obtain rfl := Option.some.inj heq
          refine ⟨⟨new, hnewest, ?_⟩, fun loop hf => hfirst loop _ ((hsame _ _).mp hf)⟩
          rw [hnewName, ← hcount]
          exact hkey.symm
        · rintro ⟨⟨o, ho, hname⟩, -⟩
          rcases concat_cases ho with hold | ⟨rfl, -⟩
          · -- the name is a new one
            have hdlen := (List.getElem?_eq_some_iff.mp hold).1
            rw [(h.object d o hold).1, hkey] at hname
            have hid := connName_injective (by omega) (by omega) hname
            omega
          · rfl
      · rename_i hkey
        rw [h.table]
        refine and_congr ⟨?_, ?_⟩ (forall_congr' fun loop => not_congr (hsame loop d).symm)
        · rintro ⟨o, ho, hname⟩
          exact ⟨o, hkept ho, hname⟩
        · rintro ⟨o, ho, hname⟩
          rcases concat_cases ho with hold | ⟨-, rfl⟩
          · exact ⟨o, hold, hname⟩
          · rw [hnewName, ← hcount] at hname
            exact absurd hname.symm hkey
  · cases hcall

theorem Kept.removeConnectionInLoop {c : Nat} (h : s.Kept startLoop)
    (hcall : s.removeConnectionInLoop c = .ok s') : s'.Kept startLoop := by
  unfold TcpServer.removeConnectionInLoop at hcall
  split at hcall
  · rename_i o ho
    obtain rfl := Except.ok.inj hcall
    have hlen := (List.getElem?_eq_some_iff.mp ho).1
    refine ⟨h.count, h.bound, fun hfresh => ?_, h.next, h.loops, h.object, ?_, ?_,
      h.base⟩
    · rw [(h.silent hfresh).2.1] at ho
      cases ho
    · intro g hg
      rcases List.mem_append.mp hg with hg | hg
      · exact h.handed g hg
      · obtain rfl := List.mem_singleton.mp hg
        exact ⟨o, ho, rfl⟩
    · intro key d
      dsimp only
      rw [Function.update_apply]
      split
      · rename_i hkey
        refine ⟨nofun, ?_⟩
        rintro ⟨⟨o', ho', hname⟩, hthere⟩
        -- no other connection has the name that is erased
        obtain rfl := h.name_injective ho ho' (hkey.symm.trans hname.symm)
        exact absurd (List.mem_append_right _ (List.mem_singleton_self _)) (hthere o.loop_)
      · rename_i hkey
        rw [h.table]
        refine and_congr_right fun ⟨o', ho', hname⟩ => forall_congr' fun loop => not_congr ?_
        rw [List.mem_append, List.mem_singleton, or_iff_left]
        rintro heq
        obtain ⟨-, heq⟩ := Prod.mk.inj heq
        obtain ⟨-, rfl⟩ := Prod.mk.inj heq
        obtain rfl := Option.some.inj (ho.symm.trans ho')
        exact hkey hname.symm
  · cases hcall

theorem Kept.call {c : ServerCall} (h : s.Kept startLoop) (hpossible : s.Possible c)
    (hcall : s.call startLoop c = .ok s') : s'.Kept startLoop := by
  cases c with
  | setThreadNum numThreads =>
    obtain rfl := Except.ok.inj ((if_pos hpossible).symm.trans hcall)
    exact ⟨h.count, h.bound, h.silent, h.next, h.loops, h.object, h.handed, h.table,
      h.base⟩
  | start =>
    obtain rfl := Except.ok.inj hcall
    exact h.start
  | NewConnection r =>
    cases r with
    | connected connfd localAddr peerAddr =>
      have hstarted : s.started_ = true := by
        by_contra hfresh
        rw [Bool.not_eq_true] at hfresh
        exact absurd ((h.silent hfresh).1.symm.trans hpossible) Bool.false_ne_true
      exact h.newConnection hstarted hcall
    | error errno =>
      obtain rfl := Except.ok.inj hcall
      exact h
  | removeConnectionInLoop conn => exact h.removeConnectionInLoop hcall

theorem kept_of_run {loop : L} {nameArg : Bytes} {calls : List ServerCall}
    (hpossible : Along (call startLoop) Possible (TcpServer.new loop nameArg) calls)
    (hrun : run (call startLoop) (TcpServer.new loop nameArg) calls = .ok s) :
    s.Kept startLoop :=
  run_invariant (fun _ _ _ h hok hs => h.call hok hs) (Kept.new startLoop loop nameArg) hpossible
    hrun

end Step

/-! ## The table and the turns -/

section Runs

variable {startLoop : Nat → L} {s : TcpServer L} {loop : L} {nameArg : Bytes}
  {calls : List ServerCall}

/-- **The table of the connections.**  After any calls no two connections have one name, and
    what the table holds under a name is the connection of that name, from its construction
    until `connectDestoryed` is handed to its loop.  Every functor goes to the loop of its
    connection, and as long as there are numbers another connection can be accepted. -/
theorem connections_by_name
    (hpossible : Along (call startLoop) Possible (TcpServer.new loop nameArg) calls)
    (hrun : run (call startLoop) (TcpServer.new loop nameArg) calls = .ok s) :
    (∀ (c d : Nat) (o o' : Accepted L), s.objects[c]? = some o → s.objects[d]? = some o' →
        o.name_ = o'.name_ → c = d) ∧
      (∀ key (c : Nat), s.connections_ key = some c ↔
        (∃ o, s.objects[c]? = some o ∧ o.name_ = key) ∧
          ∀ l, (l, ServerFunctor.connectDestoryed, c) ∉ s.handed) ∧
      (∀ h ∈ s.handed, ∃ o, s.objects[h.2.2]? = some o ∧ h.1 = o.loop_) ∧
      ∀ sockfd localAddr peerAddr, s.nextConnId_ + 1 < 2 ^ 31 →
        ∃ s', s.newConnection sockfd localAddr peerAddr = .ok s' := by
  have h := kept_of_run hpossible hrun
  refine ⟨fun c d o o' hc hd => h.name_injective hc hd, h.table, h.handed,
    fun sockfd localAddr peerAddr hroom => ?_⟩
  obtain ⟨next, hturn, -⟩ := EventLoopThreadPool.getNextLoop_turn h.next
  rw [newConnection, hturn, ok_then, if_pos hroom]
  exact ⟨_, rfl⟩

/-- Two threads are started, three connections accepted, and the first removed. -/
def callsExample : List ServerCall :=
  let a : InetAddress := ⟨80, 0⟩
  [.setThreadNum 2, .start, .NewConnection (.connected 7 a a), .NewConnection (.error 24),
    .NewConnection (.connected 8 a a), .removeConnectionInLoop 0,
    .NewConnection (.connected 7 a a)]

theorem callsExample_possible : Along (call Nat.succ) Possible (TcpServer.new 0 []) callsExample :=
  along_cons (Int.le_of_lt (by decide)) rfl <| along_cons trivial rfl <| along_cons rfl rfl <|
    along_cons rfl rfl <| along_cons rfl rfl <| along_cons Nat.zero_lt_two rfl <|
    along_cons rfl rfl trivial

theorem connections_by_name_three :
    ∃ s, run (call Nat.succ) (TcpServer.new 0 []) callsExample = .ok s ∧
      (∀ key (c : Nat), s.connections_ key = some c ↔
        (∃ o, s.objects[c]? = some o ∧ o.name_ = key) ∧
          ∀ l, (l, ServerFunctor.connectDestoryed, c) ∉ s.handed) :=
  ⟨_, rfl, (connections_by_name callsExample_possible rfl).2.1⟩

/-- How many connections a loop has been given. -/
def load [DecidableEq L] (s : TcpServer L) (l : L) : Nat := s.objects.countP (·.loop_ = l)

theorem countP_range (p : Nat → Prop) [DecidablePred p] (n : Nat) :
    (List.range n).countP (fun c => decide (p c)) = n.count p := by
  induction n with
  | zero => rfl
  | succ n ih =>
    rw [List.range_succ, List.countP_append, ih, Nat.count_succ, List.countP_singleton]
    simp only [decide_eq_true_eq]

theorem Kept.loops_of_objects (h : s.Kept startLoop) :
    s.objects.map Accepted.loop_ = (List.range s.objects.length).map s.threadPool_.turn := by
  refine List.ext_getElem? fun c => ?_
  rw [List.getElem?_map, List.getElem?_map]
  rcases Nat.lt_or_ge c s.objects.length with hlt | hge
  · rw [List.getElem?_range hlt, List.getElem?_eq_getElem hlt]
    exact congrArg some (h.object c _ (List.getElem?_eq_getElem hlt)).2
  · rw [List.getElem?_eq_none hge, List.getElem?_eq_none (by rw [List.length_range]; exact hge)]
    rfl

theorem Kept.turn_startLoop (h : s.Kept startLoop) (hthreads : s.threadPool_.loops_ ≠ [])
    (c : Nat) : s.threadPool_.turn c = startLoop (c % s.threadPool_.loops_.length) := by
  have hlt : c % s.threadPool_.loops_.length < s.threadPool_.loops_.length :=
    Nat.mod_lt _ (List.length_pos_of_ne_nil hthreads)
  rw [EventLoopThreadPool.turn, List.getD, h.loops, List.getElem?_map, List.length_map,
    List.length_range, List.getElem?_range hlt]
  rfl

/-- **The turns.**  Each thread has a loop of its own.  Then of `N` connections each of the `k`
    loops has `N / k`, and the first `N % k` of them one more; without threads the main loop
    has them all. -/
theorem loads_even [DecidableEq L] (hinj : Function.Injective startLoop)
    (hpossible : Along (call startLoop) Possible (TcpServer.new loop nameArg) calls)
    (hrun : run (call startLoop) (TcpServer.new loop nameArg) calls = .ok s) :
    let k := s.threadPool_.loops_.length
    (∀ i < k, s.load (startLoop i) =
      s.objects.length / k + if i < s.objects.length % k then 1 else 0) ∧
      (k = 0 → ∀ o ∈ s.objects, o.loop_ = s.loop_) := by
  intro k
  have h := kept_of_run hpossible hrun
  refine ⟨fun i hi => ?_, fun hnone o ho => ?_⟩
  · have hturn : ∀ c, s.threadPool_.turn c = startLoop i ↔ c % k = i := fun c => by
      rw [h.turn_startLoop (List.ne_nil_of_length_pos (Nat.zero_lt_of_lt hi))]
      exact hinj.eq_iff
    have hcount : s.load (startLoop i) = s.objects.length.count fun c => c ≡ i [MOD k] := by
      calc s.load (startLoop i)
          = (s.objects.map Accepted.loop_).countP (fun l => decide (l = startLoop i)) := by
            rw [List.countP_map]
            rfl
        _ = (List.range s.objects.length).countP (fun c => decide (c ≡ i [MOD k])) := by
            rw [h.loops_of_objects, List.countP_map]
            refine List.countP_congr fun c _ => ?_
            simp only [Function.comp_apply, decide_eq_true_eq, hturn, Nat.ModEq,
              Nat.mod_eq_of_lt hi]
        _ = s.objects.length.count fun c => c ≡ i [MOD k] := countP_range _ _
    rw [hcount, Nat.count_modEq_card _ (Nat.zero_lt_of_lt hi), Nat.mod_eq_of_lt hi]
  · obtain ⟨c, hc, rfl⟩ := List.mem_iff_getElem.mp ho
    rw [(h.object c _ (List.getElem?_eq_getElem hc)).2, EventLoopThreadPool.turn,
      List.eq_nil_of_length_eq_zero hnone, List.getD_nil, h.base]

theorem loads_even_three :
    ∃ s, run (call Nat.succ) (TcpServer.new 0 []) callsExample = .ok s ∧
      s.load 1 = 2 ∧ s.load 2 = 1 := by
  have hloads := loads_even Nat.succ_injective callsExample_possible rfl
  exact ⟨_, rfl, hloads.1 0 (by decide), hloads.1 1 (by decide)⟩

end Runs

end TcpServer

end LearnMuduo
