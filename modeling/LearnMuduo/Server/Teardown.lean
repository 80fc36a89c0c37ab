/-
  LearnMuduo.Server.Teardown

  The destructor of a `TcpServer` (Net/TcpServer.cc, Net/TcpServer.h) against its IO loops.

  The body of `~TcpServer` is empty, where its comment says that all connections are
  released.  What happens is the destruction of the members in the reverse of their order:
  first `connections_`, which drops the references it holds, and then `threadPool_`, which
  has each thread quit its loop and waits for it.  The main loop takes no step meanwhile,
  the IO loops take theirs.

  A loop that has been left is gone with its poller, and only then are the functors that it
  still had destroyed (the order of the members of `EventLoop`).

    * `Empty.orderly`  — with nothing to release, the functors hold what is still alive;
    * `release_early`  — whatever is released is released too early.
-/
import LearnMuduo.Server.Ownership

namespace LearnMuduo

open Lib

/-- Where the main thread is in the destruction of the members. -/
inductive DtorPc (n : Nat) where
  /-- In the destructor of `connections_`. -/
  | connections
  /-- Between the destructors of the `EventLoopThread`s. -/
  | threads
  /-- In the `thread_.join()` of one. -/
  | joining (i : Fin n)
  deriving DecidableEq, Repr

inductive TeardownAction (n : Nat) where
  /-- `connections_` drops its reference to a connection. -/
  | release (conn : Nat)
  | threads
  /-- `~EventLoopThread` up to `join`; the threads are destroyed in any order. -/
  | quit (i : Fin n)
  | join
  /-- `while (!quit_)` -/
  | test (i : Fin n)
  | io (i : Fin n) (a : IoAction)
  deriving DecidableEq, Repr

structure Teardown (n : Nat) where
  server : HttpServerLoops n
  pc : DtorPc n
  /-- The connections whose references were dropped, and the loop on which
      `connectDestoryed` had run by then. -/
  released : List (Nat × Option (Fin n))
  quit_ : Fin n → Bool
  /-- The loop is in `epoll_wait`. -/
  waiting : Fin n → Bool
  /-- The thread has left its loop, which is destroyed. -/
  gone : Fin n → Bool

namespace Teardown

variable {n : Nat}

/-- The destructor begins; of the loops that poll, some are in `epoll_wait`. -/
def enter (s : HttpServerLoops n) (waiting : Fin n → Bool) : Teardown n :=
  { server := s
    pc := .connections
    released := []
    quit_ := fun _ => false
    waiting := fun i => waiting i && (s.io i).pc = .polling
    gone := fun _ => false }

/-- The connections some `shared_ptr` points to. -/
def holders (t : Teardown n) : List Nat :=
  t.server.connections_ ++ (t.server.main.pendingFunctors_ ++ t.server.main.localFunctors ++
    t.server.main.pc.temporary.toList ++
    (List.finRange n).flatMap fun i => if t.gone i then [] else (t.server.io i).holders)

def step (t : Teardown n) : TeardownAction n → Option (Teardown n)
  | .release c =>
    if t.pc = .connections ∧ c ∈ t.server.connections_ then
      some { t with
        server := { t.server with connections_ := t.server.connections_.erase c }
        released := t.released ++ [(c, (t.server.conns c).destroyedIn)] }
    else none
  | .threads =>
    if t.pc = .connections ∧ t.server.connections_ = [] then some { t with pc := .threads }
    else none
  | .quit i =>
    if t.pc = .threads ∧ t.quit_ i = false then
      some { t with quit_ := Function.update t.quit_ i true, pc := .joining i }
    else none
  | .join =>
    match t.pc with
    | .joining i => if t.gone i then some { t with pc := .threads } else none
    | _ => none
  | .test i =>
    if t.gone i = false ∧ (t.server.io i).pc = .polling ∧ t.waiting i = false then
      some (if t.quit_ i then { t with gone := Function.update t.gone i true }
        else { t with waiting := Function.update t.waiting i true })
    else none
  | .io i a =>
    if t.gone i = false ∧ ((t.server.io i).pc = .polling → t.waiting i = true) then
      (t.server.ioStep i a).map fun s =>
        { t with server := s, waiting := Function.update t.waiting i false }
    else none

/-- The poller of the connection's loop has its Channel. -/
def Registered (t : Teardown n) (c : Nat) : Prop :=
  t.gone (t.server.loopOf c) = false ∧
    ((t.server.tcp c).channel_.inChannels_ = true ∨
      (t.server.tcp c).channel_.interest.isSome = true)

/-- No reference of the server is dropped before `connectDestoryed` has run on the
    connection's own loop, and none is destroyed while its Channel is in the poller. -/
structure Orderly (t : Teardown n) : Prop where
  released : ∀ e ∈ t.released, e.2 = some (t.server.loopOf e.1)
  destroyed : ∀ c, 0 < c → c < t.server.nextConnId_ → c ∉ t.holders → ¬t.Registered c

variable {s : HttpServerLoops n} {t u : Teardown n} {c : Nat}

/-- The destructor has nothing to release. -/
structure Empty (t : Teardown n) : Prop where
  sound : t.server.Sound
  connections : t.server.connections_ = []
  released : t.released = []

theorem Empty.step {a : TeardownAction n} (h : t.Empty) (hs : t.step a = some u) : u.Empty := by
  cases a with
  | release c =>
    simp only [Teardown.step, h.connections] at hs
    simp at hs
  | threads | quit =>
    simp only [Teardown.step, Option.ite_none_right_eq_some, Option.some.injEq] at hs
    obtain ⟨-, rfl⟩ := hs
    exact ⟨h.sound, h.connections, h.released⟩
  | join =>
    simp only [Teardown.step] at hs
    split at hs
    · simp only [Option.ite_none_right_eq_some, Option.some.injEq] at hs
      obtain ⟨-, rfl⟩ := hs
      exact ⟨h.sound, h.connections, h.released⟩
    · cases hs
  | test i =>
    simp only [Teardown.step, Option.ite_none_right_eq_some, Option.some.injEq] at hs
    obtain ⟨-, rfl⟩ := hs
    split <;> exact ⟨h.sound, h.connections, h.released⟩
  | io i a =>
    simp only [Teardown.step, Option.ite_none_right_eq_some] at hs
    obtain ⟨-, hs⟩ := hs
    obtain ⟨server, hio, rfl⟩ := Option.map_eq_some_iff.mp hs
    exact ⟨h.sound.goes (HttpServerLoops.io_goes h.sound hio),
      (HttpServerLoops.io_frame (HttpServerLoops.io_cases hio)).1.trans h.connections, h.released⟩

/-- Whatever is left alive is then held by a functor of its own loop. -/
theorem Empty.orderly (h : t.Empty) : t.Orderly := by
  refine ⟨fun e he => ?_, fun c hpos hacc hfree => ?_⟩
  · rw [h.released] at he
    cases he
  · rintro ⟨hloop, hreg⟩
    have hd : (t.server.life c).destroyed = true := by
      by_contra hne
      have hlive : (t.server.life c).destroyed = false := (Bool.not_eq_true _).mp hne
      rcases h.sound.mapped_or_queued hpos hacc hlive with hmapped | hqueued
      · rw [h.connections] at hmapped
        cases hmapped
      · refine hfree (List.mem_append_right _ (List.mem_append_right _ ?_))
        refine List.mem_flatMap.mpr ⟨t.server.loopOf c, List.mem_finRange _, ?_⟩
        rw [hloop, if_neg Bool.false_ne_true]
        exact hqueued
    -- `connectDestoryed` has taken the Channel out of the poller
    have hunused := h.sound.unused hd
    rcases hreg with hin | hwatched
    · rw [hunused.inChannels] at hin
      cases hin
    · rw [hunused.interest] at hwatched
      cases hwatched

/-- A reference in `connections_` is dropped before `connectDestoryed` has run. -/
theorem release_early (h : s.Sound) (waiting : Fin n → Bool) (hc : c ∈ s.connections_) :
    ∃ t, (enter s waiting).step (.release c) = some t ∧ (c, none) ∈ t.released := by
  have hmapped : (s.life c).mapped = true := decide_eq_true hc
  have hlive : (s.conns c).destroyedIn.isSome = false := ((h.kept c).mapped hmapped).1
  have hnone : (s.conns c).destroyedIn = none := Option.not_isSome_iff_eq_none.mp (by simp [hlive])
  refine ⟨_, if_pos ⟨rfl, hc⟩, ?_⟩
  rw [← hnone]
  exact List.mem_append_right _ (List.mem_singleton_self _)

/-- **When a server can be destroyed.**  In every run of the destructor and of the IO loops
    each connection is destroyed on its own loop before its reference is dropped, and none
    is destroyed while a poller has its Channel, if and only if `connections_` is empty when
    the destructor begins. -/
theorem orderly_iff {first : Fin n} {closeIdleConn : Bool}
    (hs : Reachable HttpServerLoops.step (HttpServerLoops.start first closeIdleConn) s)
    (waiting : Fin n → Bool) :
    (∀ t, Reachable step (enter s waiting) t → t.Orderly) ↔ s.connections_ = [] := by
  have h : s.Sound := (HttpServerLoops.start_sound first closeIdleConn).reaches hs
  constructor
  · intro hall
    refine List.eq_nil_iff_forall_not_mem.mpr fun c hc => ?_
    obtain ⟨t, hstep, hmem⟩ := release_early h waiting hc
    have horderly : t.Orderly := hall t (.tail .refl trivial hstep)
    cases horderly.released _ hmem
  · intro hnil t ht
    have hempty : t.Empty := ht.invariant ⟨h, hnil, rfl⟩ fun _ _ _ hx _ hstep => hx.step hstep
    exact hempty.orderly

/-- A peer has hung up, and `connectDestoryed` is queued when the destructor begins. -/
theorem orderly_iff_example :
    (after HttpServerLoops.step (HttpServerLoops.new true)
        (HttpServerLoops.hangupActions.take 19)).holders = [1] ∧
      ∀ t, Reachable step (enter (after HttpServerLoops.step (HttpServerLoops.new true)
        (HttpServerLoops.hangupActions.take 19)) fun _ => false) t → t.Orderly := by
  have hreach : Reachable HttpServerLoops.step (HttpServerLoops.start firstLoop true)
      (after HttpServerLoops.step (HttpServerLoops.new true)
        (HttpServerLoops.hangupActions.take 19)) :=
    Reaches.after (by decide +kernel) fun _ _ _ => trivial
  exact ⟨by decide +kernel, (orderly_iff hreach _).mpr (by decide +kernel)⟩

/-- A client connects, and its connection is established. -/
def connectActions : List LoopsAction :=
  [.main (.newConnection 5), .io firstLoop (.poll []), .io firstLoop .swap,
    .io firstLoop .functor, .io firstLoop .batchDone]

/-- The server of one open connection drops the last reference to it, while the loop that
    has its Channel goes on polling. -/
theorem destroyed_while_polled :
    ∃ s t, Reachable HttpServerLoops.step (HttpServerLoops.new false) s ∧
      Reachable step (enter s fun _ => true) t ∧ t.released = [(1, none)] ∧
      1 ∉ t.holders ∧ t.Registered 1 ∧ ¬t.Orderly := by
  refine ⟨after HttpServerLoops.step (HttpServerLoops.new false) connectActions,
    after step _ [.release 1], Reaches.after (by decide +kernel) fun _ _ _ => trivial,
    Reaches.after (by decide +kernel) fun _ _ _ => trivial, by decide +kernel, by decide +kernel,
    ⟨by decide +kernel, Or.inl (by decide +kernel)⟩, fun horderly => ?_⟩
  refine horderly.destroyed 1 Nat.one_pos (by decide +kernel) (by decide +kernel) ?_
  exact ⟨by decide +kernel, Or.inl (by decide +kernel)⟩

end Teardown

end LearnMuduo
