/-
  LearnMuduo.Server.ClosedState

  `state_` of a connection, which two loops write.

  `StateStep` lists what one step of any loop may make of it.  Its own loop writes
  `kConnected` in front of everything else that happens to the connection, and from there
  on only `kDisConnecting` where it has just found `kConnected`, or `kdisConnected`.  The
  one store that can come behind `kdisConnected` is that of `shutdown` on the main loop,
  whose test of `state_` is a step of its own (`disconnected_terminal`).
-/
import LearnMuduo.Server.TcpSteps

namespace LearnMuduo

open Lib

/-- Until `connectEstablished` has run the connection is in its first state, and nothing
    on the main loop shuts it down. -/
def Life.Waits (l : Life) : Prop :=
  .connectEstablished ∈ l.queue → l.state_ = .kConnecting ∧ l.shutting = false

theorem Life.Step.waits {l l' : Life} (h : l.Kept) (hw : l.Waits) (hs : l.Step l') : l'.Waits := by
  have hnotBusy : l.busy = true → Kind.connectEstablished ∉ l.queue := fun hb => (h.of_busy hb).2
  cases hs with
  | newConnection _ => exact fun _ => ⟨rfl, rfl⟩
  | turn busy removing closing _ _ _ => exact hw
  | handle hbusy _ _ => exact fun hmem => absurd hmem (hnotBusy hbusy)
  | enterClose hbusy => exact fun hmem => absurd hmem (hnotBusy hbusy)
  | closecb hbusy _ => exact fun hmem => absurd hmem (hnotBusy hbusy)
  | enterShutdown hstate =>
    intro hmem
    rw [(hw hmem).1] at hstate
    cases hstate
  | setState hshutting =>
    intro hmem
    rw [(hw hmem).2] at hshutting
    cases hshutting
  | queueShutdown hshutting =>
    intro hmem
    rw [(hw (by simpa using hmem)).2] at hshutting
    cases hshutting
  | removeConnectionInLoop _ _ => exact fun hmem => hw (by simpa using hmem)
  | @connectEstablished rest hqueue =>
    intro hmem
    -- it was queued once
    have honce := h.once
    rw [hqueue, List.count_cons_self] at honce
    have hold : Kind.connectEstablished ∉ rest := List.count_eq_zero.mp (by omega)
    exact absurd hmem hold
  | shutdownInloop hqueue => exact fun hmem => hw (hqueue ▸ List.mem_cons_of_mem _ hmem)
  | connectDestoryed hqueue _ _ _ =>
    intro hmem
    have hended : l.Ended := Or.inr (Or.inl (hqueue ▸ List.mem_cons_self))
    exact absurd hended (h.young (hqueue ▸ List.mem_cons_of_mem _ hmem)).2.2

namespace HttpServerLoops

variable {n : Nat} {s s' t : HttpServerLoops n} {i : Fin n} {c d : Nat} {tcp : TcpConnection}

/-- What a step may make of `state_` of the connection `c`. -/
inductive StateStep (s : HttpServerLoops n) (a : LoopsAction n) (c : Nat) : ConnState → Prop where
  | keeps : StateStep s a c (s.tcp c).state_
  /-- `handleClose`, or `connectDestoryed` of a connected one. -/
  | closes : StateStep s a c .kdisConnected
  /-- `shutdown` on the connection's loop. -/
  | shutdown : (s.tcp c).state_ = .kConnected → StateStep s a c .kDisConnecting
  /-- The store in `shutdown` on the main loop. -/
  | stores : a = .main .setState → s.main.pc = .shutting c → StateStep s a c .kDisConnecting
  | established {i : Fin n} {rest : List IoFunctor} : a = .io i .functor →
      (s.io i).todo = ⟨.connectEstablished, c⟩ :: rest → StateStep s a c .kConnected
  | constructed {now : Nat} : a = .main (.newConnection now) → c = s.nextConnId_ →
      StateStep s a c .kConnecting

theorem TcpStep.state {a : LoopsAction n} (h : TcpStep s a c tcp) : StateStep s a c tcp.state_ := by
  cases h with
  | keeps => exact .keeps
  | constructed ha hc => exact .constructed ha hc
  | established ha htodo => exact .established ha htodo
  | shutdownInloop =>
    rw [TcpConnection.shutdownInloop_state]
    exact .keeps
  | @connectDestoryed i =>
    show StateStep s a c
      (if (s.tcp c).state_ = .kConnected then ConnLoop.closing (s.tcp c) else s.tcp c).state_
    split
    · exact .closes
    · exact .keeps
  | handleRead b => exact .keeps
  | handleClose b => exact .closes
  | @act action _ hact =>
    cases action with
    | send message w =>
      rw [(TcpConnection.send_frame hact).1.state]
      exact .keeps
    | shutdown =>
      obtain rfl := Except.ok.inj hact
      rcases @TcpConnection.shutdown_state (s.tcp c) with hsame | ⟨hconn, hstate⟩
      · rw [hsame]
        exact .keeps
      · rw [hstate]
        exact .shutdown hconn
    | retrieve len =>
      obtain rfl := Except.ok.inj hact
      exact .keeps
  | handleWrite w =>
    rw [TcpConnection.handleWrite_frame.1]
    exact .keeps
  | setState ha hpc => exact .stores ha hpc

/-! ## Runs -/

/-- The step is not the store of `shutdown` on the main loop to a connection that has been
    closed since its test. -/
def StoresInTime (s : HttpServerLoops n) (a : LoopsAction n) : Prop :=
  ∀ c, a = .main .setState → s.main.pc = .shutting c → (s.tcp c).state_ ≠ .kdisConnected

/-- What holds of a server whose connections are established before all else. -/
structure Ordered (s : HttpServerLoops n) : Prop where
  sound : s.Sound
  waits : ∀ c, (s.life c).Waits

theorem start_ordered (first : Fin n) (closeIdleConn : Bool) :
    (start first closeIdleConn).Ordered :=
  ⟨start_sound first closeIdleConn, fun _ => fun hmem => absurd hmem List.not_mem_nil⟩

theorem Ordered.goes (h : s.Ordered) (hgoes : s.Goes s') : s'.Ordered :=
  ⟨h.sound.goes hgoes, fun c => (hgoes.life c).waits (h.sound.kept c) (h.waits c)⟩

theorem Ordered.step {a : LoopsAction n} (h : s.Ordered) (hs : s.step a = some s') :
    s'.Ordered := h.goes (step_goes h.sound hs)

theorem Ordered.reaches {ok : HttpServerLoops n → LoopsAction n → Prop} (h : s.Ordered)
    (hr : Reaches HttpServerLoops.step ok s t) : t.Ordered :=
  hr.invariant h fun _ _ _ hx _ hs => hx.step hs

/-- A functor that is still to run lies on the loop of its connection. -/
theorem Sound.mem_queue {f : IoFunctor} {rest : List IoFunctor} (h : s.Sound)
    (htodo : (s.io i).todo = f :: rest) : f.kind ∈ (s.life f.conn).queue := by
  have hmem : f ∈ (s.io i).queue := List.mem_append_left _ (htodo ▸ List.mem_cons_self)
  have hloop : s.loopOf f.conn = i := (h.tidy.io i).functors f hmem
  show f.kind ∈ (s.io (s.loopOf f.conn)).kinds f.conn
  rw [hloop]
  exact mem_kinds.mpr hmem

theorem Ordered.disconnected {a : LoopsAction n} (h : s.Ordered) (hs : s.step a = some s')
    (hin : StoresInTime s a) (hd : (s.tcp c).state_ = .kdisConnected) :
    (s'.tcp c).state_ = .kdisConnected := by
  have hstate := (step_tcpStep (c := c) hs).state
  generalize (s'.tcp c).state_ = state at hstate
  cases hstate with
  | keeps => exact hd
  | closes => rfl
  | shutdown hconn =>
    rw [hd] at hconn
    cases hconn
  | stores ha hpc => exact absurd hd (hin c ha hpc)
  | established ha htodo =>
    -- `connectEstablished` is the first thing that happens to a connection
    have hwaits := (h.waits c (h.sound.mem_queue htodo)).1
    have hstate : (s.life c).state_ = .kdisConnected := hd
    rw [hwaits] at hstate
    cases hstate
  | constructed ha hc =>
    have hunborn := (h.sound.kept _).unborn (born_nextConnId (s := s))
    have hstate : (s.life s.nextConnId_).state_ = .kdisConnected := by
      rw [← hc]
      exact hd
    rw [hunborn] at hstate
    cases hstate

/-- `kdisConnected` is the last state of a connection in every run whose stores come in
    time, and a single store does so exactly when it comes in time. -/
theorem disconnected_terminal {first : Fin n} {closeIdleConn : Bool}
    (hs : Reachable step (start first closeIdleConn) s) :
    (∀ c t, Reaches step StoresInTime s t → (s.tcp c).state_ = .kdisConnected →
      (t.tcp c).state_ = .kdisConnected) ∧
    ∀ a t, s.step a = some t →
      ((∀ c, (s.tcp c).state_ = .kdisConnected → (t.tcp c).state_ = .kdisConnected) ↔
        StoresInTime s a) := by
  have h : s.Ordered := (start_ordered first closeIdleConn).reaches hs
  refine ⟨fun c t hr hd => ?_, fun a t hstep => ⟨fun hstays => ?_, fun hin c hd => ?_⟩⟩
  · refine (hr.invariant (P := fun x => x.Ordered ∧ (x.tcp c).state_ = .kdisConnected)
      ⟨h, hd⟩ ?_).2
    rintro x a y ⟨hx, hxd⟩ hin hstep
    exact ⟨hx.step hstep, hx.disconnected hstep hin hxd⟩
  · -- a late store overwrites the state
    rintro c rfl hpc hd
    have hafter : t = (s.setTcp c { s.tcp c with state_ := .kDisConnecting }).setMainPc
        (.queueing c) := by
      simp only [step, mainStep, hpc, Option.some.injEq] at hstep
      exact hstep.symm
    have hlost : (t.tcp c).state_ = .kDisConnecting := by
      rw [hafter]
      exact congrArg TcpConnection.state_ tcp_setTcp
    rw [hstays c hd] at hlost
    cases hlost
  · exact h.disconnected hstep hin hd

/-- A peer hangs up, and nothing is idle. -/
def hangupOnly : List LoopsAction :=
  let readable : Events := { kNoneEvent with EPOLLIN := true }
  [.main (.newConnection 5),
    .io firstLoop (.poll []), .io firstLoop .swap, .io firstLoop .functor,
    .io firstLoop .batchDone,
    .io firstLoop (.poll [(1, readable)]), .io firstLoop .handleEvent, .io firstLoop .hangup,
    .io firstLoop (.handleRead (.bytes []) 0)]

/-- The loops remove the closed connection. -/
def removeClosed : List LoopsAction :=
  [.io firstLoop .closecb, .io firstLoop (.handleWrite (.error 0)),
    .main .swap, .main .removeConnectionInLoop, .main .batchDone,
    .io firstLoop .swap, .io firstLoop .functor]

theorem disconnected_terminal_example :
    ((after step (after step (new true) hangupOnly) removeClosed).tcp 1).state_
      = .kdisConnected := by
  have hreach : Reachable step (new true) (after step (new true) hangupOnly) :=
    Reaches.after (by decide +kernel) fun _ _ _ => trivial
  have hnoStore : ∀ a ∈ removeClosed, a ≠ .main .setState := by decide
  have hrun : Reaches step StoresInTime (after step (new true) hangupOnly)
      (after step (after step (new true) hangupOnly) removeClosed) :=
    Reaches.after (by decide +kernel) fun a ha _ _ hstore => absurd hstore (hnoStore a ha)
  exact (disconnected_terminal hreach).1 1 _ hrun (by decide +kernel)

/-- The hang-up comes between the test and the store of `shutdown` on the main loop: the
    closed connection is `kDisConnecting`. -/
theorem disconnected_overwritten :
    Reachable step (new true) (after step (new true) (hangupActions.take 13)) ∧
    ((after step (new true) (hangupActions.take 13)).tcp 1).state_ = .kdisConnected ∧
    step (after step (new true) (hangupActions.take 13)) (.main .setState)
      = some (after step (new true) (hangupActions.take 14)) ∧
    ((after step (new true) (hangupActions.take 14)).tcp 1).state_ = .kDisConnecting := by
  have hlast : hangupActions.take 14 = hangupActions.take 13 ++ [.main .setState] := rfl
  refine ⟨Reaches.after (by decide +kernel) fun _ _ _ => trivial, by decide +kernel, ?_,
    by decide +kernel⟩
  rw [hlast]
  exact step_after (by decide +kernel)

end HttpServerLoops

end LearnMuduo
