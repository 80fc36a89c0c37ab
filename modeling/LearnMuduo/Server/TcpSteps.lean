/-
  LearnMuduo.Server.TcpSteps

  What one step of any loop may do to one `TcpConnection` (`TcpStep`).

  Each step calls one of the connection's functions, and on one connection only.  The
  invariants about single fields of a connection are derived from this list.
-/
import LearnMuduo.Server.Ownership
import LearnMuduo.Server.StepCases

namespace LearnMuduo

open Lib

theorem UserAction.act_timestamp {conn conn' : TcpConnection} {action : UserAction}
    (h : action.act conn = .ok conn') : conn'.timestamp_ = conn.timestamp_ := by
  cases action with
  | send message w => exact TcpConnection.send_timestamp h
  | shutdown =>
    obtain rfl := Except.ok.inj h
    exact TcpConnection.shutdown_timestamp
  | retrieve len =>
    obtain rfl := Except.ok.inj h
    rfl

namespace HttpServerLoops

variable {n : Nat} {s s' : HttpServerLoops n} {i : Fin n} {c d : Nat} {tcp : TcpConnection}
  {a : LoopsAction n}

/-- What a step may make of the connection `c`. -/
inductive TcpStep (s : HttpServerLoops n) (a : LoopsAction n) (c : Nat) : TcpConnection → Prop where
  | keeps : TcpStep s a c (s.tcp c)
  | constructed {now : Nat} : a = .main (.newConnection now) → c = s.nextConnId_ →
      TcpStep s a c (TcpConnection.new now)
  | established {i : Fin n} {rest : List IoFunctor} : a = .io i .functor →
      (s.io i).todo = ⟨.connectEstablished, c⟩ :: rest → TcpStep s a c (s.tcp c).established
  | shutdownInloop : TcpStep s a c (s.tcp c).shutdownInloop
  | connectDestoryed {i : Fin n} : TcpStep s a c ((s.conns c).connectDestoryed i).tcp
  | handleRead (b : Buffer) : TcpStep s a c { s.tcp c with inputBuffer_ := b }
  /-- `handleClose`, at a hang-up or behind `readFd`. -/
  | handleClose (b : Buffer) :
      TcpStep s a c (ConnLoop.closing { s.tcp c with inputBuffer_ := b })
  | act {action : UserAction} {tcp : TcpConnection} : action.act (s.tcp c) = .ok tcp →
      TcpStep s a c tcp
  | handleWrite (w : WriteResult) : TcpStep s a c ((s.tcp c).handleWrite w)
  /-- The store in `shutdown` on the main loop. -/
  | setState : a = .main .setState → s.main.pc = .shutting c →
      TcpStep s a c { s.tcp c with state_ := .kDisConnecting }

/-- A step that touches the connection `d` alone. -/
theorem tcpStep_setTcp (h : TcpStep s a d tcp) : TcpStep s a c ((s.setTcp d tcp).tcp c) := by
  by_cases hc : c = d
  · subst hc
    rw [tcp_setTcp]
    exact h
  · have hother : (s.setTcp d tcp).tcp c = s.tcp c :=
      congrArg ServerConn.tcp (Function.update_of_ne hc _ _)
    rw [hother]
    exact .keeps

theorem newConnection_tcpStep {now : Nat} (ha : a = .main (.newConnection now)) :
    TcpStep s a c ((s.newConnection now).tcp c) := by
  show TcpStep s a c ((s.constructed now).conns c).tcp
  by_cases hc : c = s.nextConnId_
  · subst hc
    rw [constructed_conns_self]
    exact .constructed ha rfl
  · rw [constructed_conns_other hc]
    exact .keeps

theorem runFunctor_tcpStep {f : IoFunctor} {rest : List IoFunctor} (ha : a = .io i .functor)
    (htodo : (s.io i).todo = f :: rest) :
    TcpStep s a c (((s.setIo i { s.io i with todo := rest }).runFunctor i f).tcp c) := by
  obtain ⟨kind, d⟩ := f
  cases kind with
  | connectEstablished =>
    have hset : TcpStep s a c ((s.setTcp d (s.tcp d).established).tcp c) :=
      tcpStep_setTcp (.established ha htodo)
    unfold runFunctor
    dsimp only
    split <;> exact hset
  | shutdownInloop =>
    have hset : TcpStep s a c ((s.setTcp d (s.tcp d).shutdownInloop).tcp c) :=
      tcpStep_setTcp .shutdownInloop
    exact hset
  | connectDestoryed =>
    show TcpStep s a c (Function.update s.conns d ((s.conns d).connectDestoryed i) c).tcp
    by_cases hc : c = d
    · subst hc
      rw [Function.update_self]
      exact .connectDestoryed
    · rw [Function.update_of_ne hc]
      exact .keeps

theorem io_tcpStep {action : IoAction} (ha : a = .io i action) (hs : IoCase s i action s') :
    TcpStep s a c (s'.tcp c) := by
  cases hs with
  | @hangup d revents =>
    have hclose : TcpStep s a c ((s.setTcp d (ConnLoop.closing (s.tcp d))).tcp c) :=
      tcpStep_setTcp (.handleClose (s.tcp d).inputBuffer_)
    exact hclose
  | @message d revents r ret b =>
    have hread : TcpStep s a c ((s.setTcp d { s.tcp d with inputBuffer_ := b }).tcp c) :=
      tcpStep_setTcp (.handleRead b)
    exact hread
  | @readClose d revents r ret b =>
    rw [enterClose, tcp_setTcp, setTcp_setTcp]
    have hclose : TcpStep s a c
        ((s.setTcp d (ConnLoop.closing { s.tcp d with inputBuffer_ := b })).tcp c) :=
      tcpStep_setTcp (.handleClose b)
    exact hclose
  | @readError d revents r ret b =>
    have hread : TcpStep s a c ((s.setTcp d { s.tcp d with inputBuffer_ := b }).tcp c) :=
      tcpStep_setTcp (.handleRead b)
    exact hread
  | act _ hact => exact tcpStep_setTcp (.act hact)
  | @handleWrite d revents w =>
    have hwrite : TcpStep s a c ((s.setTcp d ((s.tcp d).handleWrite w)).tcp c) :=
      tcpStep_setTcp (.handleWrite w)
    exact hwrite
  | functor _ htodo => exact runFunctor_tcpStep ha htodo
  -- the other steps touch no connection
  | _ => exact .keeps

theorem main_tcpStep {action : MainAction} (ha : a = .main action) (hs : MainCase s action s') :
    TcpStep s a c (s'.tcp c) := by
  cases hs with
  | newConnection _ => exact newConnection_tcpStep ha
  | @setState d hpc =>
    have hstore : TcpStep s a c
        ((s.setTcp d { s.tcp d with state_ := .kDisConnecting }).tcp c) :=
      tcpStep_setTcp (.setState ha hpc)
    exact hstore
  | _ => exact .keeps

theorem step_tcpStep (hs : s.step a = some s') : TcpStep s a c (s'.tcp c) := by
  cases a with
  | main action => exact main_tcpStep rfl (main_cases hs)
  | io i action => exact io_tcpStep rfl (io_cases hs)

/-! ## What a step makes of the time stamps, and who is accepted -/

theorem connectDestoryed_timestamp {conn : ServerConn n} :
    (conn.connectDestoryed i).tcp.timestamp_ = conn.tcp.timestamp_ := by
  show (if conn.tcp.state_ = .kConnected then ConnLoop.closing conn.tcp
    else conn.tcp).timestamp_ = conn.tcp.timestamp_
  split <;> rfl

theorem TcpStep.timestamp (h : TcpStep s a c tcp) :
    tcp.timestamp_ = (s.tcp c).timestamp_ ∨
      ∃ now, a = .main (.newConnection now) ∧ c = s.nextConnId_ ∧ tcp.timestamp_ = now := by
  cases h with
  | @constructed now ha hc => exact Or.inr ⟨now, ha, hc, rfl⟩
  | shutdownInloop => exact Or.inl TcpConnection.shutdownInloop_timestamp
  | connectDestoryed => exact Or.inl connectDestoryed_timestamp
  | act hact => exact Or.inl (UserAction.act_timestamp hact)
  | handleWrite w => exact Or.inl TcpConnection.handleWrite_timestamp
  | _ => exact Or.inl rfl

/-- A connection is accepted by `newConnection` alone. -/
theorem nextConnId_step (hs : s.step a = some s') :
    s'.nextConnId_ = s.nextConnId_ ∨
      ∃ now, a = .main (.newConnection now) ∧ s'.nextConnId_ = s.nextConnId_ + 1 := by
  cases a with
  | main action =>
    cases main_cases hs with
    | newConnection _ => exact Or.inr ⟨_, rfl, rfl⟩
    | _ => exact Or.inl rfl
  | io i action => exact Or.inl (io_frame (io_cases hs)).2

end HttpServerLoops

end LearnMuduo
