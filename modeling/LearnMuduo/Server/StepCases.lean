/-
  LearnMuduo.Server.StepCases

  The steps of the loops of a server, each with its guard and its result.

  `MainCase` and `IoCase` say once what an action does in each of its branches; the
  invariants about the server are derived from these lists and not from the definitions
  of the steps.
-/
import LearnMuduo.Server.Loops

namespace LearnMuduo

open Lib

namespace HttpServerLoops

variable {n : Nat}

/-- A step of the main loop. -/
inductive MainCase (s : HttpServerLoops n) : MainAction → HttpServerLoops n → Prop where
  | newConnection {now : Nat} : s.main.pc = .handling →
      MainCase s (.newConnection now) (s.newConnection now)
  | locked {c : Nat} : s.main.pc = .handling → c ∈ s.idleTimers → c ∈ s.holders →
      MainCase s (.HandleIdleConnection c)
        ({ s with idleTimers := s.idleTimers.erase c }.setMainPc (.locked c))
  /-- The connection is gone. -/
  | lost {c : Nat} : s.main.pc = .handling → c ∈ s.idleTimers → c ∉ s.holders →
      MainCase s (.HandleIdleConnection c) { s with idleTimers := s.idleTimers.erase c }
  | shutdown {c : Nat} : s.main.pc = .locked c → (s.tcp c).state_ = .kConnected →
      MainCase s (.testIdle true) (s.setMainPc (.shutting c))
  | notConnected {c : Nat} : s.main.pc = .locked c → (s.tcp c).state_ ≠ .kConnected →
      MainCase s (.testIdle true) (s.setMainPc (.releasing c))
  | again {c : Nat} : s.main.pc = .locked c →
      MainCase s (.testIdle false)
        ({ s with idleTimers := s.idleTimers ++ [c] }.setMainPc (.releasing c))
  | setState {c : Nat} : s.main.pc = .shutting c →
      MainCase s .setState
        ((s.setTcp c { s.tcp c with state_ := .kDisConnecting }).setMainPc (.queueing c))
  | queueShutdown {c : Nat} : s.main.pc = .queueing c →
      MainCase s .queueShutdown ((s.queueInLoop ⟨.shutdownInloop, c⟩).setMainPc (.releasing c))
  | release {c : Nat} : s.main.pc = .releasing c → MainCase s .release (s.setMainPc .handling)
  | swap : s.main.pc = .handling →
      MainCase s .swap { s with main :=
        { pc := .functors, pendingFunctors_ := [], localFunctors := s.main.pendingFunctors_
          todo := s.main.pendingFunctors_ } }
  | removeConnectionInLoop {c : Nat} {rest : List Nat} : s.main.pc = .functors →
      s.main.todo = c :: rest →
      MainCase s .removeConnectionInLoop
        ({ s with main := { s.main with todo := rest } }.removeConnectionInLoop c)
  | batchDone : s.main.pc = .functors → s.main.todo = [] →
      MainCase s .batchDone { s with main := { s.main with pc := .handling, localFunctors := [] } }

/-- A step of the loop `i`. -/
inductive IoCase (s : HttpServerLoops n) (i : Fin n) : IoAction → HttpServerLoops n → Prop where
  | poll {events : List (Nat × Events)} : (s.io i).pc = .polling →
      (∀ e ∈ events, (s.conns e.1).loop_ = i ∧ (s.tcp e.1).channel_.interest.isSome = true) →
      IoCase s i (.poll events)
        (s.setIo i { s.io i with pc := .handling, activeChannels_ := events })
  | handleEvent {c : Nat} {revents : Events} {rest : List (Nat × Events)} :
      (s.io i).pc = .handling → (s.io i).activeChannels_ = (c, revents) :: rest →
      IoCase s i .handleEvent
        (s.setIo i { s.io i with pc := .handler c revents .hangup, activeChannels_ := rest })
  | hangup {c : Nat} {revents : Events} : (s.io i).pc = .handler c revents .hangup →
      (revents.EPOLLHUP && !revents.EPOLLIN) = true →
      IoCase s i .hangup (s.enterClose i c revents true)
  | noHangup {c : Nat} {revents : Events} : (s.io i).pc = .handler c revents .hangup →
      (revents.EPOLLHUP && !revents.EPOLLIN) ≠ true →
      IoCase s i .hangup (s.setIoPc i (.handler c revents .input))
  | closecb {c : Nat} {revents : Events} {reads : Bool} :
      (s.io i).pc = .handler c revents (.closing reads) →
      IoCase s i .closecb
        ({ s with main := { s.main with
            pendingFunctors_ := s.main.pendingFunctors_ ++ [c] } }.setIoPc i
          (.handler c revents (if reads then .input else .output)))
  | message {c : Nat} {revents : Events} {r : ReadvResult} {ret : Int} {b : Buffer} {e : Errno} :
      (s.io i).pc = .handler c revents .input → (revents.EPOLLIN || revents.EPOLLPRI) = true →
      (s.tcp c).inputBuffer_.readInput r ret = .ok (b, e, .messagecb_) →
      IoCase s i (.handleRead r ret)
        ((s.setTcp c { s.tcp c with inputBuffer_ := b }).setIoPc i (.handler c revents .message))
  | readClose {c : Nat} {revents : Events} {r : ReadvResult} {ret : Int} {b : Buffer} {e : Errno} :
      (s.io i).pc = .handler c revents .input → (revents.EPOLLIN || revents.EPOLLPRI) = true →
      (s.tcp c).inputBuffer_.readInput r ret = .ok (b, e, .handleClose) →
      IoCase s i (.handleRead r ret)
        ((s.setTcp c { s.tcp c with inputBuffer_ := b }).enterClose i c revents false)
  | readError {c : Nat} {revents : Events} {r : ReadvResult} {ret : Int} {b : Buffer} {e : Errno} :
      (s.io i).pc = .handler c revents .input → (revents.EPOLLIN || revents.EPOLLPRI) = true →
      (s.tcp c).inputBuffer_.readInput r ret = .ok (b, e, .handleError) →
      IoCase s i (.handleRead r ret)
        ((s.setTcp c { s.tcp c with inputBuffer_ := b }).setIoPc i (.handler c revents .output))
  | noInput {c : Nat} {revents : Events} {r : ReadvResult} {ret : Int} :
      (s.io i).pc = .handler c revents .input → (revents.EPOLLIN || revents.EPOLLPRI) ≠ true →
      IoCase s i (.handleRead r ret) (s.setIoPc i (.handler c revents .output))
  | act {c : Nat} {revents : Events} {a : UserAction} {tcp : TcpConnection} :
      (s.io i).pc = .handler c revents .message → a.act (s.tcp c) = .ok tcp →
      IoCase s i (.act a) (s.setTcp c tcp)
  | messageDone {c : Nat} {revents : Events} : (s.io i).pc = .handler c revents .message →
      IoCase s i .messageDone (s.setIoPc i (.handler c revents .output))
  | handleWrite {c : Nat} {revents : Events} {w : WriteResult} :
      (s.io i).pc = .handler c revents .output → revents.EPOLLOUT = true →
      IoCase s i (.handleWrite w) ((s.setTcp c ((s.tcp c).handleWrite w)).setIoPc i .handling)
  | noOutput {c : Nat} {revents : Events} {w : WriteResult} :
      (s.io i).pc = .handler c revents .output → revents.EPOLLOUT ≠ true →
      IoCase s i (.handleWrite w) (s.setIoPc i .handling)
  | swap : (s.io i).pc = .handling → (s.io i).activeChannels_ = [] →
      IoCase s i .swap (s.setIo i { s.io i with
        pc := .functors
        pendingFunctors_ := []
        localFunctors := (s.io i).pendingFunctors_
        todo := (s.io i).pendingFunctors_ })
  | functor {f : IoFunctor} {rest : List IoFunctor} : (s.io i).pc = .functors →
      (s.io i).todo = f :: rest →
      IoCase s i .functor ((s.setIo i { s.io i with todo := rest }).runFunctor i f)
  | batchDone : (s.io i).pc = .functors → (s.io i).todo = [] →
      IoCase s i .batchDone (s.setIo i { s.io i with pc := .polling, localFunctors := [] })

variable {s s' : HttpServerLoops n} {i : Fin n}

theorem main_cases {a : MainAction} (hs : s.mainStep a = some s') : MainCase s a s' := by
  cases a with
  | newConnection now =>
    simp only [mainStep, Option.ite_none_right_eq_some, Option.some.injEq] at hs
    obtain ⟨⟨hpc, -⟩, rfl⟩ := hs
    exact .newConnection hpc
  | HandleIdleConnection c =>
    simp only [mainStep, Option.ite_none_right_eq_some, Option.some.injEq] at hs
    obtain ⟨⟨hpc, hmem⟩, rfl⟩ := hs
    split
    · rename_i hheld
      exact .locked hpc hmem hheld
    · rename_i hheld
      exact .lost hpc hmem hheld
  | testIdle expired =>
    simp only [mainStep] at hs
    split at hs
    · rename_i c hpc
      cases expired with
      | true =>
        obtain rfl := Option.some.inj hs
        by_cases hconn : (s.tcp c).state_ = .kConnected
        · rw [if_pos hconn]
          exact .shutdown hpc hconn
        · rw [if_neg hconn]
          exact .notConnected hpc hconn
      | false =>
        obtain rfl := Option.some.inj hs
        exact .again hpc
    · cases hs
  | setState =>
    simp only [mainStep] at hs
    split at hs
    · rename_i c hpc
      obtain rfl := Option.some.inj hs
      exact .setState hpc
    · cases hs
  | queueShutdown =>
    simp only [mainStep] at hs
    split at hs
    · rename_i c hpc
      obtain rfl := Option.some.inj hs
      exact .queueShutdown hpc
    · cases hs
  | release =>
    simp only [mainStep] at hs
    split at hs
    · rename_i c hpc
      obtain rfl := Option.some.inj hs
      exact .release hpc
    · cases hs
  | swap =>
    simp only [mainStep, Option.ite_none_right_eq_some, Option.some.injEq] at hs
    obtain ⟨hpc, rfl⟩ := hs
    exact .swap hpc
  | removeConnectionInLoop =>
    simp only [mainStep] at hs
    split at hs
    · rename_i c rest hpc htodo
      obtain rfl := Option.some.inj hs
      exact .removeConnectionInLoop hpc htodo
    · cases hs
  | batchDone =>
    simp only [mainStep, Option.ite_none_right_eq_some, Option.some.injEq] at hs
    obtain ⟨⟨hpc, htodo⟩, rfl⟩ := hs
    exact .batchDone hpc htodo

theorem io_cases {a : IoAction} (hs : s.ioStep i a = some s') : IoCase s i a s' := by
  cases a with
  | poll events =>
    simp only [ioStep, Option.ite_none_right_eq_some, Option.some.injEq] at hs
    obtain ⟨⟨hpc, hevents⟩, rfl⟩ := hs
    exact .poll hpc hevents
  | handleEvent =>
    simp only [ioStep] at hs
    split at hs
    · rename_i c revents rest hpc hactive
      obtain rfl := Option.some.inj hs
      exact .handleEvent hpc hactive
    · cases hs
  | hangup =>
    simp only [ioStep] at hs
    split at hs
    · rename_i c revents hpc
      obtain rfl := Option.some.inj hs
      split
      · rename_i hup
        exact .hangup hpc hup
      · rename_i hup
        exact .noHangup hpc hup
    · cases hs
  | closecb =>
    simp only [ioStep] at hs
    split at hs
    · rename_i c revents reads hpc
      obtain rfl := Option.some.inj hs
      exact .closecb hpc
    · cases hs
  | handleRead r ret =>
    simp only [ioStep] at hs
    split at hs
    · rename_i c revents hpc
      split at hs
      · rename_i hin
        unfold handleRead at hs
        split at hs
        · rename_i b e handler hread
          cases handler with
          | messagecb_ =>
            obtain rfl := Option.some.inj hs
            exact .message hpc hin hread
          | handleClose =>
            obtain rfl := Option.some.inj hs
            exact .readClose hpc hin hread
          | handleError =>
            obtain rfl := Option.some.inj hs
            exact .readError hpc hin hread
        · cases hs
      · rename_i hin
        obtain rfl := Option.some.inj hs
        exact .noInput hpc hin
    · cases hs
  | act action =>
    simp only [ioStep] at hs
    split at hs
    · rename_i c revents hpc
      split at hs
      · rename_i tcp hact
        obtain rfl := Option.some.inj hs
        exact .act hpc hact
      · cases hs
    · cases hs
  | messageDone =>
    simp only [ioStep] at hs
    split at hs
    · rename_i c revents hpc
      obtain rfl := Option.some.inj hs
      exact .messageDone hpc
    · cases hs
  | handleWrite w =>
    simp only [ioStep] at hs
    split at hs
    · rename_i c revents hpc
      obtain rfl := Option.some.inj hs
      split
      · rename_i hout
        exact .handleWrite hpc hout
      · rename_i hout
        exact .noOutput hpc hout
    · cases hs
  | swap =>
    simp only [ioStep, Option.ite_none_right_eq_some, Option.some.injEq] at hs
    obtain ⟨⟨hpc, hactive⟩, rfl⟩ := hs
    exact .swap hpc hactive
  | functor =>
    simp only [ioStep] at hs
    split at hs
    · rename_i f rest hpc htodo
      obtain rfl := Option.some.inj hs
      exact .functor hpc htodo
    · cases hs
  | batchDone =>
    simp only [ioStep, Option.ite_none_right_eq_some, Option.some.injEq] at hs
    obtain ⟨⟨hpc, htodo⟩, rfl⟩ := hs
    exact .batchDone hpc htodo

/-! ## What an IO loop leaves alone -/

theorem runFunctor_frame {f : IoFunctor} :
    (s.runFunctor i f).connections_ = s.connections_ ∧
      (s.runFunctor i f).nextConnId_ = s.nextConnId_ := by
  unfold runFunctor
  split
  · dsimp only
    split <;> exact ⟨rfl, rfl⟩
  · exact ⟨rfl, rfl⟩
  · exact ⟨rfl, rfl⟩

/-- An IO loop accepts no connection, and drops none from the map. -/
theorem io_frame {a : IoAction} (hs : IoCase s i a s') :
    s'.connections_ = s.connections_ ∧ s'.nextConnId_ = s.nextConnId_ := by
  cases hs with
  | functor _ _ => exact runFunctor_frame
  | _ => exact ⟨rfl, rfl⟩

end HttpServerLoops

end LearnMuduo
