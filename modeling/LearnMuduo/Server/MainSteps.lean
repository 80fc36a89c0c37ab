/-
  LearnMuduo.Server.MainSteps

  The steps of the main loop, as steps in the lives of the connections.

  `Goes s s'` says that the life of every connection goes on from `s` to `s'`; each
  action of the main loop is shown to be such a step (`main_goes`).
-/
import LearnMuduo.Server.Projection
import LearnMuduo.Server.StepCases

namespace LearnMuduo

open Lib

namespace HttpServerLoops

variable {n : Nat}

structure Sound (s : HttpServerLoops n) : Prop where
  tidy : s.Tidy
  kept : ∀ c, (s.life c).Kept

/-- From `s` to `s'` the life of every connection goes on. -/
structure Goes (s s' : HttpServerLoops n) : Prop where
  tidy : s'.Tidy
  life : ∀ c, (s.life c).Step (s'.life c)

variable {s s' t : HttpServerLoops n} {i : Fin n} {c d : Nat} {tcp : TcpConnection}
  {pc : IoPc} {revents : Events} {stage : Stage} {f : IoFunctor}

theorem Sound.goes (h : s.Sound) (hs : s.Goes s') : s'.Sound :=
  ⟨hs.tidy, fun c => (hs.life c).kept (h.kept c)⟩

theorem Goes.of_eq (htidy : s'.Tidy) (h : ∀ d, s'.life d = s.life d) : s.Goes s' :=
  ⟨htidy, fun d => by rw [h d]; exact .refl _⟩

/-- Only the connection `c` is touched. -/
theorem Goes.of_self (htidy : s'.Tidy) (hother : ∀ d, d ≠ c → s'.life d = s.life d)
    (hself : (s.life c).Step (s'.life c)) : s.Goes s' := by
  refine ⟨htidy, fun d => ?_⟩
  by_cases h : d = c
  · subst h
    exact hself
  · rw [hother d h]
    exact .refl _

/-! ## The main loop -/

theorem Tidy.setMainPc {pc : MainPc} (h : s.Tidy) : (s.setMainPc pc).Tidy :=
  ⟨h.first, h.io, h.destroyed⟩

/-- Nothing mentions a connection that has not been accepted. -/
theorem Sound.unmentioned (h : s.Sound) (hborn : (s.life c).born = false) (j : Fin n) :
    (s.io j).kinds c = [] ∧ (s.io j).busy c = false := by
  have hlife := (h.kept c).unborn hborn
  constructor
  · -- a functor of `c` lies on the loop of `c`, where the life of `c` shows none
    by_contra hne
    obtain ⟨k, hk⟩ := List.exists_mem_of_ne_nil _ hne
    have hloop : s.loopOf c = j := (h.tidy.io j).functors _ (mem_kinds.mp hk)
    have hqueue : (s.io (s.loopOf c)).kinds c = [] := congrArg Life.queue hlife
    rw [hloop] at hqueue
    exact hne hqueue
  · by_contra hne
    -- the same for what is being handled
    have hbusy := (Bool.not_eq_false _).mp hne
    have hloop : s.loopOf c = j := (h.tidy.io j).busy c hbusy
    have hfree : (s.io (s.loopOf c)).busy c = false := congrArg Life.busy hlife
    rw [hloop] at hfree
    exact hne hfree

theorem born_nextConnId : (s.life s.nextConnId_).born = false := by
  show decide (0 < s.nextConnId_ ∧ s.nextConnId_ < s.nextConnId_) = false
  simp

/-- The server behind the construction of a connection. -/
def constructed (s : HttpServerLoops n) (now : Nat) : HttpServerLoops n :=
  { s with
    conns := Function.update s.conns s.nextConnId_
      { tcp := TcpConnection.new now, loop_ := s.next_, destroyedIn := none }
    nextConnId_ := s.nextConnId_ + 1
    next_ := getNextLoop s.next_
    connections_ := s.nextConnId_ :: s.connections_ }

theorem constructed_conns_self {now : Nat} : (s.constructed now).conns s.nextConnId_ =
    { tcp := TcpConnection.new now, loop_ := s.next_, destroyedIn := none } :=
  Function.update_self _ _ _

theorem constructed_conns_other {now : Nat} (hd : d ≠ s.nextConnId_) :
    (s.constructed now).conns d = s.conns d := Function.update_of_ne hd _ _

theorem constructed_tidy (h : s.Sound) {now : Nat} : (s.constructed now).Tidy where
  first := Nat.succ_pos _
  io j := by
    have hfree := h.unmentioned born_nextConnId j
    have hloop : ∀ d, d ≠ s.nextConnId_ → (s.constructed now).loopOf d = s.loopOf d :=
      fun d hd => congrArg ServerConn.loop_ (constructed_conns_other hd)
    exact { h.tidy.io j with
      functors := fun f hf => by
        refine (hloop _ fun he => ?_).trans ((h.tidy.io j).functors f hf)
        have hmem : f.kind ∈ (s.io j).kinds s.nextConnId_ := by
          rw [mem_kinds, ← he]
          exact hf
        rw [hfree.1] at hmem
        exact List.not_mem_nil hmem
      busy := fun d hd => by
        refine (hloop d fun he => ?_).trans ((h.tidy.io j).busy d hd)
        subst he
        exact Bool.false_ne_true (hfree.2.symm.trans hd) }
  destroyed d j hd := by
    by_cases hdc : d = s.nextConnId_
    · subst hdc
      rw [constructed_conns_self] at hd
      cases hd
    · rw [constructed_conns_other hdc] at hd
      exact (h.tidy.destroyed d j hd).trans
        (congrArg ServerConn.loop_ (constructed_conns_other hdc)).symm

theorem constructed_life_self (h : s.Sound) {now : Nat} :
    (s.constructed now).life s.nextConnId_ =
      { Life.unborn with born := true, mapped := true } := by
  have hlife := (h.kept _).unborn (born_nextConnId (s := s))
  obtain ⟨hkinds, hbusy⟩ := h.unmentioned born_nextConnId s.next_
  have hcloses : (s.io s.next_).pc.closes s.nextConnId_ = false := by
    by_contra hne
    have hhandles := handles_of_closes ((Bool.not_eq_false _).mp hne)
    rw [IoLoop.busy, hhandles, Bool.or_true] at hbusy
    cases hbusy
  have hborn : 0 < s.nextConnId_ ∧ s.nextConnId_ < s.nextConnId_ + 1 :=
    ⟨h.tidy.first, Nat.lt_succ_self _⟩
  have hremoving : decide (s.nextConnId_ ∈ s.main.todo ++ s.main.pendingFunctors_) = false :=
    congrArg Life.removing hlife
  have hshutting : s.main.pc.shuts s.nextConnId_ = false := congrArg Life.shutting hlife
  rw [life, loopOf, constructed_conns_self]
  show Life.mk (decide (0 < s.nextConnId_ ∧ s.nextConnId_ < s.nextConnId_ + 1)) _ _ _
    (decide (s.nextConnId_ ∈ s.nextConnId_ :: s.connections_))
    (decide (s.nextConnId_ ∈ s.main.todo ++ s.main.pendingFunctors_))
    ((s.io s.next_).kinds _) ((s.io s.next_).busy _) ((s.io s.next_).pc.closes _)
    (s.main.pc.shuts _) = _
  rw [hkinds, hbusy, hcloses, hremoving, hshutting, decide_eq_true hborn,
    decide_eq_true List.mem_cons_self]
  rfl

theorem newConnection_goes (h : s.Sound) {now : Nat} : s.Goes (s.newConnection now) := by
  refine Goes.of_self (c := s.nextConnId_) (constructed_tidy h).queueInLoop (fun d hd => ?_) ?_
  · refine (life_queueInLoop_other (s := s.constructed now) hd).trans ?_
    -- another connection has the number, and is in `connections_`, as before
    have hborn : (0 < d ∧ d < s.nextConnId_ + 1) ↔ (0 < d ∧ d < s.nextConnId_) := by omega
    have hmapped : d ∈ s.nextConnId_ :: s.connections_ ↔ d ∈ s.connections_ := by simp [hd]
    rw [life, loopOf, constructed_conns_other hd]
    show Life.mk (decide (0 < d ∧ d < s.nextConnId_ + 1)) _ _ _
      (decide (d ∈ s.nextConnId_ :: s.connections_)) _ _ _ _ _ = _
    simp only [hborn, hmapped]
    rfl
  · have hself := life_queueInLoop_self (s := s.constructed now)
      (f := ⟨.connectEstablished, s.nextConnId_⟩)
    rw [constructed_life_self h] at hself
    refine (congrArg (Life.Step _) hself).mpr (.newConnection born_nextConnId)

theorem life_setMainPc {mpc : MainPc} :
    (s.setMainPc mpc).life d = { s.life d with shutting := mpc.shuts d } := rfl

/-- The main loop goes on, and is in the `shutdown` of the same connection as before. -/
theorem setMainPc_goes {mpc : MainPc} (h : s.Sound)
    (hshuts : ∀ d, mpc.shuts d = s.main.pc.shuts d) : s.Goes (s.setMainPc mpc) := by
  refine Goes.of_eq h.tidy.setMainPc fun d => ?_
  rw [life_setMainPc, hshuts d]
  rfl

/-- A reference that is only weak is dropped or taken. -/
theorem idleTimers_goes (h : s.Sound) (timers : List Nat) :
    s.Goes { s with idleTimers := timers } :=
  Goes.of_eq ⟨h.tidy.first, h.tidy.io, h.tidy.destroyed⟩ fun _ => rfl

/-- The timers are touched, and the main loop stays out of `shutdown`. -/
theorem idleTimers_setMainPc_goes {mpc : MainPc} (h : s.Sound) (timers : List Nat)
    (hshuts : ∀ d, mpc.shuts d = s.main.pc.shuts d) :
    s.Goes ({ s with idleTimers := timers }.setMainPc mpc) := by
  refine Goes.of_eq (idleTimers_goes h timers).tidy.setMainPc fun d => ?_
  rw [life_setMainPc, hshuts d]
  rfl

/-- `shutdown` is entered for a connected connection. -/
theorem shutdown_goes (h : s.Sound) (hpc : s.main.pc = .locked c)
    (hstate : (s.tcp c).state_ = .kConnected) : s.Goes (s.setMainPc (.shutting c)) := by
  refine Goes.of_self (c := c) h.tidy.setMainPc (fun d hd => ?_) ?_
  · have hshuts : (MainPc.shutting c).shuts d = s.main.pc.shuts d := by
      rw [hpc]
      exact decide_eq_false (Ne.symm hd)
    rw [life_setMainPc, hshuts]
    rfl
  · have hshuts : (MainPc.shutting c).shuts c = true := decide_eq_true rfl
    rw [life_setMainPc, hshuts]
    exact .enterShutdown hstate

/-- The store of `kDisConnecting`, wherever the connection is by now. -/
theorem setState_goes (h : s.Sound) (hpc : s.main.pc = .shutting c) :
    s.Goes ((s.setTcp c { s.tcp c with state_ := .kDisConnecting }).setMainPc (.queueing c)) := by
  -- it stays in the `shutdown` of the same connection
  have hshuts : ∀ d, (MainPc.queueing c).shuts d = s.main.pc.shuts d := fun d => by
    rw [hpc]
    rfl
  refine Goes.of_self (c := c) h.tidy.setTcp.setMainPc (fun d hd => ?_) ?_
  · rw [life_setMainPc, life_setTcp_other hd, hshuts]
    rfl
  · rw [life_setMainPc, life_setTcp_self, hshuts]
    refine .setState ?_
    show s.main.pc.shuts c = true
    rw [hpc]
    exact decide_eq_true rfl

theorem queueShutdown_goes (h : s.Sound) (hpc : s.main.pc = .queueing c) :
    s.Goes ((s.queueInLoop ⟨.shutdownInloop, c⟩).setMainPc (.releasing c)) := by
  refine Goes.of_self (c := c) h.tidy.queueInLoop.setMainPc (fun d hd => ?_) ?_
  · have hshuts : (MainPc.releasing c).shuts d = s.main.pc.shuts d := by
      rw [hpc]
      exact (decide_eq_false (Ne.symm hd)).symm
    rw [life_setMainPc, life_queueInLoop_other hd, hshuts]
    rfl
  · rw [life_setMainPc, life_queueInLoop_self (f := ⟨.shutdownInloop, c⟩)]
    refine .queueShutdown ?_
    show s.main.pc.shuts c = true
    rw [hpc]
    exact decide_eq_true rfl

/-- A step that only shortens the main loop's work. -/
theorem setMain_goes {m : MainLoop} (h : s.Sound) (hshuts : ∀ d, m.pc.shuts d = s.main.pc.shuts d)
    (hsub : ∀ d, d ∈ m.todo ++ m.pendingFunctors_ → d ∈ s.main.todo ++ s.main.pendingFunctors_) :
    s.Goes { s with main := m } := by
  refine ⟨⟨h.tidy.first, h.tidy.io, h.tidy.destroyed⟩, fun d => ?_⟩
  have hremoving : decide (d ∈ m.todo ++ m.pendingFunctors_) = true →
      (s.life d).removing = true := fun hd => decide_eq_true (hsub d (of_decide_eq_true hd))
  show (s.life d).Step { s.life d with
    removing := decide (d ∈ m.todo ++ m.pendingFunctors_), shutting := m.pc.shuts d }
  rw [hshuts d]
  exact .turn (s.life d).busy _ (s.life d).closing Or.inl hremoving id

/-- `connections_` gives its reference up to the functor `connectDestoryed`. -/
theorem removeConnectionInLoop_goes {rest : List Nat} (h : s.Sound)
    (hpc : s.main.pc = .functors) (htodo : s.main.todo = c :: rest) :
    s.Goes ({ s with main := { s.main with todo := rest } }.removeConnectionInLoop c) := by
  -- a functor runs between the callbacks, so nothing is in `shutdown`
  have hshuts : ∀ d, s.main.pc.shuts d = false := fun d => by rw [hpc]; rfl
  -- the state between `erase` and `queueInLoop`
  let m : HttpServerLoops n := { s with
    main := { s.main with todo := rest }
    connections_ := s.connections_.filter (· ≠ c) }
  have hm : m.Tidy := ⟨h.tidy.first, h.tidy.io, h.tidy.destroyed⟩
  refine ⟨hm.queueInLoop, fun d => ?_⟩
  have hremoving : decide (d ∈ rest ++ s.main.pendingFunctors_) = true →
      (s.life d).removing = true := fun hd => by
    refine decide_eq_true ?_
    rw [htodo]
    exact List.mem_cons_of_mem _ (of_decide_eq_true hd)
  by_cases hd : d = c
  · subst hd
    have hself := life_queueInLoop_self (s := m) (f := ⟨.connectDestoryed, d⟩)
    have hmapped : decide (d ∈ s.connections_.filter (· ≠ d)) = false := by simp
    refine (congrArg (Life.Step _) hself).mpr ?_
    show (s.life d).Step { s.life d with
      mapped := decide (d ∈ s.connections_.filter (· ≠ d))
      removing := decide (d ∈ rest ++ s.main.pendingFunctors_)
      queue := (s.life d).queue ++ [.connectDestoryed] }
    rw [hmapped]
    refine .removeConnectionInLoop (decide_eq_true ?_) (hshuts d)
    rw [htodo]
    exact List.mem_cons_self
  · have hother := life_queueInLoop_other (s := m) (f := ⟨.connectDestoryed, c⟩) hd
    refine (congrArg (Life.Step _) hother).mpr ?_
    have hmapped : decide (d ∈ s.connections_.filter (· ≠ c)) = decide (d ∈ s.connections_) := by
      simp [hd]
    show (s.life d).Step { s.life d with
      mapped := decide (d ∈ s.connections_.filter (· ≠ c))
      removing := decide (d ∈ rest ++ s.main.pendingFunctors_) }
    rw [hmapped]
    exact .turn (s.life d).busy _ (s.life d).closing Or.inl hremoving id

theorem main_goes {a : MainAction} (h : s.Sound) (hs : s.mainStep a = some s') : s.Goes s' := by
  cases main_cases hs with
  | newConnection _ => exact newConnection_goes h
  | locked hpc _ _ => exact idleTimers_setMainPc_goes h _ fun d => by rw [hpc]; rfl
  | lost _ _ _ => exact idleTimers_goes h _
  | shutdown hpc hstate => exact shutdown_goes h hpc hstate
  | notConnected hpc _ => exact setMainPc_goes h fun d => by rw [hpc]; rfl
  | again hpc => exact idleTimers_setMainPc_goes h _ fun d => by rw [hpc]; rfl
  | setState hpc => exact setState_goes h hpc
  | queueShutdown hpc => exact queueShutdown_goes h hpc
  | release hpc => exact setMainPc_goes h fun d => by rw [hpc]; rfl
  | swap hpc =>
    refine setMain_goes h (fun d => by rw [hpc]; rfl) fun d hd => ?_
    rw [List.append_nil] at hd
    exact List.mem_append_right _ hd
  | removeConnectionInLoop hpc htodo => exact removeConnectionInLoop_goes h hpc htodo
  | batchDone hpc _ => exact setMain_goes h (fun d => by rw [hpc]; rfl) fun d hd => hd

end HttpServerLoops

end LearnMuduo
