/-
  LearnMuduo.Server.Release

  Which connections the server holds when its loops have nothing left to do.

  Once `handleClose` has been entered for a connection there is always something on the way
  to its destruction: the handler, the functor on the main loop, the functor on its own loop,
  or the mark that `connectDestoryed` has run (`Ending`).  No step of any loop loses that, and
  none brings it about but the entry into `handleClose`.
-/
import LearnMuduo.Server.Ownership

namespace LearnMuduo

open Lib

namespace HttpServerLoops

variable {n : Nat}

/-- `handleClose` has been entered for the connection, before `closecb_`. -/
def Closing (s : HttpServerLoops n) (c : Nat) : Prop := ∃ i, (s.io i).pc.closes c = true

/-- The connection is on the way to its destruction, or destroyed. -/
inductive Ending (s : HttpServerLoops n) (c : Nat) : Prop where
  | closing (h : s.Closing c)
  | removing (h : c ∈ s.main.todo ++ s.main.pendingFunctors_)
  | queued (i : Fin n) (h : ⟨.connectDestoryed, c⟩ ∈ (s.io i).queue)
  | destroyed (h : (s.conns c).destroyedIn.isSome = true)

/-- The vectors of functors are empty between the batches. -/
structure Batches (s : HttpServerLoops n) : Prop where
  main : s.main.pc ≠ .functors → s.main.todo = [] ∧ s.main.localFunctors = []
  io : ∀ i, (s.io i).pc ≠ .functors → (s.io i).todo = [] ∧ (s.io i).localFunctors = []

/-- No loop has anything to do. -/
structure AtRest (s : HttpServerLoops n) : Prop where
  main : s.main.pc = .handling ∧ s.main.pendingFunctors_ = []
  io : ∀ i, (s.io i).pc = .polling ∧ (s.io i).pendingFunctors_ = []

variable {s s' : HttpServerLoops n} {i : Fin n} {c : Nat}

/-! ## The parts of a step -/

theorem io_setIo (j : Fin n) (l : IoLoop) :
    (s.setIo i l).io j = if j = i then l else s.io j := by
  by_cases h : j = i
  · subst h
    rw [if_pos rfl]
    exact Function.update_self ..
  · rw [if_neg h]
    exact Function.update_of_ne h ..

theorem io_queueInLoop (j : Fin n) (f : IoFunctor) :
    ((s.queueInLoop f).io j).pc = (s.io j).pc ∧
      ((s.queueInLoop f).io j).todo = (s.io j).todo ∧
      ((s.queueInLoop f).io j).localFunctors = (s.io j).localFunctors ∧
      ∀ g, g ∈ ((s.queueInLoop f).io j).queue ↔
        g ∈ (s.io j).queue ∨ g = f ∧ j = s.loopOf f.conn := by
  rw [queueInLoop, io_setIo]
  split
  · rename_i hj
    subst hj
    refine ⟨rfl, rfl, rfl, fun g => ?_⟩
    show g ∈ _ ++ (_ ++ [f]) ↔ g ∈ _ ++ _ ∨ _
    rw [← List.append_assoc, List.mem_append, List.mem_singleton]
    exact or_congr Iff.rfl (and_iff_left rfl).symm
  · rename_i hj
    exact ⟨rfl, rfl, rfl, fun g => ⟨Or.inl, fun h => h.resolve_right fun hf => hj hf.2⟩⟩

/-- What a step of the main loop leaves of an IO loop: everything, and there may be a functor
    more in the queue, `connectDestoryed` only for a connection that was to be removed. -/
structure Pushes (s s' : HttpServerLoops n) (j : Fin n) : Prop where
  pc : (s'.io j).pc = (s.io j).pc
  todo : (s'.io j).todo = (s.io j).todo
  localFunctors : (s'.io j).localFunctors = (s.io j).localFunctors
  queue : ∀ f ∈ (s.io j).queue, f ∈ (s'.io j).queue
  destroys : ∀ c, ⟨.connectDestoryed, c⟩ ∈ (s'.io j).queue →
    ⟨.connectDestoryed, c⟩ ∈ (s.io j).queue ∨ c ∈ s.main.todo

theorem Pushes.of_eq {j : Fin n} (h : s'.io j = s.io j) : Pushes s s' j := by
  refine ⟨?_, ?_, ?_, fun f hf => ?_, fun c hc => Or.inl ?_⟩
  · rw [h]
  · rw [h]
  · rw [h]
  · rw [h]
    exact hf
  · rw [← h]
    exact hc

theorem Pushes.of_queueInLoop {m : HttpServerLoops n} {f : IoFunctor} {j : Fin n}
    (hio : m.io j = s.io j) (hf : f.kind = .connectDestoryed → f.conn ∈ s.main.todo) :
    Pushes s (m.queueInLoop f) j := by
  obtain ⟨hpc, htodo, hlocal, hqueue⟩ := @io_queueInLoop _ m j f
  rw [hio] at hpc htodo hlocal hqueue
  refine ⟨hpc, htodo, hlocal, fun g hg => (hqueue g).mpr (Or.inl hg), fun c hc => ?_⟩
  rcases (hqueue _).mp hc with hc | ⟨rfl, -⟩
  · exact Or.inl hc
  · exact Or.inr (hf rfl)

theorem main_pushes {a : MainAction} (hs : MainCase s a s') (j : Fin n) : Pushes s s' j := by
  cases hs with
  | @newConnection now _ =>
    exact .of_queueInLoop (m := s.constructed now) (f := ⟨.connectEstablished, _⟩) rfl nofun
  | queueShutdown hpc =>
    obtain ⟨hpc', htodo, hlocal, hqueue, hdestroys⟩ := @Pushes.of_queueInLoop n s s
      ⟨.shutdownInloop, _⟩ j rfl nofun
    exact ⟨hpc', htodo, hlocal, hqueue, hdestroys⟩
  | @removeConnectionInLoop c rest hpc htodo =>
    refine .of_queueInLoop (m := { s with
      main := { s.main with todo := rest }
      connections_ := s.connections_.filter (· ≠ c) }) (f := ⟨.connectDestoryed, c⟩) rfl fun _ => ?_
    rw [htodo]
    exact List.mem_cons_self
  | _ => exact .of_eq rfl

theorem Batches.main_step {a : MainAction} (h : s.Batches) (hs : MainCase s a s') : s'.Batches := by
  refine ⟨?_, fun j hpc => ?_⟩
  · cases hs with
    | newConnection hpc => exact h.main
    | swap hpc => exact fun hne => absurd rfl hne
    | removeConnectionInLoop hpc htodo => exact fun hne => absurd hpc hne
    | batchDone hpc htodo => exact fun _ => ⟨htodo, rfl⟩
    | lost hpc _ _ => exact h.main
    | locked hpc _ _ | shutdown hpc _ | notConnected hpc _ | again hpc | setState hpc
    | queueShutdown hpc | release hpc =>
      exact fun _ => h.main (by rw [hpc]; exact MainPc.noConfusion)
  · have hpushes := main_pushes hs j
    rw [hpushes.todo, hpushes.localFunctors]
    exact h.io j (hpushes.pc ▸ hpc)

theorem io_runFunctor (f : IoFunctor) :
    (s.runFunctor i f).io = s.io ∧ (s.runFunctor i f).main = s.main := by
  unfold runFunctor
  split
  · dsimp only
    split <;> exact ⟨rfl, rfl⟩
  · exact ⟨rfl, rfl⟩
  · exact ⟨rfl, rfl⟩

/-- What a step of the loop `i` does to the functors, and to the connection it closes. -/
structure Works (s s' : HttpServerLoops n) (i : Fin n) : Prop where
  other : ∀ j, j ≠ i → s'.io j = s.io j
  main : s'.main = s.main ∨ ∃ c, (s.io i).pc.closes c = true ∧
    s'.main = { s.main with pendingFunctors_ := s.main.pendingFunctors_ ++ [c] }
  closes : ∀ c, (s.io i).pc.closes c = true →
    (s'.io i).pc.closes c = true ∨ c ∈ s'.main.pendingFunctors_
  keeps : ∀ f ∈ (s.io i).queue, f ∈ (s'.io i).queue ∨
    (f.kind = .connectDestoryed → (s'.conns f.conn).destroyedIn.isSome = true)
  queue : ∀ f ∈ (s'.io i).queue, f ∈ (s.io i).queue
  destroyed : ∀ c, (s.conns c).destroyedIn.isSome = true → (s'.conns c).destroyedIn.isSome = true
  destroys : ∀ c, (s'.conns c).destroyedIn.isSome = true →
    (s.conns c).destroyedIn.isSome = true ∨ ⟨.connectDestoryed, c⟩ ∈ (s.io i).queue

theorem destroyedIn_setTcp (d : Nat) (tcp : TcpConnection) :
    ((s.setTcp c tcp).conns d).destroyedIn = (s.conns d).destroyedIn := by
  by_cases h : d = c
  · subst h
    simp [setTcp]
  · simp [setTcp, Function.update_of_ne h]

/-- The loop goes on in a handler, or from one phase to the next. -/
theorem Works.of_setIo {m : HttpServerLoops n} {l : IoLoop} (hio : m.io = s.io)
    (hmain : m.main = s.main) (hconns : ∀ d, (m.conns d).destroyedIn = (s.conns d).destroyedIn)
    (hopen : ∀ c, (s.io i).pc.closes c = false) (hqueue : l.queue = (s.io i).queue) :
    Works s (m.setIo i l) i := by
  have hself : (m.setIo i l).io i = l := by rw [io_setIo, if_pos rfl]
  refine ⟨fun j hj => ?_, Or.inl hmain, fun c hc => ?_, fun f hf => Or.inl ?_, fun f hf => ?_,
    fun c hc => ?_, fun c hc => Or.inl ?_⟩
  · rw [io_setIo, if_neg hj, hio]
  · rw [hopen c] at hc
    cases hc
  · rw [hself, hqueue]
    exact hf
  · rw [hself, hqueue] at hf
    exact hf
  · rw [show ((m.setIo i l).conns c).destroyedIn = _ from hconns c]
    exact hc
  · rw [← hconns c]
    exact hc

theorem handler_open {c d : Nat} {revents : Events} {stage : Stage}
    (h : ∀ reads, stage ≠ .closing reads) : (IoPc.handler c revents stage).closes d = false := by
  cases stage with
  | closing reads => exact absurd rfl (h reads)
  | _ => rfl

theorem closes_self (reads : Bool) {revents : Events} :
    (IoPc.handler c revents (.closing reads)).closes c = true := decide_eq_true rfl

theorem Works.closecb {revents : Events} {reads : Bool}
    (hpc : (s.io i).pc = .handler c revents (.closing reads)) :
    Works s ({ s with main := { s.main with
        pendingFunctors_ := s.main.pendingFunctors_ ++ [c] } }.setIoPc i
      (.handler c revents (if reads then .input else .output))) i := by
  refine ⟨fun j hj => ?_, Or.inr ⟨c, ?_, rfl⟩, fun d hd => Or.inr ?_, fun f hf => Or.inl ?_,
    fun f hf => ?_, fun d hd => hd, fun d hd => Or.inl hd⟩
  · rw [setIoPc, io_setIo, if_neg hj]
  · rw [hpc]
    exact closes_self reads
  · -- the connection it closes is the one it hands on
    rw [hpc] at hd
    obtain rfl : c = d := of_decide_eq_true hd
    exact List.mem_append_right _ (List.mem_singleton_self _)
  · rw [setIoPc, io_setIo, if_pos rfl]
    exact hf
  · rw [setIoPc, io_setIo, if_pos rfl] at hf
    exact hf

theorem Works.enterClose {m : HttpServerLoops n} {revents : Events} {stage : Stage} {reads : Bool}
    (hio : m.io = s.io) (hmain : m.main = s.main)
    (hconns : ∀ d, (m.conns d).destroyedIn = (s.conns d).destroyedIn)
    (hpc : (s.io i).pc = .handler c revents stage) (hstage : ∀ r, stage ≠ .closing r) :
    Works s (m.enterClose i c revents reads) i := by
  refine Works.of_setIo (m := m.setTcp c (ConnLoop.closing (m.tcp c))) hio hmain (fun d => ?_)
    (fun d => ?_) ?_
  · rw [destroyedIn_setTcp, hconns]
  · rw [hpc]
    exact handler_open hstage
  · show ((m.setTcp c _).io i).queue = _
    rw [io_setTcp, hio]

/-- The functor at the front of the batch is run. -/
theorem Works.functor {f : IoFunctor} {rest : List IoFunctor} (hpc : (s.io i).pc = .functors)
    (htodo : (s.io i).todo = f :: rest) :
    Works s ((s.setIo i { s.io i with todo := rest }).runFunctor i f) i := by
  obtain ⟨hio, hmain⟩ := @io_runFunctor n (s.setIo i { s.io i with todo := rest }) i f
  have hself : (((s.setIo i { s.io i with todo := rest }).runFunctor i f).io i) =
      { s.io i with todo := rest } := by rw [hio, io_setIo, if_pos rfl]
  have hqueue : (s.io i).queue = f :: IoLoop.queue { s.io i with todo := rest } := by
    rw [IoLoop.queue, htodo]
    rfl
  -- only `connectDestoryed` leaves its mark
  have hmark : ∀ d,
      (((s.setIo i { s.io i with todo := rest }).runFunctor i f).conns d).destroyedIn =
        if f.kind = .connectDestoryed ∧ d = f.conn then some i else (s.conns d).destroyedIn := by
    intro d
    cases hkind : f.kind with
    | connectEstablished =>
      rw [if_neg (by simp)]
      simp only [runFunctor, hkind]
      split
      · exact destroyedIn_setTcp d _
      · exact destroyedIn_setTcp d _
    | shutdownInloop =>
      rw [if_neg (by simp)]
      simp only [runFunctor, hkind]
      exact destroyedIn_setTcp d _
    | connectDestoryed =>
      simp only [runFunctor, hkind, true_and]
      by_cases hd : d = f.conn
      · rw [if_pos hd, hd, Function.update_self]
        rfl
      · rw [if_neg hd, Function.update_of_ne hd]
        rfl
  refine ⟨fun j hj => ?_, Or.inl hmain, fun d hd => ?_, fun g hg => ?_, fun g hg => ?_,
    fun d hd => ?_, fun d hd => ?_⟩
  · rw [hio, io_setIo, if_neg hj]
  · rw [hpc] at hd
    cases hd
  · rw [hself]
    rw [hqueue] at hg
    rcases List.mem_cons.mp hg with rfl | hg
    · exact Or.inr fun hkind => by rw [hmark, if_pos ⟨hkind, rfl⟩]; rfl
    · exact Or.inl hg
  · rw [hself] at hg
    rw [hqueue]
    exact List.mem_cons_of_mem _ hg
  · rw [hmark]
    split
    · rfl
    · exact hd
  · rw [hmark] at hd
    split at hd
    · rename_i hf
      refine Or.inr ?_
      rw [hqueue, hf.2, ← hf.1]
      exact List.mem_cons_self
    · exact Or.inl hd

theorem io_works {a : IoAction} (h : s.Batches) (hs : IoCase s i a s') : Works s s' i := by
  cases hs with
  | poll hpc _ | handleEvent hpc _ =>
    exact .of_setIo rfl rfl (fun _ => rfl) (fun _ => by rw [hpc]; rfl) rfl
  | hangup hpc _ => exact .enterClose rfl rfl (fun _ => rfl) hpc nofun
  | noHangup hpc _ | noInput hpc _ | messageDone hpc | noOutput hpc _ =>
    exact .of_setIo rfl rfl (fun _ => rfl) (fun _ => by rw [hpc]; rfl) rfl
  | closecb hpc => exact .closecb hpc
  | message hpc _ _ | readError hpc _ _ | handleWrite hpc _ =>
    exact .of_setIo (m := s.setTcp _ _) rfl rfl (fun d => destroyedIn_setTcp d _)
      (fun _ => by rw [hpc]; rfl) rfl
  | readClose hpc _ _ =>
    exact .enterClose (m := s.setTcp _ _) rfl rfl (fun d => destroyedIn_setTcp d _) hpc nofun
  | act hpc _ =>
    refine ⟨fun _ _ => rfl, Or.inl rfl, fun d hd => ?_, fun f hf => Or.inl hf, fun f hf => hf,
      fun d hd => ?_, fun d hd => Or.inl ?_⟩
    · rw [hpc] at hd
      cases hd
    · rw [destroyedIn_setTcp]
      exact hd
    · rw [destroyedIn_setTcp] at hd
      exact hd
  | swap hpc _ =>
    refine .of_setIo rfl rfl (fun _ => rfl) (fun _ => by rw [hpc]; rfl) ?_
    -- the batch before is over
    have htodo := (h.io i (by rw [hpc]; exact IoPc.noConfusion)).1
    rw [IoLoop.queue, IoLoop.queue, htodo, List.append_nil, List.nil_append]
  | functor hpc htodo => exact .functor hpc htodo
  | batchDone hpc _ => exact .of_setIo rfl rfl (fun _ => rfl) (fun _ => by rw [hpc]; rfl) rfl

theorem Batches.io_step {a : IoAction} (h : s.Batches) (hs : IoCase s i a s') : s'.Batches := by
  have hworks := io_works h hs
  refine ⟨fun hpc => ?_, fun j hpc => ?_⟩
  · rcases hworks.main with hmain | ⟨c, -, hmain⟩
    · rw [hmain] at hpc ⊢
      exact h.main hpc
    · rw [hmain] at hpc ⊢
      exact h.main hpc
  · by_cases hj : j = i
    · subst hj
      cases hs with
      | swap _ _ =>
        rw [io_setIo, if_pos rfl] at hpc
        exact absurd rfl hpc
      | functor hbefore _ =>
        rw [(io_runFunctor _).1, io_setIo, if_pos rfl] at hpc
        exact absurd hbefore hpc
      | batchDone _ htodo =>
        rw [io_setIo, if_pos rfl]
        exact ⟨htodo, rfl⟩
      | act _ _ => exact h.io j hpc
      | poll hbefore _ | handleEvent hbefore _ =>
        rw [io_setIo, if_pos rfl]
        exact h.io j (by rw [hbefore]; exact IoPc.noConfusion)
      | hangup hbefore _ | readClose hbefore _ _ =>
        rw [enterClose, setIoPc, io_setIo, if_pos rfl]
        exact h.io j (by rw [hbefore]; exact IoPc.noConfusion)
      | noHangup hbefore _ | noInput hbefore _ | messageDone hbefore | noOutput hbefore _
      | closecb hbefore | message hbefore _ _ | readError hbefore _ _ | handleWrite hbefore _ =>
        rw [setIoPc, io_setIo, if_pos rfl]
        exact h.io j (by rw [hbefore]; exact IoPc.noConfusion)
    · rw [hworks.other j hj] at hpc ⊢
      exact h.io j hpc

/-! ## On the way to the destruction -/

theorem Ending.main_step {a : MainAction} (h : s.Batches) (hborn : c ≠ s.nextConnId_)
    (hs : MainCase s a s') (he : s.Ending c) : s'.Ending c := by
  cases he with
  | closing hclosing =>
    obtain ⟨i, hi⟩ := hclosing
    exact .closing ⟨i, by rw [(main_pushes hs i).pc]; exact hi⟩
  | queued i hi => exact .queued i ((main_pushes hs i).queue _ hi)
  | destroyed hd =>
    refine .destroyed ?_
    cases hs with
    | newConnection _ =>
      show ((s.constructed _).conns c).destroyedIn.isSome = true
      rw [constructed_conns_other hborn]
      exact hd
    | setState _ =>
      show (((s.setTcp _ _).conns c).destroyedIn).isSome = true
      rw [destroyedIn_setTcp]
      exact hd
    | _ => exact hd
  | removing hr =>
    cases hs with
    | swap hpc =>
      rw [(h.main (by rw [hpc]; exact MainPc.noConfusion)).1, List.nil_append] at hr
      exact .removing (List.mem_append_left _ hr)
    | @removeConnectionInLoop d rest hpc htodo =>
      rw [htodo, List.cons_append] at hr
      rcases List.mem_cons.mp hr with rfl | hr
      · -- the functor on the main loop hands it on to its own loop
        obtain ⟨-, -, -, hqueue⟩ := @io_queueInLoop n { s with
          main := { s.main with todo := rest }
          connections_ := s.connections_.filter (· ≠ c) } (s.loopOf c) ⟨.connectDestoryed, c⟩
        exact .queued (s.loopOf c) ((hqueue _).mpr (Or.inr ⟨rfl, rfl⟩))
      · exact .removing hr
    | _ => exact .removing hr

theorem Ending.io_step {a : IoAction} (h : s.Batches) (hs : IoCase s i a s')
    (he : s.Ending c) : s'.Ending c := by
  have hworks := io_works h hs
  cases he with
  | closing hclosing =>
    obtain ⟨j, hj⟩ := hclosing
    by_cases hji : j = i
    · subst hji
      rcases hworks.closes c hj with hstill | hmain
      · exact .closing ⟨j, hstill⟩
      · exact .removing (List.mem_append_right _ hmain)
    · exact .closing ⟨j, by rw [hworks.other j hji]; exact hj⟩
  | removing hr =>
    refine .removing ?_
    rcases hworks.main with hmain | ⟨d, -, hmain⟩
    · rw [hmain]
      exact hr
    · rw [hmain]
      show c ∈ s.main.todo ++ (s.main.pendingFunctors_ ++ [d])
      rw [← List.append_assoc]
      exact List.mem_append_left _ hr
  | queued j hj =>
    by_cases hji : j = i
    · subst hji
      rcases hworks.keeps _ hj with hstill | hdone
      · exact .queued j hstill
      · exact .destroyed (hdone rfl)
    · exact .queued j (by rw [hworks.other j hji]; exact hj)
  | destroyed hd => exact .destroyed (hworks.destroyed c hd)

/-- It begins with the entry into `handleClose`. -/
theorem Ending.of_main_step {a : MainAction} (hs : MainCase s a s') (he : s'.Ending c) :
    s.Ending c := by
  cases he with
  | closing hclosing =>
    obtain ⟨i, hi⟩ := hclosing
    exact .closing ⟨i, by rw [← (main_pushes hs i).pc]; exact hi⟩
  | queued i hi =>
    rcases (main_pushes hs i).destroys c hi with hi | hr
    · exact .queued i hi
    · exact .removing (List.mem_append_left _ hr)
  | destroyed hd =>
    refine .destroyed ?_
    cases hs with
    | newConnection _ =>
      change ((s.constructed _).conns c).destroyedIn.isSome = true at hd
      by_cases hc : c = s.nextConnId_
      · rw [hc, constructed_conns_self] at hd
        cases hd
      · rw [constructed_conns_other hc] at hd
        exact hd
    | setState _ =>
      change (((s.setTcp _ _).conns c).destroyedIn).isSome = true at hd
      rw [destroyedIn_setTcp] at hd
      exact hd
    | _ => exact hd
  | removing hr =>
    refine .removing ?_
    cases hs with
    | swap hpc =>
      rw [List.append_nil] at hr
      exact List.mem_append_right _ hr
    | removeConnectionInLoop hpc htodo =>
      rw [htodo]
      exact List.mem_cons_of_mem _ hr
    | _ => exact hr

theorem Ending.of_io_step {a : IoAction} (h : s.Batches) (hs : IoCase s i a s')
    (he : s'.Ending c) : s.Ending c ∨ s'.Closing c := by
  have hworks := io_works h hs
  cases he with
  | closing hclosing => exact Or.inr hclosing
  | removing hr =>
    refine Or.inl ?_
    rcases hworks.main with hmain | ⟨d, hd, hmain⟩
    · rw [hmain] at hr
      exact .removing hr
    · rw [hmain, ← List.append_assoc] at hr
      rcases List.mem_append.mp hr with hr | hr
      · exact .removing hr
      · obtain rfl := List.mem_singleton.mp hr
        exact .closing ⟨i, hd⟩
  | queued j hj =>
    refine Or.inl (.queued j ?_)
    by_cases hji : j = i
    · subst hji
      exact hworks.queue _ hj
    · rw [← hworks.other j hji]
      exact hj
  | destroyed hd =>
    refine Or.inl ?_
    rcases hworks.destroys c hd with hd | hq
    · exact .destroyed hd
    · exact .queued i hq

/-! ## Runs -/

theorem start_batches (first : Fin n) (closeIdleConn : Bool) :
    (start first closeIdleConn).Batches :=
  ⟨fun _ => ⟨rfl, rfl⟩, fun _ _ => ⟨rfl, rfl⟩⟩

theorem start_not_ending (first : Fin n) (closeIdleConn : Bool) :
    ¬(start first closeIdleConn).Ending c := by
  intro he
  cases he with
  | closing hclosing =>
    obtain ⟨i, hi⟩ := hclosing
    cases hi
  | removing hr => cases hr
  | queued i hi => cases hi
  | destroyed hd => cases hd

theorem Batches.step {a : LoopsAction n} (h : s.Batches) (hs : s.step a = some s') :
    s'.Batches := by
  cases a with
  | main a => exact h.main_step (main_cases hs)
  | io i a => exact h.io_step (io_cases hs)

/-- Only a connection that was accepted is closed. -/
theorem Ending.born (h : s.Sound) (he : s.Ending c) : c ≠ s.nextConnId_ := by
  rintro rfl
  have hlife := (h.kept s.nextConnId_).unborn born_nextConnId
  have hfree := fun j => h.unmentioned (s := s) born_nextConnId j
  cases he with
  | closing hclosing =>
    obtain ⟨i, hi⟩ := hclosing
    have hbusy := (hfree i).2
    rw [IoLoop.busy, handles_of_closes hi, Bool.or_true] at hbusy
    cases hbusy
  | removing hr =>
    have hremoving : decide (s.nextConnId_ ∈ s.main.todo ++ s.main.pendingFunctors_) = false :=
      congrArg Life.removing hlife
    exact of_decide_eq_false hremoving hr
  | queued i hi =>
    have hmem := mem_kinds.mpr hi
    rw [(hfree i).1] at hmem
    cases hmem
  | destroyed hd =>
    have hdestroyed : (s.conns s.nextConnId_).destroyedIn.isSome = false :=
      congrArg Life.destroyed hlife
    rw [hdestroyed] at hd
    cases hd

theorem Ending.step_iff {a : LoopsAction n} (h : s.Sound) (hb : s.Batches)
    (hs : s.step a = some s') : s'.Ending c ↔ s.Ending c ∨ s'.Closing c := by
  constructor
  · intro he
    cases a with
    | main a => exact Or.inl (he.of_main_step (main_cases hs))
    | io i a => exact he.of_io_step hb (io_cases hs)
  · rintro (he | hclosing)
    · cases a with
      | main a => exact he.main_step hb (he.born h) (main_cases hs)
      | io i a => exact he.io_step hb (io_cases hs)
    · exact .closing hclosing

/-- In the run of the actions `handleClose` is entered for the connection. -/
def ClosedIn (s : HttpServerLoops n) (as : List (LoopsAction n)) (c : Nat) : Prop :=
  ∃ bs m, bs <+: as ∧ walk step s bs = some m ∧ m.Closing c

theorem Ending.walk_iff {as : List (LoopsAction n)} (h : s.Sound) (hb : s.Batches)
    (hs : walk step s as = some s') : s'.Ending c ↔ s.Ending c ∨ ClosedIn s as c := by
  induction as generalizing s with
  | nil =>
    obtain rfl := Option.some.inj hs
    refine ⟨Or.inl, fun he => he.elim id ?_⟩
    rintro ⟨bs, m, hbs, hm, hclosing⟩
    obtain rfl := List.prefix_nil.mp hbs
    obtain rfl := Option.some.inj hm
    exact .closing hclosing
  | cons a as ih =>
    rw [walk] at hs
    split at hs
    · cases hs
    · rename_i m hm
      rw [ih (h.goes (step_goes h hm)) (hb.step hm) hs, Ending.step_iff h hb hm]
      constructor
      · rintro ((he | hclosing) | ⟨bs, x, hbs, hx, hclosing⟩)
        · exact Or.inl he
        · refine Or.inr ⟨[a], m, List.cons_prefix_cons.mpr ⟨rfl, List.nil_prefix⟩, ?_, hclosing⟩
          simp only [walk, hm]
        · refine Or.inr ⟨a :: bs, x, List.cons_prefix_cons.mpr ⟨rfl, hbs⟩, ?_, hclosing⟩
          rw [walk, hm]
          exact hx
      · rintro (he | ⟨bs, x, hbs, hx, hclosing⟩)
        · exact Or.inl (Or.inl he)
        · cases bs with
          | nil =>
            obtain rfl := Option.some.inj hx
            exact Or.inl (Or.inl (.closing hclosing))
          | cons b bs =>
            obtain ⟨rfl, htail⟩ := List.cons_prefix_cons.mp hbs
            rw [walk, hm] at hx
            exact Or.inr ⟨bs, x, htail, hx, hclosing⟩

/-! ## At rest -/

theorem AtRest.holders (h : s.AtRest) (hb : s.Batches) : s.holders = s.connections_ := by
  have hmain := (hb.main (by rw [h.main.1]; exact MainPc.noConfusion)).2
  have hio : ∀ i, (s.io i).holders = [] := by
    intro i
    obtain ⟨hpc, hpending⟩ := h.io i
    have hlocal := (hb.io i (by rw [hpc]; exact IoPc.noConfusion)).2
    rw [IoLoop.holders, hpc, hpending, hlocal]
    rfl
  rw [HttpServerLoops.holders, h.main.2, hmain, h.main.1]
  simp [hio, MainPc.temporary]

theorem AtRest.ending_iff (h : s.AtRest) (hb : s.Batches) :
    s.Ending c ↔ (s.conns c).destroyedIn.isSome = true := by
  refine ⟨fun he => ?_, .destroyed⟩
  cases he with
  | closing hclosing =>
    obtain ⟨i, hi⟩ := hclosing
    rw [(h.io i).1] at hi
    cases hi
  | removing hr =>
    rw [(hb.main (by rw [h.main.1]; exact MainPc.noConfusion)).1, h.main.2] at hr
    cases hr
  | queued i hi =>
    obtain ⟨hpc, hpending⟩ := h.io i
    rw [IoLoop.queue, hpending, (hb.io i (by rw [hpc]; exact IoPc.noConfusion)).1] at hi
    cases hi
  | destroyed hd => exact hd

/-- The server keeps nothing but its open connections.  When no loop has anything left to do
    the connections that some `shared_ptr` points to are those that were accepted and for
    which `handleClose` was never entered: each of the others has been destroyed. -/
theorem held_iff_open {as : List LoopsAction} {closeIdleConn : Bool} {s : HttpServerLoops} {c : Nat}
    (hs : walk step (new closeIdleConn) as = some s) (hrest : s.AtRest) :
    c ∈ s.holders ↔ (0 < c ∧ c < s.nextConnId_) ∧ ¬ClosedIn (new closeIdleConn) as c := by
  have hsound := start_sound firstLoop closeIdleConn
  have hbatches := start_batches firstLoop closeIdleConn
  have h : s.Sound := hsound.reaches (Reachable.of_walk hs)
  have hb : s.Batches :=
    (Reachable.of_walk hs).invariant hbatches fun _ _ _ hx _ hstep => hx.step hstep
  have hending : s.Ending c ↔ ClosedIn (new closeIdleConn) as c :=
    (Ending.walk_iff hsound hbatches hs).trans (or_iff_right (start_not_ending _ _))
  rw [← hending, hrest.ending_iff hb, hrest.holders hb]
  constructor
  · intro hmem
    have hmapped : (s.life c).mapped = true := decide_eq_true hmem
    have hborn := (h.kept c).born_of_mapped hmapped
    have hlive : (s.conns c).destroyedIn.isSome = false := ((h.kept c).mapped hmapped).1
    exact ⟨of_decide_eq_true hborn, by rw [hlive]; exact Bool.false_ne_true⟩
  · rintro ⟨⟨hpos, hacc⟩, hlive⟩
    have hheld := h.held hpos hacc ((Bool.not_eq_true _).mp hlive)
    rw [hrest.holders hb] at hheld
    exact hheld

/-- The peer of the only connection has hung up. -/
theorem held_iff_open_hangup :
    ∃ s, walk step (new true) hangupActions = some s ∧ s.AtRest ∧
      (1 ∈ s.holders ↔ (0 < 1 ∧ 1 < s.nextConnId_) ∧ ¬ClosedIn (new true) hangupActions 1) := by
  have hsome : (walk step (new true) hangupActions).isSome = true := by decide +kernel
  have hrest : (after step (new true) hangupActions).AtRest :=
    ⟨by decide +kernel, by decide +kernel⟩
  obtain ⟨s, hs⟩ := Option.isSome_iff_exists.mp hsome
  rw [after, hs] at hrest
  exact ⟨s, hs, hrest, held_iff_open hs hrest⟩

end HttpServerLoops

end LearnMuduo
