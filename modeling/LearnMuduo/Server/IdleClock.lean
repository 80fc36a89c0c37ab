/-
  LearnMuduo.Server.IdleClock

  The idle checks of an `HttpServer` in time (Http/httpServer.cc, Timer/TimerQueue.cc,
  Base/TimeStamp.cc).

  `IdleClock` adds to the loops a clock and the deadlines of the timers: those whose
  functor `AddTimerInloop` is queued in the main loop, and those in its `TimerQueue`.
  `TimeStamp::now()` is the reading of the clock, which never goes back, and which goes on
  only while no functor waits to be run, no timer is overdue and the main loop is in no
  check.
-/
import LearnMuduo.Base.TimeStamp
import LearnMuduo.Server.IdleChecks

namespace LearnMuduo

open Lib

/-- Seconds. -/
def kIdleConnectionTimeOut : ℚ := 10

/-- The same in microseconds. -/
def kIdle : Int := 10 * kMicroSecond2Second

/-- A timer `HandleIdleConnection`. -/
structure IdleTimer where
  conn : Nat
  expiration_ : TimeStamp
  deriving DecidableEq, Repr

structure IdleClock (n : Nat := kThreaNums) where
  loops : HttpServerLoops n
  now : Nat
  /-- The functors `AddTimerInloop` that the main loop has still to run. -/
  adding : List IdleTimer
  /-- The timers of the `TimerQueue` whose callback has not been called. -/
  timers_ : List IdleTimer
  /-- The calls of `MessageCallback`: the connection and the time. -/
  messages : List (Nat × Nat)

inductive ClockAction (n : Nat := kThreaNums) where
  | tick (time : Nat)
  | addTimerInloop
  | loops (a : LoopsAction n)

/-- A step of `HandleIdleConnection`, or a step that reads the clock. -/
def LoopsAction.checks {n : Nat} : LoopsAction n → Bool
  | .main (.newConnection _) => true
  | .main (.HandleIdleConnection _) => true
  | .main (.testIdle _) => true
  | _ => false

namespace IdleClock

variable {n : Nat}

def start (first : Fin n) (now : Nat) : IdleClock n :=
  { loops := HttpServerLoops.start first true, now := now, adding := [], timers_ := []
    messages := [] }

def pending (s : IdleClock n) : List IdleTimer := s.adding ++ s.timers_

def timestamp (s : IdleClock n) (c : Nat) : TimeStamp := (s.loops.tcp c).timestamp_

/-- The main loop is in no `HandleIdleConnection`. -/
def BetweenCallbacks (s : IdleClock n) : Prop :=
  s.loops.main.pc = .handling ∨ s.loops.main.pc = .functors

instance (s : IdleClock n) : Decidable s.BetweenCallbacks := inferInstanceAs (Decidable (_ ∨ _))

/-- No functor waits in a loop. -/
def NothingWaits (s : IdleClock n) : Prop :=
  s.adding = [] ∧ s.loops.main.todo = [] ∧ s.loops.main.pendingFunctors_ = [] ∧
    ∀ i, (s.loops.io i).todo = [] ∧ (s.loops.io i).pendingFunctors_ = []

instance (s : IdleClock n) : Decidable s.NothingWaits :=
  inferInstanceAs (Decidable (_ ∧ _ ∧ _ ∧ _))

def MayTick (s : IdleClock n) (time : Nat) : Prop :=
  s.now ≤ time ∧ s.BetweenCallbacks ∧ s.NothingWaits ∧
    ∀ t ∈ s.timers_, (time : TimeStamp) ≤ t.expiration_

instance (s : IdleClock n) (time : Nat) : Decidable (s.MayTick time) :=
  inferInstanceAs (Decidable (_ ∧ _ ∧ _ ∧ _))

/-- `loop_->RunAfter(kIdleConnectionTimeOut, HandleIdleConnection)`, up to `AddTimerInloop`. -/
def runAfter (s : IdleClock n) (c : Nat) : Option IdleTimer :=
  (AddTime s.now kIdleConnectionTimeOut).toOption.map fun t => { conn := c, expiration_ := t }

/-- The test of `HandleIdleConnection`. -/
def expired (s : IdleClock n) (c : Nat) : Option Bool :=
  (AddTime (s.timestamp c) kIdleConnectionTimeOut).toOption.map fun t =>
    decide (t < (s.now : TimeStamp))

/-- A timer of the connection `c` whose time has come. -/
def due (s : IdleClock n) (c : Nat) (t : IdleTimer) : Bool :=
  t.conn = c ∧ t.expiration_ ≤ (s.now : TimeStamp)

/-- `MessageCallback` begins. -/
def messageCallback (s : IdleClock n) (l : HttpServerLoops n) (c : Nat) : IdleClock n :=
  { s with
    loops := if l.auto_close_idleconnection_ then
      l.setTcp c ((l.tcp c).updateTimeStamp s.now) else l
    messages := s.messages ++ [(c, s.now)] }

/-- The step `a` of the loops leads to `l`; with what it does with the time. -/
def loopsStep (s : IdleClock n) (l : HttpServerLoops n) : LoopsAction n → Option (IdleClock n)
  | .main (.newConnection now) => if now = s.now then some { s with loops := l } else none
  | .main (.HandleIdleConnection c) =>
    (s.timers_.find? (s.due c)).map fun t => { s with loops := l, timers_ := s.timers_.erase t }
  | .main (.testIdle expired) =>
    match s.loops.main.pc with
    | .locked c =>
      if s.expired c = some expired then
        -- on its own loop `AddTimerInloop` is called at once
        if expired then some { s with loops := l }
        else (s.runAfter c).map fun t => { s with loops := l, timers_ := s.timers_ ++ [t] }
      else none
    | _ => none
  | .io i .functor =>
    match s.loops.registers (.io i .functor) with
    | some c => (s.runAfter c).map fun t => { s with loops := l, adding := s.adding ++ [t] }
    | none => some { s with loops := l }
  | .io i (.handleRead _ _) =>
    match (l.io i).pc with
    | .handler c _ .message => some (s.messageCallback l c)
    | _ => some { s with loops := l }
  | _ => some { s with loops := l }

def step (s : IdleClock n) : ClockAction n → Option (IdleClock n)
  | .tick time => if s.MayTick time then some { s with now := time } else none
  | .addTimerInloop =>
    match s.loops.main.pc, s.adding with
    | .functors, t :: rest => some { s with adding := rest, timers_ := s.timers_ ++ [t] }
    | _, _ => none
  | .loops a => (s.loops.step a).bind fun l => s.loopsStep l a

/-! ## What a step does -/

section Cases

variable {s t : IdleClock n} {c : Nat}

/-- The step of the loops, and what it does with the time. -/
inductive LoopsCase (s : IdleClock n) (a : LoopsAction n) (l : HttpServerLoops n) :
    IdleClock n → Prop where
  | newConnection : a = .main (.newConnection s.now) → LoopsCase s a l { s with loops := l }
  | check {t : IdleTimer} : a = .main (.HandleIdleConnection t.conn) → t ∈ s.timers_ →
      LoopsCase s a l { s with loops := l, timers_ := s.timers_.erase t }
  | idle {c : Nat} : a = .main (.testIdle true) → s.loops.main.pc = .locked c →
      s.timestamp c + kIdle < (s.now : Int) → LoopsCase s a l { s with loops := l }
  | again {c : Nat} : a = .main (.testIdle false) → s.loops.main.pc = .locked c →
      (s.now : Int) ≤ s.timestamp c + kIdle → LoopsCase s a l { s with
        loops := l, timers_ := s.timers_ ++ [{ conn := c, expiration_ := s.now + kIdle }] }
  | register {c : Nat} : s.loops.registers a = some c → LoopsCase s a l { s with
      loops := l, adding := s.adding ++ [{ conn := c, expiration_ := s.now + kIdle }] }
  | message {i : Fin n} {r : ReadvResult} {ret : Int} {c : Nat} {revents : Events} :
      a = .io i (.handleRead r ret) → (l.io i).pc = .handler c revents .message →
      LoopsCase s a l (s.messageCallback l c)
  | other : s.loops.registers a = none → a.checks = false → LoopsCase s a l { s with loops := l }

theorem AddTime_idle {time time' : TimeStamp}
    (h : AddTime time kIdleConnectionTimeOut = .ok time') : time' = time + kIdle := by
  have htrunc : truncate kIdleConnectionTimeOut = 10 := by decide +kernel
  rw [AddTime_ok h, htrunc]
  rfl

theorem toOption_some {ε α : Type} {m : Except ε α} {x : α} (h : m.toOption = some x) :
    m = .ok x := by
  cases m with
  | error e => cases h
  | ok y => exact congrArg Except.ok (Option.some.inj h)

theorem runAfter_some {timer : IdleTimer} (h : s.runAfter c = some timer) :
    timer = { conn := c, expiration_ := s.now + kIdle } := by
  obtain ⟨time, htime, rfl⟩ := Option.map_eq_some_iff.mp h
  rw [AddTime_idle (toOption_some htime)]

theorem expired_some {b : Bool} (h : s.expired c = some b) :
    b = true ↔ s.timestamp c + kIdle < (s.now : Int) := by
  obtain ⟨time, htime, rfl⟩ := Option.map_eq_some_iff.mp h
  rw [AddTime_idle (toOption_some htime)]
  exact decide_eq_true_iff

theorem main_loopsCase {action : MainAction} {l : HttpServerLoops n}
    (hs : s.loopsStep l (.main action) = some t) : LoopsCase s (.main action) l t := by
  cases action with
  | newConnection now =>
    simp only [loopsStep, Option.ite_none_right_eq_some, Option.some.injEq] at hs
    obtain ⟨rfl, rfl⟩ := hs
    exact .newConnection rfl
  | HandleIdleConnection c =>
    obtain ⟨timer, hfind, rfl⟩ := Option.map_eq_some_iff.mp hs
    have hdue : s.due c timer = true := List.find?_some hfind
    obtain ⟨rfl, -⟩ := of_decide_eq_true hdue
    exact .check rfl (List.mem_of_find?_eq_some hfind)
  | testIdle expired =>
    simp only [loopsStep] at hs
    split at hs
    · rename_i c hpc
      split at hs
      · rename_i hexpired
        have hb := expired_some hexpired
        cases expired with
        | true =>
          obtain rfl := Option.some.inj hs
          exact .idle rfl hpc (hb.mp rfl)
        | false =>
          rw [if_neg Bool.false_ne_true] at hs
          obtain ⟨timer, htimer, rfl⟩ := Option.map_eq_some_iff.mp hs
          rw [runAfter_some htimer]
          exact .again rfl hpc (Int.not_lt.mp fun hidle => Bool.false_ne_true (hb.mpr hidle))
      · cases hs
    · cases hs
  | _ =>
    obtain rfl := Option.some.inj hs
    exact .other rfl rfl

theorem io_loopsCase {action : IoAction} {i : Fin n} {l : HttpServerLoops n}
    (hs : s.loopsStep l (.io i action) = some t) : LoopsCase s (.io i action) l t := by
  cases action with
  | functor =>
    simp only [loopsStep] at hs
    split at hs
    · rename_i c hreg
      obtain ⟨timer, htimer, rfl⟩ := Option.map_eq_some_iff.mp hs
      rw [runAfter_some htimer]
      exact .register hreg
    · rename_i hreg
      obtain rfl := Option.some.inj hs
      exact .other hreg rfl
  | handleRead r ret =>
    simp only [loopsStep] at hs
    split at hs
    · rename_i c revents hpc
      obtain rfl := Option.some.inj hs
      exact .message rfl hpc
    · obtain rfl := Option.some.inj hs
      exact .other rfl rfl
  | _ =>
    obtain rfl := Option.some.inj hs
    exact .other rfl rfl

theorem loops_cases {a : LoopsAction n} {l : HttpServerLoops n}
    (hs : s.loopsStep l a = some t) : LoopsCase s a l t := by
  cases a with
  | main action => exact main_loopsCase hs
  | io i action => exact io_loopsCase hs

/-- A step of the server or of its clock. -/
inductive StepCase (s : IdleClock n) : ClockAction n → IdleClock n → Prop where
  | tick {time : Nat} : s.MayTick time → StepCase s (.tick time) { s with now := time }
  | addTimerInloop {timer : IdleTimer} {rest : List IdleTimer} : s.adding = timer :: rest →
      StepCase s .addTimerInloop { s with adding := rest, timers_ := s.timers_ ++ [timer] }
  | loops {a : LoopsAction n} {l : HttpServerLoops n} {t : IdleClock n} :
      s.loops.step a = some l → LoopsCase s a l t → StepCase s (.loops a) t

theorem step_cases {a : ClockAction n} (hs : s.step a = some t) : StepCase s a t := by
  cases a with
  | tick time =>
    simp only [step, Option.ite_none_right_eq_some, Option.some.injEq] at hs
    obtain ⟨hmay, rfl⟩ := hs
    exact .tick hmay
  | addTimerInloop =>
    simp only [step] at hs
    split at hs
    · rename_i timer rest _ hadding
      obtain rfl := Option.some.inj hs
      exact .addTimerInloop hadding
    · cases hs
  | loops a =>
    obtain ⟨l, hl, hstep⟩ := Option.bind_eq_some_iff.mp hs
    exact .loops hl (loops_cases hstep)

/-- The clock is read as the time of a new connection. -/
theorem LoopsCase.newConnection_now {a : LoopsAction n} {l : HttpServerLoops n} {now : Nat}
    (h : LoopsCase s a l t) (ha : a = .main (.newConnection now)) : now = s.now := by
  subst ha
  cases h with
  | newConnection ha =>
    obtain rfl : now = s.now := by simpa using ha
    rfl
  | check ha _ => cases ha
  | idle ha _ _ => cases ha
  | again ha _ _ => cases ha
  | register hreg => cases hreg
  | message ha _ => cases ha
  | other _ hchecks => cases hchecks

/-- The two differ in the time stamps alone. -/
structure SameButStamps (l l' : HttpServerLoops n) : Prop where
  life : ∀ c, l'.life c = l.life c
  tidy : l.Tidy → l'.Tidy
  main : l'.main = l.main
  idleTimers : l'.idleTimers = l.idleTimers
  auto : l'.auto_close_idleconnection_ = l.auto_close_idleconnection_

theorem messageCallback_same {l : HttpServerLoops n} :
    SameButStamps l (s.messageCallback l c).loops := by
  unfold messageCallback
  dsimp only
  split
  · refine ⟨fun d => ?_, HttpServerLoops.Tidy.setTcp, rfl, rfl, rfl⟩
    by_cases hd : d = c
    · subst hd
      exact HttpServerLoops.life_setTcp_self
    · exact HttpServerLoops.life_setTcp_other hd
  · exact ⟨fun _ => rfl, id, rfl, rfl, rfl⟩

theorem messageCallback_timestamp {l : HttpServerLoops n} (d : Nat)
    (hauto : l.auto_close_idleconnection_ = true) :
    (s.messageCallback l c).timestamp d =
      if d = c then (s.now : Int) else ((l.tcp d).timestamp_ : Int) := by
  rw [timestamp, messageCallback, if_pos hauto]
  split
  · rename_i hd
    rw [hd, HttpServerLoops.tcp_setTcp]
    rfl
  · rename_i hd
    have hother : (l.setTcp c ((l.tcp c).updateTimeStamp s.now)).tcp d = l.tcp d :=
      congrArg ServerConn.tcp (Function.update_of_ne hd _ _)
    rw [hother]

theorem LoopsCase.same {a : LoopsAction n} {l : HttpServerLoops n} (h : LoopsCase s a l t) :
    SameButStamps l t.loops := by
  cases h with
  | message _ _ => exact messageCallback_same
  | _ => exact ⟨fun _ => rfl, id, rfl, rfl, rfl⟩

theorem LoopsCase.now {a : LoopsAction n} {l : HttpServerLoops n} (h : LoopsCase s a l t) :
    t.now = s.now := by
  cases h <;> rfl

theorem LoopsCase.timestamp_loops {a : LoopsAction n} {l : HttpServerLoops n}
    (hauto : l.auto_close_idleconnection_ = true) (h : LoopsCase s a l t) (c : Nat) :
    t.timestamp c = (l.tcp c).timestamp_ ∨ t.timestamp c = s.now := by
  cases h with
  | @message i r ret d revents _ _ =>
    rw [messageCallback_timestamp c hauto]
    split
    · exact Or.inr rfl
    · exact Or.inl rfl
  | _ => exact Or.inl rfl

/-- A step of the loops keeps a time stamp or sets it to the present. -/
theorem LoopsCase.timestamp {a : LoopsAction n} {l : HttpServerLoops n}
    (hauto : l.auto_close_idleconnection_ = true) (hl : s.loops.step a = some l)
    (h : LoopsCase s a l t) (c : Nat) :
    t.timestamp c = s.timestamp c ∨ t.timestamp c = s.now := by
  rcases h.timestamp_loops hauto c with hstep | hset
  · rw [hstep]
    rcases (HttpServerLoops.step_tcpStep (c := c) hl).timestamp with hsame | ⟨now, ha, -, hnow⟩
    · exact Or.inl (congrArg Nat.cast hsame)
    · rw [hnow, h.newConnection_now ha]
      exact Or.inr rfl
  · exact Or.inr hset

/-- The call of `MessageCallback` sets the time stamp. -/
theorem LoopsCase.messages {a : LoopsAction n} {l : HttpServerLoops n}
    (hauto : l.auto_close_idleconnection_ = true) (h : LoopsCase s a l t) :
    t.messages = s.messages ∨
      ∃ c, t.messages = s.messages ++ [(c, s.now)] ∧ t.timestamp c = s.now := by
  cases h with
  | @message i r ret c revents _ _ =>
    refine Or.inr ⟨c, rfl, ?_⟩
    rw [messageCallback_timestamp c hauto, if_pos rfl]
  | _ => exact Or.inl rfl

/-- `shutdown` is entered behind the test of the time. -/
theorem LoopsCase.shutting {a : LoopsAction n} {l : HttpServerLoops n}
    (hl : s.loops.step a = some l) (h : LoopsCase s a l t) (hpc : t.loops.main.pc = .shutting c) :
    s.loops.main.pc = .shutting c ∨
      s.loops.main.pc = .locked c ∧ s.timestamp c + kIdle < (s.now : Int) := by
  rw [h.same.main] at hpc
  cases a with
  | main action =>
    rcases HttpServerLoops.main_shutting (HttpServerLoops.main_cases hl) hpc with
      ⟨rfl, hlocked⟩ | ⟨hbefore, -⟩
    · right
      refine ⟨hlocked, ?_⟩
      cases h with
      | idle _ hpc' hidle =>
        obtain rfl := MainPc.locked.inj (hlocked.symm.trans hpc')
        exact hidle
      | newConnection ha => cases ha
      | check ha _ => cases ha
      | again ha _ _ => cases ha
      | register hreg => cases hreg
      | message ha _ => cases ha
      | other _ hchecks => cases hchecks
    · exact Or.inl hbefore
  | io i action =>
    rw [(HttpServerLoops.io_idle (HttpServerLoops.io_cases hl)).1] at hpc
    exact Or.inl hpc

theorem timersAfter_other {a : LoopsAction n} (hreg : s.loops.registers a = none)
    (hchecks : a.checks = false) : s.loops.timersAfter a = s.loops.idleTimers := by
  cases a with
  | main action =>
    cases action with
    | newConnection now => cases hchecks
    | HandleIdleConnection c => cases hchecks
    | testIdle expired => cases hchecks
    | _ => rfl
  | io i action =>
    rw [HttpServerLoops.timersAfter, hreg]
    exact List.append_nil _

/-- The deadlines are those of the timers of the loops. -/
theorem LoopsCase.timers {a : LoopsAction n} {l : HttpServerLoops n}
    (hl : s.loops.step a = some l) (h : LoopsCase s a l t)
    (htimers : s.loops.idleTimers.Perm (s.pending.map IdleTimer.conn)) :
    t.loops.idleTimers.Perm (t.pending.map IdleTimer.conn) := by
  rw [h.same.idleTimers, (HttpServerLoops.step_idle hl).2]
  cases h with
  | newConnection ha =>
    subst ha
    exact htimers
  | @check timer ha hmem =>
    subst ha
    have hpending : s.pending.Perm (timer :: (s.adding ++ s.timers_.erase timer)) :=
      ((List.perm_cons_erase hmem).append_left s.adding).trans List.perm_middle
    have herase := (htimers.trans (hpending.map IdleTimer.conn)).erase timer.conn
    rw [List.map_cons, List.erase_cons_head] at herase
    exact herase
  | idle ha _ _ =>
    subst ha
    exact htimers
  | @again c ha hpc _ =>
    subst ha
    rw [HttpServerLoops.timersAfter, hpc]
    show (s.loops.idleTimers ++ [c]).Perm ((s.adding ++ (s.timers_ ++ [_])).map IdleTimer.conn)
    rw [← List.append_assoc, List.map_append]
    exact htimers.append_right [c]
  | @register c hreg =>
    obtain ⟨i, rest, rfl, -⟩ := HttpServerLoops.registers_some hreg
    rw [HttpServerLoops.timersAfter, hreg]
    show (s.loops.idleTimers ++ [c]).Perm ((s.adding ++ [_] ++ s.timers_).map IdleTimer.conn)
    rw [List.append_assoc, List.map_append, List.map_append]
    refine (htimers.append_right [c]).trans ?_
    rw [pending, List.map_append, List.append_assoc]
    exact List.perm_append_comm.append_left _
  | message ha _ =>
    subst ha
    rw [timersAfter_other rfl rfl]
    exact htimers
  | other hreg hchecks =>
    rw [timersAfter_other hreg hchecks]
    exact htimers

/-- A new deadline lies ten seconds ahead; that of a timer that is set again behind a test,
    that of the first one behind the construction. -/
theorem LoopsCase.deadlines {a : LoopsAction n} {l : HttpServerLoops n}
    (h : LoopsCase s a l t) :
    (∀ timer ∈ t.pending, timer ∈ s.pending) ∨
      ∃ c, (∀ timer ∈ t.pending, timer ∈ s.pending ∨ timer = ⟨c, s.now + kIdle⟩) ∧
        (s.loops.registers a = some c ∨ (s.now : Int) ≤ s.timestamp c + kIdle) := by
  cases h with
  | check _ _ =>
    refine Or.inl fun timer hmem => ?_
    rcases List.mem_append.mp hmem with hadding | htimers
    · exact List.mem_append_left _ hadding
    · exact List.mem_append_right _ (List.mem_of_mem_erase htimers)
  | @again c _ _ hrecent =>
    refine Or.inr ⟨c, fun timer hmem => ?_, Or.inr hrecent⟩
    simpa [pending, or_assoc] using hmem
  | @register c hreg =>
    refine Or.inr ⟨c, fun timer hmem => ?_, Or.inl hreg⟩
    simpa [pending, or_assoc, or_comm, or_left_comm] using hmem
  | _ => exact Or.inl fun _ hmem => hmem

end Cases

/-! ## Runs -/

/-- What holds of a server and its clock. -/
structure Timed (s : IdleClock n) : Prop where
  ordered : s.loops.Ordered
  auto : s.loops.auto_close_idleconnection_ = true
  checked : ∀ c, s.loops.Checked c
  timers : s.loops.idleTimers.Perm (s.pending.map IdleTimer.conn)
  past : ∀ c, s.timestamp c ≤ (s.now : Int)
  /-- A connection waits for `connectEstablished` in no time. -/
  fresh : ∀ c, .connectEstablished ∈ (s.loops.life c).queue → s.timestamp c = s.now
  deadline : ∀ timer ∈ s.pending, timer.expiration_ ≤ s.timestamp timer.conn + 2 * kIdle
  stamped : ∀ m ∈ s.messages, (m.2 : Int) ≤ s.timestamp m.1
  /-- A message that was there when `shutdown` was entered is an old one. -/
  idle : ∀ c m, s.loops.main.pc = .shutting c → (c, m) ∈ s.messages → m < s.now →
    m + kIdle < (s.now : Int)

variable {s t : IdleClock n}

theorem start_timed (first : Fin n) (now : Nat) : (start first now).Timed where
  ordered := HttpServerLoops.start_ordered first true
  auto := rfl
  checked c := HttpServerLoops.start_checked first true c
  timers := List.Perm.refl []
  past _ := Int.natCast_nonneg now
  fresh _ hmem := absurd hmem List.not_mem_nil
  deadline _ hmem := absurd hmem List.not_mem_nil
  stamped _ hmem := absurd hmem List.not_mem_nil
  idle _ _ _ hmem := absurd hmem List.not_mem_nil

theorem NothingWaits.queue (h : s.NothingWaits) (c : Nat) : (s.loops.life c).queue = [] := by
  obtain ⟨htodo, hpending⟩ := h.2.2.2 (s.loops.loopOf c)
  show (s.loops.io (s.loops.loopOf c)).kinds c = []
  rw [IoLoop.kinds, IoLoop.queue, htodo, hpending]
  rfl

/-- While the clock goes on no connection waits, and the main loop is in no check. -/
theorem Timed.tick {time : Nat} (h : s.Timed) (hmay : s.MayTick time) :
    Timed { s with now := time } := by
  obtain ⟨hlater, hbetween, hnothing, -⟩ := hmay
  exact { h with
    past := fun c => Int.le_trans (h.past c) (Int.ofNat_le.mpr hlater)
    fresh := fun c hmem => by
      have hnone := NothingWaits.queue hnothing c
      rw [hnone] at hmem
      exact absurd hmem List.not_mem_nil
    idle := fun c m hpc => by
      rcases hbetween with hidle | hfunctors
      · rw [hidle] at hpc
        cases hpc
      · rw [hfunctors] at hpc
        cases hpc }

theorem Timed.addTimerInloop {timer : IdleTimer} {rest : List IdleTimer} (h : s.Timed)
    (hadding : s.adding = timer :: rest) :
    Timed { s with adding := rest, timers_ := s.timers_ ++ [timer] } := by
  have hmoved : s.pending.Perm (rest ++ (s.timers_ ++ [timer])) := by
    rw [pending, hadding, ← List.append_assoc]
    exact (List.perm_append_singleton timer (rest ++ s.timers_)).symm
  exact { h with
    timers := h.timers.trans (hmoved.map IdleTimer.conn)
    deadline := fun t hmem => h.deadline t (hmoved.mem_iff.mpr hmem) }

/-- A timer is set within ten seconds of the time stamp. -/
theorem Timed.recent {a : LoopsAction n} {c : Nat} (h : s.Timed)
    (hwhy : s.loops.registers a = some c ∨ (s.now : Int) ≤ s.timestamp c + kIdle) :
    (s.now : Int) ≤ s.timestamp c + kIdle := by
  rcases hwhy with hreg | hrecent
  · obtain ⟨i, rest, -, htodo⟩ := HttpServerLoops.registers_some hreg
    rw [h.fresh c (h.ordered.sound.mem_queue htodo)]
    exact Int.le_add_of_nonneg_right (by decide)
  · exact hrecent

section Loops

variable {a : LoopsAction n} {l : HttpServerLoops n}

theorem Timed.auto_step (h : s.Timed) (hl : s.loops.step a = some l) :
    l.auto_close_idleconnection_ = true :=
  (HttpServerLoops.step_idle hl).1.trans h.auto

/-- No time stamp goes back. -/
theorem Timed.timestamp_le (h : s.Timed) (hl : s.loops.step a = some l) (hcase : LoopsCase s a l t)
    (c : Nat) : s.timestamp c ≤ t.timestamp c := by
  rcases hcase.timestamp (h.auto_step hl) hl c with hkept | hset
  · exact le_of_eq hkept.symm
  · exact hset ▸ h.past c

theorem Timed.past_step (h : s.Timed) (hl : s.loops.step a = some l) (hcase : LoopsCase s a l t)
    (c : Nat) : t.timestamp c ≤ (t.now : Int) := by
  rw [hcase.now]
  rcases hcase.timestamp (h.auto_step hl) hl c with hkept | hset
  · exact hkept ▸ h.past c
  · exact le_of_eq hset

theorem Timed.fresh_step (h : s.Timed) (hl : s.loops.step a = some l) (hcase : LoopsCase s a l t)
    {c : Nat} (hmem : .connectEstablished ∈ (t.loops.life c).queue) : t.timestamp c = t.now := by
  have hauto := h.auto_step hl
  rw [hcase.now]
  rw [hcase.same.life] at hmem
  rcases HttpServerLoops.waits_before h.ordered.sound hl hmem with hbefore | ⟨now, ha, htcp⟩
  · rcases hcase.timestamp hauto hl c with hkept | hset
    · rw [hkept, h.fresh c hbefore]
    · exact hset
  · -- it has just been constructed
    rcases hcase.timestamp_loops hauto c with hstep | hset
    · rw [hstep, htcp, ← hcase.newConnection_now ha]
      rfl
    · exact hset

theorem Timed.deadline_step (h : s.Timed) (hl : s.loops.step a = some l)
    (hcase : LoopsCase s a l t) {timer : IdleTimer} (hmem : timer ∈ t.pending) :
    timer.expiration_ ≤ t.timestamp timer.conn + 2 * kIdle := by
  have hgrows := h.timestamp_le hl hcase
  have hold : timer ∈ s.pending → timer.expiration_ ≤ t.timestamp timer.conn + 2 * kIdle :=
    fun hpending => Int.le_trans (h.deadline timer hpending) (Int.add_le_add_right (hgrows _) _)
  rcases hcase.deadlines with hkept | ⟨c, hnew, hwhy⟩
  · exact hold (hkept timer hmem)
  · rcases hnew timer hmem with hpending | rfl
    · exact hold hpending
    · have hrecent : (s.now : Int) ≤ t.timestamp c + kIdle :=
        Int.le_trans (h.recent hwhy) (Int.add_le_add_right (hgrows c) kIdle)
      show (s.now : Int) + kIdle ≤ t.timestamp c + 2 * kIdle
      rw [Int.two_mul, ← Int.add_assoc]
      exact Int.add_le_add_right hrecent kIdle

theorem Timed.stamped_step (h : s.Timed) (hl : s.loops.step a = some l)
    (hcase : LoopsCase s a l t) {m : Nat × Nat} (hmem : m ∈ t.messages) :
    (m.2 : Int) ≤ t.timestamp m.1 := by
  have hgrows := h.timestamp_le hl hcase
  rcases hcase.messages (h.auto_step hl) with hkept | ⟨c, hnew, hset⟩
  · rw [hkept] at hmem
    exact Int.le_trans (h.stamped m hmem) (hgrows m.1)
  · rw [hnew] at hmem
    rcases List.mem_append.mp hmem with hbefore | hlast
    · exact Int.le_trans (h.stamped m hbefore) (hgrows m.1)
    · obtain rfl := List.mem_singleton.mp hlast
      exact le_of_eq hset.symm

/-- The messages of an earlier moment were there before the step. -/
theorem LoopsCase.messages_before (hauto : l.auto_close_idleconnection_ = true)
    (hcase : LoopsCase s a l t) {c m : Nat} (hmem : (c, m) ∈ t.messages) (hearlier : m < s.now) :
    (c, m) ∈ s.messages := by
  rcases hcase.messages hauto with hkept | ⟨d, hnew, -⟩
  · exact hkept ▸ hmem
  · rw [hnew] at hmem
    rcases List.mem_append.mp hmem with hbefore | hlast
    · exact hbefore
    · obtain ⟨-, rfl⟩ := Prod.mk.inj (List.mem_singleton.mp hlast)
      exact absurd hearlier (Nat.lt_irrefl _)

theorem Timed.idle_step (h : s.Timed) (hl : s.loops.step a = some l) (hcase : LoopsCase s a l t)
    {c m : Nat} (hpc : t.loops.main.pc = .shutting c) (hmem : (c, m) ∈ t.messages)
    (hearlier : m < t.now) : m + kIdle < (t.now : Int) := by
  rw [hcase.now] at hearlier ⊢
  have hbefore := hcase.messages_before (h.auto_step hl) hmem hearlier
  rcases hcase.shutting hl hpc with hshutting | ⟨-, hidle⟩
  · exact h.idle c m hshutting hbefore hearlier
  · exact Int.lt_of_le_of_lt (Int.add_le_add_right (h.stamped (c, m) hbefore) kIdle) hidle

theorem Timed.loops (h : s.Timed) (hl : s.loops.step a = some l) (hcase : LoopsCase s a l t) :
    t.Timed where
  ordered := by
    have hordered : l.Ordered := h.ordered.step hl
    exact hordered.goes (.of_eq (hcase.same.tidy hordered.sound.tidy) hcase.same.life)
  auto := hcase.same.auto.trans (h.auto_step hl)
  checked c := by
    refine .of_life (hcase.same.life c) ?_ ((h.checked c).step h.ordered h.auto hl)
    rw [HttpServerLoops.checks, HttpServerLoops.checks, hcase.same.idleTimers, hcase.same.main]
  timers := hcase.timers hl h.timers
  past := h.past_step hl hcase
  fresh _ := h.fresh_step hl hcase
  deadline _ := h.deadline_step hl hcase
  stamped _ := h.stamped_step hl hcase
  idle _ _ := h.idle_step hl hcase

end Loops

theorem Timed.step {a : ClockAction n} (h : s.Timed) (hs : s.step a = some t) : t.Timed := by
  cases step_cases hs with
  | tick hmay => exact h.tick hmay
  | addTimerInloop hadding => exact h.addTimerInloop hadding
  | loops hl hcase => exact h.loops hl hcase

theorem reachable_timed {first : Fin n} {now : Nat} (hs : Reachable step (start first now) s) :
    s.Timed :=
  hs.invariant (start_timed first now) fun _ _ _ h _ hstep => h.step hstep

/-- The idle checks of the connection that wait in the main loop. -/
def pendingOf (s : IdleClock n) (c : Nat) : List IdleTimer := s.pending.filter (·.conn = c)

theorem Timed.pendingOf_length (h : s.Timed) (hbetween : s.BetweenCallbacks) (c : Nat) :
    (s.pendingOf c).length = s.loops.checks c := by
  have hchecks : s.loops.main.pc.checks c = false := by
    rcases hbetween with hpc | hpc <;> rw [hpc] <;> rfl
  rw [HttpServerLoops.checks, hchecks, h.timers.count_eq, List.count, List.countP_map, pendingOf,
    ← List.countP_eq_length_filter]
  exact List.countP_congr fun timer _ => by simp

/-- Between two callbacks a connected connection has one idle check pending, at most twenty
    seconds behind its time stamp; and `shutdown` is entered by a check, and its store
    made, only if each message that was there before is more than ten seconds old. -/
theorem idle_checks {first : Fin n} {now : Nat} (hs : Reachable step (start first now) s) :
    (s.BetweenCallbacks → ∀ c, (s.loops.tcp c).state_ = .kConnected →
      ∃ deadline, s.pendingOf c = [⟨c, deadline⟩] ∧
        deadline ≤ s.timestamp c + 2 * kIdle) ∧
    (∀ a t c, s.step a = some t → t.loops.main.pc = .shutting c →
      s.loops.main.pc ≠ .shutting c → ∀ m, (c, m) ∈ s.messages → m + kIdle < (s.now : Int)) ∧
    ∀ t c, s.step (.loops (.main .setState)) = some t → s.loops.main.pc = .shutting c →
      ∀ m, (c, m) ∈ s.messages → m < s.now → m + kIdle < (s.now : Int) := by
  have h := reachable_timed hs
  refine ⟨fun hbetween c hconn => ?_, fun a t c hstep hafter hbefore m hmem => ?_,
    fun t c _ hpc m hmem hearlier => h.idle c m hpc hmem hearlier⟩
  · have hone := (h.pendingOf_length hbetween c).trans ((h.checked c).connected hconn)
    obtain ⟨timer, hall⟩ := List.length_eq_one_iff.mp hone
    have hmem : timer ∈ s.pendingOf c := hall ▸ List.mem_singleton_self timer
    obtain ⟨hpending, hc⟩ := List.mem_filter.mp hmem
    obtain rfl : timer.conn = c := of_decide_eq_true hc
    exact ⟨timer.expiration_, hall, h.deadline timer hpending⟩
  · cases step_cases hstep with
    | tick _ => exact absurd hafter hbefore
    | addTimerInloop _ => exact absurd hafter hbefore
    | loops hl hcase =>
      rcases hcase.shutting hl hafter with hshutting | ⟨-, hidle⟩
      · exact absurd hshutting hbefore
      · exact Int.lt_of_le_of_lt (Int.add_le_add_right (h.stamped (c, m) hmem) kIdle) hidle

/-- A connection is accepted, gets a message after three seconds and is checked after ten
    and after twenty. -/
def idleRun : List ClockAction :=
  let input : Events := { kNoneEvent with EPOLLIN := true }
  [.loops (.main (.newConnection 5)),
    .loops (.io firstLoop (.poll [])), .loops (.io firstLoop .swap),
    .loops (.io firstLoop .functor), .loops (.io firstLoop .batchDone),
    .loops (.main .swap), .addTimerInloop, .loops (.main .batchDone),
    .tick 3000005, .loops (.io firstLoop (.poll [(1, input)])),
    .loops (.io firstLoop .handleEvent), .loops (.io firstLoop .hangup),
    .loops (.io firstLoop (.handleRead (.bytes [71]) 1)), .loops (.io firstLoop .messageDone),
    .loops (.io firstLoop (.handleWrite (.error 0))), .loops (.io firstLoop .swap),
    .loops (.io firstLoop .batchDone),
    .tick 10000005, .loops (.main (.HandleIdleConnection 1)),
    .loops (.main (.testIdle false)), .loops (.main .release),
    .tick 20000005, .loops (.main (.HandleIdleConnection 1)),
    .loops (.main (.testIdle true))]

theorem idle_checks_example :
    (∃ deadline, (after step (start firstLoop 5) (idleRun.take 21)).pendingOf 1
        = [⟨1, deadline⟩] ∧ deadline ≤ 3000005 + 2 * kIdle) ∧
      ∀ m, (1, m) ∈ (after step (start firstLoop 5) (idleRun.take 23)).messages →
        m + kIdle < (20000005 : Int) := by
  have hbetween : Reachable step (start firstLoop 5)
      (after step (start firstLoop 5) (idleRun.take 21)) :=
    Reaches.after (by decide +kernel) fun _ _ _ => trivial
  have hcheck : Reachable step (start firstLoop 5)
      (after step (start firstLoop 5) (idleRun.take 23)) :=
    Reaches.after (by decide +kernel) fun _ _ _ => trivial
  have hshut : (step (after step (start firstLoop 5) (idleRun.take 23))
      (.loops (.main (.testIdle true)))).map (·.loops.main.pc) = some (.shutting 1) := by
    decide +kernel
  obtain ⟨t, hstep, hafter⟩ := Option.map_eq_some_iff.mp hshut
  have hone := (idle_checks hbetween).1 (by decide +kernel) 1 (by decide +kernel)
  have hold := (idle_checks hcheck).2.1 _ t 1 hstep hafter (by decide +kernel)
  have hstamp : (after step (start firstLoop 5) (idleRun.take 21)).timestamp 1 = 3000005 := by
    decide +kernel
  have hnow : (after step (start firstLoop 5) (idleRun.take 23)).now = 20000005 := by
    decide +kernel
  rw [hstamp] at hone
  rw [hnow] at hold
  exact ⟨hone, hold⟩

end IdleClock

end LearnMuduo
