/-
  LearnMuduo.Server.Projection

  The life of a connection read off the running server, and what the parts of a step
  (`setTcp`, `setIo`, `queueInLoop`) do to it.

  `Tidy` is what keeps the projection to one loop sound: whatever the loop `i` holds of
  a connection, that connection is on the loop `i`.
-/
import LearnMuduo.Server.Life

namespace LearnMuduo

def IoPc.handles : IoPc → Nat → Bool
  | .handler d _ _, c => d = c
  | _, _ => false

def IoPc.closes : IoPc → Nat → Bool
  | .handler d _ (.closing _), c => d = c
  | _, _ => false

def MainPc.shuts : MainPc → Nat → Bool
  | .shutting d, c => d = c
  | .queueing d, c => d = c
  | _, _ => false

namespace IoLoop

/-- The functors still to run. -/
def queue (l : IoLoop) : List IoFunctor := l.todo ++ l.pendingFunctors_

def kinds (l : IoLoop) (c : Nat) : List Kind := (l.queue.filter (·.conn = c)).map IoFunctor.kind

def busy (l : IoLoop) (c : Nat) : Bool := l.activeChannels_.any (·.1 = c) || l.pc.handles c

/-- `loopOf` gives the loop of a connection; `i` is this loop. -/
structure Tidy {n : Nat} (loopOf : Nat → Fin n) (i : Fin n) (l : IoLoop) : Prop where
  functors : ∀ f ∈ l.queue, loopOf f.conn = i
  busy : ∀ c, l.busy c = true → loopOf c = i
  idle : l.pc = .functors → l.activeChannels_ = []
  batch : l.pc ≠ .functors → l.todo = []
  held : ∀ f ∈ l.todo, f ∈ l.localFunctors

/-- A loop that goes on to something else it does not hold more of. -/
theorem Tidy.turn {n : Nat} {loopOf : Nat → Fin n} {i : Fin n} {l : IoLoop} {pc : IoPc}
    {active : List (Nat × Events)}
    (h : l.Tidy loopOf i) (hfrom : l.pc ≠ .functors) (hto : pc ≠ .functors)
    (hbusy : ∀ c, IoLoop.busy { l with pc := pc, activeChannels_ := active } c = true →
      loopOf c = i) :
    IoLoop.Tidy loopOf i { l with pc := pc, activeChannels_ := active } where
  functors := h.functors
  busy := hbusy
  idle hpc := absurd hpc hto
  batch _ := h.batch hfrom
  held := h.held

end IoLoop

namespace HttpServerLoops

variable {n : Nat}

def loopOf (s : HttpServerLoops n) (c : Nat) : Fin n := (s.conns c).loop_

/-- The life of the connection `c`, when it is `conn` and on the loop `l`. -/
def lifeAs (s : HttpServerLoops n) (conn : ServerConn n) (l : IoLoop) (c : Nat) : Life :=
  { born := 0 < c ∧ c < s.nextConnId_
    state_ := conn.tcp.state_
    channel_ := conn.tcp.channel_
    destroyed := conn.destroyedIn.isSome
    mapped := c ∈ s.connections_
    removing := c ∈ s.main.todo ++ s.main.pendingFunctors_
    queue := l.kinds c
    busy := l.busy c
    closing := l.pc.closes c
    shutting := s.main.pc.shuts c }

def life (s : HttpServerLoops n) (c : Nat) : Life := s.lifeAs (s.conns c) (s.io (s.loopOf c)) c

structure Tidy (s : HttpServerLoops n) : Prop where
  first : 0 < s.nextConnId_
  io : ∀ i, (s.io i).Tidy s.loopOf i
  destroyed : ∀ c i, (s.conns c).destroyedIn = some i → i = s.loopOf c

variable {s : HttpServerLoops n} {i : Fin n} {l : IoLoop} {c d : Nat} {tcp : TcpConnection}
  {f : IoFunctor}

/-! ## The parts of a loop -/

theorem handles_of_closes {pc : IoPc} (h : pc.closes c = true) : pc.handles c = true := by
  unfold IoPc.closes at h
  split at h
  · exact h
  · cases h

theorem mem_kinds {k : Kind} : k ∈ l.kinds c ↔ ⟨k, c⟩ ∈ l.queue := by
  simp only [IoLoop.kinds, List.mem_map, List.mem_filter, decide_eq_true_eq]
  constructor
  · rintro ⟨f, ⟨hf, rfl⟩, rfl⟩
    exact hf
  · exact fun h => ⟨⟨k, c⟩, ⟨h, rfl⟩, rfl⟩

theorem kinds_push :
    IoLoop.kinds { l with pendingFunctors_ := l.pendingFunctors_ ++ [f] } c =
      l.kinds c ++ if f.conn = c then [f.kind] else [] := by
  simp only [IoLoop.kinds, IoLoop.queue, List.filter_append, List.map_append, List.append_assoc]
  by_cases h : f.conn = c <;> simp [h]

theorem kinds_pop {rest : List IoFunctor} (h : l.todo = f :: rest) :
    l.kinds c = (if f.conn = c then [f.kind] else []) ++
      IoLoop.kinds { l with todo := rest } c := by
  simp only [IoLoop.kinds, IoLoop.queue, h]
  by_cases hc : f.conn = c <;> simp [hc]

/-! ## The parts of a step -/

theorem life_setTcp_self : (s.setTcp c tcp).life c =
    { s.life c with state_ := tcp.state_, channel_ := tcp.channel_ } := by
  have hconn : (s.setTcp c tcp).conns c = { s.conns c with tcp := tcp } :=
    Function.update_self _ _ _
  rw [life, loopOf, hconn]
  rfl

theorem life_setTcp_other (h : d ≠ c) : (s.setTcp c tcp).life d = s.life d := by
  have hconn : (s.setTcp c tcp).conns d = s.conns d := Function.update_of_ne h _ _
  rw [life, loopOf, hconn]
  rfl

@[simp] theorem loopOf_setTcp : (s.setTcp c tcp).loopOf = s.loopOf := by
  funext d
  by_cases h : d = c
  · subst h
    simp [loopOf, setTcp]
  · simp [loopOf, setTcp, Function.update_of_ne h]

@[simp] theorem io_setTcp : (s.setTcp c tcp).io = s.io := rfl

@[simp] theorem tcp_setTcp : (s.setTcp c tcp).tcp c = tcp := by simp [setTcp, HttpServerLoops.tcp]

theorem setTcp_setTcp {tcp' : TcpConnection} :
    (s.setTcp c tcp).setTcp c tcp' = s.setTcp c tcp' := by
  simp [setTcp]

theorem Tidy.setTcp (h : s.Tidy) : (s.setTcp c tcp).Tidy where
  first := h.first
  io := by simpa using h.io
  destroyed d i hd := by
    rw [loopOf_setTcp]
    refine h.destroyed d i ?_
    by_cases hdc : d = c
    · subst hdc
      simpa [HttpServerLoops.setTcp] using hd
    · simpa [HttpServerLoops.setTcp, Function.update_of_ne hdc] using hd

theorem life_setIo_self (h : s.loopOf d = i) : (s.setIo i l).life d =
    { s.life d with queue := l.kinds d, busy := l.busy d, closing := l.pc.closes d } := by
  have hio : (s.setIo i l).io ((s.setIo i l).loopOf d) = l := by
    subst h
    exact Function.update_self _ _ _
  rw [life, hio]
  rfl

theorem life_setIo_other (h : s.loopOf d ≠ i) : (s.setIo i l).life d = s.life d := by
  have hio : (s.setIo i l).io ((s.setIo i l).loopOf d) = s.io (s.loopOf d) :=
    Function.update_of_ne h _ _
  rw [life, hio]
  rfl

theorem life_setIoPc_self {pc : IoPc} (h : s.loopOf d = i) : (s.setIoPc i pc).life d =
    { s.life d with
      busy := (s.io i).activeChannels_.any (·.1 = d) || pc.handles d, closing := pc.closes d } := by
  refine (life_setIo_self h).trans ?_
  subst h
  rfl

theorem life_setIoPc_other {pc : IoPc} (h : s.loopOf d ≠ i) :
    (s.setIoPc i pc).life d = s.life d := life_setIo_other h

theorem Tidy.setIo (h : s.Tidy) (hl : l.Tidy s.loopOf i) : (s.setIo i l).Tidy where
  first := h.first
  io j := by
    show (Function.update s.io i l j).Tidy s.loopOf j
    by_cases hj : j = i
    · subst hj
      rw [Function.update_self]
      exact hl
    · rw [Function.update_of_ne hj]
      exact h.io j
  destroyed := h.destroyed

theorem life_queueInLoop_self : (s.queueInLoop f).life f.conn =
    { s.life f.conn with queue := (s.life f.conn).queue ++ [f.kind] } := by
  refine (life_setIo_self (i := s.loopOf f.conn) rfl).trans ?_
  rw [kinds_push, if_pos rfl]
  rfl

theorem life_queueInLoop_other (h : d ≠ f.conn) : (s.queueInLoop f).life d = s.life d := by
  by_cases hd : s.loopOf d = s.loopOf f.conn
  · refine (life_setIo_self (i := s.loopOf f.conn) hd).trans ?_
    rw [kinds_push, if_neg (Ne.symm h), List.append_nil]
    show s.lifeAs (s.conns d) (s.io (s.loopOf f.conn)) d = _
    rw [← hd]
    rfl
  · exact life_setIo_other hd

theorem Tidy.queueInLoop (h : s.Tidy) : (s.queueInLoop f).Tidy := by
  refine h.setIo ?_
  -- the functor goes to the loop of its connection
  have hio := h.io (s.conns f.conn).loop_
  exact {
    functors := fun g hg => by
      simp only [IoLoop.queue, ← List.append_assoc, List.mem_append, List.mem_singleton] at hg
      rcases hg with hg | rfl
      · exact hio.functors g (List.mem_append.mpr hg)
      · rfl
    busy := hio.busy
    idle := hio.idle
    batch := hio.batch
    held := hio.held }

end HttpServerLoops

end LearnMuduo
