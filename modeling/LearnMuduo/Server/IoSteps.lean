/-
  LearnMuduo.Server.IoSteps

  The steps of an IO loop, as steps in the lives of the connections.

  A handler touches the connection it handles and no other (`handler_goes`), and a
  functor the connection it is bound to (`functor_goes`).
-/
import LearnMuduo.Server.MainSteps

namespace LearnMuduo

open Lib

/-- A connection that is not connected is not connected again, and its Channel's index
    goes on telling whether it is watched. -/
structure StaysClosed (conn conn' : TcpConnection) : Prop where
  state : conn'.state_ = conn.state_ ∨ conn'.state_ ≠ .kConnected
  index : conn.channel_.IndexAgrees → conn'.channel_.IndexAgrees

theorem StaysClosed.refl (conn : TcpConnection) : StaysClosed conn conn := ⟨Or.inl rfl, id⟩

theorem UserAction.act_staysClosed {conn conn' : TcpConnection} {a : UserAction}
    (h : a.act conn = .ok conn') : StaysClosed conn conn' := by
  cases a with
  | send message w =>
    obtain ⟨hsame, hch⟩ := TcpConnection.send_frame h
    refine ⟨Or.inl hsame.state, fun hindex => ?_⟩
    rcases hch with he | he
    · rw [he]
      exact hindex
    · rw [he]
      exact Channel.updateChannel_indexAgrees _
  | shutdown =>
    obtain rfl := Except.ok.inj h
    refine ⟨TcpConnection.shutdown_state.imp_right fun hs => ?_, fun hindex => ?_⟩
    · rw [hs.2]
      decide
    · rw [TcpConnection.shutdown_channel]
      exact hindex
  | retrieve len =>
    obtain rfl := Except.ok.inj h
    exact ⟨Or.inl rfl, id⟩

theorem TcpConnection.handleWrite_staysClosed {conn : TcpConnection} {w : WriteResult} :
    StaysClosed conn (conn.handleWrite w) := by
  obtain ⟨hstate, hch⟩ := @TcpConnection.handleWrite_frame conn w
  refine ⟨Or.inl hstate, fun hindex => ?_⟩
  rcases hch with he | he
  · rw [he]
    exact hindex
  · rw [he]
    exact Channel.updateChannel_indexAgrees _

namespace HttpServerLoops

variable {n : Nat} {s s' : HttpServerLoops n} {i : Fin n} {c d : Nat} {tcp : TcpConnection}
  {pc : IoPc} {revents : Events} {stage : Stage} {f : IoFunctor} {l : IoLoop}

theorem handles_self : (IoPc.handler c revents stage).handles c = true := decide_eq_true rfl

theorem handles_other (h : d ≠ c) : (IoPc.handler c revents stage).handles d = false :=
  decide_eq_false (Ne.symm h)

theorem busy_of_handler (hpc : (s.io i).pc = .handler c revents stage) :
    (s.io i).busy c = true := by
  rw [IoLoop.busy, hpc, handles_self, Bool.or_true]

theorem Sound.loopOf_handler (h : s.Sound) (hpc : (s.io i).pc = .handler c revents stage) :
    s.loopOf c = i := (h.tidy.io i).busy c (busy_of_handler hpc)

theorem life_busy_of_handler (h : s.Sound) (hpc : (s.io i).pc = .handler c revents stage) :
    (s.life c).busy = true := by
  show (s.io (s.loopOf c)).busy c = true
  rw [h.loopOf_handler hpc]
  exact busy_of_handler hpc

/-- The loop is given something new to handle, or is done with something. -/
theorem setIo_goes (h : s.Sound) (hl : l.Tidy s.loopOf i)
    (hkinds : ∀ d, l.kinds d = (s.io i).kinds d)
    (hbusy : ∀ d, l.busy d = true →
      (s.io i).busy d = true ∨ (s.tcp d).channel_.interest.isSome = true)
    (hcloses : ∀ d, l.pc.closes d = true → (s.io i).pc.closes d = true) :
    s.Goes (s.setIo i l) := by
  refine ⟨h.tidy.setIo hl, fun d => ?_⟩
  by_cases hd : s.loopOf d = i
  · rw [life_setIo_self hd, hkinds]
    subst hd
    exact .turn _ (s.life d).removing _ (hbusy d) id (hcloses d)
  · rw [life_setIo_other hd]
    exact .refl _

theorem closes_eq_false_of_handles (h : pc.handles d = false) : pc.closes d = false := by
  by_contra hne
  exact Bool.false_ne_true (h.symm.trans (handles_of_closes ((Bool.not_eq_false _).mp hne)))

/-- The loop that handles `c` goes on with `c`, or is done with it. -/
theorem Sound.tidy_setPc (h : s.Sound) (hpc : (s.io i).pc = .handler c revents stage)
    (hto : pc ≠ .functors) (honly : ∀ d, d ≠ c → pc.handles d = false) :
    IoLoop.Tidy s.loopOf i { s.io i with pc := pc } := by
  refine (h.tidy.io i).turn (by rw [hpc]; exact IoPc.noConfusion) hto fun d hd => ?_
  by_cases hdc : d = c
  · rw [hdc]
    exact h.loopOf_handler hpc
  · refine (h.tidy.io i).busy d ?_
    rw [IoLoop.busy, honly d hdc, Bool.or_false] at hd
    rw [IoLoop.busy, Bool.or_eq_true]
    exact Or.inl hd

theorem handler_goes (h : s.Sound) (hpc : (s.io i).pc = .handler c revents stage)
    (hto : pc ≠ .functors) (honly : ∀ d, d ≠ c → pc.handles d = false)
    (hself : (s.life c).Step { s.life c with
      state_ := tcp.state_, channel_ := tcp.channel_
      busy := (s.io i).activeChannels_.any (·.1 = c) || pc.handles c, closing := pc.closes c }) :
    s.Goes ((s.setTcp c tcp).setIoPc i pc) := by
  have hloop := h.loopOf_handler hpc
  have htidy : IoLoop.Tidy (s.setTcp c tcp).loopOf i { s.io i with pc := pc } := by
    rw [loopOf_setTcp]
    exact h.tidy_setPc hpc hto honly
  refine Goes.of_self (c := c) (h.tidy.setTcp.setIo htidy) (fun d hd => ?_) ?_
  · -- of another connection on this loop nothing changes, since it is not the one handled
    by_cases hdi : s.loopOf d = i
    · have hhandles : pc.handles d = (s.io i).pc.handles d := by
        rw [honly d hd, hpc, handles_other hd]
      have hcloses : pc.closes d = (s.io i).pc.closes d := by
        rw [closes_eq_false_of_handles (honly d hd), hpc,
          closes_eq_false_of_handles (handles_other hd)]
      rw [life_setIoPc_self (by rw [loopOf_setTcp]; exact hdi), hhandles, hcloses,
        life_setTcp_other hd, io_setTcp]
      subst hdi
      rfl
    · rw [life_setIoPc_other (by rw [loopOf_setTcp]; exact hdi), life_setTcp_other hd]
  · rw [life_setIoPc_self (by rw [loopOf_setTcp]; exact hloop), life_setTcp_self, io_setTcp]
    exact hself

/-- The handler has done something to its connection, and goes on or is over. -/
theorem handler_staysClosed (h : s.Sound) (hpc : (s.io i).pc = .handler c revents stage)
    (hto : pc ≠ .functors) (honly : ∀ d, d ≠ c → pc.handles d = false)
    (hopen : pc.closes c = false) (hconn : StaysClosed (s.tcp c) tcp) :
    s.Goes ((s.setTcp c tcp).setIoPc i pc) := by
  refine handler_goes h hpc hto honly ?_
  rw [hopen]
  exact .handle (life_busy_of_handler h hpc) hconn.state hconn.index

theorem setTcp_eq : s.setTcp c (s.tcp c) = s := by
  simp [setTcp, HttpServerLoops.tcp]

theorem setIoPc_goes (h : s.Sound) (hpc : (s.io i).pc = .handler c revents stage)
    (hto : pc ≠ .functors) (honly : ∀ d, d ≠ c → pc.handles d = false)
    (hopen : pc.closes c = false) : s.Goes (s.setIoPc i pc) := by
  have := handler_staysClosed h hpc hto honly hopen (.refl (s.tcp c))
  rwa [setTcp_eq] at this

theorem enterClose_goes (reads : Bool) (tcp : TcpConnection) (h : s.Sound)
    (hpc : (s.io i).pc = .handler c revents stage) (hch : tcp.channel_ = (s.tcp c).channel_) :
    s.Goes ((s.setTcp c tcp).enterClose i c revents reads) := by
  have hbusy := life_busy_of_handler h hpc
  rw [enterClose, tcp_setTcp, setTcp_setTcp]
  refine handler_goes h hpc IoPc.noConfusion (fun d hd => handles_other hd) ?_
  have hb : ((s.io i).activeChannels_.any (·.1 = c) ||
      (IoPc.handler c revents (.closing reads)).handles c) = (s.life c).busy := by
    rw [hbusy, handles_self, Bool.or_true]
  have hc : (IoPc.handler c revents (.closing reads)).closes c = true := decide_eq_true rfl
  rw [hb, hc]
  show (s.life c).Step { s.life c with
    state_ := .kdisConnected, channel_ := tcp.channel_.disableAll, closing := true }
  rw [hch]
  exact .enterClose hbusy

/-! ## The steps of the loop -/

theorem poll_goes {events : List (Nat × Events)} (h : s.Sound) (hpc : (s.io i).pc = .polling)
    (hevents : ∀ e ∈ events,
      (s.conns e.1).loop_ = i ∧ (s.tcp e.1).channel_.interest.isSome = true) :
    s.Goes (s.setIo i { s.io i with pc := .handling, activeChannels_ := events }) := by
  -- what is busy behind the call was reported by it
  have hmem : ∀ d, IoLoop.busy { s.io i with pc := .handling, activeChannels_ := events } d = true →
      ∃ e ∈ events, e.1 = d := by
    intro d hd
    simpa [IoLoop.busy, IoPc.handles] using hd
  refine setIo_goes h ((h.tidy.io i).turn (by rw [hpc]; decide) (by decide) fun d hd => ?_)
    (fun _ => rfl) (fun d hd => ?_) fun d hd => by cases hd
  · obtain ⟨e, he, rfl⟩ := hmem d hd
    exact (hevents e he).1
  · obtain ⟨e, he, rfl⟩ := hmem d hd
    exact Or.inr (hevents e he).2

theorem handleEvent_goes {rest : List (Nat × Events)} (h : s.Sound)
    (hpc : (s.io i).pc = .handling) (hactive : (s.io i).activeChannels_ = (c, revents) :: rest) :
    s.Goes (s.setIo i { s.io i with
      pc := .handler c revents .hangup, activeChannels_ := rest }) := by
  -- the entry goes from `activeChannels_` to the handler
  have hbusy : ∀ d, IoLoop.busy { s.io i with
      pc := .handler c revents .hangup, activeChannels_ := rest } d = true →
      (s.io i).busy d = true := by
    intro d hd
    rw [IoLoop.busy, hactive, hpc]
    simp only [IoLoop.busy, IoPc.handles, Bool.or_eq_true] at hd
    simp only [List.any_cons, IoPc.handles, Bool.or_false, Bool.or_eq_true]
    exact hd.symm
  refine setIo_goes h ((h.tidy.io i).turn (by rw [hpc]; decide) IoPc.noConfusion fun d hd => ?_)
    (fun _ => rfl) (fun d hd => Or.inl (hbusy d hd)) fun d hd => by cases hd
  exact (h.tidy.io i).busy d (hbusy d hd)

/-- `removeConnection` hands the connection to the main loop. -/
theorem closecb_goes {reads : Bool} (h : s.Sound)
    (hpc : (s.io i).pc = .handler c revents (.closing reads)) :
    s.Goes ({ s with main := { s.main with
        pendingFunctors_ := s.main.pendingFunctors_ ++ [c] } }.setIoPc i
      (.handler c revents (if reads then .input else .output))) := by
  have hbusy := life_busy_of_handler h hpc
  have hloop := h.loopOf_handler hpc
  have hclosing : (s.life c).closing = true := by
    show (s.io (s.loopOf c)).pc.closes c = true
    rw [hloop, hpc]
    exact decide_eq_true rfl
  have hopen : ∀ d, (IoPc.handler c revents (if reads then .input else .output)).closes d =
      false := fun _ => by cases reads <;> rfl
  -- the loop goes on with the handler, and the main loop's queue grows
  have hturn := setIoPc_goes h hpc IoPc.noConfusion (fun d hd => handles_other hd) (hopen c)
  refine ⟨⟨hturn.tidy.first, hturn.tidy.io, hturn.tidy.destroyed⟩, fun d => ?_⟩
  show (s.life d).Step
    { (s.setIoPc i (.handler c revents (if reads then .input else .output))).life d with
      removing := decide (d ∈ s.main.todo ++ (s.main.pendingFunctors_ ++ [c])) }
  by_cases hd : d = c
  · subst hd
    have hremoving : decide (d ∈ s.main.todo ++ (s.main.pendingFunctors_ ++ [d])) = true := by
      simp
    have hb : ((s.io i).activeChannels_.any (·.1 = d) ||
        (IoPc.handler d revents (if reads then .input else .output)).handles d) =
        (s.life d).busy := by
      rw [hbusy, handles_self, Bool.or_true]
    rw [life_setIoPc_self hloop, hremoving, hb, hopen]
    exact .closecb hbusy hclosing
  · have hremoving : decide (d ∈ s.main.todo ++ (s.main.pendingFunctors_ ++ [c])) =
        decide (d ∈ s.main.todo ++ s.main.pendingFunctors_) := by
      simp [hd]
    rw [hremoving]
    exact hturn.life d

/-- `handleRead` has filled the Buffer, and the handler goes on. -/
theorem filled_goes {b : Buffer} (h : s.Sound) (hpc : (s.io i).pc = .handler c revents .input)
    (hopen : ∀ d, (IoPc.handler c revents stage).closes d = false) :
    s.Goes ((s.setTcp c { s.tcp c with inputBuffer_ := b }).setIoPc i
      (.handler c revents stage)) :=
  handler_staysClosed h hpc IoPc.noConfusion (fun _ hd => handles_other hd) (hopen c)
    ⟨Or.inl rfl, id⟩

theorem setIoPc_eq (h : (s.io i).pc = pc) : s.setIoPc i pc = s := by
  subst h
  exact congrArg (fun io => { s with io := io }) (Function.update_eq_self i s.io)

theorem act_goes {a : UserAction} (h : s.Sound) (hpc : (s.io i).pc = .handler c revents .message)
    (hact : a.act (s.tcp c) = .ok tcp) : s.Goes (s.setTcp c tcp) := by
  have hgoes : s.Goes ((s.setTcp c tcp).setIoPc i (.handler c revents .message)) :=
    handler_staysClosed h hpc IoPc.noConfusion (fun d hd => handles_other hd) rfl
      (UserAction.act_staysClosed hact)
  rwa [setIoPc_eq (s := s.setTcp c tcp) hpc] at hgoes

theorem swap_goes (h : s.Sound) (hpc : (s.io i).pc = .handling)
    (hactive : (s.io i).activeChannels_ = []) :
    s.Goes (s.setIo i { s.io i with
      pc := .functors
      pendingFunctors_ := []
      localFunctors := (s.io i).pendingFunctors_
      todo := (s.io i).pendingFunctors_ }) := by
  have hio := h.tidy.io i
  -- the batch before is finished, so the queue of the loop is what was pending
  have htodo : (s.io i).todo = [] := hio.batch (by rw [hpc]; decide)
  have hqueue : (s.io i).queue = (s.io i).pendingFunctors_ := by
    rw [IoLoop.queue, htodo, List.nil_append]
  -- all reported entries have been handled
  have hfree : ∀ d, IoLoop.busy { s.io i with
      pc := .functors, pendingFunctors_ := [], localFunctors := (s.io i).pendingFunctors_
      todo := (s.io i).pendingFunctors_ } d = false := by
    intro d
    rw [IoLoop.busy, hactive]
    rfl
  refine setIo_goes h ?_ (fun d => ?_) (fun d hd => ?_) fun d hd => by cases hd
  · exact {
      functors := fun f hf => by
        refine hio.functors f ?_
        rw [hqueue]
        simpa [IoLoop.queue] using hf
      busy := fun d hd => absurd (hfree d) (by simp [hd])
      idle := fun _ => hactive
      batch := fun hne => absurd rfl hne
      held := fun f hf => hf }
  · rw [IoLoop.kinds, IoLoop.kinds, hqueue]
    simp [IoLoop.queue]
  · exact absurd (hfree d) (by simp [hd])

theorem batchDone_goes (h : s.Sound) (hpc : (s.io i).pc = .functors)
    (htodo : (s.io i).todo = []) :
    s.Goes (s.setIo i { s.io i with pc := .polling, localFunctors := [] }) := by
  have hio := h.tidy.io i
  have hbusy : ∀ d, IoLoop.busy { s.io i with pc := .polling, localFunctors := [] } d = true →
      (s.io i).busy d = true := by
    intro d hd
    rw [IoLoop.busy, hpc]
    exact hd
  refine setIo_goes h ?_ (fun _ => rfl) (fun d hd => Or.inl (hbusy d hd)) fun d hd => by cases hd
  exact {
    functors := hio.functors
    busy := fun d hd => hio.busy d (hbusy d hd)
    idle := fun hne => by cases hne
    batch := fun _ => htodo
    held := fun f hf => by
      rw [htodo] at hf
      cases hf }

/-! ## The functors -/

/-- The loop `i` has taken the next functor of its batch. -/
def popped (s : HttpServerLoops n) (i : Fin n) (rest : List IoFunctor) : HttpServerLoops n :=
  s.setIo i { s.io i with todo := rest }

section Functor

variable {rest : List IoFunctor}

theorem popped_tidy (h : s.Sound) (hpc : (s.io i).pc = .functors)
    (htodo : (s.io i).todo = f :: rest) : (s.popped i rest).Tidy := by
  have hio := h.tidy.io i
  refine h.tidy.setIo ?_
  exact { hio with
    functors := fun g hg => by
      refine hio.functors g ?_
      rw [IoLoop.queue, htodo]
      exact List.mem_cons_of_mem _ hg
    batch := fun hne => absurd hpc hne
    held := fun g hg => hio.held g (htodo ▸ List.mem_cons_of_mem _ hg) }

theorem Sound.loopOf_functor (h : s.Sound) (htodo : (s.io i).todo = f :: rest) :
    s.loopOf f.conn = i := by
  refine (h.tidy.io i).functors f ?_
  rw [IoLoop.queue, htodo]
  exact List.mem_cons_self

theorem popped_life_self (h : s.Sound) (htodo : (s.io i).todo = f :: rest) :
    ∃ q, (s.life f.conn).queue = f.kind :: q ∧
      (s.popped i rest).life f.conn = { s.life f.conn with queue := q } := by
  have hloop := h.loopOf_functor htodo
  refine ⟨IoLoop.kinds { s.io i with todo := rest } f.conn, ?_, ?_⟩
  · show (s.io (s.loopOf f.conn)).kinds f.conn = _
    rw [hloop, kinds_pop htodo, if_pos rfl]
    rfl
  · refine (life_setIo_self hloop).trans ?_
    subst hloop
    rfl

theorem popped_life_other (htodo : (s.io i).todo = f :: rest) (hd : d ≠ f.conn) :
    (s.popped i rest).life d = s.life d := by
  by_cases hdi : s.loopOf d = i
  · refine (life_setIo_self hdi).trans ?_
    have hkinds : IoLoop.kinds { s.io i with todo := rest } d = (s.io i).kinds d := by
      rw [kinds_pop htodo, if_neg (Ne.symm hd), List.nil_append]
    rw [hkinds]
    subst hdi
    rfl
  · exact life_setIo_other hdi

theorem life_busy_of_functors (h : s.Sound) (hpc : (s.io i).pc = .functors)
    (hloop : s.loopOf c = i) : (s.life c).busy = false := by
  show (s.io (s.loopOf c)).busy c = false
  rw [hloop, IoLoop.busy, (h.tidy.io i).idle hpc, hpc]
  rfl

/-- `connectDestoryed` has run for the connection `c`. -/
def destroyed (s : HttpServerLoops n) (i : Fin n) (c : Nat) : HttpServerLoops n :=
  { s with conns := Function.update s.conns c ((s.conns c).connectDestoryed i) }

theorem destroyed_conns_self :
    (s.destroyed i c).conns c = (s.conns c).connectDestoryed i := Function.update_self _ _ _

theorem destroyed_conns_other (hd : d ≠ c) : (s.destroyed i c).conns d = s.conns d :=
  Function.update_of_ne hd _ _

theorem loopOf_destroyed : (s.destroyed i c).loopOf = s.loopOf := by
  funext d
  by_cases hd : d = c
  · subst hd
    rw [loopOf, destroyed_conns_self]
    rfl
  · rw [loopOf, destroyed_conns_other hd]
    rfl

theorem life_destroyed_other (hd : d ≠ c) : (s.destroyed i c).life d = s.life d := by
  rw [life, loopOf_destroyed, destroyed_conns_other hd]
  rfl

theorem life_destroyed_self : ∃ tcp, StaysClosed (s.tcp c) tcp ∧
    (s.destroyed i c).life c = { s.life c with
      state_ := tcp.state_, channel_ := tcp.channel_.remove, destroyed := true } := by
  refine ⟨if (s.tcp c).state_ = .kConnected then ConnLoop.closing (s.tcp c) else s.tcp c, ?_, ?_⟩
  · split
    · exact ⟨Or.inr ConnState.noConfusion, fun _ => Channel.updateChannel_indexAgrees _⟩
    · exact .refl _
  · rw [life, loopOf_destroyed, destroyed_conns_self]
    rfl

theorem destroyed_tidy (h : s.Tidy) (hloop : s.loopOf c = i) : (s.destroyed i c).Tidy := by
  refine ⟨h.first, by rw [loopOf_destroyed]; exact h.io, fun d j hd => ?_⟩
  rw [loopOf_destroyed]
  by_cases hdc : d = c
  · subst hdc
    rw [destroyed_conns_self] at hd
    exact (Option.some.inj hd).symm.trans hloop.symm
  · rw [destroyed_conns_other hdc] at hd
    exact h.destroyed d j hd

theorem functor_goes (h : s.Sound) (hpc : (s.io i).pc = .functors)
    (htodo : (s.io i).todo = f :: rest) : s.Goes ((s.popped i rest).runFunctor i f) := by
  have hloop := h.loopOf_functor htodo
  have htidy := popped_tidy h hpc htodo
  obtain ⟨q, hq, hself⟩ := popped_life_self h htodo
  have hother : ∀ d, d ≠ f.conn → (s.popped i rest).life d = s.life d := fun d hd =>
    popped_life_other htodo hd
  unfold runFunctor
  split
  · rename_i hkind
    rw [hkind] at hq
    have hgoes : s.Goes ((s.popped i rest).setTcp f.conn
        ((s.popped i rest).tcp f.conn).established) := by
      refine Goes.of_self (c := f.conn) htidy.setTcp (fun d hd => ?_) ?_
      · rw [life_setTcp_other hd, hother d hd]
      · rw [life_setTcp_self, hself]
        exact .connectEstablished hq
    -- the timer that the callback registers does not own the connection
    simp only
    split
    · exact ⟨⟨hgoes.tidy.first, hgoes.tidy.io, hgoes.tidy.destroyed⟩, hgoes.life⟩
    · exact hgoes
  · rename_i hkind
    rw [hkind] at hq
    refine Goes.of_self (c := f.conn) htidy.setTcp (fun d hd => ?_) ?_
    · rw [life_setTcp_other hd, hother d hd]
    · rw [life_setTcp_self, hself, TcpConnection.shutdownInloop_state,
        TcpConnection.shutdownInloop_channel]
      exact .shutdownInloop hq
  · rename_i hkind
    rw [hkind] at hq
    have hloop' : (s.popped i rest).loopOf f.conn = i := hloop
    refine Goes.of_self (c := f.conn) (destroyed_tidy htidy hloop') (fun d hd => ?_) ?_
    · exact (life_destroyed_other hd).trans (hother d hd)
    · obtain ⟨tcp, hconn, hlife⟩ :=
        life_destroyed_self (s := s.popped i rest) (i := i) (c := f.conn)
      refine (congrArg (Life.Step _) hlife).mpr ?_
      rw [hself]
      exact .connectDestoryed hq (life_busy_of_functors h hpc hloop) hconn.state hconn.index

end Functor

theorem io_goes {a : IoAction} (h : s.Sound) (hs : s.ioStep i a = some s') : s.Goes s' := by
  cases io_cases hs with
  | poll hpc hevents => exact poll_goes h hpc hevents
  | handleEvent hpc hactive => exact handleEvent_goes h hpc hactive
  | @hangup c _ hpc _ =>
    have hclose := enterClose_goes true (s.tcp c) h hpc rfl
    rwa [setTcp_eq] at hclose
  | noHangup hpc _ => exact setIoPc_goes h hpc IoPc.noConfusion (fun _ hd => handles_other hd) rfl
  | closecb hpc => exact closecb_goes h hpc
  | message hpc _ _ => exact filled_goes h hpc fun _ => rfl
  | @readClose c _ _ _ b _ hpc _ _ =>
    exact enterClose_goes false { s.tcp c with inputBuffer_ := b } h hpc rfl
  | readError hpc _ _ => exact filled_goes h hpc fun _ => rfl
  | noInput hpc _ => exact setIoPc_goes h hpc IoPc.noConfusion (fun _ hd => handles_other hd) rfl
  | act hpc hact => exact act_goes h hpc hact
  | messageDone hpc => exact setIoPc_goes h hpc IoPc.noConfusion (fun _ hd => handles_other hd) rfl
  | handleWrite hpc _ =>
    exact handler_staysClosed h hpc (by decide) (fun _ _ => rfl) rfl
      TcpConnection.handleWrite_staysClosed
  | noOutput hpc _ => exact setIoPc_goes h hpc (by decide) (fun _ _ => rfl) rfl
  | swap hpc hactive => exact swap_goes h hpc hactive
  | functor hpc htodo => exact functor_goes h hpc htodo
  | batchDone hpc htodo => exact batchDone_goes h hpc htodo

end HttpServerLoops

end LearnMuduo
