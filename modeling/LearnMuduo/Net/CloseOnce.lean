/-
  LearnMuduo.Net.CloseOnce

  A connection is reported down, and handed to `removeConnection`, at most once.

  `handleClose` takes the channel out of epoll, and no event reaches it any more
  unless something puts it back; so a connection is in one of two phases
  (`Phase`), and a close moves it from the first to the second.  The code can leave
  the second phase in two ways, which the conditions of the main theorem exclude:
  one dispatch may enter `handleClose` twice, and a send on the closed connection
  may register the channel again.
-/
import LearnMuduo.Net.ConnEvents

namespace LearnMuduo

open Lib

/-- Reports of the connection as down. -/
def downs (calls : List Invocation) : Nat :=
  calls.countP fun inv => inv.callback = .connectioncb_ && !inv.conn.connected

/-- Calls of `closecb_`. -/
def closes (calls : List Invocation) : Nat := calls.countP fun inv => inv.callback = .closecb_

/-- A send on a closed connection leaves nothing to queue. -/
def QuietAct (conn : TcpConnection) : UserAction → Prop
  | .send message w => conn.state_ = .kdisConnected → conn.LeavesNothing message w
  | _ => True

def Invocation.Quiet (inv : Invocation) : Prop :=
  Along UserAction.act QuietAct inv.conn inv.script

/-- A hang-up without `EPOLLIN` is not reported together with an `EPOLLPRI` whose read
    returns 0. -/
def ClosesOnce (s : ConnLoop) : LoopInput → Prop
  | .event revents _ ret _ => s.conn.channel_.interest.isSome = true →
      ¬ (revents.EPOLLHUP = true ∧ revents.EPOLLIN = false ∧ revents.EPOLLPRI = true ∧ ret = 0)
  | .connectDestoryed => True

namespace TcpConnection

/-- Before the close. -/
structure Up (conn : TcpConnection) : Prop where
  state : conn.state_ = .kConnected ∨ conn.state_ = .kDisConnecting
  channel : conn.channel_.Watched

/-- After the close. -/
structure Down (conn : TcpConnection) : Prop where
  state : conn.state_ = .kdisConnected
  channel : conn.channel_.Silent

section UserCode

variable {conn conn' : TcpConnection}

theorem Up.act (h : conn.Up) {a : UserAction} (ha : a.act conn = .ok conn') : conn'.Up := by
  cases a with
  | send message w =>
    -- a send may start watching for EPOLLOUT, on top of EPOLLIN
    obtain ⟨hsame, hch⟩ := send_frame ha
    refine ⟨by rw [hsame.state]; exact h.state, ?_⟩
    rcases hch with hch | hch <;> rw [hch]
    · exact h.channel
    · exact h.channel.enableWriting
  | shutdown =>
    obtain rfl := Except.ok.inj ha
    refine ⟨?_, by rw [shutdown_channel]; exact h.channel⟩
    rcases @shutdown_state conn with hs | ⟨-, hs⟩
    · rw [hs]
      exact h.state
    · exact Or.inr hs
  | retrieve len =>
    obtain rfl := Except.ok.inj ha
    exact ⟨h.state, h.channel⟩

theorem Down.act (h : conn.Down) {a : UserAction} (hq : QuietAct conn a)
    (ha : a.act conn = .ok conn') : conn'.Down := by
  cases a with
  | send message w =>
    refine ⟨(send_frame ha).1.state.trans h.state, ?_⟩
    -- on a closed connection `enableWriting` would put the channel back into epoll
    rw [send_leavesNothing (hq h.state) ha]
    exact h.channel
  | shutdown =>
    obtain rfl := Except.ok.inj ha
    -- `shutdown` acts on a connected connection only
    have hsame : conn.shutdown = conn := by
      rw [shutdown, if_neg (by rw [h.state]; decide)]
    rw [hsame]
    exact h
  | retrieve len =>
    obtain rfl := Except.ok.inj ha
    exact ⟨h.state, h.channel⟩

theorem Up.script (h : conn.Up) {script : List UserAction}
    (hrun : run UserAction.act conn script = .ok conn') : conn'.Up :=
  run_preserves (fun _ _ _ hs ha => hs.act ha) h hrun

theorem Down.script (h : conn.Down) {script : List UserAction}
    (hq : Along UserAction.act QuietAct conn script)
    (hrun : run UserAction.act conn script = .ok conn') : conn'.Down :=
  run_invariant (fun _ _ _ hs hok ha => hs.act hok ha) h hq hrun

end UserCode

theorem Up.closing {conn : TcpConnection} (h : conn.Up) : (ConnLoop.closing conn).Down :=
  ⟨rfl, h.channel.disableAll⟩

theorem Up.handleWrite {conn : TcpConnection} (h : conn.Up) (w : WriteResult) :
    (conn.handleWrite w).Up := by
  obtain ⟨hstate, hch⟩ := @handleWrite_frame conn w
  refine ⟨by rw [hstate]; exact h.state, ?_⟩
  rcases hch with hch | hch <;> rw [hch]
  · exact h.channel
  · exact h.channel.disableWriting

end TcpConnection

namespace ConnLoop

/-- Before the close and never reported down, or after it and reported once. -/
def Phase (s : ConnLoop) : Prop :=
  s.conn.Up ∧ downs s.calls = 0 ∧ closes s.calls = 0 ∨
    s.conn.Down ∧ downs s.calls = 1 ∧ closes s.calls = 1

/-- The callbacks invoked so far left nothing to queue once the connection was closed. -/
def Quiet (s : ConnLoop) : Prop := ∀ inv ∈ s.calls, inv.Quiet

/-! ## The callbacks invoked by a handler -/

section Calls

variable {user : UserCode} {s s' : ConnLoop}

/-- An invocation is recorded with the connection it was given and what it did. -/
theorem invoke_ok {cb : Callback} (h : s.invoke user cb = .ok s') :
    run UserAction.act s.conn (user s.calls.length cb) = .ok s'.conn ∧
      s'.calls = s.calls ++ [⟨cb, s.conn, user s.calls.length cb⟩] ∧
      s'.destroyed = s.destroyed := by
  obtain ⟨conn, hrun, hs⟩ := then_ok_iff.mp h
  obtain rfl := Except.ok.inj hs
  exact ⟨hrun, rfl, rfl⟩

theorem downs_append (calls : List Invocation) (inv : Invocation) :
    downs (calls ++ [inv]) = downs calls +
      if inv.callback = .connectioncb_ ∧ inv.conn.connected = false then 1 else 0 := by
  simp [downs, List.countP_append, List.countP_singleton]

theorem closes_append (calls : List Invocation) (inv : Invocation) :
    closes (calls ++ [inv]) = closes calls + if inv.callback = .closecb_ then 1 else 0 := by
  simp [closes, List.countP_append, List.countP_singleton]

theorem Quiet.of_extends (h : s'.Quiet) (hp : s.calls <+: s'.calls) : s.Quiet :=
  fun inv hin => h inv (hp.subset hin)

theorem invoke_extends {cb : Callback} (h : s.invoke user cb = .ok s') : s.calls <+: s'.calls :=
  ⟨_, (invoke_ok h).2.1.symm⟩

theorem handleClose_prefix (h : s.handleClose user = .ok s') : s.calls <+: s'.calls := by
  obtain ⟨m, hm, hs⟩ := then_ok_iff.mp h
  obtain rfl := Except.ok.inj hs
  exact (invoke_extends hm).trans (List.prefix_append _ _)

/-- `handleRead` runs one of the three handlers on the Buffer as `readFd` left it. -/
theorem handleRead_ok {r : ReadvResult} {ret : Int} (h : s.handleRead user r ret = .ok s') :
    ∃ b, (s.withInput b).invoke user .messagecb_ = .ok s' ∨
      ret = 0 ∧ (s.withInput b).handleClose user = .ok s' ∨ s' = s.withInput b := by
  obtain ⟨⟨b, e, handler⟩, hp, hs⟩ := then_ok_iff.mp h
  obtain ⟨p, -, hp⟩ := then_ok_iff.mp hp
  obtain ⟨rfl, rfl, rfl⟩ : p.1 = b ∧ p.2 = e ∧ ReadHandler.of ret = handler := by simpa using hp
  refine ⟨p.1, ?_⟩
  unfold ReadHandler.of at hs
  split_ifs at hs with hpos hzero
  · exact Or.inl hs
  · exact Or.inr (Or.inl ⟨hzero, hs⟩)
  · exact Or.inr (Or.inr (Except.ok.inj hs).symm)

theorem handleRead_prefix {r : ReadvResult} {ret : Int} (h : s.handleRead user r ret = .ok s') :
    s.calls <+: s'.calls := by
  obtain ⟨b, hs | ⟨-, hs⟩ | rfl⟩ := handleRead_ok h
  · exact invoke_extends (s := s.withInput b) hs
  · exact handleClose_prefix (s := s.withInput b) hs
  · exact List.prefix_rfl

/-- The three branches of a dispatch, one after the other. -/
theorem handleEvent_ok {revents : Events} {r : ReadvResult} {ret : Int} {w : WriteResult}
    (h : s.handleEvent user revents r ret w = .ok s') :
    ∃ s1 s2,
      (if revents.EPOLLHUP && !revents.EPOLLIN then s.handleClose user else .ok s) = .ok s1 ∧
      (if revents.EPOLLIN || revents.EPOLLPRI then s1.handleRead user r ret else .ok s1)
        = .ok s2 ∧
      s' = if revents.EPOLLOUT then { s2 with conn := s2.conn.handleWrite w } else s2 := by
  obtain ⟨s1, hs1, h⟩ := then_ok_iff.mp h
  obtain ⟨s2, hs2, h⟩ := then_ok_iff.mp h
  exact ⟨s1, s2, hs1, hs2, (Except.ok.inj h).symm⟩

theorem afterWrite_calls (writes : Bool) (w : WriteResult) :
    (if writes then { s with conn := s.conn.handleWrite w } else s).calls = s.calls := by
  split <;> rfl

theorem readBranch_extends {reads : Bool} {r : ReadvResult} {ret : Int}
    (h : (if reads then s.handleRead user r ret else .ok s) = .ok s') : s.calls <+: s'.calls := by
  split at h
  · exact handleRead_prefix h
  · obtain rfl := Except.ok.inj h
    exact List.prefix_rfl

theorem connectDestoryed_ok (h : s.connectDestoryed user = .ok s') :
    ∃ m, (if s.conn.state_ = .kConnected then
        { s with conn := closing s.conn }.invoke user .connectioncb_ else .ok s) = .ok m ∧
      s'.calls = m.calls ∧ s'.destroyed = true := by
  obtain ⟨m, hm, hs⟩ := then_ok_iff.mp h
  obtain rfl := Except.ok.inj hs
  exact ⟨m, hm, rfl, rfl⟩

/-- Invocations are only added. -/
theorem step_extends {input : LoopInput} (h : s.step user input = .ok s') :
    s.calls <+: s'.calls := by
  cases input with
  | event revents r ret w =>
    simp only [step] at h
    split at h
    · obtain ⟨s1, s2, hs1, hs2, rfl⟩ := handleEvent_ok h
      have hp1 : s.calls <+: s1.calls := by
        split at hs1
        · exact handleClose_prefix hs1
        · obtain rfl := Except.ok.inj hs1
          exact List.prefix_rfl
      rw [afterWrite_calls]
      exact hp1.trans (readBranch_extends hs2)
    · obtain rfl := Except.ok.inj h
      exact List.prefix_rfl
  | connectDestoryed =>
    simp only [step] at h
    split at h
    · obtain rfl := Except.ok.inj h
      exact List.prefix_rfl
    · obtain ⟨m, hm, hcalls, -⟩ := connectDestoryed_ok h
      rw [hcalls]
      split at hm
      · exact invoke_extends (s := { s with conn := closing s.conn }) hm
      · obtain rfl := Except.ok.inj hm
        exact List.prefix_rfl

end Calls

/-! ## One handler -/

section Handlers

variable {user : UserCode} {s s' : ConnLoop}

/-- The message callback changes no phase. -/
theorem invoke_message (h : s.Phase) (hs : s.invoke user .messagecb_ = .ok s') (hq : s'.Quiet) :
    s'.Phase := by
  obtain ⟨hrun, hcalls, -⟩ := invoke_ok hs
  have hscript : Along UserAction.act QuietAct s.conn (user s.calls.length .messagecb_) :=
    hq ⟨.messagecb_, s.conn, user s.calls.length .messagecb_⟩ (by simp [hcalls])
  rw [Phase, hcalls, downs_append, closes_append]
  simp only [reduceCtorEq, false_and, if_false, Nat.add_zero]
  rcases h with ⟨hup, hcount⟩ | ⟨hdown, hcount⟩
  · exact Or.inl ⟨hup.script hrun, hcount⟩
  · exact Or.inr ⟨hdown.script hscript hrun, hcount⟩

/-- `handleClose` takes an open connection to the second phase. -/
theorem handleClose_up (hup : s.conn.Up) (hd : downs s.calls = 0) (hc : closes s.calls = 0)
    (hs : s.handleClose user = .ok s') (hq : s'.Quiet) :
    s'.conn.Down ∧ downs s'.calls = 1 ∧ closes s'.calls = 1 := by
  obtain ⟨m, hm, hs⟩ := then_ok_iff.mp hs
  obtain rfl := Except.ok.inj hs
  obtain ⟨hrun, hcalls, -⟩ := invoke_ok hm
  -- the down report runs user code on the closed connection; `closecb_` comes after it
  have hqm : m.Quiet := hq.of_extends (List.prefix_append _ _)
  have hscript : Along UserAction.act QuietAct (closing s.conn)
      (user s.calls.length .connectioncb_) :=
    hqm ⟨.connectioncb_, closing s.conn, user s.calls.length .connectioncb_⟩ (by simp [hcalls])
  refine ⟨hup.closing.script hscript hrun, ?_, ?_⟩
  · rw [closecb, downs_append, hcalls, downs_append, hd]
    simp [TcpConnection.connected, closing]
  · rw [closecb, closes_append, hcalls, closes_append, hc]
    simp

/-- The input Buffer plays no part in the phases. -/
theorem Phase.withInput (h : s.Phase) (b : Buffer) : (s.withInput b).Phase :=
  h.imp (fun hu => ⟨⟨hu.1.state, hu.1.channel⟩, hu.2⟩)
    fun hd => ⟨⟨hd.1.state, hd.1.channel⟩, hd.2⟩

theorem handleRead_phase {r : ReadvResult} {ret : Int} (h : s.Phase)
    (hret : s.conn.state_ = .kdisConnected → ret ≠ 0)
    (hs : s.handleRead user r ret = .ok s') (hq : s'.Quiet) : s'.Phase := by
  obtain ⟨b, hs | ⟨hzero, hs⟩ | rfl⟩ := handleRead_ok hs
  · exact invoke_message (h.withInput b) hs hq
  · rcases h.withInput b with ⟨hup, hd, hc⟩ | ⟨hdown, -⟩
    · exact Or.inr (handleClose_up hup hd hc hs hq)
    · -- a read of 0 would close a second time
      exact absurd hzero (hret hdown.state)
  · exact h.withInput b

theorem handleWrite_phase (h : s.Phase) (w : WriteResult) :
    Phase { s with conn := s.conn.handleWrite w } := by
  rcases h with ⟨hup, hcount⟩ | ⟨hdown, hcount⟩
  · exact Or.inl ⟨hup.handleWrite w, hcount⟩
  · refine Or.inr ⟨?_, hcount⟩
    -- nothing is written on a closed connection: its write interest is off
    rw [TcpConnection.handleWrite_idle hdown.channel.isWriting]
    exact hdown

/-- One dispatch: the hang-up branch, the read branch and the write branch in turn. -/
theorem handleEvent_phase {revents : Events} {r : ReadvResult} {ret : Int} {w : WriteResult}
    (hup : s.conn.Up) (hd : downs s.calls = 0) (hc : closes s.calls = 0)
    (hmask : ¬ (revents.EPOLLHUP = true ∧ revents.EPOLLIN = false ∧ revents.EPOLLPRI = true ∧
      ret = 0))
    (hs : s.handleEvent user revents r ret w = .ok s') (hq : s'.Quiet) : s'.Phase := by
  obtain ⟨s1, s2, hs1, hs2, rfl⟩ := handleEvent_ok hs
  have hq2 : s2.Quiet := hq.of_extends (by rw [afterWrite_calls])
  have hq1 := hq2.of_extends (readBranch_extends hs2)
  -- after the first branch: closed by a hang-up without EPOLLIN, or still up
  have h1 : s1.Phase ∧ (s1.conn.state_ = .kdisConnected →
      revents.EPOLLHUP = true ∧ revents.EPOLLIN = false) := by
    split at hs1
    · rename_i hhup
      simp only [Bool.and_eq_true, Bool.not_eq_true'] at hhup
      exact ⟨Or.inr (handleClose_up hup hd hc hs1 hq1), fun _ => hhup⟩
    · obtain rfl := Except.ok.inj hs1
      refine ⟨Or.inl ⟨hup, hd, hc⟩, fun hdis => ?_⟩
      rcases hup.state with hst | hst <;> simp [hst] at hdis
  obtain ⟨hphase1, hdis⟩ := h1
  -- the read branch sees a closed connection only behind that hang-up
  have hphase2 : s2.Phase := by
    split at hs2
    · rename_i hread
      refine handleRead_phase hphase1 (fun hst hzero => ?_) hs2 hq2
      obtain ⟨hhup, hin⟩ := hdis hst
      simp only [hin, Bool.false_or] at hread
      exact hmask ⟨hhup, hin, hread, hzero⟩
    · obtain rfl := Except.ok.inj hs2
      exact hphase1
  split
  · exact handleWrite_phase hphase2 w
  · exact hphase2

end Handlers

/-! ## Runs -/

/-- What holds between two turns of the loop. -/
structure Once (s : ConnLoop) : Prop where
  downs : downs s.calls ≤ 1
  closes : closes s.calls ≤ 1
  phase : s.destroyed = false → s.Phase

theorem Phase.once {s : ConnLoop} (h : s.Phase) : s.Once := by
  rcases h with ⟨hup, hd, hc⟩ | ⟨hdown, hd, hc⟩
  · exact ⟨by omega, by omega, fun _ => Or.inl ⟨hup, hd, hc⟩⟩
  · exact ⟨by omega, by omega, fun _ => Or.inr ⟨hdown, hd, hc⟩⟩

section Runs

variable {user : UserCode} {s s' : ConnLoop}

theorem connectDestoryed_once (h : s.Phase) (hs : s.connectDestoryed user = .ok s') :
    s'.Once := by
  obtain ⟨m, hm, hcalls', hdone⟩ := connectDestoryed_ok hs
  -- the connection is gone afterwards, so no phase is claimed
  have hphase : s'.destroyed = false → s'.Phase := fun hno => by simp [hdone] at hno
  split at hm
  · rename_i hst
    -- only a connection that was never closed is reported down here
    obtain ⟨-, hd, hc⟩ : s.conn.Up ∧ downs s.calls = 0 ∧ closes s.calls = 0 := by
      rcases h with hup | ⟨hdown, -⟩
      · exact hup
      · simp [hdown.state] at hst
    obtain ⟨-, hcalls, -⟩ := invoke_ok hm
    refine ⟨?_, ?_, hphase⟩
    · rw [hcalls', hcalls, downs_append, hd]
      split <;> omega
    · rw [hcalls', hcalls, closes_append, hc]
      simp
  · obtain rfl := Except.ok.inj hm
    exact ⟨hcalls' ▸ h.once.downs, hcalls' ▸ h.once.closes, hphase⟩

/-- The step lemma. -/
theorem step_once {input : LoopInput} (h : s.Once) (hok : ClosesOnce s input)
    (hs : s.step user input = .ok s') (hq : s'.Quiet) : s'.Once := by
  cases input with
  | event revents r ret w =>
    simp only [step] at hs
    split at hs
    · rename_i hlive
      simp only [Bool.and_eq_true, Bool.not_eq_true'] at hlive
      obtain ⟨halive, hwatched⟩ := hlive
      rcases h.phase halive with ⟨hup, hd, hc⟩ | ⟨hdown, -⟩
      · exact (handleEvent_phase hup hd hc (hok hwatched) hs hq).once
      · -- the kernel does not watch a closed connection
        simp [hdown.channel.interest] at hwatched
    · obtain rfl := Except.ok.inj hs
      exact h
  | connectDestoryed =>
    simp only [step] at hs
    split at hs
    · obtain rfl := Except.ok.inj hs
      exact h
    · rename_i halive
      exact connectDestoryed_once (h.phase (by simpa using halive)) hs

theorem connectEstablished_once {now : Nat} (hs : (new now).connectEstablished user = .ok s) :
    s.Phase := by
  obtain ⟨hrun, hcalls, -⟩ := invoke_ok hs
  have hup : (TcpConnection.new now).established.Up := ⟨Or.inl rfl, Channel.enableReading_new⟩
  refine Or.inl ⟨hup.script hrun, ?_, ?_⟩
  · rw [hcalls, downs_append, if_neg (by simp [TcpConnection.connected, TcpConnection.established])]
    rfl
  · rw [hcalls, closes_append, if_neg (by simp)]
    rfl

/-- **A connection goes down once.**  Between `connectEstablished` and the end of
    `connectDestoryed` it is reported down at most once and handed to
    `removeConnection` at most once, in a run in which no hang-up without `EPOLLIN`
    comes with an `EPOLLPRI` whose read returns 0, and every send that a callback makes
    on the connection once it is closed leaves nothing to queue. -/
theorem goes_down_once {now : Nat} {inputs : List LoopInput} {s0 : ConnLoop}
    (hstart : (new now).connectEstablished user = .ok s0)
    (hrun : run (step user) s0 inputs = .ok s)
    (hok : Along (step user) ClosesOnce s0 inputs) (hquiet : s.Quiet) :
    downs s.calls ≤ 1 ∧ closes s.calls ≤ 1 := by
  have hinv : s.Quiet → s.Once := by
    -- `Quiet` speaks of the whole record, so it comes down to each earlier state
    refine run_invariant (P := fun t => t.Quiet → t.Once) ?_ ?_ hok hrun
    · intro t input t' ht hok hstep hq
      exact step_once (ht (hq.of_extends (step_extends hstep))) hok hstep hq
    · exact fun _ => (connectEstablished_once hstart).once
  exact ⟨(hinv hquiet).downs, (hinv hquiet).closes⟩

/-- Callbacks that do nothing, and a hang-up. -/
theorem goes_down_once_example :
    ∃ s0 s, (new 0).connectEstablished (fun _ _ => []) = .ok s0 ∧
      run (step fun _ _ => []) s0 [.event ⟨false, false, false, true⟩ (.bytes []) 0 (.accepted 0)]
        = .ok s ∧ downs s.calls ≤ 1 ∧ closes s.calls ≤ 1 := by
  refine ⟨_, _, rfl, rfl, @goes_down_once (fun _ _ => []) _ 0
    [.event ⟨false, false, false, true⟩ (.bytes []) 0 (.accepted 0)] _ rfl rfl ?_ ?_⟩
  · exact ⟨fun _ h => by simp at h, fun _ _ => trivial⟩
  · intro inv hin
    have hmem : inv.script ∈ ([[], [], []] : List (List UserAction)) :=
      List.mem_map_of_mem (f := Invocation.script) hin
    have hscript : inv.script = [] := by simpa using hmem
    rw [Invocation.Quiet, hscript]
    trivial

end Runs

/-- A hang-up with `EPOLLPRI` and a read of 0 closes twice in one dispatch; so do two
    hang-ups when the down callback sends a byte that the socket does not take. -/
theorem goes_down_twice :
    (live (fun _ _ => []) 0 [.event ⟨false, true, false, true⟩ (.bytes []) 0 (.accepted 0)]).map
        (fun s => (downs s.calls, closes s.calls)) = .ok (2, 2) ∧
      (live (fun n _ => if n = 1 then [.send [65] (.accepted 0)] else []) 0
          [.event ⟨false, false, false, true⟩ (.bytes []) 0 (.accepted 0),
            .event ⟨false, false, false, true⟩ (.bytes []) 0 (.accepted 0)]).map
        (fun s => (downs s.calls, closes s.calls)) = .ok (2, 2) := by
  constructor <;> decide +kernel

end ConnLoop

end LearnMuduo
