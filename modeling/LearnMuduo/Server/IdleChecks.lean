/-
  LearnMuduo.Server.IdleChecks

  How many idle checks a connection of an `HttpServer` has.

  `checks` counts the timers `HandleIdleConnection` of a connection and the one that is
  running for it.  The callback of an established connection registers the first; each
  check either sets the timer again or ends with the connection not connected.  A
  connected connection has therefore one, and one that waits for `connectEstablished`
  has none (`Checked`).
-/
import LearnMuduo.Server.ClosedState

namespace LearnMuduo

open Lib

/-- In `HandleIdleConnection` of the connection, before the timer is set again or the
    connection is no longer connected. -/
def MainPc.checks : MainPc → Nat → Bool
  | .locked d, c => d = c
  | .shutting d, c => d = c
  | _, _ => false

/-- A step brings no `connectEstablished` for a connection that was accepted. -/
theorem Life.Step.early {l l' : Life} (hs : l.Step l')
    (h : .connectEstablished ∈ l'.queue ∨ l'.born = false) :
    .connectEstablished ∈ l.queue ∨ l.born = false := by
  cases hs with
  | newConnection hborn => exact Or.inr hborn
  | queueShutdown _ => exact h.imp_left fun hmem => by simpa using hmem
  | removeConnectionInLoop _ _ => exact h.imp_left fun hmem => by simpa using hmem
  | connectEstablished hqueue => exact Or.inl (hqueue ▸ List.mem_cons_self)
  | shutdownInloop hqueue => exact h.imp_left fun hmem => hqueue ▸ List.mem_cons_of_mem _ hmem
  | connectDestoryed hqueue _ _ _ =>
    exact h.imp_left fun hmem => hqueue ▸ List.mem_cons_of_mem _ hmem
  | _ => exact h

namespace HttpServerLoops

variable {n : Nat} {s s' : HttpServerLoops n} {i : Fin n} {c d : Nat}

def checks (s : HttpServerLoops n) (c : Nat) : Nat :=
  s.idleTimers.count c + (s.main.pc.checks c).toNat

/-- The connection for which the step registers a first timer. -/
def registers (s : HttpServerLoops n) : LoopsAction n → Option Nat
  | .io i .functor =>
    match (s.io i).todo with
    | ⟨.connectEstablished, c⟩ :: _ => if s.auto_close_idleconnection_ then some c else none
    | _ => none
  | _ => none

structure Checked (s : HttpServerLoops n) (c : Nat) : Prop where
  early : .connectEstablished ∈ (s.life c).queue ∨ (s.life c).born = false → s.checks c = 0
  once : s.checks c ≤ 1
  connected : (s.tcp c).state_ = .kConnected → s.checks c = 1

/-! ## What a step does to the timers -/

section Step

variable {a : LoopsAction n}

theorem registers_some (h : s.registers a = some c) :
    ∃ i rest, a = .io i .functor ∧ (s.io i).todo = ⟨.connectEstablished, c⟩ :: rest := by
  unfold registers at h
  split at h
  · rename_i i
    split at h
    · rename_i d rest htodo
      split at h
      · obtain rfl := Option.some.inj h
        exact ⟨i, rest, rfl, htodo⟩
      · cases h
    · cases h
  · cases h

theorem registers_established {rest : List IoFunctor} (hauto : s.auto_close_idleconnection_ = true)
    (htodo : (s.io i).todo = ⟨.connectEstablished, c⟩ :: rest) :
    s.registers (.io i .functor) = some c := by
  simp only [registers, htodo, hauto, if_true]

/-- An IO loop touches the timers only to register a first one. -/
theorem io_idle {action : IoAction} (hs : IoCase s i action s') :
    s'.main.pc = s.main.pc ∧
      s'.auto_close_idleconnection_ = s.auto_close_idleconnection_ ∧
      s'.idleTimers = s.idleTimers ++ (s.registers (.io i action)).toList := by
  cases hs with
  | @functor f rest _ htodo =>
    obtain ⟨kind, d⟩ := f
    cases kind with
    | connectEstablished =>
      simp only [registers, htodo, runFunctor]
      cases hauto : s.auto_close_idleconnection_ with
      | true => simp [setTcp, setIo, hauto]
      | false => simp [setTcp, setIo, hauto]
    | shutdownInloop => simp [registers, htodo, runFunctor, setTcp, setIo]
    | connectDestoryed => simp [registers, htodo, runFunctor, setIo]
  | _ => exact ⟨rfl, rfl, (List.append_nil _).symm⟩

/-- `weak_ptr::lock` succeeds for a connected connection. -/
theorem Sound.held_connected (h : s.Sound) (hconn : (s.tcp c).state_ = .kConnected) :
    c ∈ s.holders := by
  have hkept := h.kept c
  have hborn : (s.life c).born = true := hkept.born_of fun he => by
    have hstate : (s.life c).state_ = .kConnected := hconn
    rw [he] at hstate
    cases hstate
  obtain ⟨hpos, hacc⟩ : 0 < c ∧ c < s.nextConnId_ := of_decide_eq_true hborn
  refine h.held hpos hacc ?_
  by_contra hdead
  have hended : (s.life c).Ended := Or.inr (Or.inr (Or.inl ((Bool.not_eq_false _).mp hdead)))
  exact hkept.ended hended hconn

theorem count_taken (hmem : d ∈ s.idleTimers) :
    s.idleTimers.count c = (s.idleTimers.erase d).count c + (decide (d = c)).toNat := by
  by_cases hd : d = c
  · subst hd
    have hpos := List.count_pos_iff.mpr hmem
    rw [List.count_erase_self, decide_eq_true rfl]
    exact (Nat.sub_add_cancel hpos).symm
  · rw [List.count_erase_of_ne (Ne.symm hd), decide_eq_false hd]
    rfl

theorem checks_at {pc : MainPc} (hpc : s.main.pc = pc) :
    s.checks c = s.idleTimers.count c + (pc.checks c).toNat := by
  subst hpc
  rfl

/-- A check of the connection `d` is spent. -/
theorem checks_spent (hspent : s.checks c = s'.checks c + (decide (d = c)).toNat)
    (hlost : d = c → (s'.tcp c).state_ ≠ .kConnected) :
    s'.checks c = s.checks c ∨
      (s.checks c = s'.checks c + 1 ∧ (s'.tcp c).state_ ≠ .kConnected) := by
  by_cases hd : d = c
  · rw [decide_eq_true hd] at hspent
    exact Or.inr ⟨hspent, hlost hd⟩
  · rw [decide_eq_false hd] at hspent
    exact Or.inl hspent.symm

/-- The main loop takes a check up and sets it again; a check that is not set again is one
    of a connection that is not connected. -/
theorem main_checks {action : MainAction} (h : s.Sound) (hs : MainCase s action s') :
    s'.checks c = s.checks c ∨
      (s.checks c = s'.checks c + 1 ∧ (s'.tcp c).state_ ≠ .kConnected) := by
  cases hs with
  | newConnection _ => exact Or.inl rfl
  | locked hpc hmem _ =>
    left
    rw [checks_at hpc, count_taken hmem]
    rfl
  | @lost d hpc hmem hgone =>
    refine checks_spent (d := d) ?_ fun hd hconn => hgone (hd ▸ h.held_connected hconn)
    rw [checks_at hpc, count_taken hmem, checks, hpc]
    rfl
  | shutdown hpc _ =>
    left
    rw [checks_at hpc]
    rfl
  | @notConnected d hpc hconn =>
    refine checks_spent (d := d) ?_ fun hd => hd ▸ hconn
    rw [checks_at hpc]
    rfl
  | @again d hpc =>
    left
    have hafter : HttpServerLoops.checks
        ({ s with idleTimers := s.idleTimers ++ [d] }.setMainPc (.releasing d)) c
          = (s.idleTimers ++ [d]).count c + 0 := rfl
    rw [hafter, checks_at hpc, List.count_append, MainPc.checks]
    by_cases hd : d = c <;> simp [hd]
  | @setState d hpc =>
    refine checks_spent (d := d) ?_ fun hd => ?_
    · rw [checks_at hpc]
      rfl
    · show ((s.setTcp d { s.tcp d with state_ := .kDisConnecting }).tcp c).state_ ≠ .kConnected
      rw [← hd, tcp_setTcp]
      exact ConnState.noConfusion
  | queueShutdown hpc => exact Or.inl (checks_at hpc).symm
  | release hpc => exact Or.inl (checks_at hpc).symm
  | swap hpc => exact Or.inl (checks_at hpc).symm
  | removeConnectionInLoop _ _ => exact Or.inl rfl
  | batchDone hpc _ => exact Or.inl (checks_at hpc).symm

/-- What a step makes of the list of timers. -/
def timersAfter (s : HttpServerLoops n) : LoopsAction n → List Nat
  | .main (.HandleIdleConnection d) => s.idleTimers.erase d
  | .main (.testIdle false) => s.idleTimers ++ s.main.pc.temporary.toList
  | .main _ => s.idleTimers
  | .io i action => s.idleTimers ++ (s.registers (.io i action)).toList

theorem main_idle {action : MainAction} (hs : MainCase s action s') :
    s'.auto_close_idleconnection_ = s.auto_close_idleconnection_ ∧
      s'.idleTimers = s.timersAfter (.main action) := by
  cases hs with
  | again hpc =>
    rw [timersAfter, hpc]
    exact ⟨rfl, rfl⟩
  | _ => exact ⟨rfl, rfl⟩

theorem step_idle (hs : s.step a = some s') :
    s'.auto_close_idleconnection_ = s.auto_close_idleconnection_ ∧
      s'.idleTimers = s.timersAfter a := by
  cases a with
  | main action => exact main_idle (main_cases hs)
  | io i action => exact (io_idle (io_cases hs)).2

/-- `shutdown` is entered by a check that finds its connection idle. -/
theorem main_shutting {action : MainAction} (hs : MainCase s action s')
    (hpc' : s'.main.pc = .shutting c) :
    action = .testIdle true ∧ s.main.pc = .locked c ∨
      s.main.pc = .shutting c ∧ ∀ expired, action ≠ .testIdle expired := by
  cases hs with
  | newConnection _ => exact Or.inr ⟨hpc', fun _ => MainAction.noConfusion⟩
  | lost _ _ _ => exact Or.inr ⟨hpc', fun _ => MainAction.noConfusion⟩
  | removeConnectionInLoop _ _ => exact Or.inr ⟨hpc', fun _ => MainAction.noConfusion⟩
  | shutdown hpc _ =>
    obtain rfl := MainPc.shutting.inj hpc'
    exact Or.inl ⟨rfl, hpc⟩
  | _ => cases hpc'

/-- A connection that is connected was so before, or its `connectEstablished` has run. -/
theorem connected_before (hs : s.step a = some s') (hconn : (s'.tcp c).state_ = .kConnected) :
    (s.tcp c).state_ = .kConnected ∨
      ∃ i rest, a = .io i .functor ∧ (s.io i).todo = ⟨.connectEstablished, c⟩ :: rest := by
  have hstate := (step_tcpStep (c := c) hs).state
  rw [hconn] at hstate
  generalize hnew : ConnState.kConnected = new at hstate
  cases hstate with
  | keeps => exact Or.inl rfl
  | established ha htodo => exact Or.inr ⟨_, _, ha, htodo⟩
  | _ => cases hnew

theorem functor_established {rest : List IoFunctor} (hs : IoCase s i .functor s')
    (htodo : (s.io i).todo = ⟨.connectEstablished, c⟩ :: rest) :
    s'.tcp c = (s.tcp c).established := by
  cases hs with
  | @functor f _ _ htodo' =>
    obtain ⟨rfl, -⟩ := List.cons.inj (htodo.symm.trans htodo')
    have hset : (s.setTcp c (s.tcp c).established).tcp c = (s.tcp c).established := tcp_setTcp
    unfold runFunctor
    dsimp only
    split <;> exact hset

end Step

/-- What waits for `connectEstablished` did so before, or has just been constructed. -/
theorem waits_before (h : s.Sound) (hs : s.step a = some s')
    (hmem : .connectEstablished ∈ (s'.life c).queue) :
    .connectEstablished ∈ (s.life c).queue ∨
      ∃ now, a = .main (.newConnection now) ∧ s'.tcp c = TcpConnection.new now := by
  have hgoes := step_goes h hs
  rcases (hgoes.life c).early (Or.inl hmem) with hbefore | hunborn
  · exact Or.inl hbefore
  · right
    have hborn : (s'.life c).born = true :=
      ((h.goes hgoes).kept c).born_of_queue (List.ne_nil_of_mem hmem)
    obtain ⟨hpos, hacc⟩ : 0 < c ∧ c < s'.nextConnId_ := of_decide_eq_true hborn
    have hnew : ¬ (0 < c ∧ c < s.nextConnId_) := of_decide_eq_false hunborn
    rcases nextConnId_step hs with hsame | ⟨now, rfl, hnext⟩
    · exact absurd ⟨hpos, hsame ▸ hacc⟩ hnew
    · obtain rfl : c = s.nextConnId_ := by omega
      refine ⟨now, rfl, ?_⟩
      have hmain : s.mainStep (.newConnection now) = some s' := hs
      cases main_cases hmain with
      | newConnection _ => exact congrArg ServerConn.tcp constructed_conns_self

/-! ## Runs -/

theorem Checked.of_life (hlife : s'.life c = s.life c) (hchecks : s'.checks c = s.checks c)
    (h : s.Checked c) : s'.Checked c where
  early hearly := hchecks.trans (h.early (hlife ▸ hearly))
  once := hchecks ▸ h.once
  connected hconn := hchecks.trans (h.connected ((congrArg Life.state_ hlife).symm.trans hconn))

theorem start_checked (first : Fin n) (closeIdleConn : Bool) (c : Nat) :
    (start first closeIdleConn).Checked c where
  early _ := rfl
  once := Nat.zero_le 1
  connected hconn := by cases hconn

/-- A connection with a `connectEstablished` to run, or that was not accepted, is not
    connected. -/
theorem Ordered.early_unconnected (h : s.Ordered)
    (hearly : .connectEstablished ∈ (s.life c).queue ∨ (s.life c).born = false) :
    (s.tcp c).state_ ≠ .kConnected := by
  intro hconn
  have hstate : (s.life c).state_ = .kConnected := hconn
  rcases hearly with hmem | hborn
  · rw [(h.waits c hmem).1] at hstate
    cases hstate
  · rw [(h.sound.kept c).unborn hborn] at hstate
    cases hstate

theorem Checked.main {action : MainAction} (hord : s.Ordered) (h : s.Checked c)
    (hs : s.mainStep action = some s') : s'.Checked c := by
  have hgoes : s.Goes s' := main_goes hord.sound hs
  have hchecks := main_checks (c := c) hord.sound (main_cases hs)
  have honce := h.once
  refine ⟨fun hearly => ?_, by omega, fun hconn => ?_⟩
  · have hzero := h.early ((hgoes.life c).early hearly)
    omega
  · have hstep : s.step (.main action) = some s' := hs
    rcases connected_before hstep hconn with hbefore | ⟨i, rest, ha, -⟩
    · have hone := h.connected hbefore
      rcases hchecks with hsame | ⟨-, hlost⟩
      · rw [hsame, hone]
      · exact absurd hconn hlost
    · cases ha

theorem Checked.io {action : IoAction} (hord : s.Ordered)
    (hauto : s.auto_close_idleconnection_ = true) (h : s.Checked c)
    (hs : s.ioStep i action = some s') : s'.Checked c := by
  have hstep : s.step (.io i action) = some s' := hs
  have hgoes : s.Goes s' := step_goes hord.sound hstep
  obtain ⟨hpc, -, htimers⟩ := io_idle (io_cases hs)
  have hchecks : s'.checks c
      = s.checks c + (s.registers (.io i action)).toList.count c := by
    rw [checks, checks, hpc, htimers, List.count_append]
    omega
  by_cases hreg : s.registers (.io i action) = some c
  · -- the first timer of this connection
    obtain ⟨j, rest, ha, htodo⟩ := registers_some hreg
    have hone : (s.registers (.io i action)).toList.count c = 1 := by
      rw [hreg]
      simp
    have hmem : Kind.connectEstablished ∈ (s.life c).queue := hord.sound.mem_queue htodo
    have hzero := h.early (Or.inl hmem)
    rw [hzero, hone] at hchecks
    refine ⟨fun hearly => ?_, by omega, fun _ => hchecks⟩
    -- it is connected now
    obtain ⟨rfl, rfl⟩ : i = j ∧ action = .functor := by simpa using ha
    have hconn : (s'.tcp c).state_ = .kConnected := by
      rw [functor_established (io_cases hs) htodo]
      rfl
    exact absurd hconn ((hord.step hstep).early_unconnected hearly)
  · have hnone : (s.registers (.io i action)).toList.count c = 0 := by
      refine List.count_eq_zero.mpr fun hmem => hreg ?_
      simpa using hmem
    rw [hnone, Nat.add_zero] at hchecks
    refine ⟨fun hearly => ?_, ?_, fun hconn => ?_⟩
    · rw [hchecks]
      exact h.early ((hgoes.life c).early hearly)
    · rw [hchecks]
      exact h.once
    · rw [hchecks]
      rcases connected_before hstep hconn with hbefore | ⟨j, rest, ha, htodo⟩
      · exact h.connected hbefore
      · obtain ⟨rfl, rfl⟩ : i = j ∧ action = .functor := by simpa using ha
        exact absurd (registers_established hauto htodo) hreg

theorem Checked.step {a : LoopsAction n} (hord : s.Ordered)
    (hauto : s.auto_close_idleconnection_ = true) (h : s.Checked c) (hs : s.step a = some s') :
    s'.Checked c := by
  cases a with
  | main action => exact h.main hord hs
  | io i action => exact h.io hord hauto hs

end HttpServerLoops

end LearnMuduo
