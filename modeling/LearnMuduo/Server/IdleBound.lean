/-
  LearnMuduo.Server.IdleBound

  How long a connection of an `HttpServer` stays connected without a message.

  The closing of idle connections is on.  The clock never goes back, and as nothing takes time
  (`MayTick`) it does not pass a deadline whose check has not run (`OnTime`); the check that a
  connected connection has is due twenty seconds behind its time stamp at the latest.
-/
import LearnMuduo.Server.IdleClock

namespace LearnMuduo

open Lib

namespace IdleClock

variable {n : Nat} {s t : IdleClock n} {c : Nat}

/-- No deadline is behind the clock. -/
def OnTime (s : IdleClock n) : Prop := ∀ timer ∈ s.pending, (s.now : Int) ≤ timer.expiration_

theorem OnTime.step {a : ClockAction n} (h : s.OnTime) (hs : s.step a = some t) : t.OnTime := by
  cases step_cases hs with
  | tick hmay =>
    obtain ⟨-, -, ⟨hadding, -⟩, htimers⟩ := hmay
    intro timer hmem
    have hqueued : timer ∈ s.timers_ := by
      have hpending : timer ∈ s.adding ++ s.timers_ := hmem
      rw [hadding] at hpending
      exact hpending
    exact htimers timer hqueued
  | @addTimerInloop added rest hadding =>
    intro timer hmem
    refine h timer ?_
    rw [pending, hadding]
    simpa [pending, or_comm, or_left_comm] using hmem
  | loops hl hcase =>
    intro timer hmem
    rw [hcase.now]
    rcases hcase.deadlines with hkept | ⟨d, hnew, -⟩
    · exact h timer (hkept timer hmem)
    · rcases hnew timer hmem with hold | rfl
      · exact h timer hold
      · exact Int.le_add_of_nonneg_right (by decide)

theorem reachable_onTime {first : Fin n} {now : Nat} (hs : Reachable step (start first now) s) :
    s.OnTime :=
  hs.invariant (fun _ hmem => absurd hmem List.not_mem_nil) fun _ _ _ h _ hstep => h.step hstep

/-- Between two callbacks a connected connection has a time stamp of the last twenty seconds. -/
theorem connected_recent {first : Fin n} {now : Nat} (hs : Reachable step (start first now) s)
    (hbetween : s.BetweenCallbacks) (hconn : (s.loops.tcp c).state_ = .kConnected) :
    (s.now : Int) ≤ s.timestamp c + 2 * kIdle := by
  have htimed := reachable_timed hs
  -- its check is pending, and due by then
  have hone := (htimed.pendingOf_length hbetween c).trans ((htimed.checked c).connected hconn)
  obtain ⟨timer, hmem⟩ := List.exists_mem_of_length_pos (by omega : 0 < (s.pendingOf c).length)
  obtain ⟨hpending, hc⟩ := List.mem_filter.mp hmem
  obtain rfl : timer.conn = c := of_decide_eq_true hc
  exact Int.le_trans (reachable_onTime hs timer hpending) (htimed.deadline timer hpending)

/-! ## Where a time stamp comes from -/

theorem LoopsCase.stamp {a : LoopsAction n} {l : HttpServerLoops n}
    (hauto : l.auto_close_idleconnection_ = true) (h : LoopsCase s a l t) :
    t.timestamp c = (l.tcp c).timestamp_ ∨ t.timestamp c = s.now ∧ (c, s.now) ∈ t.messages := by
  cases h with
  | @message i r ret d revents _ _ =>
    rw [messageCallback_timestamp c hauto]
    split
    · rename_i hd
      subst hd
      exact Or.inr ⟨rfl, List.mem_append_right _ (List.mem_singleton_self _)⟩
    · exact Or.inl rfl
  | _ => exact Or.inl rfl

theorem LoopsCase.messages_subset {a : LoopsAction n} {l : HttpServerLoops n}
    (h : LoopsCase s a l t) : s.messages ⊆ t.messages := by
  cases h with
  | message _ _ => exact List.subset_append_left _ _
  | _ => exact List.Subset.refl _

theorem LoopsCase.nextConnId {a : LoopsAction n} {l : HttpServerLoops n} (h : LoopsCase s a l t) :
    t.loops.nextConnId_ = l.nextConnId_ := by
  cases h with
  | message _ _ =>
    rw [messageCallback]
    split <;> rfl
  | _ => rfl

/-- The time stamp of a connection that was there at the moment `since` is not younger, or it
    is that of a message. -/
structure Stamped (since c : Nat) (s : IdleClock n) : Prop where
  timed : s.Timed
  accepted : c < s.loops.nextConnId_
  stamp : s.timestamp c ≤ (since : Int) ∨ ∃ m : Nat, s.timestamp c = m ∧ (c, m) ∈ s.messages

theorem Stamped.step {since : Nat} {a : ClockAction n} (h : s.Stamped since c)
    (hs : s.step a = some t) : t.Stamped since c := by
  have htimed := h.timed.step hs
  cases step_cases hs with
  | tick _ => exact ⟨htimed, h.accepted, h.stamp⟩
  | addTimerInloop _ => exact ⟨htimed, h.accepted, h.stamp⟩
  | loops hl hcase =>
    refine ⟨htimed, ?_, ?_⟩
    · rw [hcase.nextConnId]
      have haccepted := h.accepted
      rcases HttpServerLoops.nextConnId_step hl with hsame | ⟨now, -, hnext⟩
      · omega
      · omega
    · rcases hcase.stamp (h.timed.auto_step hl) with hkept | ⟨hnow, hmessage⟩
      · -- only a new connection gets a time stamp otherwise
        have hsame : t.timestamp c = s.timestamp c := by
          rw [hkept]
          rcases (HttpServerLoops.step_tcpStep hl).timestamp with hsame | ⟨now, -, hnew, -⟩
          · exact congrArg Nat.cast hsame
          · exact absurd hnew (Nat.ne_of_lt h.accepted)
        rw [hsame]
        exact h.stamp.imp_right fun ⟨m, hm, hmem⟩ => ⟨m, hm, hcase.messages_subset hmem⟩
      · exact Or.inr ⟨s.now, hnow, hmessage⟩

/-- A connection that gets no message for twenty seconds is not connected any more: from any
    moment on, when more time has gone by and no message of the connection has come since, its
    state is not `kConnected`. -/
theorem idle_closed {first : Fin n} {now : Nat} (hs : Reachable step (start first now) s)
    (ht : Reachable step s t) (hacc : c < s.loops.nextConnId_)
    (hlong : (s.now : Int) + 2 * kIdle < t.now) (hbetween : t.BetweenCallbacks)
    (hsilent : ∀ m, (c, m) ∈ t.messages → m ≤ s.now) :
    (t.loops.tcp c).state_ ≠ .kConnected := by
  intro hconn
  have htimed := reachable_timed hs
  have hstamped : t.Stamped s.now c :=
    ht.invariant ⟨htimed, hacc, Or.inl (htimed.past c)⟩ fun _ _ _ h _ hstep => h.step hstep
  have hrecent := connected_recent (hs.trans ht) hbetween hconn
  have hold : t.timestamp c ≤ (s.now : Int) := by
    rcases hstamped.stamp with hold | ⟨m, hm, hmem⟩
    · exact hold
    · rw [hm]
      exact Int.ofNat_le.mpr (hsilent m hmem)
  have hbound : (t.now : Int) ≤ (s.now : Int) + 2 * kIdle :=
    Int.le_trans hrecent (Int.add_le_add_right hold _)
  exact Int.not_lt.mpr hbound hlong

/-- The connection of `idleRun`, ten seconds later. -/
theorem idle_closed_run :
    let rest : List ClockAction := idleRun.drop 17 ++
      [.loops (.main .setState), .loops (.main .queueShutdown), .loops (.main .release),
        .loops (.io firstLoop (.poll [])), .loops (.io firstLoop .swap),
        .loops (.io firstLoop .functor), .loops (.io firstLoop .batchDone), .tick 30000005]
    ((after step (after step (start firstLoop 5) (idleRun.take 17)) rest).loops.tcp 1).state_
      ≠ .kConnected := by
  intro rest
  have hs : Reachable step (start firstLoop 5) (after step (start firstLoop 5) (idleRun.take 17)) :=
    Reaches.after (by decide +kernel) fun _ _ _ => trivial
  have ht : Reachable step (after step (start firstLoop 5) (idleRun.take 17))
      (after step (after step (start firstLoop 5) (idleRun.take 17)) rest) :=
    Reaches.after (by decide +kernel) fun _ _ _ => trivial
  have hall : ∀ m ∈ (after step (after step (start firstLoop 5) (idleRun.take 17)) rest).messages,
      m.2 ≤ (after step (start firstLoop 5) (idleRun.take 17)).now := by decide +kernel
  exact idle_closed hs ht (by decide +kernel) (by decide +kernel) (by decide +kernel)
    fun m hmem => hall (1, m) hmem

end IdleClock

end LearnMuduo
