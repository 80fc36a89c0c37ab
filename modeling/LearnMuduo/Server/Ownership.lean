/-
  LearnMuduo.Server.Ownership

  Who keeps a connection of the server alive.

  Every step of every loop takes each connection through a step of its life, so
  `Life.Kept` holds of all of them in every reachable state.  A connection that no
  `shared_ptr` points to is neither in `connections_` nor bound to a queued
  `connectDestoryed`, and therefore `connectDestoryed` has run for it
  (`destroyed_before_released`).
-/
import LearnMuduo.Server.IoSteps

namespace LearnMuduo

open Lib

namespace HttpServerLoops

section

variable {n : Nat}

/-- Nothing that uses the connection without owning it is left. -/
structure Unused (s : HttpServerLoops n) (c : Nat) : Prop where
  inChannels : (s.tcp c).channel_.inChannels_ = false
  interest : (s.tcp c).channel_.interest = none
  active : ∀ i, ∀ e ∈ (s.io i).activeChannels_, e.1 ≠ c
  handled : ∀ i revents stage, (s.io i).pc ≠ .handler c revents stage
  shutdown : ∀ i, ⟨.shutdownInloop, c⟩ ∉ (s.io i).todo ++ (s.io i).pendingFunctors_

variable {s s' t : HttpServerLoops n} {c : Nat}

theorem step_goes {a : LoopsAction n} (h : s.Sound) (hs : s.step a = some s') : s.Goes s' := by
  cases a with
  | main a => exact main_goes h hs
  | io i a => exact io_goes h hs

theorem start_sound (first : Fin n) (closeIdleConn : Bool) :
    (start first closeIdleConn).Sound := by
  refine ⟨⟨Nat.one_pos, fun i => ?_, fun c i hd => by cases hd⟩, fun c => ?_⟩
  · exact {
      functors := fun f hf => absurd hf List.not_mem_nil
      busy := fun c hc => absurd hc Bool.false_ne_true
      idle := fun _ => rfl
      batch := fun _ => rfl
      held := fun f hf => hf }
  · -- none is accepted yet
    have hborn : decide (0 < c ∧ c < 1) = false := decide_eq_false (by omega)
    have hlife : (start first closeIdleConn).life c
        = { Life.unborn with born := decide (0 < c ∧ c < 1) } := rfl
    rw [hlife, hborn]
    exact .of_unborn

theorem Sound.reaches (h : s.Sound) (hr : Reachable step s t) : t.Sound :=
  hr.invariant h fun _ _ _ hx _ hs => hx.goes (step_goes hx hs)

theorem Sound.destroyed_reaches (h : s.Sound) (hd : (s.life c).destroyed = true)
    (hr : Reachable step s t) : (t.life c).destroyed = true := by
  refine (hr.invariant (P := fun s => s.Sound ∧ (s.life c).destroyed = true) ⟨h, hd⟩ ?_).2
  rintro x a y ⟨hx, hxd⟩ - hs
  have hgoes := step_goes hx hs
  exact ⟨hx.goes hgoes, (hgoes.life c).destroyed (hx.kept c) hxd⟩

/-- The references that last until `connectDestoryed` has run: the one in `connections_`, and
    the one of the functor on the connection's loop. -/
theorem Sound.mapped_or_queued (h : s.Sound) (hpos : 0 < c) (hacc : c < s.nextConnId_)
    (hlive : (s.life c).destroyed = false) :
    c ∈ s.connections_ ∨ c ∈ (s.io (s.loopOf c)).holders := by
  have hborn : (s.life c).born = true := decide_eq_true ⟨hpos, hacc⟩
  rcases (h.kept c).held hborn hlive with hmapped | hqueue
  · exact Or.inl (of_decide_eq_true hmapped)
  · have hmem : ⟨.connectDestoryed, c⟩ ∈ (s.io (s.loopOf c)).queue := mem_kinds.mp hqueue
    -- a functor that is still to run is in the local vector until the batch is over
    have hfunctor : (⟨.connectDestoryed, c⟩ : IoFunctor) ∈
        (s.io (s.loopOf c)).pendingFunctors_ ++ (s.io (s.loopOf c)).localFunctors := by
      rcases List.mem_append.mp hmem with ht | hp
      · exact List.mem_append_right _ ((h.tidy.io _).held _ ht)
      · exact List.mem_append_left _ hp
    exact Or.inr (List.mem_append_left _ (List.mem_filterMap.mpr ⟨_, hfunctor, rfl⟩))

theorem Sound.held (h : s.Sound) (hpos : 0 < c) (hacc : c < s.nextConnId_)
    (hlive : (s.life c).destroyed = false) : c ∈ s.holders := by
  rcases h.mapped_or_queued hpos hacc hlive with hmapped | hloop
  · exact List.mem_append_left _ hmapped
  · refine List.mem_append_right _ (List.mem_append_right _ (List.mem_flatMap.mpr ?_))
    exact ⟨_, List.mem_finRange _, hloop⟩

/-- Whatever uses a connection without owning it is over once `connectDestoryed` has run. -/
theorem Sound.unused (h : s.Sound) (hd : (s.life c).destroyed = true) : s.Unused c := by
  obtain ⟨hshutdown, hbusy, hin, hinterest⟩ := (h.kept c).gone hd
  -- a loop handles only its own connections
  have hfree : ∀ i, (s.io i).busy c = false := by
    intro i
    by_contra hne
    have hb := (Bool.not_eq_false _).mp hne
    obtain rfl := (h.tidy.io i).busy c hb
    exact Bool.false_ne_true (hbusy.symm.trans hb)
  refine ⟨hin, hinterest, fun i e he hec => ?_, fun i revents stage hpc => ?_, fun i hmem => ?_⟩
  · have := hfree i
    rw [IoLoop.busy, Bool.or_eq_false_iff, List.any_eq_false] at this
    exact this.1 e he (decide_eq_true hec)
  · exact Bool.false_ne_true ((hfree i).symm.trans (busy_of_handler hpc))
  · obtain rfl := (h.tidy.io i).functors _ hmem
    exact hshutdown (mem_kinds.mpr hmem)

end

variable {s : HttpServerLoops} {c : Nat}

/-- The last `shared_ptr` to an accepted connection goes only after `connectDestoryed` has
    run on its loop, and from then on nothing uses the connection. -/
theorem destroyed_before_released {closeIdleConn : Bool}
    (hs : Reachable step (new closeIdleConn) s) (hpos : 0 < c) (hacc : c < s.nextConnId_)
    (hfree : c ∉ s.holders) :
    (s.conns c).destroyedIn = some (s.conns c).loop_ ∧
      ∀ t, Reachable step s t → t.Unused c := by
  have h : s.Sound := (start_sound firstLoop closeIdleConn).reaches hs
  -- a connection that lives on is held
  have hd : (s.life c).destroyed = true := by
    by_contra hne
    exact hfree (h.held hpos hacc ((Bool.not_eq_true _).mp hne))
  refine ⟨?_, fun t ht => (h.reaches ht).unused (h.destroyed_reaches hd ht)⟩
  obtain ⟨i, hi⟩ := Option.isSome_iff_exists.mp hd
  rw [hi, h.tidy.destroyed c i hi]
  rfl

/-- A peer hangs up, so that a read gives 0, while `HandleIdleConnection` is in `shutdown` with
    its connection. -/
def hangupActions : List LoopsAction :=
  let readable : Events := { kNoneEvent with EPOLLIN := true }
  [.main (.newConnection 5),
    .io firstLoop (.poll []), .io firstLoop .swap, .io firstLoop .functor,
    .io firstLoop .batchDone,
    .main (.HandleIdleConnection 1), .main (.testIdle true),
    .io firstLoop (.poll [(1, readable)]), .io firstLoop .handleEvent, .io firstLoop .hangup,
    .io firstLoop (.handleRead (.bytes []) 0), .io firstLoop .closecb,
    .io firstLoop (.handleWrite (.error 0)),
    .main .setState, .main .queueShutdown, .main .release,
    .main .swap, .main .removeConnectionInLoop, .main .batchDone,
    .io firstLoop .swap, .io firstLoop .functor, .io firstLoop .functor,
    .io firstLoop .batchDone]

theorem destroyed_before_released_hangup :
    ((after step (new true) hangupActions).conns 1).destroyedIn = some firstLoop ∧
      ∀ t, Reachable step (after step (new true) hangupActions) t → t.Unused 1 := by
  have hreach : Reachable step (new true) (after step (new true) hangupActions) :=
    Reaches.after (by decide +kernel) fun _ _ _ => trivial
  have hloop : ((after step (new true) hangupActions).conns 1).loop_ = firstLoop := by
    decide +kernel
  obtain ⟨hdestroyed, hunused⟩ :=
    destroyed_before_released hreach Nat.one_pos (by decide +kernel) (by decide +kernel)
  exact ⟨hdestroyed.trans (congrArg some hloop), hunused⟩

end HttpServerLoops

end LearnMuduo
