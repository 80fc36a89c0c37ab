/-
  LearnMuduo.Server.Life

  The life of one connection of the server, as the loops share it.

  `Life` keeps what decides who owns the connection and what is still to happen to it:
  its entry in `connections_`, the functors queued for it, and whether its Channel is
  being handled.  `Life.Step` is what any one step of any loop may do to that, and
  `Life.Kept` is what holds throughout: until `connectDestoryed` has run, the connection
  is in `connections_` or `connectDestoryed` is queued, and nothing that uses it without
  owning it comes after that.
-/
import LearnMuduo.Server.Loops

namespace LearnMuduo

/-- `epoll_ctl` watches the descriptor only while the Channel knows itself added. -/
def Channel.IndexAgrees (ch : Channel) : Prop := ch.index_ ≠ .kAdded → ch.interest = none

theorem Channel.updateChannel_indexAgrees (ch : Channel) : ch.updateChannel.IndexAgrees := by
  unfold Channel.updateChannel
  split
  · exact fun hne => absurd rfl hne
  · exact fun hne => absurd rfl hne
  · rename_i hindex
    split
    · exact fun _ => rfl
    · exact fun hne => absurd hindex hne

theorem Channel.remove_inChannels {ch : Channel} : ch.remove.inChannels_ = false := by
  by_cases hindex : ch.index_ = .kAdded <;> simp [Channel.remove, hindex, Channel.epollerUpdate]

theorem Channel.IndexAgrees.remove_interest {ch : Channel} (h : ch.IndexAgrees) :
    ch.remove.interest = none := by
  by_cases hindex : ch.index_ = .kAdded
  · simp [Channel.remove, hindex, Channel.epollerUpdate, epoll_ctl]
  · simp [Channel.remove, hindex, h hindex]

/-- A connection as the loops see it. -/
structure Life where
  /-- The object has been constructed. -/
  born : Bool
  state_ : ConnState
  channel_ : Channel
  destroyed : Bool
  /-- In `connections_`. -/
  mapped : Bool
  /-- A functor `removeConnectionInLoop` has still to run. -/
  removing : Bool
  /-- The functors its loop has still to run, in their order. -/
  queue : List Kind
  /-- Among the entries of `activeChannels_` still to be handled, or being handled. -/
  busy : Bool
  /-- In `handleClose`, before `closecb_`. -/
  closing : Bool
  /-- In `shutdown` on the main loop, behind the test of `state_`. -/
  shutting : Bool
  deriving DecidableEq, Repr

namespace Life

def unborn : Life :=
  { born := false, state_ := .kConnecting, channel_ := Channel.new, destroyed := false
    mapped := false, removing := false, queue := [], busy := false, closing := false
    shutting := false }

/-- What a step of a loop may do to one connection. -/
inductive Step (l : Life) : Life → Prop where
  | newConnection : l.born = false → Step l { unborn with
      born := true, mapped := true, queue := [.connectEstablished] }
  /-- `epoll_wait` reports it, or a step is over that had to do with it. -/
  | turn (busy removing closing : Bool) :
      (busy = true → l.busy = true ∨ l.channel_.interest.isSome = true) →
      (removing = true → l.removing = true) → (closing = true → l.closing = true) →
      Step l { l with busy := busy, removing := removing, closing := closing }
  /-- A handler ran on its loop. -/
  | handle {state_ : ConnState} {channel_ : Channel} {busy : Bool} : l.busy = true →
      (state_ = l.state_ ∨ state_ ≠ .kConnected) → (l.channel_.IndexAgrees → channel_.IndexAgrees) →
      Step l { l with state_ := state_, channel_ := channel_, busy := busy, closing := false }
  | enterClose : l.busy = true → Step l { l with
      state_ := .kdisConnected, channel_ := l.channel_.disableAll, closing := true }
  | closecb : l.busy = true → l.closing = true →
      Step l { l with removing := true, closing := false }
  | enterShutdown : l.state_ = .kConnected → Step l { l with shutting := true }
  | setState : l.shutting = true → Step l { l with state_ := .kDisConnecting }
  | queueShutdown : l.shutting = true →
      Step l { l with queue := l.queue ++ [.shutdownInloop], shutting := false }
  | removeConnectionInLoop {removing : Bool} : l.removing = true → l.shutting = false →
      Step l { l with
        mapped := false, removing := removing, queue := l.queue ++ [.connectDestoryed] }
  | connectEstablished {rest : List Kind} : l.queue = .connectEstablished :: rest →
      Step l { l with
        state_ := .kConnected, channel_ := l.channel_.enableReading, queue := rest }
  | shutdownInloop {rest : List Kind} : l.queue = .shutdownInloop :: rest →
      Step l { l with queue := rest }
  | connectDestoryed {rest : List Kind} {state_ : ConnState} {channel_ : Channel} :
      l.queue = .connectDestoryed :: rest → l.busy = false →
      (state_ = l.state_ ∨ state_ ≠ .kConnected) → (l.channel_.IndexAgrees → channel_.IndexAgrees) →
      Step l { l with
        state_ := state_, channel_ := channel_.remove, destroyed := true, queue := rest }

/-- The connection has been closed, or is being closed. -/
def Ended (l : Life) : Prop :=
  l.removing = true ∨ .connectDestoryed ∈ l.queue ∨ l.destroyed = true ∨ l.closing = true

structure Kept (l : Life) : Prop where
  unborn : l.born = false → l = Life.unborn
  once : l.queue.count .connectEstablished ≤ 1
  -- until `connectEstablished` has run the Channel is not watched, so nothing is handled
  young : .connectEstablished ∈ l.queue →
    l.channel_.interest = none ∧ l.busy = false ∧ ¬ l.Ended
  -- `shutdown` goes no further than its test
  ended : l.Ended → l.state_ ≠ .kConnected
  -- the reference that keeps the connection alive
  held : l.born = true → l.destroyed = false → l.mapped = true ∨ .connectDestoryed ∈ l.queue
  mapped : l.mapped = true → l.destroyed = false ∧ .connectDestoryed ∉ l.queue
  shutting : l.shutting = true → l.mapped = true
  -- the functor bound to the raw `this` never comes behind `connectDestoryed`
  order : l.queue.Pairwise fun a b => a = .connectDestoryed → b ≠ .shutdownInloop
  gone : l.destroyed = true → .shutdownInloop ∉ l.queue ∧ l.busy = false ∧
    l.channel_.inChannels_ = false ∧ l.channel_.interest = none
  index : l.channel_.IndexAgrees

variable {l l' : Life}

theorem Kept.of_unborn : Kept Life.unborn where
  unborn _ := rfl
  once := Nat.zero_le _
  young h := absurd h List.not_mem_nil
  ended h := by simp [Ended, Life.unborn] at h
  held h := by cases h
  mapped h := by cases h
  shutting h := by cases h
  order := .nil
  gone h := by cases h
  index _ := rfl

/-- What has begun for a connection is for one that was accepted. -/
theorem Kept.born_of (h : Kept l) (hne : l ≠ Life.unborn) : l.born = true := by
  by_contra hb
  exact hne (h.unborn (Bool.eq_false_iff.mpr hb))

theorem Kept.born_of_queue (h : Kept l) (hne : l.queue ≠ []) : l.born = true :=
  h.born_of fun he => hne (by rw [he]; rfl)

theorem Kept.born_of_busy (h : Kept l) (hbusy : l.busy = true) : l.born = true :=
  h.born_of fun he => by simp [he, Life.unborn] at hbusy

theorem Kept.born_of_mapped (h : Kept l) (hmapped : l.mapped = true) : l.born = true :=
  h.born_of fun he => by simp [he, Life.unborn] at hmapped

/-- A connection that is being handled has not been destroyed, and is past
    `connectEstablished`. -/
theorem Kept.of_busy (h : Kept l) (hbusy : l.busy = true) :
    l.destroyed = false ∧ .connectEstablished ∉ l.queue := by
  refine ⟨?_, fun hmem => ?_⟩
  · by_contra hd
    exact Bool.false_ne_true ((h.gone (Bool.not_eq_false _ ▸ hd)).2.1.symm.trans hbusy)
  · exact Bool.false_ne_true ((h.young hmem).2.1.symm.trans hbusy)

theorem Kept.turn {busy removing closing : Bool} (h : Kept l)
    (hbusy : busy = true → l.busy = true ∨ l.channel_.interest.isSome = true)
    (hremoving : removing = true → l.removing = true)
    (hclosing : closing = true → l.closing = true) :
    Kept { l with busy := busy, removing := removing, closing := closing } := by
  -- nothing ends in such a step
  have hended : Ended { l with busy := busy, removing := removing, closing := closing } →
      l.Ended := by
    rintro (hr | hd | hd | hc)
    · exact Or.inl (hremoving hr)
    · exact Or.inr (Or.inl hd)
    · exact Or.inr (Or.inr (Or.inl hd))
    · exact Or.inr (Or.inr (Or.inr (hclosing hc)))
  -- a Channel that the kernel does not watch is not reported
  have hidle : l.busy = false → l.channel_.interest = none → busy = false := by
    intro hb hi
    by_contra hne
    rcases hbusy (Bool.not_eq_false _ ▸ hne) with h' | h'
    · simp [hb] at h'
    · simp [hi] at h'
  refine ⟨fun hb => ?_, h.once, fun hmem => ?_, fun he => h.ended (hended he), h.held, h.mapped,
    h.shutting, h.order, fun hd => ?_, h.index⟩
  · -- of a connection that was not accepted nothing is left over or reported
    obtain rfl := h.unborn hb
    have h1 : busy = false := hidle rfl rfl
    have h2 : removing = false := Bool.eq_false_iff.mpr fun hr => by cases hremoving hr
    have h3 : closing = false := Bool.eq_false_iff.mpr fun hc => by cases hclosing hc
    subst h1 h2 h3
    rfl
  · obtain ⟨hi, hb, he⟩ := h.young hmem
    exact ⟨hi, hidle hb hi, fun he' => he (hended he')⟩
  · obtain ⟨hs, hb, hc, hi⟩ := h.gone hd
    exact ⟨hs, hidle hb hi, hc, hi⟩

/-- What a handler does to its connection is bound by the state and the index alone. -/
theorem Kept.of_handler {state_ : ConnState} {channel_ : Channel} {removing busy closing : Bool}
    (h : Kept l) (hbusy : l.busy = true)
    (hended : removing = true ∨ .connectDestoryed ∈ l.queue ∨ closing = true →
      state_ ≠ .kConnected)
    (hindex : channel_.IndexAgrees) :
    Kept { l with
      state_ := state_, channel_ := channel_, removing := removing, busy := busy
      closing := closing } := by
  -- the clauses about `connectEstablished` and about destroyed connections do not apply
  obtain ⟨hlive, hold⟩ := h.of_busy hbusy
  refine ⟨fun hb => ?_, h.once, fun hmem => absurd hmem hold, ?_, h.held, h.mapped, h.shutting,
    h.order, fun hd => ?_, hindex⟩
  · exact absurd hb (by simp [h.born_of_busy hbusy])
  · rintro (hr | hd | hd | hc)
    · exact hended (Or.inl hr)
    · exact hended (Or.inr (Or.inl hd))
    · exact absurd hd (by simp [hlive])
    · exact hended (Or.inr (Or.inr hc))
  · exact absurd hd (by simp [hlive])

theorem Kept.handle {state_ : ConnState} {channel_ : Channel} {busy : Bool} (h : Kept l)
    (hbusy : l.busy = true) (hstate : state_ = l.state_ ∨ state_ ≠ .kConnected)
    (hindex : l.channel_.IndexAgrees → channel_.IndexAgrees) :
    Kept { l with state_ := state_, channel_ := channel_, busy := busy, closing := false } := by
  refine h.of_handler hbusy (fun he => ?_) (hindex h.index)
  rcases hstate with rfl | hne
  · apply h.ended
    rcases he with hr | hd | hc
    · exact Or.inl hr
    · exact Or.inr (Or.inl hd)
    · cases hc
  · exact hne

theorem Kept.enterClose (h : Kept l) (hbusy : l.busy = true) :
    Kept { l with
      state_ := .kdisConnected, channel_ := l.channel_.disableAll, closing := true } :=
  h.of_handler hbusy (fun _ => by decide) (Channel.updateChannel_indexAgrees _)

theorem Kept.closecb (h : Kept l) (hbusy : l.busy = true) (hclosing : l.closing = true) :
    Kept { l with removing := true, closing := false } :=
  h.of_handler hbusy (fun _ => h.ended (Or.inr (Or.inr (Or.inr hclosing)))) h.index

/-- A connection that is found connected is still in `connections_`. -/
theorem Kept.enterShutdown (h : Kept l) (hstate : l.state_ = .kConnected) :
    Kept { l with shutting := true } := by
  -- `state_` is `kConnected` only while nothing has ended the connection
  have hnot : ¬ l.Ended := fun he => h.ended he hstate
  have hborn : l.born = true := h.born_of fun he => by simp [he, Life.unborn] at hstate
  have hmapped : l.mapped = true := by
    refine (h.held hborn ?_).resolve_right fun hd => hnot (Or.inr (Or.inl hd))
    exact Bool.eq_false_iff.mpr fun hd => hnot (Or.inr (Or.inr (Or.inl hd)))
  exact ⟨fun hb => absurd hb (by simp [hborn]), h.once, h.young, h.ended, h.held, h.mapped,
    fun _ => hmapped, h.order, h.gone, h.index⟩

theorem Kept.setState (h : Kept l) (hshutting : l.shutting = true) :
    Kept { l with state_ := .kDisConnecting } :=
  { h with
    unborn := fun hb => absurd hb (by simp [h.born_of_mapped (h.shutting hshutting)])
    ended := fun _ => ConnState.noConfusion }

/-- The functor bound to the raw `this` is queued before `connectDestoryed`. -/
theorem Kept.queueShutdown (h : Kept l) (hshutting : l.shutting = true) :
    Kept { l with queue := l.queue ++ [.shutdownInloop], shutting := false } := by
  have hmapped := h.shutting hshutting
  obtain ⟨hlive, hD⟩ := h.mapped hmapped
  -- the push concerns no other kind of functor
  have hmem : ∀ k, k ≠ Kind.shutdownInloop →
      (k ∈ l.queue ++ [.shutdownInloop] ↔ k ∈ l.queue) := fun k hk => by simp [hk]
  have hended : Ended { l with queue := l.queue ++ [.shutdownInloop], shutting := false } ↔
      l.Ended := by
    unfold Ended
    rw [hmem _ (by decide)]
  exact {
    unborn := fun hb => absurd hb (by simp [h.born_of_mapped hmapped])
    once := by rw [List.count_append]; exact h.once
    young := fun hE => by
      obtain ⟨hi, hb, he⟩ := h.young ((hmem _ (by decide)).mp hE)
      exact ⟨hi, hb, fun he' => he (hended.mp he')⟩
    ended := fun he => h.ended (hended.mp he)
    held := fun _ _ => Or.inl hmapped
    mapped := fun _ => ⟨hlive, fun hd => hD ((hmem _ (by decide)).mp hd)⟩
    shutting := fun _ => hmapped
    order := by
      refine List.pairwise_append.mpr ⟨h.order, List.pairwise_singleton _ _, ?_⟩
      -- `connectDestoryed` is not queued while the connection is in `connections_`
      rintro a ha b - rfl
      exact absurd ha hD
    gone := fun hd => absurd hd (by simp [hlive])
    index := h.index }

/-- `connectDestoryed` takes over from `connections_`. -/
theorem Kept.removeConnectionInLoop {removing : Bool} (h : Kept l)
    (hremoving : l.removing = true) (hshutting : l.shutting = false) :
    Kept { l with
      mapped := false, removing := removing, queue := l.queue ++ [.connectDestoryed] } := by
  have hended : l.Ended := Or.inl hremoving
  -- the push concerns no other kind of functor
  have hmem : ∀ k, k ≠ Kind.connectDestoryed →
      (k ∈ l.queue ++ [.connectDestoryed] ↔ k ∈ l.queue) := fun k hk => by simp [hk]
  have hborn : l.born = true := h.born_of fun he => by simp [he, Life.unborn] at hremoving
  exact {
    unborn := fun hb => absurd hb (by simp [hborn])
    once := by rw [List.count_append]; exact h.once
    young := fun hE => absurd hended (h.young ((hmem _ (by decide)).mp hE)).2.2
    ended := fun _ => h.ended hended
    held := fun _ _ => Or.inr (by simp)
    mapped := fun hm => absurd hm Bool.false_ne_true
    shutting := fun hs => absurd hs (by simp [hshutting])
    order := by
      refine List.pairwise_append.mpr ⟨h.order, List.pairwise_singleton _ _, ?_⟩
      -- the functor that is pushed is not `shutdownInloop`
      rintro a - b hb -
      obtain rfl := List.mem_singleton.mp hb
      decide
    gone := fun hd => by
      obtain ⟨hS, hrest⟩ := h.gone hd
      exact ⟨fun hs => hS ((hmem _ (by decide)).mp hs), hrest⟩
    index := h.index }

theorem Kept.newConnection : Kept { Life.unborn with
    born := true, mapped := true, queue := [.connectEstablished] } where
  unborn hb := by cases hb
  once := Nat.le_refl 1
  young _ := ⟨rfl, rfl, by simp [Ended, Life.unborn]⟩
  ended he := by simp [Ended, Life.unborn] at he
  held _ _ := Or.inl rfl
  mapped _ := ⟨rfl, by simp⟩
  shutting hs := by cases hs
  order := List.pairwise_singleton _ _
  gone hd := by cases hd
  index _ := rfl

/-- `connectEstablished` is the first functor of a connection, and runs once. -/
theorem Kept.connectEstablished {rest : List Kind} (h : Kept l)
    (hqueue : l.queue = .connectEstablished :: rest) :
    Kept { l with
      state_ := .kConnected, channel_ := l.channel_.enableReading, queue := rest } := by
  have hsub : ∀ k, k ∈ rest → k ∈ l.queue := fun k hk => hqueue ▸ List.mem_cons_of_mem _ hk
  obtain ⟨-, -, hnot⟩ := h.young (hqueue ▸ List.mem_cons_self)
  have hlive : l.destroyed ≠ true := fun hd => hnot (Or.inr (Or.inr (Or.inl hd)))
  -- it was queued once
  have hold : .connectEstablished ∉ rest := by
    have := h.once
    rw [hqueue, List.count_cons_self] at this
    exact List.count_eq_zero.mp (by omega)
  exact {
    unborn := fun hb => absurd hb (by simp [h.born_of_queue (hqueue ▸ List.cons_ne_nil _ _)])
    once := by rw [List.count_eq_zero.mpr hold]; exact Nat.zero_le 1
    young := fun hE => absurd hE hold
    ended := by
      rintro (hr | hd | hd | hc)
      · exact absurd (Or.inl hr) hnot
      · exact absurd (Or.inr (Or.inl (hsub _ hd))) hnot
      · exact absurd hd hlive
      · exact absurd (Or.inr (Or.inr (Or.inr hc))) hnot
    held := fun hb hd => (h.held hb hd).imp_right fun hm => by simpa [hqueue] using hm
    mapped := fun hm => ⟨(h.mapped hm).1, fun hd => (h.mapped hm).2 (hsub _ hd)⟩
    shutting := h.shutting
    order := (List.pairwise_cons.mp (hqueue ▸ h.order)).2
    gone := fun hd => absurd hd hlive
    index := Channel.updateChannel_indexAgrees _ }

theorem Kept.shutdownInloop {rest : List Kind} (h : Kept l)
    (hqueue : l.queue = .shutdownInloop :: rest) : Kept { l with queue := rest } := by
  have hsub : ∀ k, k ∈ rest → k ∈ l.queue := fun k hk => hqueue ▸ List.mem_cons_of_mem _ hk
  have hended : Ended { l with queue := rest } → l.Ended := fun he => by
    unfold Ended at he ⊢
    exact he.imp_right (Or.imp_left (hsub _))
  exact {
    unborn := fun hb => absurd hb (by simp [h.born_of_queue (hqueue ▸ List.cons_ne_nil _ _)])
    once := by have := h.once; rwa [hqueue, List.count_cons_of_ne (by decide)] at this
    young := fun hE => by
      obtain ⟨hi, hb, he⟩ := h.young (hsub _ hE)
      exact ⟨hi, hb, fun he' => he (hended he')⟩
    ended := fun he => h.ended (hended he)
    held := fun hb hd => (h.held hb hd).imp_right fun hm => by simpa [hqueue] using hm
    mapped := fun hm => ⟨(h.mapped hm).1, fun hd => (h.mapped hm).2 (hsub _ hd)⟩
    shutting := h.shutting
    order := (List.pairwise_cons.mp (hqueue ▸ h.order)).2
    gone := fun hd => ⟨fun hs => (h.gone hd).1 (hsub _ hs), (h.gone hd).2⟩
    index := h.index }

/-- Behind `connectDestoryed` nothing is left that uses the connection without owning it. -/
theorem Kept.connectDestoryed {rest : List Kind} {state_ : ConnState} {channel_ : Channel}
    (h : Kept l) (hqueue : l.queue = .connectDestoryed :: rest) (hbusy : l.busy = false)
    (hstate : state_ = l.state_ ∨ state_ ≠ .kConnected)
    (hindex : l.channel_.IndexAgrees → channel_.IndexAgrees) :
    Kept { l with
      state_ := state_, channel_ := channel_.remove, destroyed := true, queue := rest } := by
  have hsub : ∀ k, k ∈ rest → k ∈ l.queue := fun k hk => hqueue ▸ List.mem_cons_of_mem _ hk
  have hmem : .connectDestoryed ∈ l.queue := hqueue ▸ List.mem_cons_self
  have hended : l.Ended := Or.inr (Or.inl hmem)
  have horder := h.order
  rw [hqueue, List.pairwise_cons] at horder
  -- what is left of the queue was behind `connectDestoryed`
  have hS : .shutdownInloop ∉ rest := fun hs => horder.1 _ hs rfl rfl
  have hinterest : channel_.remove.interest = none := (hindex h.index).remove_interest
  -- `connections_` gave the connection up when the functor was queued
  have hunmapped : l.mapped ≠ true := fun hm => (h.mapped hm).2 hmem
  exact {
    unborn := fun hb => absurd hb (by simp [h.born_of_queue (hqueue ▸ List.cons_ne_nil _ _)])
    once := by have := h.once; rwa [hqueue, List.count_cons_of_ne (by decide)] at this
    young := fun hE => absurd hended (h.young (hsub _ hE)).2.2
    ended := fun _ => by
      rcases hstate with rfl | hne
      · exact h.ended hended
      · exact hne
    held := fun _ hd => by cases hd
    mapped := fun hm => absurd hm hunmapped
    shutting := h.shutting
    order := horder.2
    gone := fun _ => ⟨hS, hbusy, Channel.remove_inChannels, hinterest⟩
    index := fun _ => hinterest }

theorem Step.kept (h : Kept l) (hs : Step l l') : Kept l' := by
  cases hs with
  | newConnection => exact .newConnection
  | turn busy removing closing hbusy hremoving hclosing => exact h.turn hbusy hremoving hclosing
  | handle hbusy hstate hindex => exact h.handle hbusy hstate hindex
  | enterClose hbusy => exact h.enterClose hbusy
  | closecb hbusy hclosing => exact h.closecb hbusy hclosing
  | enterShutdown hstate => exact h.enterShutdown hstate
  | setState hshutting => exact h.setState hshutting
  | queueShutdown hshutting => exact h.queueShutdown hshutting
  | removeConnectionInLoop hremoving hshutting =>
    exact h.removeConnectionInLoop hremoving hshutting
  | connectEstablished hqueue => exact h.connectEstablished hqueue
  | shutdownInloop hqueue => exact h.shutdownInloop hqueue
  | connectDestoryed hqueue hbusy hstate hindex =>
    exact h.connectDestoryed hqueue hbusy hstate hindex

/-- A connection stays destroyed. -/
theorem Step.destroyed (h : Kept l) (hs : Step l l') (hd : l.destroyed = true) :
    l'.destroyed = true := by
  cases hs with
  | newConnection hborn =>
    obtain rfl := h.unborn hborn
    cases hd
  | connectDestoryed => rfl
  | _ => exact hd

theorem Step.refl (l : Life) : Step l l := .turn l.busy l.removing l.closing Or.inl id id

end Life

end LearnMuduo
