/-
  LearnMuduo.Net.EmptyInterest

  A Channel that asks for no event and the kernel's list.

  `Epoller::updateChannel` looks at the mask in one branch only, that of a Channel that
  is added.  A call that leaves no event to ask for therefore takes an added descriptor
  out of the list and puts any other one in.  Whether a Channel without events is listed
  is decided by the last call alone and by `index_` before it (`apply_quiet_iff`), so for
  a whole sequence of calls the exact condition is that none of them empties the mask of
  a Channel that is not added.

  What is said of one Channel holds of each Channel of an Epoller, since the calls on the
  others do not concern it (`view_performAll`).
-/
import Mathlib.Data.List.Induction
import LearnMuduo.Net.Epoller

namespace LearnMuduo

/-- The events that are asked for behind a call. -/
def ChannelOp.mask (events : Events) : ChannelOp → Events
  | .enableReading => events.or kReadEvent
  | .disableReading => events.minus kReadEvent
  | .enableWriting => events.or kWriteEvent
  | .disableWriting => events.minus kWriteEvent
  | .disableAll => kNoneEvent
  | .remove => events

namespace Channel

/-- `Channel::Init`; it tells neither the Poller nor the kernel. -/
def Init (ch : Channel) : Channel := { ch with events_ := kNoneEvent, index_ := .kNew }

def performAll (ch : Channel) (ops : List ChannelOp) : Channel := ops.foldl ChannelOp.apply ch

/-- Constructed or initialised, on a descriptor the kernel does not watch yet. -/
def Fresh (ch : Channel) : Prop := ch = new ∨ ∃ old : Channel, old.interest = none ∧ ch = old.Init

/-- While it asks for nothing the kernel does not watch it. -/
def Quiet (ch : Channel) : Prop := ch.events_ = kNoneEvent → ch.interest = none

/-- The call does not empty the mask of a Channel that is not added. -/
def Allowed (ch : Channel) (a : ChannelOp) : Prop :=
  a ≠ .remove → a.mask ch.events_ = kNoneEvent → ch.index_ = .kAdded

/-! ## One call -/

section Call

variable {ch : Channel}

theorem Listed.unwatched (h : ch.Listed) (hindex : ch.index_ ≠ .kAdded) : ch.interest = none := by
  rw [← Option.not_isSome_iff_eq_none]
  exact fun hsome => hindex (h.mpr hsome)

theorem Listed.watched (h : ch.Listed) (hindex : ch.index_ = .kAdded) :
    ∃ old, ch.interest = some old :=
  Option.isSome_iff_exists.mp (h.mp hindex)

theorem apply_eq_updateChannel {a : ChannelOp} (ha : a ≠ .remove) :
    a.apply ch = { ch with events_ := a.mask ch.events_ }.updateChannel := by
  cases a with
  | remove => exact absurd rfl ha
  | _ => rfl

theorem updateChannel_listed (h : ch.Listed) : ch.updateChannel.Listed := by
  by_cases hindex : ch.index_ = .kAdded
  · obtain ⟨old, hold⟩ := h.watched hindex
    rw [updateChannel_changed hindex hold]
    split
    · simp [Listed]
    · simp [Listed, hindex]
  · rw [updateChannel_added hindex (h.unwatched hindex)]
    simp [Listed]

theorem Listed.remove (h : ch.Listed) : ch.remove.interest = none ∧ ch.remove.Listed := by
  by_cases hindex : ch.index_ = .kAdded
  · simp [Channel.remove, hindex, epollerUpdate, epoll_ctl, Listed]
  · simp [Channel.remove, hindex, h.unwatched hindex, Listed]

theorem Listed.apply (h : ch.Listed) (a : ChannelOp) : (a.apply ch).Listed := by
  by_cases ha : a = .remove
  · subst ha
    exact h.remove.2
  · rw [apply_eq_updateChannel ha]
    exact updateChannel_listed h

/-- An update leaves a Channel without events out of the kernel's list iff it was added. -/
theorem updateChannel_quiet_iff (h : ch.Listed) :
    ch.updateChannel.Quiet ↔ (ch.events_ = kNoneEvent → ch.index_ = .kAdded) := by
  by_cases hindex : ch.index_ = .kAdded
  · obtain ⟨old, hold⟩ := h.watched hindex
    have hquiet : ch.updateChannel.Quiet := by
      intro hnone
      rw [updateChannel_events] at hnone
      have hnon : ch.isNonEvent = true := decide_eq_true hnone
      rw [updateChannel_changed hindex hold, hnon]
      rfl
    exact iff_of_true hquiet fun _ => hindex
  · have hadded := updateChannel_added hindex (h.unwatched hindex)
    constructor
    · intro hquiet hnone
      have hout : ch.updateChannel.interest = none := hquiet (by rw [updateChannel_events, hnone])
      rw [hadded] at hout
      cases hout
    · intro himp hnone
      rw [updateChannel_events] at hnone
      exact absurd (himp hnone) hindex

theorem apply_quiet_iff (h : ch.Listed) (a : ChannelOp) : (a.apply ch).Quiet ↔ ch.Allowed a := by
  by_cases ha : a = .remove
  · subst ha
    exact iff_of_true (fun _ => h.remove.1) fun hne => absurd rfl hne
  · have hmasked : Listed { ch with events_ := a.mask ch.events_ } := h
    rw [apply_eq_updateChannel ha, updateChannel_quiet_iff hmasked]
    exact ⟨fun himp _ => himp, fun hallowed => hallowed ha⟩

end Call

/-! ## Sequences of calls -/

section Calls

variable {ch : Channel}

theorem performAll_append (ops : List ChannelOp) (a : ChannelOp) :
    ch.performAll (ops ++ [a]) = a.apply (ch.performAll ops) := by
  rw [performAll, List.foldl_append]
  rfl

theorem Fresh.listed (h : ch.Fresh) : ch.Listed ∧ ch.Quiet := by
  rcases h with rfl | ⟨old, hold, rfl⟩
  · exact ⟨by simp [Listed, new], fun _ => rfl⟩
  · exact ⟨by simp [Listed, Init, hold], fun _ => hold⟩

theorem Listed.performAll (h : ch.Listed) (ops : List ChannelOp) : (ch.performAll ops).Listed := by
  induction ops generalizing ch with
  | nil => exact h
  | cons a ops ih => exact ih (h.apply a)

/-- Only the last call of a sequence counts. -/
theorem Fresh.performAll_quiet (h : ch.Fresh) (ops : List ChannelOp)
    (hallowed : ∀ done a, done ++ [a] <+: ops → (ch.performAll done).Allowed a) :
    (ch.performAll ops).Quiet := by
  cases ops using List.reverseRecOn with
  | nil => exact h.listed.2
  | append_singleton ops a =>
    rw [performAll_append]
    exact (apply_quiet_iff (h.listed.1.performAll ops) a).mpr
      (hallowed ops a (List.prefix_refl _))

/-- A fresh Channel is out of the kernel's list whenever it asks for nothing, iff no call
    empties its mask while it is not added. -/
theorem empty_unwatched_iff (ch : Channel) (hfresh : ch.Fresh) (ops : List ChannelOp) :
    (∀ done, done <+: ops →
      (ch.performAll done).events_ = kNoneEvent → (ch.performAll done).interest = none) ↔
    ∀ done a, done ++ [a] <+: ops → (ch.performAll done).Allowed a := by
  constructor
  · intro hquiet done a hpre
    have hlisted : (ch.performAll done).Listed := hfresh.listed.1.performAll done
    have hafter : (ch.performAll (done ++ [a])).Quiet := hquiet _ hpre
    rw [performAll_append] at hafter
    exact (apply_quiet_iff hlisted a).mp hafter
  · intro hallowed done hpre
    exact hfresh.performAll_quiet done fun pre a h => hallowed pre a (h.trans hpre)

/-- Reading switched on and off again. -/
theorem empty_unwatched_iff_example :
    (new.performAll [.enableReading, .disableReading]).interest = none := by
  refine (empty_unwatched_iff new (Or.inl rfl) [.enableReading, .disableReading]).mpr ?_ _
    (List.prefix_refl _) (by decide)
  intro done a hpre
  have hcases : (done = [] ∧ a = .enableReading) ∨
      (done = [.enableReading] ∧ a = .disableReading) := by
    obtain ⟨rest, hrest⟩ := hpre
    match done with
    | [] => simp_all
    | [_] => simp_all
    | _ :: _ :: done => simp_all
  rcases hcases with ⟨rfl, rfl⟩ | ⟨rfl, rfl⟩
  · exact fun _ hnone => absurd hnone (by decide)
  · exact fun _ _ => rfl

/-- What `Accepter::~Accepter` does to a Channel that never listened, and a second
    `disableReading`: the kernel watches the descriptor for an empty mask. -/
theorem disabled_watched :
    (new.performAll [.disableAll]).events_ = kNoneEvent ∧
    (new.performAll [.disableAll]).interest = some kNoneEvent ∧
    (new.performAll [.enableReading, .disableReading, .disableReading]).events_ = kNoneEvent ∧
    (new.performAll [.enableReading, .disableReading, .disableReading]).interest
      = some kNoneEvent := by
  decide

end Calls

end Channel

/-! ## All the Channels of a loop -/

namespace Epoller

variable {C : Type*} [DecidableEq C] {s : Epoller C} {c : C}

/-- The calls on one Channel. -/
def callsOn (c : C) (calls : List (C × ChannelOp)) : List ChannelOp :=
  (calls.filter (fun call => call.1 = c)).map Prod.snd

theorem callsOn_append (calls : List (C × ChannelOp)) (call : C × ChannelOp) :
    callsOn c (calls ++ [call]) = callsOn c calls ++ if call.1 = c then [call.2] else [] := by
  by_cases h : call.1 = c <;> simp [callsOn, h]

theorem performAll_append (calls : List (C × ChannelOp)) (call : C × ChannelOp) :
    s.performAll (calls ++ [call]) = (s.performAll calls).perform call.1 call.2 := by
  rw [performAll, List.foldl_append]
  rfl

/-- A Channel sees the calls on it and no others. -/
theorem view_performAll (hs : s.Sound) (calls : List (C × ChannelOp)) :
    (s.performAll calls).view c = (s.view c).performAll (callsOn c calls) := by
  induction calls using List.reverseRecOn with
  | nil => rfl
  | append_singleton calls call ih =>
    rw [performAll_append, callsOn_append]
    by_cases h : call.1 = c
    · rw [if_pos h, Channel.performAll_append, ← ih, h]
      exact view_perform
    · rw [if_neg h, List.append_nil, ← ih]
      have hfd : (s.performAll calls).fd c ≠ (s.performAll calls).fd call.1 :=
        fun heq => h ((hs.performAll calls).distinct heq).symm
      exact touches_perform.view (Ne.symm h) hfd

/-- The same of every Channel of an Epoller, whatever is called on the others. -/
theorem silent_unlisted {fd : C → Int} (hfd : Function.Injective fd)
    (calls : List (C × ChannelOp)) (c : C)
    (hallowed : ∀ done a, done ++ [a] <+: callsOn c calls →
      (Channel.new.performAll done).Allowed a)
    (hnone : (((new fd).performAll calls).channel c).events_ = kNoneEvent) :
    ((new fd).performAll calls).interest (fd c) = none := by
  have hrun : ((new fd).performAll calls).view c = Channel.new.performAll (callsOn c calls) :=
    view_performAll (new_sound hfd) calls
  have hfdc : ((new fd).performAll calls).fd c = fd c := fd_performAll calls
  have hquiet : (((new fd).performAll calls).view c).Quiet := by
    rw [hrun]
    exact Channel.Fresh.performAll_quiet (Or.inl rfl) _ hallowed
  simpa [view, hfdc] using hquiet hnone

end Epoller

end LearnMuduo
