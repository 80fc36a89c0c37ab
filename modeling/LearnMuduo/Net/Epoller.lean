/-
  LearnMuduo.Net.Epoller

  `bing::Epoller` (Net/Epoller.cc, Net/Poller.cc) with all the Channels of its loop.

  A Channel is known by its address.  The kernel's interest list maps a descriptor to
  the mask and the `data.ptr` it was last given; `epoll_ctl` refuses to add a
  descriptor that is present and to modify or delete one that is absent, and the
  refusals are recorded.  Seen from one Channel (`view`) a call is the one of
  Net/Channel, and no call concerns two Channels with different descriptors.
-/
import Mathlib.Logic.Function.Basic
import LearnMuduo.Net.Channel

namespace LearnMuduo

/-- `struct epoll_event` as the kernel keeps it. -/
structure EpollEvent (C : Type*) where
  events : Events
  ptr : C
  deriving DecidableEq, Repr

inductive EpollError where
  | EEXIST
  | ENOENT
  deriving DecidableEq, Repr

/-- What `epoll_ctl` makes of a descriptor's entry. -/
def epollEntry {C : Type*} (op : EpollOp) (event : EpollEvent C) :
    Option (EpollEvent C) → Except EpollError (Option (EpollEvent C))
  | none =>
    match op with
    | .EPOLL_CTL_ADD => .ok (some event)
    | .EPOLL_CTL_MOD | .EPOLL_CTL_DEL => .error .ENOENT
  | some _ =>
    match op with
    | .EPOLL_CTL_ADD => .error .EEXIST
    | .EPOLL_CTL_MOD => .ok (some event)
    | .EPOLL_CTL_DEL => .ok none

/-- The data of a Channel that the Epoller uses. -/
structure ChannelData where
  fd_ : Int
  events_ : Events
  index_ : ChannelIndex
  deriving DecidableEq, Repr

/-- A call on a Channel. -/
inductive ChannelOp where
  | enableReading
  | disableReading
  | enableWriting
  | disableWriting
  | disableAll
  | remove
  deriving DecidableEq, Repr

def ChannelOp.apply (ch : Channel) : ChannelOp → Channel
  | .enableReading => ch.enableReading
  | .disableReading => ch.disableReading
  | .enableWriting => ch.enableWriting
  | .disableWriting => ch.disableWriting
  | .disableAll => ch.disableAll
  | .remove => ch.remove

structure Epoller (C : Type*) where
  channel : C → ChannelData
  channels_ : Int → Option C
  /-- The kernel's interest list. -/
  interest : Int → Option (EpollEvent C)
  /-- The calls of `epoll_ctl` that failed. -/
  rejected : List (EpollOp × Int × EpollError)

namespace Epoller

variable {C : Type*}

/-- Channels just constructed on these descriptors, and an Epoller that knows none. -/
def new (fd : C → Int) : Epoller C :=
  { channel := fun c => { fd_ := fd c, events_ := kNoneEvent, index_ := .kNew }
    channels_ := fun _ => none
    interest := fun _ => none
    rejected := [] }

def fd (s : Epoller C) (c : C) : Int := (s.channel c).fd_

/-- `Epoller::update`. -/
def update (s : Epoller C) (operation : EpollOp) (c : C) : Epoller C :=
  let fd := s.fd c
  match epollEntry operation { events := (s.channel c).events_, ptr := c } (s.interest fd) with
  | .ok entry => { s with interest := Function.update s.interest fd entry }
  | .error e => { s with rejected := s.rejected ++ [(operation, fd, e)] }

/-! ## epoll_ctl -/

section EpollCtl

variable {s s' t : Epoller C} {c : C} {op : EpollOp}

/-- From `s` to `s'` only the Channel `c` and its descriptor are touched. -/
structure Touches (c : C) (s s' : Epoller C) : Prop where
  fd : ∀ d, s'.fd d = s.fd d
  channel : ∀ d, d ≠ c → s'.channel d = s.channel d
  channels_ : ∀ n, n ≠ s.fd c → s'.channels_ n = s.channels_ n
  interest : ∀ n, n ≠ s.fd c → s'.interest n = s.interest n

theorem Touches.trans (h : Touches c s s') (h' : Touches c s' t) : Touches c s t where
  fd d := (h'.fd d).trans (h.fd d)
  channel d hd := (h'.channel d hd).trans (h.channel d hd)
  channels_ n hn := (h'.channels_ n (by rw [h.fd]; exact hn)).trans (h.channels_ n hn)
  interest n hn := (h'.interest n (by rw [h.fd]; exact hn)).trans (h.interest n hn)

theorem touches_channels {entry : Option C} :
    Touches c s { s with channels_ := Function.update s.channels_ (s.fd c) entry } where
  fd _ := rfl
  channel _ _ := rfl
  channels_ _ h := Function.update_of_ne h _ _
  interest _ _ := rfl

theorem touches_update : Touches c s (s.update op c) := by
  simp only [update]
  split
  · exact ⟨fun _ => rfl, fun _ _ => rfl, fun _ _ => rfl, fun _ h => Function.update_of_ne h _ _⟩
  · exact ⟨fun _ => rfl, fun _ _ => rfl, fun _ _ => rfl, fun _ _ => rfl⟩

/-- The kernel hands out the Channel of the descriptor. -/
def Linked (s : Epoller C) (c : C) : Prop := ∀ e, s.interest (s.fd c) = some e → e.ptr = c

theorem Linked.congr (h : s.Linked c) (hfd : s'.fd c = s.fd c) (hi : s'.interest = s.interest) :
    s'.Linked c := by
  intro e he
  rw [hfd, hi] at he
  exact h e he

theorem Touches.linked {d : C} (h : Touches c s s') (hfd : s.fd d ≠ s.fd c) (hl : s.Linked d) :
    s'.Linked d := by
  intro e he
  rw [h.fd, h.interest _ hfd] at he
  exact hl e he

theorem epollEntry_some {event e : EpollEvent C} {old : Option (EpollEvent C)}
    (h : epollEntry op event old = .ok (some e)) : e = event := by
  cases old <;> cases op <;> simp_all [epollEntry]

theorem Linked.update (h : s.Linked c) : (s.update op c).Linked c := by
  simp only [Epoller.update]
  split
  · rename_i entry hok
    intro e he
    obtain rfl : entry = some e := by simpa [fd] using he
    rw [epollEntry_some hok]
  · exact h

/-- The kernel accepts a call that adds what it does not watch, or changes what it does. -/
theorem update_rejected (h : (s.interest (s.fd c)).isSome = true ↔ op ≠ .EPOLL_CTL_ADD) :
    (s.update op c).rejected = s.rejected := by
  cases hi : s.interest (s.fd c) with
  | none => cases op <;> simp_all [update, epollEntry]
  | some e => cases op <;> simp_all [update, epollEntry]

end EpollCtl

/-! ## The Channels -/

variable [DecidableEq C]

def set_index (s : Epoller C) (c : C) (idx : ChannelIndex) : Epoller C :=
  { s with channel := Function.update s.channel c { s.channel c with index_ := idx } }

def setEvents (s : Epoller C) (c : C) (events : Events) : Epoller C :=
  { s with channel := Function.update s.channel c { s.channel c with events_ := events } }

def updateChannel (s : Epoller C) (c : C) : Epoller C :=
  match (s.channel c).index_ with
  | .kNew | .kDeleted =>
    ({ s with channels_ := Function.update s.channels_ (s.fd c) (some c) }.set_index c
      .kAdded).update .EPOLL_CTL_ADD c
  | .kAdded =>
    if (s.channel c).events_ = kNoneEvent then (s.update .EPOLL_CTL_DEL c).set_index c .kDeleted
    else s.update .EPOLL_CTL_MOD c

def removeChannel (s : Epoller C) (c : C) : Epoller C :=
  let s := { s with channels_ := Function.update s.channels_ (s.fd c) none }
  let s := if (s.channel c).index_ = .kAdded then s.update .EPOLL_CTL_DEL c else s
  s.set_index c .kNew

def hasChannel (s : Epoller C) (c : C) : Bool := s.channels_ (s.fd c) == some c

/-- A call on the Channel `c`. -/
def perform (s : Epoller C) (c : C) : ChannelOp → Epoller C
  | .enableReading => (s.setEvents c ((s.channel c).events_.or kReadEvent)).updateChannel c
  | .disableReading => (s.setEvents c ((s.channel c).events_.minus kReadEvent)).updateChannel c
  | .enableWriting => (s.setEvents c ((s.channel c).events_.or kWriteEvent)).updateChannel c
  | .disableWriting => (s.setEvents c ((s.channel c).events_.minus kWriteEvent)).updateChannel c
  | .disableAll => (s.setEvents c kNoneEvent).updateChannel c
  | .remove => s.removeChannel c

def performAll (s : Epoller C) (calls : List (C × ChannelOp)) : Epoller C :=
  calls.foldl (fun s call => s.perform call.1 call.2) s

/-- A Channel with what concerns its descriptor. -/
def view (s : Epoller C) (c : C) : Channel :=
  { events_ := (s.channel c).events_
    index_ := (s.channel c).index_
    inChannels_ := s.hasChannel c
    interest := (s.interest (s.fd c)).map EpollEvent.events }

/-! ## One call -/

section Call

variable {s s' t : Epoller C} {c d : C} {op : EpollOp}

theorem Touches.view (h : Touches c s s') (hdc : d ≠ c) (hfd : s.fd d ≠ s.fd c) :
    s'.view d = s.view d := by
  simp only [Epoller.view, hasChannel, h.fd, h.channel d hdc, h.channels_ _ hfd, h.interest _ hfd]

/-- New data for the Channel `c` that keep its descriptor. -/
theorem touches_channel {ch : ChannelData} (hfd : ch.fd_ = s.fd c) :
    Touches c s { s with channel := Function.update s.channel c ch } where
  fd d := by
    by_cases h : d = c
    · subst h
      simpa [fd] using hfd
    · simp [fd, Function.update_of_ne h]
  channel d h := Function.update_of_ne h _ _
  channels_ _ _ := rfl
  interest _ _ := rfl

theorem touches_set_index {idx : ChannelIndex} : Touches c s (s.set_index c idx) :=
  touches_channel rfl

theorem touches_setEvents {events : Events} : Touches c s (s.setEvents c events) :=
  touches_channel rfl

theorem touches_updateChannel : Touches c s (s.updateChannel c) := by
  unfold updateChannel
  split
  · exact touches_channels.trans (touches_set_index.trans touches_update)
  · exact touches_channels.trans (touches_set_index.trans touches_update)
  · split
    · exact touches_update.trans touches_set_index
    · exact touches_update

theorem touches_removeChannel : Touches c s (s.removeChannel c) := by
  simp only [removeChannel]
  split
  · exact touches_channels.trans (touches_update.trans touches_set_index)
  · exact touches_channels.trans touches_set_index

theorem touches_perform {a : ChannelOp} : Touches c s (s.perform c a) := by
  cases a with
  | remove => exact touches_removeChannel
  | _ => exact touches_setEvents.trans touches_updateChannel

theorem view_set_index {idx : ChannelIndex} :
    (s.set_index c idx).view c = { s.view c with index_ := idx } := by
  simp [view, hasChannel, set_index, fd]

theorem view_setEvents {events : Events} :
    (s.setEvents c events).view c = { s.view c with events_ := events } := by
  simp [view, hasChannel, setEvents, fd]

/-- `epoll_ctl` on the whole list is `epoll_ctl` on the entry of the descriptor. -/
theorem view_update : (s.update op c).view c = (s.view c).epollerUpdate op := by
  cases hi : s.interest (s.fd c) with
  | none => cases op <;> simp_all [view, hasChannel, update, epollEntry, Channel.epollerUpdate,
      epoll_ctl, fd]
  | some e => cases op <;> simp_all [view, hasChannel, update, epollEntry, Channel.epollerUpdate,
      epoll_ctl, fd]

theorem view_channels {entry : Option C} :
    view { s with channels_ := Function.update s.channels_ (s.fd c) entry } c
      = { s.view c with inChannels_ := entry == some c } := by
  simp [view, hasChannel, fd]

theorem view_updateChannel : (s.updateChannel c).view c = (s.view c).updateChannel := by
  unfold updateChannel Channel.updateChannel
  have hindex : (s.view c).index_ = (s.channel c).index_ := rfl
  rw [hindex]
  cases (s.channel c).index_ with
  | kAdded =>
    by_cases hnone : (s.channel c).events_ = kNoneEvent
    · have hnon : (s.view c).isNonEvent = true := decide_eq_true hnone
      simp only [hnone, hnon, if_true, view_set_index, view_update]
    · have hnon : (s.view c).isNonEvent = false := decide_eq_false hnone
      simp only [hnone, hnon, Bool.false_eq_true, if_false, view_update]
  | kNew | kDeleted =>
    simp only [view_update, view_set_index, view_channels, beq_self_eq_true]

theorem view_removeChannel : (s.removeChannel c).view c = (s.view c).remove := by
  simp only [removeChannel, Channel.remove, view_set_index]
  have hindex : (s.view c).index_ = (s.channel c).index_ := rfl
  have hnone : (none == some c) = false := rfl
  by_cases hadded : (s.channel c).index_ = .kAdded
  · simp only [hindex, hadded, if_true, view_update, view_channels, hnone]
  · simp only [hindex, hadded, if_false, view_channels, hnone]

/-- A call on a Channel does to it, its entry in `channels_` and its entry in the kernel's
    list what Net/Channel says. -/
theorem view_perform {a : ChannelOp} : (s.perform c a).view c = a.apply (s.view c) := by
  cases a with
  | remove => exact view_removeChannel
  | _ =>
    refine view_updateChannel.trans ?_
    rw [view_setEvents]
    rfl

end Call

end Epoller

/-! ## One Channel -/

namespace Channel

variable {ch : Channel}

/-- The kernel watches the descriptor exactly while the Channel knows itself added. -/
def Listed (ch : Channel) : Prop := ch.index_ = .kAdded ↔ ch.interest.isSome = true

/-- The three copies of the registration agree. -/
structure Agrees (ch : Channel) : Prop where
  listed : ch.Listed
  mask : ∀ mask, ch.interest = some mask → mask = ch.events_
  mapped : ch.inChannels_ = true ↔ ch.index_ ≠ .kNew

/-- A descriptor the kernel does not watch is added, whatever the events. -/
theorem updateChannel_added (hindex : ch.index_ ≠ .kAdded) (hnone : ch.interest = none) :
    ch.updateChannel =
      { ch with index_ := .kAdded, inChannels_ := true, interest := some ch.events_ } := by
  unfold updateChannel
  split
  · simp [epollerUpdate, hnone, epoll_ctl]
  · simp [epollerUpdate, hnone, epoll_ctl]
  · rename_i hadded
    exact absurd hadded hindex

/-- One that it watches is deleted when no event is left to ask for, and modified
    otherwise. -/
theorem updateChannel_changed {old : Events} (hindex : ch.index_ = .kAdded)
    (hold : ch.interest = some old) :
    ch.updateChannel = if ch.isNonEvent then { ch with index_ := .kDeleted, interest := none }
      else { ch with interest := some ch.events_ } := by
  rw [updateChannel, hindex]
  simp only [epollerUpdate, hold, epoll_ctl, hindex]

theorem updateChannel_agrees (hlisted : ch.Listed)
    (hmapped : ch.inChannels_ = true ↔ ch.index_ ≠ .kNew) : ch.updateChannel.Agrees := by
  by_cases hindex : ch.index_ = .kAdded
  · obtain ⟨old, hold⟩ := Option.isSome_iff_exists.mp (hlisted.mp hindex)
    have hin : ch.inChannels_ = true := hmapped.mpr (by rw [hindex]; decide)
    rw [updateChannel_changed hindex hold]
    split
    · exact ⟨by simp [Listed], nofun, by simp [hin]⟩
    · exact ⟨by simp [Listed, hindex], fun _ hm => (Option.some.inj hm).symm, by simp [hin, hindex]⟩
  · have hnone : ch.interest = none := by
      rw [← Option.not_isSome_iff_eq_none]
      exact fun hsome => hindex (hlisted.mpr hsome)
    rw [updateChannel_added hindex hnone]
    exact ⟨by simp [Listed], fun _ hm => (Option.some.inj hm).symm, by simp⟩

theorem Agrees.remove (h : ch.Agrees) : ch.remove.Agrees := by
  have heq : ch.remove = { ch with inChannels_ := false, index_ := .kNew, interest := none } := by
    by_cases hindex : ch.index_ = .kAdded
    · simp [Channel.remove, hindex, epollerUpdate, epoll_ctl]
    · have hnone : ch.interest = none := by
        rw [← Option.not_isSome_iff_eq_none]
        exact fun hsome => hindex (h.listed.mpr hsome)
      simp [Channel.remove, hindex, hnone]
  rw [heq]
  exact ⟨by simp [Listed], fun _ hm => (by cases hm), by simp⟩

theorem Agrees.apply (h : ch.Agrees) (a : ChannelOp) : (a.apply ch).Agrees := by
  cases a with
  | remove => exact h.remove
  | _ => exact updateChannel_agrees h.listed h.mapped

end Channel

/-! ## Runs -/

namespace Epoller

variable {C : Type*} [DecidableEq C] {s : Epoller C} {c d : C} {op : EpollOp}

/-- What holds between two calls. -/
structure Sound (s : Epoller C) : Prop where
  distinct : Function.Injective s.fd
  agrees : ∀ c, (s.view c).Agrees
  linked : ∀ c, s.Linked c
  accepted : s.rejected = []

theorem new_sound {fd : C → Int} (hfd : Function.Injective fd) : (new fd).Sound where
  distinct := hfd
  agrees _ := ⟨by simp [Channel.Listed, view, new], nofun, by simp [view, hasChannel, new]⟩
  linked _ := nofun
  accepted := rfl

section Steps

variable {s' : Epoller C} {a : ChannelOp}

theorem Linked.set_index {idx : ChannelIndex} (h : s.Linked c) : (s.set_index c idx).Linked c :=
  h.congr (touches_set_index.fd c) rfl

theorem Linked.updateChannel (h : s.Linked c) : (s.updateChannel c).Linked c := by
  have hadd : Linked { s with channels_ := Function.update s.channels_ (s.fd c) (some c) } c :=
    h.congr rfl rfl
  unfold Epoller.updateChannel
  split
  · exact hadd.set_index.update
  · exact hadd.set_index.update
  · split
    · exact h.update.set_index
    · exact h.update

theorem Linked.removeChannel (h : s.Linked c) : (s.removeChannel c).Linked c := by
  have herase : Linked { s with channels_ := Function.update s.channels_ (s.fd c) none } c :=
    h.congr rfl rfl
  simp only [Epoller.removeChannel]
  split
  · exact herase.update.set_index
  · exact herase.set_index

theorem Linked.perform (h : s.Linked c) : (s.perform c a).Linked c := by
  have hset : ∀ events, (s.setEvents c events).Linked c :=
    fun events => h.congr (touches_setEvents.fd c) rfl
  cases a with
  | remove => exact h.removeChannel
  | _ => exact (hset _).updateChannel

/-- What a Channel knows of itself chooses a call of `epoll_ctl` that the kernel accepts. -/
theorem updateChannel_rejected (h : (s.view c).Listed) :
    (s.updateChannel c).rejected = s.rejected := by
  have hsome : (s.interest (s.fd c)).isSome = true ↔ (s.channel c).index_ = .kAdded := by
    simpa [Channel.Listed, view] using h.symm
  have hadd (hindex : (s.channel c).index_ ≠ .kAdded) :
      (({ s with channels_ := Function.update s.channels_ (s.fd c) (some c) }.set_index c
        .kAdded).update .EPOLL_CTL_ADD c).rejected = s.rejected := by
    refine (update_rejected ?_).trans rfl
    rw [touches_set_index.fd, touches_channels.fd]
    have hnot : ¬(s.interest (s.fd c)).isSome = true := fun hadded => hindex (hsome.mp hadded)
    exact iff_of_false hnot (by decide)
  unfold updateChannel
  split
  · exact hadd (by simp_all)
  · exact hadd (by simp_all)
  · have hadded : (s.interest (s.fd c)).isSome = true := hsome.mpr ‹_›
    split
    · exact update_rejected (iff_of_true hadded (by decide))
    · exact update_rejected (iff_of_true hadded (by decide))

theorem removeChannel_rejected (h : (s.view c).Listed) :
    (s.removeChannel c).rejected = s.rejected := by
  have hsome : (s.interest (s.fd c)).isSome = true ↔ (s.channel c).index_ = .kAdded := by
    simpa [Channel.Listed, view] using h.symm
  simp only [removeChannel]
  split
  · have hadded : (s.interest (s.fd c)).isSome = true := hsome.mpr ‹_›
    refine (update_rejected ?_).trans rfl
    rw [touches_channels.fd]
    exact iff_of_true hadded (by decide)
  · rfl

theorem perform_rejected (h : (s.view c).Listed) : (s.perform c a).rejected = s.rejected := by
  have hset : ∀ events, ((s.setEvents c events).view c).Listed := by
    intro events
    rw [view_setEvents]
    exact h
  cases a with
  | remove => exact removeChannel_rejected h
  | _ => exact updateChannel_rejected (hset _)

theorem Sound.perform (h : s.Sound) (c : C) (a : ChannelOp) : (s.perform c a).Sound := by
  have ht : Touches c s (s.perform c a) := touches_perform
  have hfd : ∀ {d}, d ≠ c → s.fd d ≠ s.fd c := fun hne heq => hne (h.distinct heq)
  constructor
  case distinct =>
    intro d d' heq
    rw [ht.fd, ht.fd] at heq
    exact h.distinct heq
  case agrees =>
    intro d
    by_cases hd : d = c
    · rw [hd, view_perform]
      exact (h.agrees c).apply a
    · rw [ht.view hd (hfd hd)]
      exact h.agrees d
  case linked =>
    intro d
    by_cases hd : d = c
    · exact hd ▸ (h.linked c).perform
    · exact ht.linked (hfd hd) (h.linked d)
  case accepted => exact (perform_rejected (h.agrees c).listed).trans h.accepted

theorem Sound.performAll (h : s.Sound) (calls : List (C × ChannelOp)) :
    (s.performAll calls).Sound := by
  induction calls generalizing s with
  | nil => exact h
  | cons call calls ih => exact ih (h.perform call.1 call.2)

theorem fd_performAll (calls : List (C × ChannelOp)) : (s.performAll calls).fd c = s.fd c := by
  induction calls generalizing s with
  | nil => rfl
  | cons call calls ih => exact ih.trans (touches_perform.fd c)

end Steps

/-- Whatever is called on Channels with distinct descriptors, what each knows of its
    registration is what the kernel and the Epoller have, and the kernel refuses nothing. -/
theorem registration_agrees {fd : C → Int} (hfd : Function.Injective fd)
    (calls : List (C × ChannelOp)) :
    let s := (new fd).performAll calls
    s.rejected = [] ∧ ∀ c,
      ((s.channel c).index_ = .kAdded ↔ (s.interest (fd c)).isSome = true) ∧
      ((s.channel c).index_ = .kAdded →
        s.interest (fd c) = some { events := (s.channel c).events_, ptr := c }) ∧
      (s.hasChannel c = true ↔
        (s.channel c).index_ = .kAdded ∨ (s.channel c).index_ = .kDeleted) := by
  intro s
  have hs : s.Sound := (new_sound hfd).performAll calls
  refine ⟨hs.accepted, fun c => ?_⟩
  have hfdc : s.fd c = fd c := fd_performAll calls
  have hlisted : (s.channel c).index_ = .kAdded ↔ (s.interest (fd c)).isSome = true := by
    simpa [Channel.Listed, view, hfdc] using (hs.agrees c).listed
  refine ⟨hlisted, fun hadded => ?_, ?_⟩
  · obtain ⟨e, he⟩ := Option.isSome_iff_exists.mp (hlisted.mp hadded)
    have hptr : e.ptr = c := hs.linked c e (by rw [hfdc, he])
    have hmask : e.events = (s.channel c).events_ :=
      (hs.agrees c).mask e.events (by simp [view, hfdc, he])
    rw [he, ← hmask, ← hptr]
  · have hmapped : s.hasChannel c = true ↔ (s.channel c).index_ ≠ .kNew := (hs.agrees c).mapped
    rw [hmapped]
    cases (s.channel c).index_ <;> simp

/-- Two Channels, one of them toggled to nothing and back. -/
theorem registration_agrees_example :
    ((new fun b : Bool => if b then 7 else 8).performAll
      [(true, .enableReading), (false, .enableWriting), (true, .disableAll),
        (true, .enableReading), (false, .remove)]).rejected = [] :=
  (registration_agrees (by intro b b'; revert b b'; decide) _).1

end Epoller

end LearnMuduo
