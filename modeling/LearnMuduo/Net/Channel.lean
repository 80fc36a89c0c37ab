/-
  LearnMuduo.Net.Channel

  `bing::Channel` (Net/Channel.h, Net/Channel.cc) and what `bing::Epoller`
  (Net/Epoller.cc) keeps for its file descriptor.

  A Channel is modelled together with two things that lie outside it and belong to
  its descriptor alone: its entry in `Poller::channels_` and its entry in the
  kernel's interest list, which `epoll_ctl` changes.
-/
import Mathlib.Tactic.NormNum

namespace LearnMuduo

/-- A set of epoll events. -/
structure Events where
  EPOLLIN : Bool
  EPOLLPRI : Bool
  EPOLLOUT : Bool
  EPOLLHUP : Bool
  deriving DecidableEq, Repr

namespace Events

/-- `a | b` -/
def or (a b : Events) : Events :=
  ⟨a.EPOLLIN || b.EPOLLIN, a.EPOLLPRI || b.EPOLLPRI, a.EPOLLOUT || b.EPOLLOUT,
    a.EPOLLHUP || b.EPOLLHUP⟩

/-- `a & ~b` -/
def minus (a b : Events) : Events :=
  ⟨a.EPOLLIN && !b.EPOLLIN, a.EPOLLPRI && !b.EPOLLPRI, a.EPOLLOUT && !b.EPOLLOUT,
    a.EPOLLHUP && !b.EPOLLHUP⟩

end Events

def kNoneEvent : Events := ⟨false, false, false, false⟩
def kReadEvent : Events := ⟨true, true, false, false⟩
def kWriteEvent : Events := ⟨false, false, true, false⟩

/-- `Channel::index_`. -/
inductive ChannelIndex where
  | kNew
  | kAdded
  | kDeleted
  deriving DecidableEq, Repr

inductive EpollOp where
  | EPOLL_CTL_ADD
  | EPOLL_CTL_MOD
  | EPOLL_CTL_DEL
  deriving DecidableEq, Repr

structure Channel where
  events_ : Events
  index_ : ChannelIndex
  /-- Whether `channels_` of the Poller maps the descriptor to this Channel. -/
  inChannels_ : Bool
  /-- The mask the kernel watches the descriptor for, if it watches it. -/
  interest : Option Events
  deriving DecidableEq, Repr

/-- `epoll_ctl` on a descriptor's entry: `EEXIST` and `ENOENT` leave it as it is. -/
def epoll_ctl (op : EpollOp) (events : Events) (interest : Option Events) : Option Events :=
  match op, interest with
  | .EPOLL_CTL_ADD, none => some events
  | .EPOLL_CTL_MOD, some _ => some events
  | .EPOLL_CTL_DEL, _ => none
  | _, interest => interest

namespace Channel

def new : Channel :=
  { events_ := kNoneEvent, index_ := .kNew, inChannels_ := false, interest := none }

def isNonEvent (ch : Channel) : Bool := ch.events_ = kNoneEvent

def isWriting (ch : Channel) : Bool := ch.events_.EPOLLOUT

def isReading (ch : Channel) : Bool := ch.events_.EPOLLIN || ch.events_.EPOLLPRI

/-- `Epoller::update`. -/
def epollerUpdate (ch : Channel) (operation : EpollOp) : Channel :=
  { ch with interest := epoll_ctl operation ch.events_ ch.interest }

/-- `Epoller::updateChannel`. -/
def updateChannel (ch : Channel) : Channel :=
  match ch.index_ with
  | .kNew | .kDeleted =>
    { ch with inChannels_ := true, index_ := .kAdded }.epollerUpdate .EPOLL_CTL_ADD
  | .kAdded =>
    if ch.isNonEvent then { ch.epollerUpdate .EPOLL_CTL_DEL with index_ := .kDeleted }
    else ch.epollerUpdate .EPOLL_CTL_MOD

/-- `Epoller::removeChannel`, which `Channel::remove` calls. -/
def remove (ch : Channel) : Channel :=
  let ch := { ch with inChannels_ := false }
  let ch := if ch.index_ = .kAdded then ch.epollerUpdate .EPOLL_CTL_DEL else ch
  { ch with index_ := .kNew }

def enableReading (ch : Channel) : Channel :=
  { ch with events_ := ch.events_.or kReadEvent }.updateChannel

def disableReading (ch : Channel) : Channel :=
  { ch with events_ := ch.events_.minus kReadEvent }.updateChannel

def enableWriting (ch : Channel) : Channel :=
  { ch with events_ := ch.events_.or kWriteEvent }.updateChannel

def disableWriting (ch : Channel) : Channel :=
  { ch with events_ := ch.events_.minus kWriteEvent }.updateChannel

def disableAll (ch : Channel) : Channel := { ch with events_ := kNoneEvent }.updateChannel

/-! ## States of a connection's Channel -/

/-- Watched for reading, and for writing or not. -/
structure Watched (ch : Channel) : Prop where
  index : ch.index_ = .kAdded
  reading : ch.events_.EPOLLIN = true

/-- The kernel watches it for the events it asks for. -/
structure Registered (ch : Channel) : Prop where
  watched : ch.Watched
  interest : ch.interest = some ch.events_

/-- Asked for nothing, and not known to the kernel. -/
structure Silent (ch : Channel) : Prop where
  index : ch.index_ ≠ .kAdded
  events : ch.events_ = kNoneEvent
  interest : ch.interest = none

theorem Silent.isWriting {ch : Channel} (h : ch.Silent) : ch.isWriting = false := by
  rw [Channel.isWriting, h.events]
  rfl

section Update

variable {ch : Channel}

@[simp] theorem updateChannel_events : ch.updateChannel.events_ = ch.events_ := by
  unfold updateChannel
  split
  · rfl
  · rfl
  · split <;> rfl

/-- Once added, a Channel with events stays added. -/
theorem updateChannel_watched (hindex : ch.index_ = .kAdded) (hin : ch.events_.EPOLLIN = true) :
    ch.updateChannel.Watched := by
  have hnon : ch.isNonEvent = false := by
    have : ch.events_ ≠ kNoneEvent := fun h => by simp [h, kNoneEvent] at hin
    simp [isNonEvent, this]
  refine ⟨?_, by rw [updateChannel_events]; exact hin⟩
  rw [updateChannel, hindex]
  simp only [hnon, Bool.false_eq_true, if_false]
  exact hindex

/-- What the kernel watches a Channel for follows what it asks for. -/
theorem updateChannel_registered (hindex : ch.index_ = .kAdded) (hin : ch.events_.EPOLLIN = true)
    (hint : ch.interest ≠ none) : ch.updateChannel.Registered := by
  refine ⟨updateChannel_watched hindex hin, ?_⟩
  have hnon : ch.isNonEvent = false := by
    have : ch.events_ ≠ kNoneEvent := fun h => by simp [h, kNoneEvent] at hin
    simp [isNonEvent, this]
  obtain ⟨mask, hmask⟩ := Option.ne_none_iff_exists'.mp hint
  rw [updateChannel_events, updateChannel, hindex]
  simp only [hnon, Bool.false_eq_true, if_false, epollerUpdate, hmask, epoll_ctl]

theorem enableReading_new : new.enableReading.Watched := ⟨rfl, rfl⟩

theorem enableReading_new_registered : new.enableReading.Registered := ⟨enableReading_new, rfl⟩

theorem Registered.enableWriting (h : ch.Registered) : ch.enableWriting.Registered := by
  refine updateChannel_registered h.watched.index (by simp [Events.or, h.watched.reading]) ?_
  show ch.interest ≠ none
  rw [h.interest]
  exact Option.some_ne_none _

theorem Registered.disableWriting (h : ch.Registered) : ch.disableWriting.Registered := by
  refine updateChannel_registered h.watched.index
    (by simp [Events.minus, kWriteEvent, h.watched.reading]) ?_
  show ch.interest ≠ none
  rw [h.interest]
  exact Option.some_ne_none _

theorem Watched.enableWriting (h : ch.Watched) : ch.enableWriting.Watched :=
  updateChannel_watched h.index (by simp [Events.or, h.reading])

theorem Watched.disableWriting (h : ch.Watched) : ch.disableWriting.Watched :=
  updateChannel_watched h.index (by simp [Events.minus, kWriteEvent, h.reading])

/-- `disableAll` on a watched Channel takes it out of the kernel's list. -/
theorem Watched.disableAll (h : ch.Watched) : ch.disableAll.Silent := by
  have heq : ch.disableAll = { ch with
      events_ := kNoneEvent, index_ := .kDeleted, interest := none } := by
    simp [Channel.disableAll, updateChannel, h.index, isNonEvent, epollerUpdate, epoll_ctl]
  rw [heq]
  exact ⟨by simp, rfl, rfl⟩

theorem enableWriting_isWriting : ch.enableWriting.isWriting = true := by
  simp [Channel.enableWriting, isWriting, Events.or, kWriteEvent]

theorem disableWriting_isWriting : ch.disableWriting.isWriting = false := by
  simp [Channel.disableWriting, isWriting, Events.minus, kWriteEvent]

end Update

end Channel

end LearnMuduo
