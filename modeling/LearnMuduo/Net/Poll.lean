/-
  LearnMuduo.Net.Poll

  The turns of `EventLoop::loop` (Net/EventLoop.cc) with `Epoller::poll` (Net/Epoller.cc) and
  `Channel::handleEvent` (Net/Channel.cc).

  `epoll_wait` writes the front of the ready descriptors into `events_`, as many as there is
  room for, each with the `data.ptr` the kernel was given for it.  `fillActiveChannels` hands
  the masks to the Channels, and the loop calls their handlers one after the other; a mask
  stays in its Channel until its turn comes, while the handlers in front of it may call what
  they want on any Channel.  `reported` is all that `epoll_wait` reported, `calls` are the
  callbacks called, and `leftOut` counts the polls that had no room for all that was ready.
-/
import Mathlib.Data.List.Nodup
import LearnMuduo.Base.CTypes
import LearnMuduo.Lib.Run
import LearnMuduo.Net.Epoller

namespace LearnMuduo

open Lib

/-- `revents_`: EPOLLERR is reported without having been asked for, as EPOLLHUP is. -/
structure Revents extends Events where
  EPOLLERR : Bool
  deriving DecidableEq, Repr

namespace Revents

def none : Revents := { kNoneEvent with EPOLLERR := false }

/-- All that is reported was asked for, or need not be. -/
structure Within (revents : Revents) (events : Events) : Prop where
  input : revents.EPOLLIN = true → events.EPOLLIN = true
  urgent : revents.EPOLLPRI = true → events.EPOLLPRI = true
  output : revents.EPOLLOUT = true → events.EPOLLOUT = true

instance (revents : Revents) (events : Events) : Decidable (revents.Within events) :=
  decidable_of_iff ((revents.EPOLLIN = true → events.EPOLLIN = true) ∧
      (revents.EPOLLPRI = true → events.EPOLLPRI = true) ∧
      (revents.EPOLLOUT = true → events.EPOLLOUT = true))
    ⟨fun h => ⟨h.1, h.2.1, h.2.2⟩, fun h => ⟨h.input, h.urgent, h.output⟩⟩

end Revents

inductive EventCallBack where
  | closeEventCallBack_
  | readEventCallBack_
  | writeEventCallBack_
  deriving DecidableEq, Repr

/-- `Channel::handleEvent`: the callbacks it calls, of those that are set. -/
def handleEvent (isSet : EventCallBack → Bool) (revents_ : Revents) : List EventCallBack :=
  (if revents_.EPOLLHUP && !revents_.EPOLLIN then
    if isSet .closeEventCallBack_ then [.closeEventCallBack_] else []
  else []) ++
  (if revents_.EPOLLIN || revents_.EPOLLPRI then
    if isSet .readEventCallBack_ then [.readEventCallBack_] else []
  else []) ++
  (if revents_.EPOLLOUT then
    if isSet .writeEventCallBack_ then [.writeEventCallBack_] else []
  else [])

/-- An entry of `events_`; one that `resize` makes has no `data.ptr`. -/
structure EventEntry (C : Type) where
  events : Revents
  ptr : Option C
  deriving DecidableEq, Repr

def kEventListSize : Nat := 16

/-- A descriptor that is ready, and for what. -/
abbrev ReadyFd := Int × Revents

section Wait

variable {C : Type}

/-- What the kernel writes for a descriptor. -/
def eventEntry (interest : Int → Option (EpollEvent C)) (r : ReadyFd) : EventEntry C :=
  { events := r.2, ptr := (interest r.1).map EpollEvent.ptr }

/-- `epoll_wait`: the entries and the number it returns; no room at all is `EINVAL`. -/
def epoll_wait (interest : Int → Option (EpollEvent C)) (ready : List ReadyFd)
    (events : List (EventEntry C)) (maxevents : Int) : List (EventEntry C) × Int :=
  if maxevents ≤ 0 then (events, -1)
  else
    let got := (ready.take maxevents.toNat).map (eventEntry interest)
    (got ++ events.drop got.length, got.length)

/-- What the kernel may find: descriptors of its list, each with some of its events. -/
structure Epoller.Finds (s : Epoller C) (ready : List ReadyFd) : Prop where
  distinct : (ready.map Prod.fst).Nodup
  watched : ∀ r ∈ ready, ∃ e, s.interest r.1 = some e ∧ r.2.Within e.events

theorem Epoller.finds_iff {s : Epoller C} {ready : List ReadyFd} :
    s.Finds ready ↔ (ready.map Prod.fst).Nodup ∧
      ∀ r ∈ ready, ∃ e ∈ s.interest r.1, r.2.Within e.events :=
  ⟨fun h => ⟨h.distinct, h.watched⟩, fun h => ⟨h.1, h.2⟩⟩

instance {s : Epoller C} {ready : List ReadyFd} : Decidable (s.Finds ready) :=
  decidable_of_iff _ Epoller.finds_iff.symm

end Wait

/-- The loop's thread takes a step; `perform` is a call that a handler or a functor makes. -/
inductive TurnAction (C : Type) where
  | poll (ready : List ReadyFd)
  /-- `epoll_wait` returns -1 with `EINTR`. -/
  | interrupted
  | handleEvent
  | perform (c : C) (a : ChannelOp)

structure Reactor (C : Type) where
  poller_ : Epoller C
  events_ : List (EventEntry C)
  revents_ : C → Revents
  activeChannels_ : List C
  /-- The Channels from the iterator of `loop` on. -/
  rest : List C
  reported : List ReadyFd
  calls : List (C × EventCallBack)
  leftOut : Nat

namespace Reactor

variable {C : Type}

/-- Channels just constructed on these descriptors, in front of the first turn. -/
def new (fd : C → Int) : Reactor C :=
  { poller_ := .new fd, events_ := List.replicate kEventListSize ⟨.none, none⟩
    revents_ := fun _ => .none, activeChannels_ := [], rest := [], reported := [], calls := []
    leftOut := 0 }

variable [DecidableEq C]

/-- The body of the loop of `fillActiveChannels`. -/
def fill (s : Reactor C) (i : Nat) : Except Fault (Reactor C) :=
  match s.events_[i]? with
  | none => .error .outOfBounds
  | some entry =>
    match entry.ptr with
    | none => .error .dangling
    | some nowchannel =>
      .ok { s with
        revents_ := Function.update s.revents_ nowchannel entry.events
        activeChannels_ := s.activeChannels_ ++ [nowchannel] }

def fillActiveChannels (s : Reactor C) (numEvents : Int) : Except Fault (Reactor C) :=
  run fill s (List.range numEvents.toNat)

/-- `events_.resize(events_.size() * 2)` -/
def resize (s : Reactor C) : Reactor C :=
  { s with events_ := s.events_ ++ List.replicate s.events_.length ⟨.none, none⟩ }

/-- `epoll_wait` has returned this. -/
def received (s : Reactor C) (ready : List ReadyFd) (wait : List (EventEntry C) × Int) :
    Reactor C :=
  { s with
    events_ := wait.1
    reported := s.reported ++ ready.take wait.2.toNat
    leftOut := s.leftOut + if wait.2.toNat < ready.length then 1 else 0 }

/-- `Epoller::poll` -/
def poll (s : Reactor C) (ready : List ReadyFd) : Except Fault (Reactor C) :=
  let wait := epoll_wait s.poller_.interest ready s.events_ (toInt s.events_.length)
  let numEvents := wait.2
  let s := s.received ready wait
  if 0 < numEvents then
    s.fillActiveChannels numEvents >>= fun s =>
    if s.events_.length = toSize numEvents then .ok s.resize else .ok s
  else .ok s

/-- What `loop` does in front of the handlers. -/
def startTurn (s : Reactor C) (ready : List ReadyFd) : Except Fault (Reactor C) :=
  poll { s with activeChannels_ := [] } ready >>= fun s => .ok { s with rest := s.activeChannels_ }

/-- What `handleEvent` calls on the Channel, which has read its mask. -/
def callsOf (callBacks : C → EventCallBack → Bool) (c : C) (revents : Revents) :
    List (C × EventCallBack) :=
  (handleEvent (callBacks c) revents).map fun cb => (c, cb)

def step (callBacks : C → EventCallBack → Bool) (s : Reactor C) :
    TurnAction C → Except Fault (Reactor C)
  | .poll ready => s.startTurn ready
  | .interrupted => .ok { s with activeChannels_ := [], rest := [] }
  | .handleEvent =>
    match s.rest with
    | [] => .ok s
    | c :: rest =>
      .ok { s with rest := rest, calls := s.calls ++ callsOf callBacks c (s.revents_ c) }
  | .perform c a => .ok { s with poller_ := s.poller_.perform c a }

/-- The loop polls when the handlers are done; at most `N` descriptors are ready at a time. -/
def Turns (N : Nat) (s : Reactor C) : TurnAction C → Prop
  | .poll ready => s.rest = [] ∧ ready.length ≤ N ∧ s.poller_.Finds ready
  | .interrupted => s.rest = []
  | _ => True

instance (N : Nat) (s : Reactor C) : ∀ a, Decidable (s.Turns N a)
  | .poll ready => inferInstanceAs (Decidable (_ ∧ _ ∧ s.poller_.Finds ready))
  | .interrupted => inferInstanceAs (Decidable (s.rest = []))
  | .handleEvent | .perform _ _ => isTrue trivial

end Reactor

/-! ## The Channels of the descriptors -/

namespace Epoller

variable {C : Type} {s : Epoller C}

/-- The kernel was given a Channel's own descriptor. -/
def Owned (s : Epoller C) : Prop := ∀ n e, s.interest n = some e → s.fd e.ptr = n

theorem Owned.perform [DecidableEq C] (h : s.Owned) {c : C} (hl : s.Linked c) (a : ChannelOp) :
    (s.perform c a).Owned := by
  have ht : Touches c s (s.perform c a) := touches_perform
  intro n e he
  rw [ht.fd]
  by_cases hn : n = s.fd c
  · subst hn
    have hptr : e.ptr = c := hl.perform e (by rw [ht.fd]; exact he)
    rw [hptr]
  · rw [ht.interest n hn] at he
    exact h n e he

/-- Each descriptor that is found is the one of the Channel in its entry. -/
theorem Owned.owners (h : s.Owned) {ready : List ReadyFd}
    (hready : ∀ r ∈ ready, ∃ e, s.interest r.1 = some e ∧ r.2.Within e.events) :
    ∃ owners : List (C × Revents), owners.map (fun p => (s.fd p.1, p.2)) = ready ∧
      ready.map (eventEntry s.interest) = owners.map (fun p => ⟨p.2, some p.1⟩) := by
  induction ready with
  | nil => exact ⟨[], rfl, rfl⟩
  | cons r ready ih =>
    obtain ⟨owners, hfds, hentries⟩ := ih fun r' hr' => hready r' (List.mem_cons_of_mem r hr')
    obtain ⟨e, he, -⟩ := hready r List.mem_cons_self
    refine ⟨(e.ptr, r.2) :: owners, ?_, ?_⟩
    · rw [List.map_cons, hfds, h r.1 e he]
    · rw [List.map_cons, List.map_cons, hentries, eventEntry, he]
      rfl

theorem Owned.wait (h : s.Owned) {ready : List ReadyFd} {events : List (EventEntry C)}
    (hready : ∀ r ∈ ready, ∃ e, s.interest r.1 = some e ∧ r.2.Within e.events)
    (hroom : 0 < events.length) (hsize : events.length < 2 ^ 31) :
    ∃ owners : List (C × Revents),
      owners.map (fun p => (s.fd p.1, p.2)) = ready.take events.length ∧
      epoll_wait s.interest ready events (toInt events.length) =
        (owners.map (fun p => ⟨p.2, some p.1⟩) ++ events.drop owners.length,
          (owners.length : Int)) := by
  have hgot : ∀ r ∈ ready.take events.length,
      ∃ e, s.interest r.1 = some e ∧ r.2.Within e.events :=
    fun r hr => hready r (List.mem_of_mem_take hr)
  obtain ⟨owners, hfds, hentries⟩ := h.owners hgot
  refine ⟨owners, hfds, ?_⟩
  rw [toInt_of_lt hsize, epoll_wait, if_neg (by omega), Int.toNat_natCast, hentries]
  simp only [List.length_map]

end Epoller

/-! ## One poll -/

namespace Reactor

variable {C : Type}

theorem resize_length (s : Reactor C) : s.resize.events_.length = 2 * s.events_.length := by
  rw [resize, List.length_append, List.length_replicate, Nat.two_mul]

/-- What `epoll_wait` has written when it reports these Channels. -/
def written (s : Reactor C) (owners : List (C × Revents)) : List (EventEntry C) × Int :=
  (owners.map (fun p => ⟨p.2, some p.1⟩) ++ s.events_.drop owners.length, owners.length)

theorem written_length {s : Reactor C} {owners : List (C × Revents)}
    (hfew : owners.length ≤ s.events_.length) :
    (s.written owners).1.length = s.events_.length := by
  rw [written, List.length_append, List.length_map, List.length_drop]
  omega

variable [DecidableEq C]

/-- The masks of these Channels are handed out. -/
def setRevents (revents : C → Revents) (owners : List (C × Revents)) : C → Revents :=
  owners.foldl (fun revents p => Function.update revents p.1 p.2) revents

/-- They have got their masks, and are the next to be handled. -/
def filled (s : Reactor C) (owners : List (C × Revents)) : Reactor C :=
  { s with
    revents_ := setRevents s.revents_ owners
    activeChannels_ := s.activeChannels_ ++ owners.map Prod.fst }

section Poll

variable {s : Reactor C} {owners : List (C × Revents)} {ready : List ReadyFd}

theorem setRevents_concat (revents : C → Revents) (p : C × Revents) :
    setRevents revents (owners ++ [p]) = Function.update (setRevents revents owners) p.1 p.2 :=
  List.foldl_concat ..

theorem setRevents_other {revents : C → Revents} {c : C} (h : c ∉ owners.map Prod.fst) :
    setRevents revents owners c = revents c := by
  induction owners generalizing revents with
  | nil => rfl
  | cons p owners ih =>
    rw [List.map_cons, List.mem_cons, not_or] at h
    exact (ih h.2).trans (Function.update_of_ne h.1 _ _)

/-- No Channel is given two masks. -/
theorem setRevents_mem {revents : C → Revents} (hdistinct : (owners.map Prod.fst).Nodup)
    {p : C × Revents} (hp : p ∈ owners) : setRevents revents owners p.1 = p.2 := by
  induction owners generalizing revents with
  | nil => cases hp
  | cons q owners ih =>
    obtain ⟨hnew, hrest⟩ := List.nodup_cons.mp hdistinct
    rcases List.mem_cons.mp hp with rfl | hp
    · exact (setRevents_other hnew).trans (Function.update_self _ _ _)
    · exact ih hrest hp

theorem filled_nil : s.filled [] = s := by
  rw [filled, List.map_nil, List.append_nil]
  rfl

theorem fill_next (p : C × Revents) {i : Nat}
    (h : s.events_[i]? = some ⟨p.2, some p.1⟩) :
    fill (s.filled owners) i = .ok (s.filled (owners ++ [p])) := by
  have hentry : (s.filled owners).events_[i]? = some ⟨p.2, some p.1⟩ := h
  simp only [fill, hentry]
  rw [filled, filled, setRevents_concat, List.map_append, ← List.append_assoc]
  rfl

/-- After `k` turns of the loop of `fillActiveChannels`. -/
theorem fill_run {back : List (EventEntry C)}
    (h : s.events_ = owners.map (fun p => ⟨p.2, some p.1⟩) ++ back) {k : Nat}
    (hk : k ≤ owners.length) :
    run fill s (List.range k) = .ok (s.filled (owners.take k)) := by
  induction k with
  | zero =>
    rw [List.take_zero, filled_nil]
    rfl
  | succ k ih =>
    have hlt : k < owners.length := hk
    have hentry : s.events_[k]? = some ⟨owners[k].2, some owners[k].1⟩ := by
      rw [h, List.getElem?_append_left (by rw [List.length_map]; exact hlt), List.getElem?_map,
        List.getElem?_eq_getElem hlt]
      rfl
    rw [List.range_succ, ← List.take_append_getElem hlt]
    exact run_concat (ih (Nat.le_of_lt hlt)) (fill_next owners[k] hentry)

/-- The list is made longer when there was no entry to spare. -/
theorem poll_filled (hroom : 0 < s.events_.length)
    (hfew : owners.length ≤ s.events_.length) (hsize : s.events_.length < 2 ^ 31)
    (hwait : epoll_wait s.poller_.interest ready s.events_ (toInt s.events_.length) =
      s.written owners) :
    s.poll ready = .ok (if s.events_.length = owners.length then
      ((s.received ready (s.written owners)).filled owners).resize
      else (s.received ready (s.written owners)).filled owners) := by
  have hlength : (s.received ready (s.written owners)).events_.length = s.events_.length :=
    written_length hfew
  have hfill : (s.received ready (s.written owners)).fillActiveChannels owners.length =
      .ok ((s.received ready (s.written owners)).filled owners) := by
    have hrun := @fill_run _ _ (s.received ready (s.written owners)) owners _ rfl _
      (Nat.le_refl owners.length)
    rw [List.take_length] at hrun
    exact hrun
  have hnum : (s.written owners).2 = owners.length := rfl
  rw [poll]
  simp only [hwait, hnum]
  by_cases hsome : 0 < owners.length
  · rw [if_pos (by omega), hfill, ok_then, toSize_ofNat (by omega)]
    show (if (s.received ready (s.written owners)).events_.length = _ then _ else _) = _
    rw [hlength]
    split <;> rfl
  · -- nothing is ready: no mask is handed out
    have hnone : owners = [] := List.eq_nil_of_length_eq_zero (by omega)
    rw [if_neg (by omega), if_neg (by omega), hnone, filled_nil]

/-- What a poll has done when the handlers start. -/
structure Polled (s : Reactor C) (ready : List ReadyFd) (owners : List (C × Revents))
    (s' : Reactor C) : Prop where
  fds : owners.map (fun p => (s.poller_.fd p.1, p.2)) = ready.take s.events_.length
  poller : s'.poller_ = s.poller_
  reported : s'.reported = s.reported ++ ready.take s.events_.length
  calls : s'.calls = s.calls
  rest : s'.rest = owners.map Prod.fst
  masks : ∀ p ∈ owners, s'.revents_ p.1 = p.2
  leftOut : s'.leftOut = s.leftOut + if s.events_.length < ready.length then 1 else 0
  size : s'.events_.length =
    if s.events_.length ≤ ready.length then 2 * s.events_.length else s.events_.length

theorem startTurn_polled (howned : s.poller_.Owned) (hready : s.poller_.Finds ready)
    (hroom : 0 < s.events_.length) (hsize : s.events_.length < 2 ^ 31) :
    ∃ owners s', s.startTurn ready = .ok s' ∧ Polled s ready owners s' := by
  obtain ⟨owners, hfds, hwait⟩ := howned.wait hready.watched hroom hsize
  have hlength : owners.length = min s.events_.length ready.length := by
    rw [← List.length_take, ← hfds, List.length_map]
  have hdistinct : (owners.map Prod.fst).Nodup := by
    have htaken : ((ready.take s.events_.length).map Prod.fst).Nodup :=
      hready.distinct.sublist ((List.take_sublist _ _).map Prod.fst)
    rw [← hfds, List.map_map] at htaken
    refine List.Nodup.of_map s.poller_.fd ?_
    rw [List.map_map]
    exact htaken
  have hreported : ready.take owners.length = ready.take s.events_.length := by
    rw [hlength, List.take_eq_take_iff]
    omega
  have hleft : (if owners.length < ready.length then 1 else 0) =
      if s.events_.length < ready.length then 1 else 0 := by
    rw [hlength]
    split <;> split <;> omega
  have hfew : owners.length ≤ s.events_.length := by omega
  rw [startTurn, @poll_filled _ _ { s with activeChannels_ := [] } owners ready hroom hfew hsize
    hwait, ok_then]
  refine ⟨owners, _, rfl, ?_⟩
  constructor
  case fds => exact hfds
  case poller => split <;> rfl
  case reported => split <;> exact congrArg _ hreported
  case calls => split <;> rfl
  case rest => split <;> exact List.nil_append _
  case masks =>
    intro p hp
    have hmask : setRevents s.revents_ owners p.1 = p.2 := setRevents_mem hdistinct hp
    split <;> exact hmask
  case leftOut => split <;> exact congrArg _ hleft
  case size =>
    have hlast : ((received { s with activeChannels_ := [] } ready
        (s.written owners)).filled owners).events_.length = s.events_.length :=
      written_length hfew
    by_cases hfull : s.events_.length ≤ ready.length
    · rw [if_pos hfull, if_pos (show s.events_.length = owners.length by omega)]
      exact (resize_length _).trans (congrArg _ hlast)
    · rw [if_neg hfull, if_neg (show s.events_.length ≠ owners.length by omega)]
      exact hlast

end Poll

end Reactor

/-! ## Runs -/

namespace Reactor

section Runs

variable {C : Type} {callBacks : C → EventCallBack → Bool} {fd : C → Int} {N : Nat}
  {s s' : Reactor C} {a : TurnAction C}

/-- The callbacks that are called and those still to be called are the ones for all that was
    reported, each on the Channel of its descriptor and for its own mask. -/
def Handled (callBacks : C → EventCallBack → Bool) (fd : C → Int) (s : Reactor C) : Prop :=
  ∃ owners : List (C × Revents), owners.map (fun p => (fd p.1, p.2)) = s.reported ∧
    s.calls ++ s.rest.flatMap (fun c => callsOf callBacks c (s.revents_ c)) =
      owners.flatMap fun p => callsOf callBacks p.1 p.2

/-- The list has been doubled at least as often as it was too short. -/
def Grown (N : Nat) (s : Reactor C) : Prop :=
  ∃ k, s.events_.length = kEventListSize * 2 ^ k ∧ s.leftOut ≤ k ∧
    s.events_.length ≤ max kEventListSize (2 * N)

theorem Polled.handled {owners : List (C × Revents)} {ready : List ReadyFd}
    (h : Polled s ready owners s') (hfds : ∀ c, s.poller_.fd c = fd c) (hrest : s.rest = [])
    (hs : s.Handled callBacks fd) : s'.Handled callBacks fd := by
  obtain ⟨before, hbefore, hcalls⟩ := hs
  rw [hrest, List.flatMap_nil, List.append_nil] at hcalls
  refine ⟨before ++ owners, ?_, ?_⟩
  · have howners : owners.map (fun p => (fd p.1, p.2)) = ready.take s.events_.length := by
      rw [← h.fds]
      exact List.map_congr_left fun p _ => by rw [hfds]
    rw [List.map_append, hbefore, howners, h.reported]
  · have hmasks : s'.rest.flatMap (fun c => callsOf callBacks c (s'.revents_ c)) =
        owners.flatMap fun p => callsOf callBacks p.1 p.2 := by
      rw [h.rest, List.flatMap_map]
      exact List.flatMap_congr fun p hp => by rw [h.masks p hp]
    rw [h.calls, hmasks, List.flatMap_append, hcalls]

theorem Polled.grown {owners : List (C × Revents)} {ready : List ReadyFd}
    (h : Polled s ready owners s') (hfew : ready.length ≤ N) (hs : s.Grown N) : s'.Grown N := by
  obtain ⟨k, hsize, hleft, hmax⟩ := hs
  unfold kEventListSize at hsize hmax
  by_cases hfull : s.events_.length ≤ ready.length
  · refine ⟨k + 1, ?_, ?_, ?_⟩
    · rw [h.size, if_pos hfull, hsize, Nat.pow_succ, kEventListSize]
      omega
    · rw [h.leftOut]
      split <;> omega
    · rw [h.size, if_pos hfull, kEventListSize]
      omega
  · refine ⟨k, ?_, ?_, ?_⟩
    · rw [h.size, if_neg hfull]
      exact hsize
    · rw [h.leftOut, if_neg (by omega)]
      exact hleft
    · rw [h.size, if_neg hfull]
      exact hmax

theorem Grown.bounds (h : s.Grown N) (hN : N < 2 ^ 30) :
    0 < s.events_.length ∧ s.events_.length < 2 ^ 31 := by
  obtain ⟨k, hsize, -, hmax⟩ := h
  have hpos : 0 < 2 ^ k := Nat.two_pow_pos k
  unfold kEventListSize at hsize hmax
  omega

variable [DecidableEq C]

structure Turned (callBacks : C → EventCallBack → Bool) (fd : C → Int) (N : Nat)
    (s : Reactor C) : Prop where
  sound : s.poller_.Sound
  owned : s.poller_.Owned
  fds : ∀ c, s.poller_.fd c = fd c
  handled : s.Handled callBacks fd
  grown : s.Grown N

theorem new_turned (hfd : Function.Injective fd) : (new fd).Turned callBacks fd N where
  sound := Epoller.new_sound hfd
  owned n e he := by cases he
  fds _ := rfl
  handled := ⟨[], rfl, rfl⟩
  grown := ⟨0, rfl, Nat.le_refl 0, Nat.le_max_left _ _⟩

theorem step_turned (hN : N < 2 ^ 30) (h : s.Turned callBacks fd N) (ha : s.Turns N a) :
    ∃ s', s.step callBacks a = .ok s' ∧ s'.Turned callBacks fd N := by
  cases a with
  | poll ready =>
    obtain ⟨hrest, hfew, hready⟩ := ha
    obtain ⟨hroom, hsize⟩ := h.grown.bounds hN
    obtain ⟨owners, s', hs, hpolled⟩ := startTurn_polled h.owned hready hroom hsize
    refine ⟨s', hs, ?_⟩
    exact
      { sound := hpolled.poller ▸ h.sound
        owned := hpolled.poller ▸ h.owned
        fds := hpolled.poller ▸ h.fds
        handled := hpolled.handled h.fds hrest h.handled
        grown := hpolled.grown hfew h.grown }
  | interrupted =>
    obtain ⟨owners, howners, hcalls⟩ := h.handled
    rw [show s.rest = [] from ha] at hcalls
    exact ⟨_, rfl, { h with handled := ⟨owners, howners, hcalls⟩ }⟩
  | handleEvent =>
    cases hrest : s.rest with
    | nil => exact ⟨s, by rw [step, hrest], h⟩
    | cons c rest =>
      obtain ⟨owners, howners, hcalls⟩ := h.handled
      rw [hrest, List.flatMap_cons, ← List.append_assoc] at hcalls
      have hnext : step callBacks s .handleEvent = .ok { s with
          rest := rest, calls := s.calls ++ callsOf callBacks c (s.revents_ c) } := by
        rw [step, hrest]
      exact ⟨_, hnext, { h with handled := ⟨owners, howners, hcalls⟩ }⟩
  | perform c op =>
    refine ⟨_, rfl, { h with sound := ?_, owned := ?_, fds := ?_ }⟩
    · exact h.sound.perform c op
    · exact h.owned.perform (h.sound.linked c) op
    · intro d
      exact (Epoller.touches_perform.fd d).trans (h.fds d)

/-- Whatever the handlers call on the Channels: each event that is reported leads to the
    callbacks for it, once, in the order of the reports and on the Channel of its descriptor,
    with nothing lost when the list is too short; and with at most `N` descriptors ready at a
    time the list is too short at most so many times that `16 * 2 ^ leftOut` fits in it. -/
theorem events_handled (callBacks : C → EventCallBack → Bool) {fd : C → Int}
    (hfd : Function.Injective fd) {N : Nat} (hN : N < 2 ^ 30) {as : List (TurnAction C)}
    (h : Along (step callBacks) (Turns N) (new fd) as) :
    ∃ s, run (step callBacks) (new fd) as = .ok s ∧
      (∃ owners : List (C × Revents), owners.map (fun p => (fd p.1, p.2)) = s.reported ∧
        s.calls ++ s.rest.flatMap (fun c => callsOf callBacks c (s.revents_ c)) =
          owners.flatMap fun p => callsOf callBacks p.1 p.2) ∧
      kEventListSize * 2 ^ s.leftOut ≤ s.events_.length ∧
      s.events_.length ≤ max kEventListSize (2 * N) := by
  have hnew : (new fd).Turned callBacks fd N := new_turned hfd
  obtain ⟨s, hrun, hs⟩ := run_total (fun s a hs ha => step_turned hN hs ha) hnew h
  obtain ⟨k, hsize, hleft, hmax⟩ := hs.grown
  refine ⟨s, hrun, hs.handled, ?_, hmax⟩
  rw [hsize]
  exact Nat.mul_le_mul_left _ (Nat.pow_le_pow_right (by decide) hleft)

/-- Two Channels are ready in a turn, and the handler of the first makes the other one ask for
    nothing. -/
def turnExample : List (TurnAction Bool) :=
  let input : Revents := { kReadEvent with EPOLLERR := false }
  [.perform true .enableReading, .perform false .enableReading, .poll [(8, input), (7, input)],
    .handleEvent, .perform true .disableAll, .handleEvent]

def fdExample (c : Bool) : Int := if c then 7 else 8

theorem fdExample_injective : Function.Injective fdExample := by
  intro b b'
  revert b b'
  decide

theorem events_handled_two :
    ∃ s, run (step fun _ _ => true) (new fdExample) turnExample = .ok s ∧
      (∃ owners : List (Bool × Revents),
        owners.map (fun p => (fdExample p.1, p.2)) = s.reported ∧
        s.calls ++ s.rest.flatMap (fun c => callsOf (fun _ _ => true) c (s.revents_ c)) =
          owners.flatMap fun p => callsOf (fun _ _ => true) p.1 p.2) ∧
      kEventListSize * 2 ^ s.leftOut ≤ s.events_.length ∧
      s.events_.length ≤ max kEventListSize (2 * 2) := by
  exact events_handled (fun _ _ => true) fdExample_injective (by decide) (by decide +kernel)

/-! ## Handlers that spare the Channels behind them -/

/-- Registered, and asking for what it is handled for. -/
structure Asked (ch : Channel) (revents : Revents) : Prop where
  added : ch.index_ = .kAdded
  mapped : ch.inChannels_ = true
  mask : revents.Within ch.events_

/-- No Channel that is still to be handled is called. -/
def Spares (s : Reactor C) : TurnAction C → Prop
  | .perform c _ => c ∉ s.rest
  | _ => True

instance (s : Reactor C) : ∀ a, Decidable (s.Spares a)
  | .perform c _ => inferInstanceAs (Decidable (c ∉ s.rest))
  | .poll _ | .interrupted | .handleEvent => isTrue trivial

theorem Polled.asked {owners : List (C × Revents)} {ready : List ReadyFd}
    (h : Polled s ready owners s') (hsound : s.poller_.Sound) (hready : s.poller_.Finds ready) :
    ∀ c ∈ s'.rest, Asked (s'.poller_.view c) (s'.revents_ c) := by
  intro c hc
  rw [h.rest] at hc
  obtain ⟨p, hp, rfl⟩ := List.mem_map.mp hc
  rw [h.masks p hp, h.poller]
  have hfound : (s.poller_.fd p.1, p.2) ∈ ready := by
    have htaken := List.mem_map_of_mem (f := fun p => (s.poller_.fd p.1, p.2)) hp
    rw [h.fds] at htaken
    exact List.mem_of_mem_take htaken
  obtain ⟨e, he, hwithin⟩ := hready.watched _ hfound
  have hinterest : (s.poller_.view p.1).interest = some e.events := by
    rw [Epoller.view, he]
    rfl
  have hagrees := hsound.agrees p.1
  have hadded : (s.poller_.view p.1).index_ = .kAdded :=
    hagrees.listed.mpr (by rw [hinterest]; rfl)
  exact
    { added := hadded
      mapped := hagrees.mapped.mpr (by rw [hadded]; decide)
      mask := by
        rw [← hagrees.mask e.events hinterest]
        exact hwithin }

theorem step_asked (h : s.Turned callBacks fd N) (hN : N < 2 ^ 30) (ha : s.Turns N a)
    (hspares : s.Spares a) (hasked : ∀ c ∈ s.rest, Asked (s.poller_.view c) (s.revents_ c))
    (hs : s.step callBacks a = .ok s') :
    ∀ c ∈ s'.rest, Asked (s'.poller_.view c) (s'.revents_ c) := by
  cases a with
  | poll ready =>
    obtain ⟨hrest, hfew, hready⟩ := ha
    obtain ⟨hroom, hsize⟩ := h.grown.bounds hN
    obtain ⟨owners, t, ht, hpolled⟩ := startTurn_polled h.owned hready hroom hsize
    obtain rfl := Except.ok.inj (hs.symm.trans ht)
    exact hpolled.asked h.sound hready
  | interrupted =>
    obtain rfl := Except.ok.inj hs
    intro c hc
    cases hc
  | handleEvent =>
    cases hrest : s.rest with
    | nil =>
      rw [step, hrest] at hs
      obtain rfl := Except.ok.inj hs
      exact hasked
    | cons c rest =>
      rw [step, hrest] at hs
      obtain rfl := Except.ok.inj hs
      intro d hd
      exact hasked d (hrest ▸ List.mem_cons_of_mem c hd)
  | perform c op =>
    obtain rfl := Except.ok.inj hs
    intro d hd
    have hdc : d ≠ c := by
      rintro rfl
      exact hspares hd
    have hfd : s.poller_.fd d ≠ s.poller_.fd c := fun heq => hdc (h.sound.distinct heq)
    show Asked ((s.poller_.perform c op).view d) _
    rw [Epoller.touches_perform.view hdc hfd]
    exact hasked d hd

/-- When no handler calls a Channel that is still to be handled, each is handled while it is
    registered and asks for the events it is handled for. -/
theorem handled_asked (callBacks : C → EventCallBack → Bool) {fd : C → Int}
    (hfd : Function.Injective fd) {N : Nat} (hN : N < 2 ^ 30) {as : List (TurnAction C)}
    (h : Along (step callBacks) (fun s a => s.Turns N a ∧ s.Spares a) (new fd) as) :
    ∃ s, run (step callBacks) (new fd) as = .ok s ∧ ∀ c ∈ s.rest,
      (s.poller_.channel c).index_ = .kAdded ∧ s.poller_.hasChannel c = true ∧
        (s.revents_ c).Within (s.poller_.channel c).events_ := by
  obtain ⟨s, hrun, -, hs⟩ := run_total
    (P := fun s => s.Turned callBacks fd N ∧
      ∀ c ∈ s.rest, Asked (s.poller_.view c) (s.revents_ c))
    (fun s a hs ha => by
      obtain ⟨s', hstep, hturned⟩ := step_turned hN hs.1 ha.1
      exact ⟨s', hstep, hturned, step_asked hs.1 hN ha.1 ha.2 hs.2 hstep⟩)
    ⟨new_turned hfd, fun c hc => by cases hc⟩ h
  exact ⟨s, hrun, fun c hc => ⟨(hs c hc).added, (hs c hc).mapped, (hs c hc).mask⟩⟩

/-- In the middle of the turn one is left to be handled, the one handled asks for nothing. -/
def spareExample : List (TurnAction Bool) :=
  let input : Revents := { kReadEvent with EPOLLERR := false }
  [.perform true .enableReading, .perform false .enableReading, .poll [(8, input), (7, input)],
    .handleEvent, .perform false .disableAll]

theorem handled_asked_two :
    ∃ s, run (step fun _ _ => true) (new fdExample) spareExample = .ok s ∧ ∀ c ∈ s.rest,
      (s.poller_.channel c).index_ = .kAdded ∧ s.poller_.hasChannel c = true ∧
        (s.revents_ c).Within (s.poller_.channel c).events_ :=
  handled_asked (N := 2) (fun _ _ => true) fdExample_injective (by decide) (by decide +kernel)

end Runs

end Reactor

end LearnMuduo
