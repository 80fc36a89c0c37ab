/-
  LearnMuduo.Proxy.Tunnels

  The proxy between its clients and the server: `onServerConnection` with `g_tunnels`
  (Proxy/Proxy.cc) and `Tunnel` (Proxy/tuunel.h), around `onServerMessage`.

  The library runs one callback after the other.  It says of each connection first that it
  is up, then what it receives, then that it is down; it reads nothing from one that
  `stopRead` was called on; and the `client_` of a Tunnel makes one connection, after
  `connect` (`Possible`).  Every Tunnel is made for a connection of a client, so that one
  stands for the Tunnel and for the connection its `client_` makes, wherever a pointer
  leads there.

  The pointers (`g_tunnels`, the contexts, `serverConn_`) do what pipes would, one for each
  client (`Pipes`).  All pipes share the variables of the parser and the cache, as `Clients`
  has them: who is answered with whose request is said there.
-/
import LearnMuduo.Proxy.Main

namespace LearnMuduo.Proxy

open Lib

/-- How far the library has got with a connection. -/
inductive Link where
  | none
  | connecting
  | up
  | down
  deriving DecidableEq, Repr

/-- A callback of the library.  The `server` ones are those of the proxy's `TcpServer`, the
    `client` ones those of a Tunnel's `client_`; `Up` and `Down` are one function, which
    asks whether the connection is up. -/
inductive Callback (C : Type) where
  | serverUp (conn : C)
  | serverMessage (conn : C) (data : Bytes)
  | serverDown (conn : C)
  | clientUp (tunnel : C)
  | clientMessage (tunnel : C) (data : Bytes)
  | clientDown (tunnel : C)
  deriving DecidableEq, Repr

/-- What the callbacks do to connections. -/
inductive Sent (C : Type) where
  | toClient (conn : C) (data : Bytes)
  | shutdown (conn : C)
  | toServer (tunnel : C) (data : Bytes)
  | disconnect (tunnel : C)
  deriving DecidableEq, Repr

/-- Whose connection it is. -/
def Sent.conn {C : Type} : Sent C → C
  | .toClient conn _ => conn
  | .shutdown conn => conn
  | .toServer tunnel _ => tunnel
  | .disconnect tunnel => tunnel

/-- What `onServerMessage` does on `conn`, with the connection `clientConn`. -/
def Output.sent {C : Type} (conn clientConn : C) : Output → Option (Sent C)
  | .lookup _ => none
  | .toClient data => some (.toClient conn data)
  | .shutdown => some (.shutdown conn)
  | .toServer data => some (.toServer clientConn data)

/-- What the last call did. -/
def Serving.last {C : Type} (p : Serving C) : List Output := (p.outs.getLast?.map Prod.snd).getD []

/-- Bytes are received, and stay in the buffer. -/
def Serving.receive {C : Type} [DecidableEq C] (p : Serving C) (conn : C) (data : Bytes) :
    Serving C :=
  { p with buffer := Function.update p.buffer conn (p.buffer conn ++ data) }

/-! ## The pointers -/

structure Tunnel (C : Type) where
  serverConn_ : Option C
  clientConn_ : Option C
  /-- `client_` has the callbacks that `setup` gives it.  They hold a `shared_ptr` to the
      Tunnel. -/
  callbacks : Bool

/-- `Tunnel::Tunnel` and `setup`. -/
def Tunnel.new {C : Type} (serverConn : C) : Tunnel C :=
  { serverConn_ := some serverConn, clientConn_ := none, callbacks := true }

structure Relay (C : Type) where
  proxying : Proxying C
  /-- By the name of the connection. -/
  g_tunnels : Bytes → Option C
  tunnels : C → Option (Tunnel C)
  /-- `getContext`. -/
  context : C → Option C
  reading : C → Bool
  server : C → Link
  client : C → Link
  sent : List (Sent C)

namespace Relay

variable {C : Type} [DecidableEq C]

/-- In front of the loop. -/
def start (g : Globals) : Relay C :=
  { proxying := { globals := g, serving := .start .zero }
    g_tunnels := fun _ => none, tunnels := fun _ => none, context := fun _ => none
    reading := fun _ => true, server := fun _ => .none, client := fun _ => .none, sent := [] }

def inputBuffer (s : Relay C) (conn : C) : Bytes := s.proxying.serving.buffer conn

def setServing (s : Relay C) (p : Serving C) : Relay C :=
  { s with proxying := { s.proxying with serving := p } }

def onServerConnection (name : C → Bytes) (s : Relay C) (conn : C) : Except Fault (Relay C) :=
  if s.server conn = .up then
    -- `stopRead`, a new Tunnel with `setup` and `connection`, and its entry
    .ok { s with
      reading := Function.update s.reading conn false
      tunnels := Function.update s.tunnels conn (some (.new conn))
      client := Function.update s.client conn .connecting
      g_tunnels := Function.update s.g_tunnels (name conn) (some conn) }
  else
    match s.g_tunnels (name conn) with
    | none => .error .assertion
    | some tunnel => .ok { s with
        sent := s.sent ++ [.disconnect tunnel]
        g_tunnels := Function.update s.g_tunnels (name conn) none }

def onServerMessage (fuel : Nat) (s : Relay C) (conn : C) (data : Bytes) :
    Except Fault (Relay C) :=
  match s.context conn with
  | none => .ok (s.setServing (s.proxying.serving.receive conn data))
  | some clientConn => serve fuel s.proxying (conn, data) >>= fun p =>
      .ok { s with
        proxying := p
        sent := s.sent ++ p.serving.last.filterMap (Output.sent conn clientConn) }

/-- The default callbacks hold nothing. -/
def teardown (s : Relay C) (t : C) (tunnel : Tunnel C) : Relay C :=
  let s := { s with
    tunnels := Function.update s.tunnels t
      (some { tunnel with clientConn_ := none, callbacks := false }) }
  match tunnel.serverConn_ with
  | none => s
  | some conn => { s with
      context := Function.update s.context conn none
      sent := s.sent ++ [.shutdown conn] }

def onClientConnection (s : Relay C) (t : C) : Except Fault (Relay C) :=
  deref (s.tunnels t) >>= fun tunnel =>
    if s.client t = .up then
      deref tunnel.serverConn_ >>= fun conn =>
        let s := { s with
          context := Function.update s.context conn (some t)
          reading := Function.update s.reading conn true
          tunnels := Function.update s.tunnels t (some { tunnel with clientConn_ := some t }) }
        -- what came before the connection to the server is sent on unread
        if 0 < (s.inputBuffer conn).length then
          .ok { s.setServing { s.proxying.serving with
              buffer := Function.update s.proxying.serving.buffer conn [] } with
            sent := s.sent ++ [.toServer t (s.inputBuffer conn)] }
        else .ok s
    else .ok (s.teardown t tunnel)

/-- Without a connection it aborts. -/
def onClientMessage (s : Relay C) (t : C) (data : Bytes) : Except Fault (Relay C) :=
  deref (s.tunnels t) >>= fun tunnel =>
    match tunnel.serverConn_ with
    | none => .error .assertion
    | some conn => .ok { s with sent := s.sent ++ [.toClient conn data] }

def step (name : C → Bytes) (fuel : Nat) (s : Relay C) : Callback C → Except Fault (Relay C)
  | .serverUp conn =>
    { s with server := Function.update s.server conn .up }.onServerConnection name conn
  | .serverMessage conn data => s.onServerMessage fuel conn data
  | .serverDown conn =>
    { s with server := Function.update s.server conn .down }.onServerConnection name conn
  | .clientUp t => { s with client := Function.update s.client t .up }.onClientConnection t
  | .clientMessage t data => s.onClientMessage t data
  | .clientDown t => { s with client := Function.update s.client t .down }.onClientConnection t

/-- The order in which the library runs the callbacks. -/
def Possible (s : Relay C) : Callback C → Prop
  | .serverUp conn => s.server conn = .none
  | .serverMessage conn _ => s.server conn = .up ∧ s.reading conn = true
  | .serverDown conn => s.server conn = .up
  | .clientUp t => s.client t = .connecting
  | .clientMessage t _ => s.client t = .up
  | .clientDown t => s.client t = .up

instance (s : Relay C) : (a : Callback C) → Decidable (s.Possible a)
  | .serverUp conn => inferInstanceAs (Decidable (s.server conn = .none))
  | .serverMessage conn _ =>
    inferInstanceAs (Decidable (s.server conn = .up ∧ s.reading conn = true))
  | .serverDown conn => inferInstanceAs (Decidable (s.server conn = .up))
  | .clientUp t => inferInstanceAs (Decidable (s.client t = .connecting))
  | .clientMessage t _ => inferInstanceAs (Decidable (s.client t = .up))
  | .clientDown t => inferInstanceAs (Decidable (s.client t = .up))

/-- Some `shared_ptr` points to the Tunnel, in `g_tunnels` or in the callbacks of its own
    `client_`. -/
def Held (s : Relay C) (t : C) : Prop :=
  (∃ key, s.g_tunnels key = some t) ∨ ∃ tunnel, s.tunnels t = some tunnel ∧ tunnel.callbacks = true

end Relay

/-! ## Pipes -/

/-- A pipe for each client, from the client to the server and back; the parser's variables
    are one set for all. -/
structure Pipes (C : Type) where
  serving : Serving C
  link : C → Link
  sent : List (Sent C)

namespace Pipes

variable {C : Type} [DecidableEq C]

def start : Pipes C := { serving := .start .zero, link := fun _ => .none, sent := [] }

/-- What comes from a client is looked at while its pipe is up, and what comes from the
    server is passed on. -/
def step (cache : Cache) (p : Pipes C) : Callback C → Except Fault (Pipes C)
  | .serverUp c => .ok { p with link := Function.update p.link c .connecting }
  | .serverMessage c data =>
    if p.link c = .up then
      onCall cache p.serving (c, data) >>= fun q =>
        .ok { p with serving := q, sent := p.sent ++ q.last.filterMap (Output.sent c c) }
    else .ok { p with serving := p.serving.receive c data }
  | .serverDown c => .ok { p with sent := p.sent ++ [.disconnect c] }
  | .clientUp c => .ok { p with link := Function.update p.link c .up }
  | .clientMessage c data => .ok { p with sent := p.sent ++ [.toClient c data] }
  | .clientDown c => .ok { p with
      link := Function.update p.link c .down
      sent := p.sent ++ [.shutdown c] }

end Pipes

/-! ## One connection -/

/-- The Tunnel of `c`, as far as the library has got with its connection. -/
def Tunnel.wired {C : Type} (c : C) : Link → Option (Tunnel C)
  | .none => none
  | .connecting => some (.new c)
  | .up => some { Tunnel.new c with clientConn_ := some c }
  | .down => some { Tunnel.new c with callbacks := false }

/-- What there is of one connection. -/
structure Slot (C : Type) where
  entry : Option C
  tunnel : Option (Tunnel C)
  context : Option C
  reading : Bool
  server : Link
  client : Link
  input : Bytes

/-- The pointers lead back to the connection. -/
structure Slot.Wired {C : Type} (c : C) (w : Slot C) : Prop where
  entry : w.entry = if w.server = .up then some c else none
  begun : w.server = .none ↔ w.client = .none
  tunnel : w.tunnel = Tunnel.wired c w.client
  context : w.context = if w.client = .up then some c else none
  /-- Nothing is read before the server's connection is up. -/
  stopped : w.client = .connecting → w.reading = false
  unread : w.client = .none ∨ w.client = .connecting → w.input = []

namespace Relay

section Slots

variable {C : Type} {name : C → Bytes} {s s' : Relay C} {c : C}

def slot (name : C → Bytes) (s : Relay C) (c : C) : Slot C :=
  { entry := s.g_tunnels (name c), tunnel := s.tunnels c, context := s.context c
    reading := s.reading c, server := s.server c, client := s.client c, input := s.inputBuffer c }

structure Wired (name : C → Bytes) (s : Relay C) : Prop where
  slots : ∀ c, (s.slot name c).Wired c
  named : ∀ key t, s.g_tunnels key = some t → key = name t

theorem wired_start (g : Globals) : Wired name (start g) where
  slots := fun c =>
    { entry := rfl, begun := Iff.rfl, tunnel := rfl, context := rfl
      stopped := fun hlink => by cases hlink
      unread := fun _ => rfl }
  named := fun key t hentry => by cases hentry

theorem Wired.tunnel_eq {link : Link} (h : Wired name s) (hlink : s.client c = link) :
    s.tunnels c = Tunnel.wired c link :=
  hlink ▸ (h.slots c).tunnel

theorem Wired.server_ne (h : Wired name s) (hlink : s.client c ≠ .none) : s.server c ≠ .none :=
  fun hidle => hlink ((h.slots c).begun.mp hidle)

/-- The table with another entry under the name of `c`. -/
theorem Wired.named_update (h : Wired name s) {entry : Option C} {key : Bytes} {t : C}
    (hentry : ∀ t, entry = some t → t = c)
    (hkey : Function.update s.g_tunnels (name c) entry key = some t) : key = name t := by
  by_cases heq : key = name c
  · subst heq
    rw [Function.update_self] at hkey
    rw [hentry t hkey]
  · rw [Function.update_of_ne heq] at hkey
    exact h.named key t hkey

/-- A step that changes what there is of one connection only. -/
theorem Wired.update (h : Wired name s) (hother : ∀ d, d ≠ c → s'.slot name d = s.slot name d)
    (hw : (s'.slot name c).Wired c)
    (hnamed : ∀ key t, s'.g_tunnels key = some t → key = name t) : Wired name s' := by
  refine ⟨fun d => ?_, hnamed⟩
  by_cases hd : d = c
  · exact hd ▸ hw
  · rw [hother d hd]
    exact h.slots d

end Slots

/-! ## Steps -/

section Steps

variable {C : Type} [DecidableEq C] {name : C → Bytes} {fuel : Nat} {s s' : Relay C} {c : C}
  {data : Bytes}

theorem step_serverUp :
    step name fuel s (.serverUp c) = .ok { s with
      server := Function.update s.server c .up
      reading := Function.update s.reading c false
      tunnels := Function.update s.tunnels c (some (.new c))
      client := Function.update s.client c .connecting
      g_tunnels := Function.update s.g_tunnels (name c) (some c) } := by
  rw [step, onServerConnection]
  exact if_pos (Function.update_self c Link.up s.server)

theorem step_serverDown (h : Wired name s) (hup : s.server c = .up) :
    step name fuel s (.serverDown c) = .ok { s with
      server := Function.update s.server c .down
      sent := s.sent ++ [.disconnect c]
      g_tunnels := Function.update s.g_tunnels (name c) none } := by
  have hdown : Function.update s.server c Link.down c ≠ .up := by
    rw [Function.update_self]
    decide
  have hentry : s.g_tunnels (name c) = some c := (h.slots c).entry.trans (if_pos hup)
  rw [step, onServerConnection, if_neg hdown]
  simp only [hentry]

/-- Nothing has been read that would have to be sent on. -/
theorem step_clientUp (h : Wired name s) (hlink : s.client c = .connecting) :
    step name fuel s (.clientUp c) = .ok { s with
      client := Function.update s.client c .up
      context := Function.update s.context c (some c)
      reading := Function.update s.reading c true
      tunnels := Function.update s.tunnels c
        (some { Tunnel.new c with clientConn_ := some c }) } := by
  have htunnel : s.tunnels c = some (.new c) := h.tunnel_eq hlink
  have hempty : s.inputBuffer c = [] := (h.slots c).unread (.inr hlink)
  rw [step, onClientConnection]
  simp only [htunnel, deref, ok_then, Tunnel.new, Function.update_self, if_true]
  exact if_neg (by
    show ¬0 < (s.inputBuffer c).length
    rw [hempty]
    decide)

theorem step_clientMessage (h : Wired name s) (hlink : s.client c = .up) :
    step name fuel s (.clientMessage c data) =
      .ok { s with sent := s.sent ++ [.toClient c data] } := by
  have htunnel : s.tunnels c = some { Tunnel.new c with clientConn_ := some c } :=
    h.tunnel_eq hlink
  rw [step, onClientMessage, htunnel]
  rfl

theorem step_clientDown (h : Wired name s) (hlink : s.client c = .up) :
    step name fuel s (.clientDown c) = .ok { s with
      client := Function.update s.client c .down
      tunnels := Function.update s.tunnels c (some { Tunnel.new c with callbacks := false })
      context := Function.update s.context c none
      sent := s.sent ++ [.shutdown c] } := by
  have htunnel : s.tunnels c = some { Tunnel.new c with clientConn_ := some c } :=
    h.tunnel_eq hlink
  have hdown : Function.update s.client c Link.down c ≠ .up := by
    rw [Function.update_self]
    decide
  rw [step, onClientConnection]
  simp only [htunnel, deref, ok_then]
  exact if_neg hdown

theorem step_unlinked (h : Wired name s) (hlink : s.client c ≠ .up) :
    step name fuel s (.serverMessage c data) =
      .ok (s.setServing (s.proxying.serving.receive c data)) := by
  have hcontext : s.context c = none := (h.slots c).context.trans (if_neg hlink)
  rw [step, onServerMessage, hcontext]

theorem step_linked (h : Wired name s) (hlink : s.client c = .up) :
    step name fuel s (.serverMessage c data) = serve fuel s.proxying (c, data) >>= fun p =>
      .ok { s with
        proxying := p
        sent := s.sent ++ p.serving.last.filterMap (Output.sent c c) } := by
  have hcontext : s.context c = some c := (h.slots c).context.trans (if_pos hlink)
  rw [step, onServerMessage, hcontext]

/-! ## The invariant -/

theorem wired_serverUp (hname : Function.Injective name) (h : Wired name s)
    (hidle : s.server c = .none) (hstep : step name fuel s (.serverUp c) = .ok s') :
    Wired name s' := by
  obtain rfl := Except.ok.inj (step_serverUp.symm.trans hstep)
  have hlink : s.client c = .none := (h.slots c).begun.mp hidle
  refine @Wired.update _ name s _ c h (fun d hd => ?_) ?_ fun key t hentry => ?_
  · simp [slot, inputBuffer, hd, hname.ne hd]
  · constructor
    case entry => simp [slot]
    case begun => simp [slot]
    case tunnel => simp [slot, Tunnel.wired]
    case context =>
      have hcontext : s.context c = none := (h.slots c).context.trans (by simp [slot, hlink])
      simp [slot, hcontext]
    case stopped => simp [slot]
    case unread => exact fun _ => (h.slots c).unread (.inl hlink)
  · exact h.named_update (fun t ht => (Option.some.inj ht).symm) hentry

theorem wired_serverDown (hname : Function.Injective name) (h : Wired name s)
    (hup : s.server c = .up) (hstep : step name fuel s (.serverDown c) = .ok s') :
    Wired name s' := by
  obtain rfl := Except.ok.inj ((step_serverDown h hup).symm.trans hstep)
  have hbegun : s.client c ≠ .none := fun hlink =>
    absurd (hup.symm.trans ((h.slots c).begun.mpr hlink)) (by decide)
  refine @Wired.update _ name s _ c h (fun d hd => ?_) ?_ fun key t hentry => ?_
  · simp [slot, inputBuffer, hd, hname.ne hd]
  · constructor
    case entry => simp [slot]
    case begun => simpa [slot] using hbegun
    case tunnel => exact (h.slots c).tunnel
    case context => exact (h.slots c).context
    case stopped => exact (h.slots c).stopped
    case unread => exact (h.slots c).unread
  · exact h.named_update (fun t ht => by cases ht) hentry

theorem wired_clientUp (h : Wired name s) (hlink : s.client c = .connecting)
    (hstep : step name fuel s (.clientUp c) = .ok s') : Wired name s' := by
  obtain rfl := Except.ok.inj ((step_clientUp h hlink).symm.trans hstep)
  have hbegun : s.server c ≠ .none := h.server_ne (by rw [hlink]; decide)
  refine @Wired.update _ name s _ c h (fun d hd => ?_) ?_ h.named
  · simp [slot, inputBuffer, hd]
  · constructor
    case entry => exact (h.slots c).entry
    case begun => simpa [slot] using hbegun
    case tunnel => simp [slot, Tunnel.wired]
    case context => simp [slot]
    case stopped => simp [slot]
    case unread => simp [slot]

theorem wired_clientDown (h : Wired name s) (hlink : s.client c = .up)
    (hstep : step name fuel s (.clientDown c) = .ok s') : Wired name s' := by
  obtain rfl := Except.ok.inj ((step_clientDown h hlink).symm.trans hstep)
  have hbegun : s.server c ≠ .none := h.server_ne (by rw [hlink]; decide)
  refine @Wired.update _ name s _ c h (fun d hd => ?_) ?_ h.named
  · simp [slot, inputBuffer, hd]
  · constructor
    case entry => exact (h.slots c).entry
    case begun => simpa [slot] using hbegun
    case tunnel => simp [slot, Tunnel.wired]
    case context => simp [slot]
    case stopped => simp [slot]
    case unread => simp [slot]

theorem serve_buffer {p p' : Proxying C} (hserve : serve fuel p (c, data) = .ok p') :
    ∃ b, p'.serving.buffer = Function.update p.serving.buffer c b := by
  obtain ⟨r, -, heq⟩ := then_ok_iff.mp hserve
  obtain rfl := Except.ok.inj heq
  exact ⟨r.2.2.2, rfl⟩

/-- Bytes of a client are in its buffer only. -/
theorem wired_serverMessage (h : Wired name s) (hposs : Possible s (.serverMessage c data))
    (hstep : step name fuel s (.serverMessage c data) = .ok s') : Wired name s' := by
  -- the library reads from it, so the connection to the server has been up
  have hlater : ¬(s.client c = .none ∨ s.client c = .connecting) := by
    rintro (hnone | hconnecting)
    · exact absurd (hposs.1.symm.trans ((h.slots c).begun.mpr hnone)) (by decide)
    · exact absurd (hposs.2.symm.trans ((h.slots c).stopped hconnecting)) (by decide)
  by_cases hlink : s.client c = .up
  · rw [step_linked h hlink] at hstep
    obtain ⟨p, hserve, heq⟩ := then_ok_iff.mp hstep
    obtain rfl := Except.ok.inj heq
    obtain ⟨b, hbuffer⟩ := serve_buffer hserve
    have hw := h.slots c
    refine @Wired.update _ name s _ c h (fun d hd => ?_) ?_ h.named
    · simp [slot, inputBuffer, hbuffer, hd]
    · exact { hw with unread := fun hearly => absurd hearly hlater }
  · obtain rfl := Except.ok.inj ((step_unlinked h hlink).symm.trans hstep)
    have hw := h.slots c
    refine @Wired.update _ name s _ c h (fun d hd => ?_) ?_ h.named
    · simp [slot, inputBuffer, setServing, Serving.receive, hd]
    · exact { hw with unread := fun hearly => absurd hearly hlater }

theorem wired_step (hname : Function.Injective name) {a : Callback C} (h : Wired name s)
    (hposs : Possible s a) (hstep : step name fuel s a = .ok s') : Wired name s' := by
  cases a with
  | serverUp c => exact wired_serverUp hname h hposs hstep
  | serverMessage c data => exact wired_serverMessage h hposs hstep
  | serverDown c => exact wired_serverDown hname h hposs hstep
  | clientUp c => exact wired_clientUp h hposs hstep
  | clientMessage c data =>
    obtain rfl := Except.ok.inj ((step_clientMessage h hposs).symm.trans hstep)
    exact ⟨h.slots, h.named⟩
  | clientDown c => exact wired_clientDown h hposs hstep

/-! ## Refinement -/

/-- What the pipes are, in the proxy. -/
def view (s : Relay C) : Pipes C :=
  { serving := s.proxying.serving, link := s.client, sent := s.sent }

variable {objs : List (Addr × Item)}

/-- A step that returns where the pipes' step does. -/
theorem view_of_ok {cache : Cache} {a : Callback C} {s₁ : Relay C}
    (hstep : step name fuel s a = .ok s₁)
    (hpipes : Pipes.step cache (view s) a = .ok (view s₁)) (hkept : Kept objs s₁.proxying) :
    (step name fuel s a).map view = Pipes.step cache (view s) a ∧
      ∀ s', step name fuel s a = .ok s' → Kept objs s'.proxying := by
  refine ⟨by rw [hstep, hpipes]; rfl, fun s' hs' => ?_⟩
  obtain rfl := Except.ok.inj (hstep.symm.trans hs')
  exact hkept

/-- A step does what it does to the pipes. -/
theorem step_view (hfuel : objs.length < fuel) {a : Callback C} (hkept : Kept objs s.proxying)
    (h : Wired name s) (hposs : Possible s a) :
    (step name fuel s a).map view = Pipes.step (objs.map fun o => o.2.obj) (view s) a ∧
      ∀ s', step name fuel s a = .ok s' → Kept objs s'.proxying := by
  cases a with
  | serverUp c => exact view_of_ok step_serverUp rfl hkept
  | serverMessage c data =>
    by_cases hlink : s.client c = .up
    · have hup : (view s).link c = .up := hlink
      -- the cache in memory answers as the list does
      obtain ⟨hsame, hrun⟩ := @serve_spec _ _ fuel _ _ (c, data) hkept hfuel
      rw [step_linked h hlink, Pipes.step, if_pos hup]
      show _ = (onCall _ s.proxying.serving (c, data) >>= _) ∧ _
      rw [← hsame]
      cases hserve : serve fuel s.proxying (c, data) with
      | error e => exact ⟨rfl, fun s' hs' => by cases hs'⟩
      | ok p =>
        refine ⟨rfl, fun s' hs' => ?_⟩
        obtain rfl := Except.ok.inj hs'
        exact hrun p hserve
    · have hdown : (view s).link c ≠ .up := hlink
      exact view_of_ok (step_unlinked h hlink) (by rw [Pipes.step, if_neg hdown]; rfl)
        ⟨hkept.holds, hkept.posted, hkept.counted⟩
  | serverDown c => exact view_of_ok (step_serverDown h hposs) rfl hkept
  | clientUp c => exact view_of_ok (step_clientUp h hposs) rfl hkept
  | clientMessage c data => exact view_of_ok (step_clientMessage h hposs) rfl hkept
  | clientDown c => exact view_of_ok (step_clientDown h hposs) rfl hkept

end Steps

/-! ## Runs -/

section Runs

variable {C : Type} {name : C → Bytes} {fuel : Nat} {s s' : Relay C} {c d : C} {g : Globals}
  {as : List (Callback C)} {a : Callback C}

/-- What the callbacks have told of a connection. -/
structure Told (as : List (Callback C)) (s : Relay C) (c : C) : Prop where
  accepted : .serverUp c ∈ as ↔ s.server c ≠ .none
  left : .serverDown c ∈ as ↔ s.server c = .down
  opened : .clientUp c ∈ as ↔ s.client c = .up ∨ s.client c = .down
  closed : .clientDown c ∈ as ↔ s.client c = .down
  server : s.server c ≠ .connecting

/-- A callback for another connection tells nothing of this one. -/
theorem Told.other (h : Told as s d) (hserver : s'.server d = s.server d)
    (hclient : s'.client d = s.client d) (hup : a ≠ .serverUp d) (hdown : a ≠ .serverDown d)
    (hopen : a ≠ .clientUp d) (hclose : a ≠ .clientDown d) : Told (as ++ [a]) s' d where
  accepted := by
    rw [List.mem_append, List.mem_singleton, hserver, ← h.accepted]
    exact or_iff_left hup.symm
  left := by
    rw [List.mem_append, List.mem_singleton, hserver, ← h.left]
    exact or_iff_left hdown.symm
  opened := by
    rw [List.mem_append, List.mem_singleton, hclient, ← h.opened]
    exact or_iff_left hopen.symm
  closed := by
    rw [List.mem_append, List.mem_singleton, hclient, ← h.closed]
    exact or_iff_left hclose.symm
  server := hserver ▸ h.server

theorem conn_of_sent {outs : List Output} {a : Sent C}
    (ha : a ∈ outs.filterMap (Output.sent c c)) : a.conn = c := by
  obtain ⟨out, -, hout⟩ := List.mem_filterMap.mp ha
  cases out <;> cases hout <;> rfl

/-- Where a Tunnel is pointed to from. -/
theorem Wired.held_iff (h : Wired name s) :
    s.Held c ↔ s.server c = .up ∨ s.client c = .connecting ∨ s.client c = .up := by
  have hentry : (∃ key, s.g_tunnels key = some c) ↔ s.server c = .up := by
    have hslot : s.g_tunnels (name c) = if s.server c = .up then some c else none :=
      (h.slots c).entry
    constructor
    · rintro ⟨key, hkey⟩
      rw [h.named key c hkey, hslot] at hkey
      by_contra hdown
      rw [if_neg hdown] at hkey
      cases hkey
    · intro hup
      exact ⟨name c, hslot.trans (if_pos hup)⟩
  have htunnel : s.tunnels c = Tunnel.wired c (s.client c) := (h.slots c).tunnel
  rw [Held, hentry, htunnel]
  cases s.client c <;> simp [Tunnel.wired, Tunnel.new]

/-- Before the server's connection for it is up, nothing is done to a connection but to
    disconnect. -/
def Silent (as : List (Callback C)) (s : Relay C) : Prop :=
  ∀ a ∈ s.sent, a = .disconnect a.conn ∨ .clientUp a.conn ∈ as

theorem Silent.extend {new : List (Sent C)} (h : Silent as s) (hsent : s'.sent = s.sent ++ new)
    (hnew : ∀ b ∈ new, b = .disconnect b.conn ∨ .clientUp b.conn ∈ as) :
    Silent (as ++ [a]) s' := by
  intro b hb
  rw [hsent] at hb
  rcases List.mem_append.mp hb with hold | hadded
  · exact (h b hold).imp_right (List.mem_append_left [a])
  · exact (hnew b hadded).imp_right (List.mem_append_left [a])

variable [DecidableEq C]

theorem told_serverUp (hwired : Wired name s) (hidle : s.server c = .none)
    (h : ∀ d, Told as s d) (hstep : step name fuel s (.serverUp c) = .ok s') (d : C) :
    Told (as ++ [.serverUp c]) s' d := by
  obtain rfl := Except.ok.inj (step_serverUp.symm.trans hstep)
  by_cases hd : d = c
  · subst hd
    have hlink : s.client d = .none := (hwired.slots d).begun.mp hidle
    exact
      { accepted := by simp
        left := by simp [(h d).left, hidle]
        opened := by simp [(h d).opened, hlink]
        closed := by simp [(h d).closed, hlink]
        server := by simp }
  · exact (h d).other (by simp [hd]) (by simp [hd]) (by simp [Ne.symm hd]) (by simp) (by simp)
      (by simp)

theorem told_serverDown (hwired : Wired name s) (hup : s.server c = .up)
    (h : ∀ d, Told as s d) (hstep : step name fuel s (.serverDown c) = .ok s') (d : C) :
    Told (as ++ [.serverDown c]) s' d := by
  obtain rfl := Except.ok.inj ((step_serverDown hwired hup).symm.trans hstep)
  by_cases hd : d = c
  · subst hd
    exact
      { accepted := by simp [(h d).accepted, hup]
        left := by simp
        opened := by simp [(h d).opened]
        closed := by simp [(h d).closed]
        server := by simp }
  · exact (h d).other (by simp [hd]) rfl (by simp) (by simp [Ne.symm hd]) (by simp) (by simp)

theorem told_clientUp (hwired : Wired name s) (hlink : s.client c = .connecting)
    (h : ∀ d, Told as s d) (hstep : step name fuel s (.clientUp c) = .ok s') (d : C) :
    Told (as ++ [.clientUp c]) s' d := by
  obtain rfl := Except.ok.inj ((step_clientUp hwired hlink).symm.trans hstep)
  by_cases hd : d = c
  · subst hd
    exact
      { accepted := by simp [(h d).accepted]
        left := by simp [(h d).left]
        opened := by simp
        closed := by simp [(h d).closed, hlink]
        server := (h d).server }
  · exact (h d).other rfl (by simp [hd]) (by simp) (by simp) (by simp [Ne.symm hd]) (by simp)

theorem told_clientDown (hwired : Wired name s) (hlink : s.client c = .up)
    (h : ∀ d, Told as s d) (hstep : step name fuel s (.clientDown c) = .ok s') (d : C) :
    Told (as ++ [.clientDown c]) s' d := by
  obtain rfl := Except.ok.inj ((step_clientDown hwired hlink).symm.trans hstep)
  by_cases hd : d = c
  · subst hd
    exact
      { accepted := by simp [(h d).accepted]
        left := by simp [(h d).left]
        opened := by simp [(h d).opened, hlink]
        closed := by simp
        server := (h d).server }
  · exact (h d).other rfl (by simp [hd]) (by simp) (by simp) (by simp) (by simp [Ne.symm hd])

/-- A step, with what its callback tells. -/
theorem told_step (hwired : Wired name s) (hposs : Possible s a) (h : ∀ d, Told as s d)
    (hstep : step name fuel s a = .ok s') (d : C) : Told (as ++ [a]) s' d := by
  cases a with
  | serverUp c => exact told_serverUp hwired hposs h hstep d
  | serverMessage c data =>
    -- with a connection to the server or without one, the links stay
    by_cases hlink : s.client c = .up
    · rw [step_linked hwired hlink] at hstep
      obtain ⟨p, -, heq⟩ := then_ok_iff.mp hstep
      obtain rfl := Except.ok.inj heq
      exact (h d).other rfl rfl (by simp) (by simp) (by simp) (by simp)
    · obtain rfl := Except.ok.inj ((step_unlinked hwired hlink).symm.trans hstep)
      exact (h d).other rfl rfl (by simp) (by simp) (by simp) (by simp)
  | serverDown c => exact told_serverDown hwired hposs h hstep d
  | clientUp c => exact told_clientUp hwired hposs h hstep d
  | clientMessage c data =>
    obtain rfl := Except.ok.inj ((step_clientMessage hwired hposs).symm.trans hstep)
    exact (h d).other rfl rfl (by simp) (by simp) (by simp) (by simp)
  | clientDown c => exact told_clientDown hwired hposs h hstep d

theorem silent_step (hwired : Wired name s) (hposs : Possible s a) (htold : ∀ d, Told as s d)
    (h : Silent as s) (hstep : step name fuel s a = .ok s') : Silent (as ++ [a]) s' := by
  cases a with
  | serverUp c =>
    obtain rfl := Except.ok.inj (step_serverUp.symm.trans hstep)
    exact h.extend (List.append_nil _).symm fun b hb => by cases hb
  | serverMessage c data =>
    by_cases hlink : s.client c = .up
    · rw [step_linked hwired hlink] at hstep
      obtain ⟨p, -, heq⟩ := then_ok_iff.mp hstep
      obtain rfl := Except.ok.inj heq
      refine h.extend rfl fun b hb => .inr ?_
      rw [conn_of_sent hb]
      exact (htold c).opened.mpr (.inl hlink)
    · obtain rfl := Except.ok.inj ((step_unlinked hwired hlink).symm.trans hstep)
      exact h.extend (List.append_nil _).symm fun b hb => by cases hb
  | serverDown c =>
    obtain rfl := Except.ok.inj ((step_serverDown hwired hposs).symm.trans hstep)
    refine h.extend rfl fun b hb => .inl ?_
    obtain rfl := List.mem_singleton.mp hb
    rfl
  | clientUp c =>
    obtain rfl := Except.ok.inj ((step_clientUp hwired hposs).symm.trans hstep)
    exact h.extend (List.append_nil _).symm fun b hb => by cases hb
  | clientMessage c data =>
    obtain rfl := Except.ok.inj ((step_clientMessage hwired hposs).symm.trans hstep)
    refine h.extend rfl fun b hb => .inr ?_
    obtain rfl := List.mem_singleton.mp hb
    exact (htold c).opened.mpr (.inl hposs)
  | clientDown c =>
    obtain rfl := Except.ok.inj ((step_clientDown hwired hposs).symm.trans hstep)
    refine h.extend rfl fun b hb => .inr ?_
    obtain rfl := List.mem_singleton.mp hb
    exact (htold c).opened.mpr (.inl hposs)

/-- What holds after a run. -/
structure After (name : C → Bytes) (as : List (Callback C)) (s : Relay C) : Prop where
  wired : Wired name s
  told : ∀ c, Told as s c
  silent : Silent as s

theorem run_after (hname : Function.Injective name)
    (h : Along (step name fuel) Possible (start g) as)
    (hrun : run (step name fuel) (start g) as = .ok s) : After name as s := by
  induction as using List.reverseRecOn generalizing s with
  | nil =>
    obtain rfl := Except.ok.inj hrun
    exact
      { wired := wired_start g
        told := fun c => by constructor <;> simp [start]
        silent := fun b hb => by cases hb }
  | append_singleton as a ih =>
    obtain ⟨m, hm, hlast⟩ := run_prefix hrun
    obtain ⟨s', hstep, hs'⟩ := then_ok_iff.mp hlast
    obtain rfl := Except.ok.inj hs'
    have hposs : Possible m a := along_at h hm
    have hafter := ih (along_append h) hm
    exact
      { wired := wired_step hname hafter.wired hposs hstep
        told := told_step hafter.wired hposs hafter.told hstep
        silent := silent_step hafter.wired hposs hafter.told hafter.silent hstep }

end Runs

/-- The proxy, started by `main` on any memory, does for its clients what a pipe to the
    server for each of them would do, the parser and the cache being shared, whatever the
    order of the callbacks, and fails only where a pipe's lookup does.  No client gets
    anything before the server's connection for it is up, not even what is in the cache. -/
theorem tunnels_refine {C : Type} [DecidableEq C] {name : C → Bytes}
    (hname : Function.Injective name) (sum : IntSum) {fuel : Nat} (hfuel : 1 < fuel) (m : Startup)
    {p : Addr} (hnull : p ≠ NULL) (hhead : p ≠ m.head) (htail : p ≠ m.tail) (junk : Node)
    {g : Globals} (hmain : main sum fuel m p junk = .ok g) {as : List (Callback C)}
    (h : Along (step name fuel) Possible (start g) as) :
    (run (step name fuel) (start g) as).map view = run (Pipes.step [testObj]) Pipes.start as ∧
      ∀ s, run (step name fuel) (start g) as = .ok s →
        ∀ b ∈ s.sent, b = .disconnect b.conn ∨ .clientUp b.conn ∈ as := by
  obtain ⟨g', hg', hl, hposted, hcount⟩ := @main_spec sum fuel p m hfuel hnull hhead htail junk
  obtain rfl := Except.ok.inj (hg'.symm.trans hmain)
  have hkept : Kept [(p, (tmpobj junk).value)] (start g' : Relay C).proxying :=
    { holds := hl, posted := hposted, counted := hcount }
  obtain ⟨hsame, -⟩ := @run_refines _ _ _ _ Possible _ (Pipes.step [testObj]) view
    (fun s : Relay C => Kept [(p, (tmpobj junk).value)] s.proxying ∧ Wired name s)
    (start g') as (fun s a hs hposs => by
      obtain ⟨hview, hnext⟩ := step_view hfuel hs.1 hs.2 hposs
      exact ⟨hview, fun s' hs' => ⟨hnext s' hs', wired_step hname hs.2 hposs hs'⟩⟩)
    ⟨hkept, wired_start g'⟩ h
  exact ⟨hsame, fun s hs => (run_after hname h hs).silent⟩

def nameExample (c : Bool) : Bytes := if c then ascii "Proxy#2" else ascii "Proxy#1"

theorem main_returns : ∃ g, main Globals.wrapping 2 Globals.sampleStartup 3 zeroNode = .ok g := by
  have hlive : (3 : Addr) ≠ NULL ∧ 3 ≠ Globals.sampleStartup.head ∧
      3 ≠ Globals.sampleStartup.tail := by decide
  obtain ⟨g, hmain, -⟩ := @main_spec Globals.wrapping 2 3 Globals.sampleStartup (by decide)
    hlive.1 hlive.2.1 hlive.2.2 zeroNode
  exact ⟨g, hmain⟩

def globalsExample : Globals :=
  (main Globals.wrapping 2 Globals.sampleStartup 3 zeroNode).toOption.get (by
    obtain ⟨g, hmain⟩ := main_returns
    rw [hmain]
    rfl)

theorem main_globals :
    main Globals.wrapping 2 Globals.sampleStartup 3 zeroNode = .ok globalsExample := by
  obtain ⟨g, hmain⟩ := main_returns
  simp only [globalsExample, hmain, Except.toOption, Option.get_some]

/-- A client asks for a page, and leaves; another one finds no server. -/
def callbacksExample : List (Callback Bool) :=
  [.serverUp false, .serverUp true, .clientUp false,
    .serverMessage false (ascii "GET /a HTTP/1.0\r\n"), .serverMessage false (ascii "\r\n"),
    .clientMessage false (ascii "page"), .serverDown true, .clientDown false, .serverDown false]

theorem tunnels_refine_two :
    (run (step nameExample 2) (start globalsExample) callbacksExample).map view =
        run (Pipes.step [testObj]) Pipes.start callbacksExample ∧
      ∀ s, run (step nameExample 2) (start globalsExample) callbacksExample = .ok s →
        ∀ b ∈ s.sent, b = .disconnect b.conn ∨ .clientUp b.conn ∈ callbacksExample :=
  have hlive : (3 : Addr) ≠ NULL ∧ 3 ≠ Globals.sampleStartup.head ∧
      3 ≠ Globals.sampleStartup.tail := by decide
  tunnels_refine (by decide) Globals.wrapping (by decide) Globals.sampleStartup hlive.1
    hlive.2.1 hlive.2.2 zeroNode main_globals (by decide +kernel)

/-- Once a client has been accepted, its Tunnel is let go of exactly when the client's
    connection and the one to the server have both been up and down: the callbacks of
    `client_` keep it until then, and keep it for good when the server never answers. -/
theorem tunnel_held_iff {C : Type} [DecidableEq C] {name : C → Bytes}
    (hname : Function.Injective name) {fuel : Nat} {g : Globals} {as : List (Callback C)}
    {s : Relay C} (h : Along (step name fuel) Possible (start g) as)
    (hrun : run (step name fuel) (start g) as = .ok s) (c : C) :
    s.Held c ↔ .serverUp c ∈ as ∧ ¬(.serverDown c ∈ as ∧ .clientDown c ∈ as) := by
  have hafter := run_after hname h hrun
  have htold := hafter.told c
  have hbegun : s.server c = .none ↔ s.client c = .none := (hafter.wired.slots c).begun
  have hserver := htold.server
  rw [hafter.wired.held_iff, htold.accepted, htold.left, htold.closed]
  -- the connection of a client is never connecting, and without one there is no Tunnel
  cases hs : s.server c <;> cases hc : s.client c <;> simp_all

/-- Both clients have left, and one Tunnel is still there. -/
theorem tunnel_held_iff_two :
    ∃ s, run (step nameExample 2) (start globalsExample) callbacksExample = .ok s ∧
      ¬s.Held false ∧ s.Held true := by
  obtain ⟨s, hrun⟩ := @exists_ok _ _
    (run (step nameExample 2) (start globalsExample) callbacksExample) (by decide +kernel)
  have hheld := tunnel_held_iff (by decide) (by decide +kernel) hrun
  exact ⟨s, hrun, fun hfalse => absurd ((hheld false).mp hfalse) (by decide),
    (hheld true).mpr (by decide)⟩

end Relay

end LearnMuduo.Proxy
