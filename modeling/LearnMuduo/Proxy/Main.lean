/-
  LearnMuduo.Proxy.Main

  The proxy as `main` (Proxy/Proxy.cc) sets it up: `onServerMessage` with the cache in memory
  and its semaphores.

  `main` writes one object and nobody writes another, so every call of `readItem` walks the
  same list.  The proxy then does what it does with that object in a list (`onCall`).  A call
  that finds it returns from the reading section, and `W` is never posted again.
-/
import LearnMuduo.Proxy.CacheList
import LearnMuduo.Proxy.Clients

namespace LearnMuduo.Proxy

open Lib

def testObj : Obj := { uri := ascii "/haha", respBody := ascii "This is the test body" }

/-- `tmpobj`: `main` leaves the links as `malloc` does, and adds to the length it finds. -/
def tmpobj (junk : Node) : Node :=
  { junk with
    value :=
      { flag := 36, obj := testObj
        respBodyLen := toInt (junk.value.respBodyLen + testObj.respBody.length) } }

/-- `main` in front of the loop. -/
def main (sum : IntSum) (fuel : Nat) (m : Startup) (p : Addr) (junk : Node) :
    Except Fault Globals :=
  Globals.start m >>= fun g => g.write sum fuel (p, tmpobj junk)

/-- The blank line, with the object in memory. -/
def answerFrom (fuel : Nat) (g : Globals) (s : Statics) : Except Fault (List Output × Globals) :=
  g.readItem fuel s.path_ >>= fun r =>
    if r.1 = NULL then .ok (.lookup (cStr s.path_) :: s.forward, r.2)
    else deref (r.2.heap.value? r.1) >>= fun obj =>
      .ok (.lookup (cStr s.path_) :: reply obj.obj, r.2)

/-- `onServerMessage` -/
def onMessage (fuel : Nat) (g : Globals) (s : Statics) (buffer : Bytes) :
    Except Fault (Globals × List Output × Statics × Bytes) :=
  s.ParseRequest buffer >>= fun (res, s, buffer) =>
    if res = 1 then .ok (g, [], s, buffer)
    else if res = 2 then answerFrom fuel g s >>= fun r => .ok (r.2, r.1, s, buffer)
    else .ok (g, errorReply, s, buffer)

/-- The proxy with its cache. -/
structure Proxying (C : Type) where
  globals : Globals
  serving : Serving C

/-- A client's bytes have come. -/
def serve {C : Type} [DecidableEq C] (fuel : Nat) (p : Proxying C) (call : C × Bytes) :
    Except Fault (Proxying C) :=
  onMessage fuel p.globals p.serving.statics (p.serving.buffer call.1 ++ call.2) >>= fun r =>
    .ok { globals := r.1
          serving :=
            { statics := r.2.2.1
              buffer := Function.update p.serving.buffer call.1 r.2.2.2
              outs := p.serving.outs ++ [(call.1, r.2.1)] } }

/-- The call was answered from the cache, and the connection shut down. -/
def isHit (outs : List Output) : Bool := outs.contains .shutdown

/-- How many calls were. -/
def hits {C : Type} (outs : List (C × List Output)) : Nat := outs.countP fun out => isHit out.2

/-! ## readItem -/

open Globals

section Read

variable {fuel : Nat} {g g' : Globals} {objs : List (Addr × Item)} {s : Statics} {p : Addr}
  {targetURI : Bytes}

/-- The loop finds what is in the list. -/
theorem traverse_front (hl : Holds g.cache g.heap objs) (hfuel : objs.length < fuel) :
    traverse g.heap targetURI fuel (front g.cache objs) =
      .ok ((objs.find? (forURI targetURI)).map Prod.fst) := by
  obtain ⟨junk, htail, hat⟩ := hl.sentinel
  obtain ⟨rest, hshape, -⟩ := hl.front_eq
  have hchain := hl.linked.chain
  rw [hshape] at hchain
  have hbehind : (objs.map Prod.fst ++ [g.cache.tail]).IsChain (DList.Follows g.heap) := by
    rw [hshape]
    exact (List.isChain_cons_cons.mp hchain).2
  exact traverse_spec hbehind hl.items hl.flags htail hat hfuel

/-- A reader that finds its URI stays counted. -/
theorem readItem_readcnt (hl : Holds g.cache g.heap objs) (hfuel : objs.length < fuel)
    (h : g.readItem fuel targetURI = .ok (p, g')) :
    g'.readcnt = g.readcnt + if (objs.find? (forURI targetURI)).isSome then 1 else 0 := by
  obtain ⟨mutex, -, h⟩ := then_ok_iff.mp h
  obtain ⟨W, -, h⟩ := then_ok_iff.mp h
  obtain ⟨cur, hcur, h⟩ := then_ok_iff.mp h
  obtain ⟨found, hfound, h⟩ := then_ok_iff.mp h
  obtain ⟨-, -, hfirst⟩ := hl.front_eq
  simp only [hfirst.next, deref] at hcur
  obtain rfl := Except.ok.inj hcur
  obtain rfl := Except.ok.inj ((traverse_front hl hfuel).symm.trans hfound)
  cases hfind : objs.find? (forURI targetURI) with
  | none =>
    rw [hfind] at h
    obtain ⟨mutex', -, h⟩ := then_ok_iff.mp h
    obtain ⟨-, rfl⟩ := Prod.mk.inj (Except.ok.inj h)
    show g.readcnt + 1 - 1 = g.readcnt + 0
    omega
  | some o =>
    rw [hfind] at h
    obtain ⟨-, rfl⟩ := Prod.mk.inj (Except.ok.inj h)
    rfl

/-- The answer is the one for the list. -/
theorem answerFrom_spec (hl : Holds g.cache g.heap objs) (hposted : Posted g)
    (hfuel : objs.length < fuel) :
    ∃ g', answerFrom fuel g s = .ok (answer (objs.map fun o => o.2.obj) s, g') ∧ Posted g' ∧
      g'.heap = g.heap ∧ g'.cache = g.cache ∧
      g'.readcnt = g.readcnt + if isHit (answer (objs.map fun o => o.2.obj) s) then 1 else 0 := by
  obtain ⟨g', hread, hposted', hheap, hcache, -⟩ :=
    @readItem_spec g objs s.path_ fuel hl hposted hfuel
  have hcount := readItem_readcnt hl hfuel hread
  have hitem : Proxy.readItem (objs.map fun o => o.2.obj) s.path_ =
      (objs.find? (forURI s.path_)).map fun o => o.2.obj := by
    rw [Proxy.readItem, List.find?_map]
    rfl
  refine ⟨g', ?_, hposted', hheap, hcache, ?_⟩
  · rw [answerFrom, hread, ok_then]
    cases hfind : objs.find? (forURI s.path_) with
    | none =>
      rw [hfind] at hitem
      rw [answer_miss hitem]
      rfl
    | some o =>
      rw [hfind] at hitem
      have hmem : o ∈ objs := List.mem_of_find?_eq_some hfind
      have hlive : o.1 ≠ NULL := by
        intro hnull
        have hin : o.1 ∈ g.cache.head :: (objs.map Prod.fst ++ [g.cache.tail]) :=
          List.mem_cons_of_mem _ (List.mem_append_left _ (List.mem_map_of_mem hmem))
        exact hl.null (hnull ▸ hl.live o.1 hin)
      have hvalue : g'.heap.value? o.1 = some o.2 := by
        rw [hheap]
        exact hl.items o hmem
      show (if o.1 = NULL then _ else deref (g'.heap.value? o.1) >>= fun obj =>
        .ok (.lookup (cStr s.path_) :: reply obj.obj, g')) = _
      rw [if_neg hlive, hvalue, answer_hit hitem]
      rfl
  · rw [hcount]
    cases hfind : objs.find? (forURI s.path_) with
    | none =>
      rw [hfind] at hitem
      rw [answer_miss hitem]
      rfl
    | some o =>
      rw [hfind] at hitem
      rw [answer_hit hitem]
      rfl

end Read

/-! ## Runs -/

section Runs

variable {C : Type} [DecidableEq C] {fuel : Nat} {objs : List (Addr × Item)} {g : Globals}
  {p p' : Proxying C} {call : C × Bytes} {calls : List (C × Bytes)}

/-- The cache is as it was, and each hit is counted. -/
structure Kept (objs : List (Addr × Item)) (p : Proxying C) : Prop where
  holds : Holds p.globals.cache p.globals.heap objs
  posted : p.globals.Posted
  counted : p.globals.readcnt = hits p.serving.outs

/-- What a call answers does not depend on where the cache is kept. -/
theorem onMessage_spec (hl : Holds g.cache g.heap objs) (hposted : Posted g)
    (hfuel : objs.length < fuel) (s : Statics) (buffer : Bytes) :
    (∃ e, onServerMessage (objs.map fun o => o.2.obj) s buffer = .error e ∧
      onMessage fuel g s buffer = .error e) ∨
    ∃ outs t b g', onServerMessage (objs.map fun o => o.2.obj) s buffer = .ok (outs, t, b) ∧
      onMessage fuel g s buffer = .ok (g', outs, t, b) ∧ Posted g' ∧ g'.heap = g.heap ∧
      g'.cache = g.cache ∧ g'.readcnt = g.readcnt + if isHit outs then 1 else 0 := by
  cases hparse : s.ParseRequest buffer with
  | error e =>
    left
    rw [onServerMessage, onMessage, hparse]
    exact ⟨e, rfl, rfl⟩
  | ok r =>
    obtain ⟨res, t, b⟩ := r
    right
    rw [onServerMessage, onMessage, hparse]
    simp only [ok_then]
    by_cases hone : res = 1
    · rw [if_pos hone, if_pos hone]
      exact ⟨[], t, b, g, rfl, rfl, hposted, rfl, rfl, (Int.add_zero _).symm⟩
    by_cases htwo : res = 2
    · obtain ⟨g', hanswer, hposted', hheap, hcache, hcount⟩ :=
        @answerFrom_spec fuel g objs t hl hposted hfuel
      rw [if_neg hone, if_pos htwo, if_neg hone, if_pos htwo, hanswer]
      exact ⟨_, t, b, g', rfl, rfl, hposted', hheap, hcache, hcount⟩
    · rw [if_neg hone, if_neg htwo, if_neg hone, if_neg htwo]
      exact ⟨errorReply, t, b, g, rfl, rfl, hposted, rfl, rfl, (Int.add_zero _).symm⟩

theorem serve_spec (h : Kept objs p) (hfuel : objs.length < fuel) :
    (serve fuel p call).map Proxying.serving =
        onCall (objs.map fun o => o.2.obj) p.serving call ∧
      ∀ p', serve fuel p call = .ok p' → Kept objs p' := by
  rw [serve, onCall]
  rcases onMessage_spec h.holds h.posted hfuel p.serving.statics
      (p.serving.buffer call.1 ++ call.2) with
    ⟨e, hlist, hheap⟩ | ⟨outs, t, b, g', hlist, hmessage, hposted, hheap, hcache, hcount⟩
  · rw [hlist, hheap]
    exact ⟨rfl, fun p' hp => by cases hp⟩
  · rw [hlist, hmessage]
    refine ⟨rfl, fun p' hp => ?_⟩
    obtain rfl := Except.ok.inj hp
    constructor
    case holds =>
      show Holds g'.cache g'.heap objs
      rw [hcache, hheap]
      exact h.holds
    case posted => exact hposted
    case counted =>
      show g'.readcnt = ((p.serving.outs ++ [(call.1, outs)]).countP fun out => isHit out.2 : Nat)
      rw [hcount, h.counted, List.countP_append, List.countP_singleton, Nat.cast_add, hits]
      split <;> rfl

theorem run_serve (h : Kept objs p) (hfuel : objs.length < fuel) :
    (run (serve fuel) p calls).map Proxying.serving =
        run (onCall (objs.map fun o => o.2.obj)) p.serving calls ∧
      ∀ p', run (serve fuel) p calls = .ok p' → Kept objs p' :=
  @run_refines _ _ _ (serve fuel) (fun _ _ => True) _ _ Proxying.serving (Kept objs) p calls
    (fun _ _ hkept _ => serve_spec hkept hfuel) h (along_of_forall (fun _ _ => trivial) p calls)

end Runs

/-! ## main -/

section Main

variable {C : Type} [DecidableEq C] {sum : IntSum} {fuel : Nat} {p : Addr} {outs : List Output}

theorem main_spec (m : Startup) (hfuel : 1 < fuel) (hnull : p ≠ NULL) (hhead : p ≠ m.head)
    (htail : p ≠ m.tail) (junk : Node) :
    ∃ g, main sum fuel m p junk = .ok g ∧
      Holds g.cache g.heap [(p, (tmpobj junk).value)] ∧ Posted g ∧ g.readcnt = 0 := by
  obtain ⟨g, hstart, hl, hposted, -, hghead, hgtail⟩ := start_spec m
  have hfresh : ¬DList.Reaches g.heap g.cache.head p := by
    intro hreach
    rcases reaches_mem hl hreach with hmem | hnone
    · rcases List.mem_cons.mp hmem with heq | hmem
      · exact hhead (heq.trans hghead)
      · exact htail ((List.mem_singleton.mp hmem).trans hgtail)
    · exact hnull hnone
  obtain ⟨h, hwrite, hh⟩ := @write_spec sum g [] fuel (p, tmpobj junk) hl
    { null := hnull, fresh := hfresh, flag := by show (36 : Byte) ≠ AT; decide } hfuel
  rw [ite_self] at hh
  refine ⟨{ g with heap := h, CacheSize := sum.add g.CacheSize (tmpobj junk).value.respBodyLen },
    ?_, hh, hposted, ?_⟩
  · rw [main, hstart, ok_then, hwrite]
  · obtain ⟨r, -, hg⟩ := then_ok_iff.mp hstart
    obtain rfl := Except.ok.inj hg
    rfl

/-- The cache answers for the one URI that is in it. -/
theorem isHit_iff {s t : Statics} {buffer b : Bytes}
    (h : onServerMessage [testObj] s buffer = .ok (outs, t, b)) :
    isHit outs = true ↔ Output.lookup testObj.uri ∈ outs := by
  obtain ⟨⟨res, u, c⟩, -, h⟩ := then_ok_iff.mp h
  dsimp only at h
  split at h
  · obtain ⟨rfl, -⟩ := Prod.mk.inj (Except.ok.inj h)
    decide
  · split at h
    · obtain ⟨rfl, -⟩ := Prod.mk.inj (Except.ok.inj h)
      have huri : cStr testObj.uri = testObj.uri := by decide
      by_cases hpath : cStr u.path_ = testObj.uri
      · have hitem : readItem [testObj] u.path_ = some testObj := by
          rw [readItem, List.find?_cons_of_pos (by simp [hpath, huri])]
        rw [answer_hit hitem, hpath]
        decide
      · have hitem : readItem [testObj] u.path_ = none := by
          rw [readItem, List.find?_cons_of_neg (by simpa [huri] using hpath)]
          rfl
        rw [answer_miss hitem]
        simp [isHit, Statics.forward, Ne.symm hpath]
    · obtain ⟨rfl, -⟩ := Prod.mk.inj (Except.ok.inj h)
      decide

theorem outs_hits {calls : List (C × Bytes)} {q : Serving C}
    (h : run (onCall [testObj]) (Serving.start .zero) calls = .ok q) :
    ∀ out ∈ q.outs, isHit out.2 = true ↔ Output.lookup testObj.uri ∈ out.2 := by
  refine run_preserves (P := fun q : Serving C => ∀ out ∈ q.outs,
    isHit out.2 = true ↔ Output.lookup testObj.uri ∈ out.2) ?_ (fun _ hout => by cases hout) h
  intro q call q' hq hcall out hout
  obtain ⟨outs, t, b, hmessage, rfl⟩ := onCall_ok hcall
  rcases List.mem_append.mp hout with hout | hout
  · exact hq out hout
  · obtain rfl := List.mem_singleton.mp hout
    exact isHit_iff hmessage

/-- The proxy, started by `main` on any memory, does for any clients what it does with its one
    object in a list, and fails where that fails.  It answers from the cache just the lookups
    of that object's URI; each of them leaves a reader counted, and from the first one on the
    writers' semaphore stays down. -/
theorem main_refines (sum : IntSum) (hfuel : 1 < fuel) (m : Startup) (hnull : p ≠ NULL)
    (hhead : p ≠ m.head) (htail : p ≠ m.tail) (junk : Node) (calls : List (C × Bytes)) :
    ∃ g, main sum fuel m p junk = .ok g ∧
      (run (serve fuel) { globals := g, serving := Serving.start .zero } calls).map
          Proxying.serving = run (onCall [testObj]) (Serving.start .zero) calls ∧
      ∀ p', run (serve fuel) { globals := g, serving := Serving.start .zero } calls = .ok p' →
        (∀ out ∈ p'.serving.outs, isHit out.2 = true ↔ Output.lookup testObj.uri ∈ out.2) ∧
        p'.globals.readcnt = hits p'.serving.outs ∧
        (p'.globals.W = 0 ↔ 0 < hits p'.serving.outs) := by
  obtain ⟨g, hmain, hl, hposted, hcount⟩ := @main_spec sum fuel p m hfuel hnull hhead htail junk
  have hkept : Kept [(p, (tmpobj junk).value)]
      { globals := g, serving := (Serving.start .zero : Serving C) } :=
    { holds := hl, posted := hposted, counted := hcount }
  obtain ⟨hsame, hrun⟩ := @run_serve _ _ fuel _ _ calls hkept hfuel
  refine ⟨g, hmain, hsame, fun p' hp => ⟨?_, (hrun p' hp).counted, ?_⟩⟩
  · rw [hp] at hsame
    exact outs_hits hsame.symm
  · have hcounted := (hrun p' hp).counted
    rcases (hrun p' hp).posted.2 with ⟨hzero, hfree⟩ | ⟨hpos, htaken⟩
    · exact iff_of_false (by omega) (by omega)
    · exact iff_of_true htaken (by omega)

end Main

/-- One client asks for the object, and another one sends a blank line after it. -/
def hahaTwice : List (Bool × Bytes) :=
  [(false, ascii "GET /haha HTTP/1.0\r\n"), (false, ascii "\r\n"), (true, ascii "\r\n")]

/-- Memory that holds zeros, with links to nowhere. -/
def zeroNode : Node :=
  { value := { flag := 0, obj := { uri := [], respBody := [] }, respBodyLen := 0 }
    prev := NULL, next := NULL }

theorem main_refines_twice :
    ∃ g, main Globals.wrapping 2 Globals.sampleStartup 3 zeroNode = .ok g ∧
      (run (serve 2) { globals := g, serving := Serving.start .zero } hahaTwice).map
          Proxying.serving = run (onCall [testObj]) (Serving.start .zero) hahaTwice ∧
      ∀ p', run (serve 2) { globals := g, serving := Serving.start .zero } hahaTwice = .ok p' →
        (∀ out ∈ p'.serving.outs, isHit out.2 = true ↔ Output.lookup testObj.uri ∈ out.2) ∧
        p'.globals.readcnt = hits p'.serving.outs ∧
        (p'.globals.W = 0 ↔ 0 < hits p'.serving.outs) :=
  main_refines Globals.wrapping (by decide) Globals.sampleStartup (by decide) (by decide)
    (by decide) zeroNode hahaTwice

end LearnMuduo.Proxy
