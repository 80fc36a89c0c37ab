/-
  LearnMuduo.Proxy.CacheHeap

  The cache of the proxy as it lies in memory: `initializeCache` (Proxy/Cache.cc),
  `writeToCache` and `readItem` (Proxy/Proxy.cc).

  The objects are linked between two nodes flagged `'@'`.  `Holds g objs` says that they are
  `objs`, the newest first; each operation has one lemma that says what it makes of them.
  `CacheSize` is an `int` that only grows.  A sum that overflows is any `int` (`IntSum`);
  whether the test for room comes out one way or the other, the list is kept.
-/
import LearnMuduo.Lib.DList
import LearnMuduo.Lib.Loop
import LearnMuduo.Lib.Run
import LearnMuduo.Proxy.ReadItem

namespace LearnMuduo.Proxy

open Lib
open Lib.DList (Linked Follows Reaches)

abbrev Addr := Nat

def NULL : Addr := 0

/-- `'@'`. -/
def AT : Byte := 64

def MAX_CACHE_SIZE : Int := 1049000

def MAX_OBJECT_SIZE : Int := 102400

/-- What an `obj_t` has besides its links. -/
structure Item where
  flag : Byte
  obj : Obj
  respBodyLen : Int

abbrev Heap := DList.Heap Addr Item

abbrev Node := DList.Node Addr Item

/-- `cache_t`. -/
structure CacheList where
  head : Addr
  tail : Addr
  nitems : Int

/-- The sum of two `int`s: exact where it is an `int`. -/
structure IntSum where
  add : Int → Int → Int
  exact : ∀ a b, -2 ^ 31 ≤ a + b → a + b < 2 ^ 31 → add a b = a + b

/-- A field of a node that is there. -/
def deref {α : Type} : Option α → Except Fault α
  | some a => .ok a
  | none => .error .dangling

def storePrev (h : Heap) (p q : Addr) : Except Fault Heap :=
  deref (h p) >>= fun _ => .ok (h.setPrev p q)

def storeNext (h : Heap) (p q : Addr) : Except Fault Heap :=
  deref (h p) >>= fun _ => .ok (h.setNext p q)

def release (h : Heap) (p : Addr) : Except Fault Heap := deref (h p) >>= fun _ => .ok (h.free p)

/-- What `malloc` returned at `p`, with what its owner puts in. -/
def allocate (h : Heap) (p : Addr) (node : Node) : Heap := Function.update h p (some node)

/-- A node of the cache itself; the other fields are as `malloc` left them. -/
def sentinel (junk : Item) : Node :=
  { value := { junk with flag := AT }, prev := NULL, next := NULL }

def initializeCache (h : Heap) (head tail : Addr) (junk : Addr → Item) :
    Except Fault (Heap × CacheList) :=
  let h := allocate h head (sentinel (junk head))
  let h := allocate h tail (sentinel (junk tail))
  storeNext h head tail >>= fun h =>
  storePrev h tail head >>= fun h =>
  .ok (h, { head := head, tail := tail, nitems := 0 })

/-- What the start finds: a heap, and where `malloc` puts the two nodes of the cache. -/
structure Startup where
  heap : Heap
  head : Addr
  tail : Addr
  junk : Addr → Item
  null : ¬heap.Live NULL
  head_null : head ≠ NULL
  tail_null : tail ≠ NULL
  apart : head ≠ tail

/-- The statics of the file. -/
structure Globals where
  heap : Heap
  cache : CacheList
  CacheSize : Int
  mutex : Nat
  W : Nat
  readcnt : Int

namespace Globals

/-- The start of `main`. -/
def start (m : Startup) : Except Fault Globals :=
  initializeCache m.heap m.head m.tail m.junk >>= fun r =>
  .ok { heap := r.1, cache := r.2, CacheSize := 0, mutex := kMutex, W := 1, readcnt := 0 }

/-! ## writeToCache -/

/-- `obj->respBodyLen + CacheSize > MAX_CACHE_SIZE`. -/
def Full (sum : IntSum) (g : Globals) (o : Item) : Prop :=
  MAX_CACHE_SIZE < sum.add o.respBodyLen g.CacheSize

instance (sum : IntSum) (g : Globals) (o : Item) : Decidable (Full sum g o) := Int.decLt _ _

/-- The condition of the loop: the object does not fit, and there is one to evict. -/
def mustEvict (sum : IntSum) (g : Globals) (h : Heap) (obj : Addr) : Except Fault Bool :=
  deref (h.value? obj) >>= fun o =>
  if Full sum g o then
    deref (h.next? g.cache.head) >>= fun next => .ok (decide (next ≠ g.cache.tail))
  else .ok false

/-- The body of the loop. -/
def evict (cache : CacheList) (h : Heap) : Except Fault Heap :=
  deref (h.prev? cache.tail) >>= fun last =>
  deref (h.next? last) >>= fun next =>
  deref (h.prev? last) >>= fun prev =>
  storePrev h next prev >>= fun h =>
  deref (h.prev? last) >>= fun prev =>
  deref (h.next? last) >>= fun next =>
  storeNext h prev next >>= fun h =>
  storeNext h last NULL >>= fun h =>
  storePrev h last NULL >>= fun h =>
  release h last

/-- The heap in the loop, and whether it goes on. -/
structure Evicting where
  heap : Heap
  more : Bool

def evictPass (sum : IntSum) (g : Globals) (obj : Addr) (s : Evicting) : Except Fault Evicting :=
  g.mustEvict sum s.heap obj >>= fun more =>
  if more then evict g.cache s.heap >>= fun h => .ok { heap := h, more := true }
  else .ok { heap := s.heap, more := false }

/-- The object becomes the first. -/
def link (cache : CacheList) (h : Heap) (obj : Addr) : Except Fault Heap :=
  deref (h.next? cache.head) >>= fun next =>
  storeNext h obj next >>= fun h =>
  storePrev h obj cache.head >>= fun h =>
  deref (h.next? cache.head) >>= fun next =>
  storePrev h next obj >>= fun h =>
  storeNext h cache.head obj

def writeToCache (sum : IntSum) (fuel : Nat) (g : Globals) (obj : Addr) : Except Fault Globals :=
  loop Evicting.more (evictPass sum g obj) .spin fuel { heap := g.heap, more := true } >>= fun s =>
  link g.cache s.heap obj >>= fun h =>
  deref (h.value? obj) >>= fun o =>
  .ok { g with heap := h, CacheSize := sum.add g.CacheSize o.respBodyLen }

/-- An object is made, and written to the cache. -/
def write (sum : IntSum) (fuel : Nat) (g : Globals) (obj : Addr × Node) : Except Fault Globals :=
  { g with heap := allocate g.heap obj.1 obj.2 }.writeToCache sum fuel obj.1

/-! ## readItem -/

/-- `P`, when nobody else is there to post. -/
def P (sem : Nat) : Except Fault Nat := if 0 < sem then .ok (sem - 1) else .error .spin

/-- The loop of `readItem`. -/
def traverse (h : Heap) (targetURI : Bytes) : Nat → Addr → Except Fault (Option Addr)
  | 0, _ => .error .spin
  | fuel + 1, cur =>
    deref (h cur) >>= fun n =>
    if n.value.flag = AT then .ok none
    else if cStr targetURI = cStr n.value.obj.uri then .ok (some cur)
    else traverse h targetURI fuel n.next

/-- A call that finds its URI returns from the reading section. -/
def readItem (fuel : Nat) (g : Globals) (targetURI : Bytes) : Except Fault (Addr × Globals) :=
  P g.mutex >>= fun mutex =>
  let readcnt := g.readcnt + 1
  (if readcnt = 1 then P g.W else .ok g.W) >>= fun W =>
  let g := { g with mutex := mutex + 1, W := W, readcnt := readcnt }
  deref (g.heap.next? g.cache.head) >>= fun cur =>
  traverse g.heap targetURI fuel cur >>= fun found =>
  found.elim
    (P g.mutex >>= fun mutex =>
      let readcnt := g.readcnt - 1
      let W := if readcnt = 0 then g.W + 1 else g.W
      .ok (NULL, { g with mutex := mutex + 1, W := W, readcnt := readcnt }))
    fun cur => .ok (cur, g)

end Globals

/-! ## The list -/

/-- The objects in the list, the newest first. -/
structure Holds (cache : CacheList) (h : Heap) (objs : List (Addr × Item)) : Prop where
  linked : Linked h (cache.head :: (objs.map Prod.fst ++ [cache.tail]))
  items : ∀ o ∈ objs, h.value? o.1 = some o.2
  flags : ∀ o ∈ objs, o.2.flag ≠ AT
  sentinel : ∃ junk, h.value? cache.tail = some junk ∧ junk.flag = AT
  first : h.prev? cache.head = some NULL
  last : h.next? cache.tail = some NULL
  null : ¬h.Live NULL

section List

variable {cache : CacheList} {h : Heap} {objs : List (Addr × Item)} {o : Addr × Item}
  {p q obj : Addr} {v : Item}

theorem storePrev_ok (hlive : h.Live p) : storePrev h p q = .ok (h.setPrev p q) := by
  obtain ⟨n, hn⟩ := DList.Heap.live_iff.mp hlive
  rw [storePrev, hn]
  rfl

theorem storeNext_ok (hlive : h.Live p) : storeNext h p q = .ok (h.setNext p q) := by
  obtain ⟨n, hn⟩ := DList.Heap.live_iff.mp hlive
  rw [storeNext, hn]
  rfl

theorem release_ok (hlive : h.Live p) : release h p = .ok (h.free p) := by
  obtain ⟨n, hn⟩ := DList.Heap.live_iff.mp hlive
  rw [release, hn]
  rfl

theorem Holds.live (hl : Holds cache h objs) :
    ∀ p ∈ cache.head :: (objs.map Prod.fst ++ [cache.tail]), h.Live p := by
  have hlinked := hl.linked
  cases objs with
  | nil => exact hlinked.live
  | cons o objs => exact hlinked.live

/-- The body of the loop, on the last object. -/
theorem evict_eq {a last : Addr} (hbefore : Follows h a last) (hbehind : Follows h last cache.tail)
    (hne : last ≠ cache.tail) :
    Globals.evict cache h = .ok (h.unlink a last cache.tail NULL) := by
  rw [Globals.evict, hbehind.prev, deref, ok_then, hbehind.next, deref, ok_then, hbefore.prev, deref,
    ok_then, storePrev_ok hbehind.live_right, ok_then]
  -- the links of the last object are read again
  rw [DList.Heap.prev?_setPrev_of_ne hne, hbefore.prev, deref, ok_then, DList.Heap.next?_setPrev,
    hbehind.next, deref, ok_then]
  rw [storeNext_ok (by simpa using hbefore.live_left), ok_then,
    storeNext_ok (by simpa using hbefore.live_right), ok_then,
    storePrev_ok (by simpa using hbefore.live_right), ok_then,
    release_ok (by simpa using hbefore.live_right), DList.Heap.unlink]

/-- The body of the loop frees the oldest object and leaves the others. -/
theorem evict_spec (hl : Holds cache h (objs ++ [o])) :
    ∃ h', Globals.evict cache h = .ok h' ∧ Holds cache h' objs ∧
      ∀ p, p ≠ o.1 → h'.value? p = h.value? p := by
  -- the node in front of the oldest object, which may be the head
  obtain ⟨l, a, hfront⟩ : ∃ l a, cache.head :: objs.map Prod.fst = l ++ [a] :=
    ⟨_, _, (List.dropLast_append_getLast (List.cons_ne_nil _ _)).symm⟩
  have hshape : cache.head :: ((objs ++ [o]).map Prod.fst ++ [cache.tail]) =
      l ++ [a, o.1, cache.tail] := by
    rw [List.map_append, List.append_assoc, ← List.cons_append, hfront, List.append_assoc]
    rfl
  have hlinked := hl.linked
  rw [hshape] at hlinked
  obtain ⟨-, hbefore, hbehind, hne, hapart⟩ := hlinked.back
  have hmem : ∀ p ∈ cache.head :: objs.map Prod.fst, p ≠ o.1 ∧ p ≠ cache.tail := by
    intro p hp
    rw [hfront] at hp
    exact hapart p hp
  have hvalue : ∀ p, p ≠ o.1 → (h.unlink a o.1 cache.tail NULL).value? p = h.value? p :=
    fun p hp => DList.Heap.value?_unlink_of_ne hp
  refine ⟨_, evict_eq hbefore hbehind hne, ?_, hvalue⟩
  constructor
  · show Linked _ (cache.head :: objs.map Prod.fst ++ [cache.tail])
    rw [hfront, List.append_assoc]
    exact hlinked.removeLast
  · intro x hx
    have hnot := (hmem x.1 (List.mem_cons_of_mem _ (List.mem_map_of_mem hx))).1
    rw [hvalue x.1 hnot]
    exact hl.items x (List.mem_append_left _ hx)
  · exact fun x hx => hl.flags x (List.mem_append_left _ hx)
  · rw [hvalue _ hne.symm]
    exact hl.sentinel
  · obtain ⟨hhead, hhead'⟩ := hmem cache.head List.mem_cons_self
    rw [DList.Heap.prev?_unlink_of_ne hhead hhead']
    exact hl.first
  · have hat := (hapart a (List.mem_append_right _ List.mem_cons_self)).2
    rw [DList.Heap.next?_unlink_of_ne hne.symm hat.symm]
    exact hl.last
  · have hnull : NULL ≠ o.1 := fun heq => hl.null (heq ▸ hbefore.live_right)
    rw [DList.Heap.Live, hvalue NULL hnull]
    exact hl.null

/-- Where the list begins behind the head. -/
def front (cache : CacheList) (objs : List (Addr × Item)) : Addr :=
  (objs.head?.map Prod.fst).getD cache.tail

theorem Holds.front_eq (hl : Holds cache h objs) :
    ∃ rest, objs.map Prod.fst ++ [cache.tail] = front cache objs :: rest ∧
      Follows h cache.head (front cache objs) := by
  have hchain := hl.linked.chain
  cases objs with
  | nil => exact ⟨[], rfl, (List.isChain_cons_cons.mp hchain).1⟩
  | cons o objs => exact ⟨_, rfl, (List.isChain_cons_cons.mp hchain).1⟩

theorem link_eq {b : Addr} (hfirst : Follows h cache.head b) (hlive : h.Live obj)
    (hne : cache.head ≠ obj) :
    Globals.link cache h obj = .ok (h.linkIn cache.head obj b) := by
  rw [Globals.link, hfirst.next, deref, ok_then, storeNext_ok hlive, ok_then,
    storePrev_ok (by simpa using hlive), ok_then]
  -- `head->next` is read a second time, and is still the old first object
  rw [DList.Heap.next?_setPrev, DList.Heap.next?_setNext_of_ne hne, hfirst.next, deref, ok_then]
  rw [storePrev_ok (by simpa using hfirst.live_right), ok_then,
    storeNext_ok (by simpa using hfirst.live_left), DList.Heap.linkIn]

/-- An object that is not in the list becomes its first. -/
theorem link_spec (hl : Holds cache h objs)
    (hobj : obj ∉ cache.head :: (objs.map Prod.fst ++ [cache.tail])) (hv : h.value? obj = some v)
    (hflag : v.flag ≠ AT) :
    ∃ h', Globals.link cache h obj = .ok h' ∧ Holds cache h' ((obj, v) :: objs) ∧
      ∀ p, h'.value? p = h.value? p := by
  obtain ⟨rest, hshape, hfirst⟩ := hl.front_eq
  have hlive : h.Live obj := by
    rw [DList.Heap.Live, hv]
    exact Option.some_ne_none v
  have hlinked := hl.linked
  rw [hshape] at hlinked hobj
  obtain ⟨hhead, -⟩ := List.nodup_cons.mp hlinked.nodup
  have hne : cache.head ≠ obj := fun heq => hobj (heq ▸ List.mem_cons_self)
  have htail : cache.tail ∈ front cache objs :: rest := by
    rw [← hshape]
    exact List.mem_append_right _ List.mem_cons_self
  refine ⟨_, link_eq hfirst hlive hne, ?_, fun p => DList.Heap.value?_linkIn⟩
  constructor
  · rw [List.map_cons, List.cons_append, hshape]
    exact hlinked.insert hobj hlive
  · intro x hx
    rw [DList.Heap.value?_linkIn]
    rcases List.mem_cons.mp hx with rfl | hx
    · exact hv
    · exact hl.items x hx
  · intro x hx
    rcases List.mem_cons.mp hx with rfl | hx
    · exact hflag
    · exact hl.flags x hx
  · rw [DList.Heap.value?_linkIn]
    exact hl.sentinel
  · have hfront : cache.head ≠ front cache objs := fun heq => hhead (heq ▸ List.mem_cons_self)
    rw [DList.Heap.prev?_linkIn_of_ne hne hfront]
    exact hl.first
  · have hto : cache.tail ≠ obj := fun heq => hobj (heq ▸ List.mem_cons_of_mem _ htail)
    have hth : cache.tail ≠ cache.head := fun heq => hhead (heq ▸ htail)
    rw [DList.Heap.next?_linkIn_of_ne hto hth]
    exact hl.last
  · rw [DList.Heap.Live, DList.Heap.value?_linkIn]
    exact hl.null

/-- A node that is not in the list may become anything. -/
theorem Holds.allocate (hl : Holds cache h objs) (node : Node)
    (hobj : obj ∉ cache.head :: (objs.map Prod.fst ++ [cache.tail])) (hnull : obj ≠ NULL) :
    Holds cache (allocate h obj node) objs := by
  have hsame : ∀ p, p ≠ obj → Proxy.allocate h obj node p = h p := fun p hp =>
    Function.update_of_ne hp ..
  have hmem : ∀ p ∈ cache.head :: (objs.map Prod.fst ++ [cache.tail]),
      Proxy.allocate h obj node p = h p := fun p hp => hsame p fun heq => hobj (heq ▸ hp)
  have hhead := hmem cache.head List.mem_cons_self
  have htail := hmem cache.tail (List.mem_cons_of_mem _ (List.mem_append_right _ (by simp)))
  constructor
  · refine ⟨DList.chain_frame hl.linked.chain (fun p hp => ?_) (fun p hp => ?_), hl.linked.nodup⟩
    · exact congrArg (Option.map DList.Node.next) (hmem p (List.dropLast_subset _ hp))
    · exact congrArg (Option.map DList.Node.prev) (hmem p (List.mem_of_mem_tail hp))
  · intro x hx
    have hin : x.1 ∈ cache.head :: (objs.map Prod.fst ++ [cache.tail]) :=
      List.mem_cons_of_mem _ (List.mem_append_left _ (List.mem_map_of_mem hx))
    exact (congrArg (Option.map DList.Node.value) (hmem x.1 hin)).trans (hl.items x hx)
  · exact hl.flags
  · obtain ⟨junk, hjunk, hflag⟩ := hl.sentinel
    exact ⟨junk, (congrArg (Option.map DList.Node.value) htail).trans hjunk, hflag⟩
  · exact (congrArg (Option.map DList.Node.prev) hhead).trans hl.first
  · exact (congrArg (Option.map DList.Node.next) htail).trans hl.last
  · have hsame' := congrArg (Option.map DList.Node.value) (hsame NULL hnull.symm)
    exact fun hlive => hl.null (fun hnone => hlive (hsame'.trans hnone))

end List

/-! ## One call -/

namespace Globals

section Write

variable {sum : IntSum} {g : Globals} {h : Heap} {objs : List (Addr × Item)} {obj : Addr}
  {v : Item} {node : Node} {fuel : Nat}

theorem mustEvict_eq (hl : Holds g.cache h objs) (hv : h.value? obj = some v) :
    g.mustEvict sum h obj = .ok (decide (Full sum g v ∧ objs ≠ [])) := by
  obtain ⟨rest, hshape, hfirst⟩ := hl.front_eq
  rw [mustEvict, hv, deref, ok_then]
  by_cases hfull : Full sum g v
  · rw [if_pos hfull, hfirst.next, deref, ok_then]
    have hiff : front g.cache objs ≠ g.cache.tail ↔ objs ≠ [] := by
      cases objs with
      | nil => exact iff_of_false (fun hne => hne rfl) (fun hne => hne rfl)
      | cons o objs =>
        refine iff_of_true (fun heq => ?_) (List.cons_ne_nil _ _)
        have hnodup := (List.nodup_cons.mp hl.linked.nodup).2
        have hnot := (List.nodup_cons.mp hnodup).1
        exact hnot (heq ▸ List.mem_append_right _ List.mem_cons_self)
    exact congrArg Except.ok (decide_eq_decide.mpr (by rw [hiff, and_iff_right hfull]))
  · rw [if_neg hfull]
    simp [hfull]

/-- In the loop `rest` are the objects not yet evicted. -/
def LoopInv (sum : IntSum) (g : Globals) (objs : List (Addr × Item)) (obj : Addr) (v : Item)
    (k : Nat) (s : Evicting) : Prop :=
  ∃ rest, rest.length = k ∧ Holds g.cache s.heap rest ∧ s.heap.value? obj = some v ∧
    (∃ tail, rest ++ tail = objs) ∧ (rest = objs ∨ Full sum g v) ∧
    (s.more = false → ¬(Full sum g v ∧ rest ≠ []))

/-- The loop evicts nothing or everything: nothing it does changes its test. -/
theorem evictLoop_spec (hl : Holds g.cache h objs) (hv : h.value? obj = some v)
    (hobj : obj ∉ g.cache.head :: (objs.map Prod.fst ++ [g.cache.tail]))
    (hfuel : objs.length + 1 < fuel) :
    ∃ s, loop Evicting.more (evictPass sum g obj) .spin fuel { heap := h, more := true } = .ok s ∧
      Holds g.cache s.heap (if Full sum g v then [] else objs) ∧ s.heap.value? obj = some v := by
  have hbody : ∀ k x, LoopInv sum g objs obj v k x → x.more = true → ∃ y k',
      evictPass sum g obj x = .ok y ∧ LoopInv sum g objs obj v k' y ∧ (y.more = true → k' < k) := by
    rintro k x ⟨rest, hk, hx, hvalue, hrest, hfull, -⟩ -
    rw [evictPass, mustEvict_eq hx hvalue, ok_then]
    by_cases hgoes : Full sum g v ∧ rest ≠ []
    · rw [if_pos (decide_eq_true hgoes)]
      obtain ⟨init, o, rfl⟩ : ∃ init o, rest = init ++ [o] :=
        ⟨_, _, (List.dropLast_append_getLast hgoes.2).symm⟩
      obtain ⟨h', hevict, hh', hsame⟩ := evict_spec hx
      obtain ⟨tail, htail⟩ := hrest
      have hne : obj ≠ o.1 := fun heq => hobj (by
        rw [heq, ← htail]
        simp)
      rw [hevict, ok_then]
      refine ⟨_, init.length, rfl, ⟨init, rfl, hh', ?_, ?_, Or.inr hgoes.1, nofun⟩, fun _ => ?_⟩
      · rw [hsame obj hne, hvalue]
      · exact ⟨o :: tail, by rw [← htail, List.append_assoc]; rfl⟩
      · rw [← hk, List.length_append, List.length_singleton]
        exact Nat.lt_succ_self _
    · rw [if_neg (by simpa using hgoes)]
      exact ⟨_, k, rfl, ⟨rest, hk, hx, hvalue, hrest, hfull, fun _ => hgoes⟩, nofun⟩
  have hstart : LoopInv sum g objs obj v objs.length { heap := h, more := true } :=
    ⟨objs, rfl, hl, hv, ⟨[], List.append_nil _⟩, Or.inl rfl, nofun⟩
  obtain ⟨s, k, hloop, ⟨rest, -, hs, hvalue, -, hfull, hdone⟩, hend⟩ :=
    @loop_total _ _ _ _ _ _ Fault.spin _ fuel hstart hbody hfuel
  refine ⟨s, hloop, ?_, hvalue⟩
  by_cases hcount : Full sum g v
  · have hnone : rest = [] := by
      by_contra hsome
      exact hdone hend ⟨hcount, hsome⟩
    rw [if_pos hcount, ← hnone]
    exact hs
  · rw [if_neg hcount, ← hfull.resolve_right hcount]
    exact hs

/-- The object is none of the cache: nothing in the cache points to it.  Nor is it flagged
    as the ends of the list are, at which `readItem` would stop. -/
structure Insertable (g : Globals) (obj : Addr × Node) : Prop where
  null : obj.1 ≠ NULL
  fresh : ¬Reaches g.heap g.cache.head obj.1
  flag : obj.2.value.flag ≠ AT

/-- What a call makes of the objects: they are kept, or they are all evicted. -/
theorem write_spec {obj : Addr × Node} (hl : Holds g.cache g.heap objs)
    (hobj : Insertable g obj) (hfuel : objs.length + 1 < fuel) :
    ∃ h, write sum fuel g obj = .ok
        { g with heap := h, CacheSize := sum.add g.CacheSize obj.2.value.respBodyLen } ∧
      Holds g.cache h
        ((obj.1, obj.2.value) :: if Full sum g obj.2.value then [] else objs) := by
  have hnot : obj.1 ∉ g.cache.head :: (objs.map Prod.fst ++ [g.cache.tail]) := fun hmem =>
    hobj.fresh (DList.reaches_of_chain hl.linked.chain hmem)
  have hvalue : (allocate g.heap obj.1 obj.2).value? obj.1 = some obj.2.value := by
    rw [DList.Heap.value?, allocate, Function.update_self]
    rfl
  obtain ⟨s, hloop, hs, hsvalue⟩ := @evictLoop_spec sum
    { g with heap := allocate g.heap obj.1 obj.2 } _ objs obj.1 obj.2.value fuel
    (hl.allocate obj.2 hnot hobj.null) hvalue hnot hfuel
  have hnot' : obj.1 ∉ g.cache.head ::
      ((if Full sum g obj.2.value then [] else objs).map Prod.fst ++ [g.cache.tail]) := by
    split
    · intro hmem
      apply hnot
      rcases List.mem_cons.mp hmem with heq | hmem
      · exact heq ▸ List.mem_cons_self
      · exact List.mem_cons_of_mem _ (List.mem_append_right _ hmem)
    · exact hnot
  obtain ⟨h', hlink, hh', hsame⟩ := link_spec hs hnot' hsvalue hobj.flag
  refine ⟨h', ?_, hh'⟩
  rw [write, writeToCache, hloop, ok_then, hlink, ok_then, hsame, hsvalue, deref, ok_then]

end Write

/-! ## Reading -/

section Read

variable {g : Globals} {h : Heap} {objs : List (Addr × Item)} {targetURI : Bytes} {fuel : Nat}

/-- The objects for this URI, as `strcmp` finds them. -/
def forURI (targetURI : Bytes) (o : Addr × Item) : Bool :=
  decide (cStr targetURI = cStr o.2.obj.uri)

/-- From the first of some objects in front of the tail the loop ends, with the first of them
    that is for the URI. -/
theorem traverse_spec {tail : Addr} {junk : Item}
    (hchain : (objs.map Prod.fst ++ [tail]).IsChain (Follows h))
    (hitems : ∀ o ∈ objs, h.value? o.1 = some o.2) (hflags : ∀ o ∈ objs, o.2.flag ≠ AT)
    (htail : h.value? tail = some junk) (hat : junk.flag = AT) (hfuel : objs.length < fuel) :
    traverse h targetURI fuel ((objs.head?.map Prod.fst).getD tail) =
      .ok ((objs.find? (forURI targetURI)).map Prod.fst) := by
  induction objs generalizing fuel with
  | nil =>
    obtain ⟨fuel, rfl⟩ : ∃ f, fuel = f + 1 := ⟨fuel - 1, by rw [List.length_nil] at hfuel; omega⟩
    obtain ⟨n, hn, hvalue⟩ := Option.map_eq_some_iff.mp htail
    show traverse h targetURI (fuel + 1) tail = _
    rw [traverse, hn, deref, ok_then, hvalue, if_pos hat]
    rfl
  | cons o objs ih =>
    rw [List.length_cons] at hfuel
    obtain ⟨fuel, rfl⟩ : ∃ f, fuel = f + 1 := ⟨fuel - 1, by omega⟩
    obtain ⟨n, hn, hvalue⟩ := Option.map_eq_some_iff.mp (hitems o List.mem_cons_self)
    obtain ⟨hfollows, hrest⟩ : Follows h o.1 ((objs.head?.map Prod.fst).getD tail) ∧
        (objs.map Prod.fst ++ [tail]).IsChain (Follows h) := by
      cases objs with
      | nil => exact List.isChain_cons_cons.mp hchain
      | cons o' objs => exact List.isChain_cons_cons.mp hchain
    have hnext : n.next = (objs.head?.map Prod.fst).getD tail := by
      have hlink := hfollows.next
      rw [DList.Heap.next?, hn] at hlink
      exact Option.some.inj hlink
    show traverse h targetURI (fuel + 1) o.1 = _
    rw [traverse, hn, deref, ok_then, hvalue, if_neg (hflags o List.mem_cons_self)]
    by_cases huri : cStr targetURI = cStr o.2.obj.uri
    · have hfind : (o :: objs).find? (forURI targetURI) = some o :=
        List.find?_cons_of_pos (decide_eq_true huri)
      rw [if_pos huri, hfind]
      rfl
    · have hfind : (o :: objs).find? (forURI targetURI) = objs.find? (forURI targetURI) :=
        List.find?_cons_of_neg (by simpa [forURI] using huri)
      rw [if_neg huri, hfind, hnext]
      exact ih hrest (fun x hx => hitems x (List.mem_cons_of_mem o hx))
        (fun x hx => hflags x (List.mem_cons_of_mem o hx)) (by omega)

/-- The semaphores as calls that do not overlap leave them: a reader that found its URI has
    kept `W` for good. -/
def Posted (g : Globals) : Prop :=
  g.mutex = kMutex ∧ (g.readcnt = 0 ∧ g.W = 1 ∨ 0 < g.readcnt ∧ g.W = 0)

/-- A call returns the first object for the URI, or null, and keeps the cache. -/
theorem readItem_spec (hl : Holds g.cache g.heap objs) (hposted : Posted g)
    (hfuel : objs.length < fuel) :
    ∃ g', readItem fuel g targetURI =
        .ok (((objs.find? (forURI targetURI)).map Prod.fst).getD NULL, g') ∧
      Posted g' ∧ g'.heap = g.heap ∧ g'.cache = g.cache ∧ g'.CacheSize = g.CacheSize := by
  obtain ⟨junk, htail, hat⟩ := hl.sentinel
  obtain ⟨rest, hshape, hfirst⟩ := hl.front_eq
  have hchain : (objs.map Prod.fst ++ [g.cache.tail]).IsChain (Follows g.heap) := by
    have hchain := hl.linked.chain
    rw [hshape] at hchain ⊢
    exact (List.isChain_cons_cons.mp hchain).2
  have htraverse := @traverse_spec _ _ targetURI fuel _ _ hchain hl.items hl.flags htail hat hfuel
  obtain ⟨hmutex, hW⟩ := hposted
  have hP : P g.mutex = .ok 4 := by rw [hmutex]; rfl
  -- the first reader takes `W`, and finds it
  have henter : (if g.readcnt + 1 = 1 then P g.W else .ok g.W) = .ok 0 := by
    rcases hW with ⟨hzero, hfree⟩ | ⟨hpos, htaken⟩
    · rw [if_pos (by omega), hfree]
      rfl
    · rw [if_neg (by omega), htaken]
  simp only [readItem, hP, ok_then, henter, hfirst.next, deref]
  rw [show front g.cache objs = (objs.head?.map Prod.fst).getD g.cache.tail from rfl, htraverse,
    ok_then]
  cases objs.find? (forURI targetURI) with
  | none =>
    refine ⟨{ g with
      mutex := 4 + 1
      W := if g.readcnt + 1 - 1 = 0 then 0 + 1 else 0
      readcnt := g.readcnt + 1 - 1 }, rfl, ⟨rfl, ?_⟩, rfl, rfl, rfl⟩
    rcases hW with ⟨hzero, hfree⟩ | ⟨hpos, htaken⟩
    · left
      show g.readcnt + 1 - 1 = 0 ∧ (if g.readcnt + 1 - 1 = 0 then 0 + 1 else 0) = 1
      rw [if_pos (by omega)]
      omega
    · right
      show 0 < g.readcnt + 1 - 1 ∧ (if g.readcnt + 1 - 1 = 0 then 0 + 1 else 0) = 0
      rw [if_neg (by omega)]
      omega
  | some o =>
    refine ⟨_, rfl, ⟨rfl, Or.inr ⟨?_, rfl⟩⟩, rfl, rfl, rfl⟩
    show 0 < g.readcnt + 1
    rcases hW with ⟨hzero, -⟩ | ⟨hpos, -⟩
    · omega
    · omega

end Read

/-! ## The start -/

theorem start_spec (m : Startup) :
    ∃ g, start m = .ok g ∧ Holds g.cache g.heap [] ∧ Posted g ∧ g.CacheSize = 0 ∧
      g.cache.head = m.head ∧ g.cache.tail = m.tail := by
  have hhead : allocate (allocate m.heap m.head (sentinel (m.junk m.head))) m.tail
      (sentinel (m.junk m.tail)) m.head = some (sentinel (m.junk m.head)) := by
    rw [allocate, Function.update_of_ne m.apart, allocate, Function.update_self]
  have htail : allocate (allocate m.heap m.head (sentinel (m.junk m.head))) m.tail
      (sentinel (m.junk m.tail)) m.tail = some (sentinel (m.junk m.tail)) :=
    Function.update_self ..
  have hnull : allocate (allocate m.heap m.head (sentinel (m.junk m.head))) m.tail
      (sentinel (m.junk m.tail)) NULL = m.heap NULL := by
    rw [allocate, Function.update_of_ne m.tail_null.symm, allocate,
      Function.update_of_ne m.head_null.symm]
  generalize hh : allocate (allocate m.heap m.head (sentinel (m.junk m.head))) m.tail
    (sentinel (m.junk m.tail)) = h at hhead htail hnull
  have hlive : h.Live m.head := DList.Heap.live_iff.mpr ⟨_, hhead⟩
  have hlive' : h.Live m.tail := DList.Heap.live_iff.mpr ⟨_, htail⟩
  refine ⟨{ heap := (h.setNext m.head m.tail).setPrev m.tail m.head, cache := ⟨m.head, m.tail, 0⟩
            CacheSize := 0, mutex := kMutex, W := 1, readcnt := 0 },
    ?_, ?_, ⟨rfl, Or.inl ⟨rfl, rfl⟩⟩, rfl, rfl, rfl⟩
  · rw [start, initializeCache, hh, storeNext_ok hlive, ok_then,
      storePrev_ok (by simpa using hlive'), ok_then, ok_then]
  · constructor
    · refine ⟨List.isChain_cons_cons.mpr ⟨⟨?_, ?_⟩, List.IsChain.singleton _⟩, by simpa using m.apart⟩
      · rw [DList.Heap.next?_setPrev]
        exact DList.Heap.next?_setNext_self hlive
      · exact DList.Heap.prev?_setPrev_self (by simpa using hlive')
    · nofun
    · nofun
    · refine ⟨(sentinel (m.junk m.tail)).value, ?_, rfl⟩
      rw [DList.Heap.value?_setPrev, DList.Heap.value?_setNext, DList.Heap.value?, htail]
      rfl
    · rw [DList.Heap.prev?_setPrev_of_ne m.apart, DList.Heap.prev?_setNext, DList.Heap.prev?, hhead]
      rfl
    · rw [DList.Heap.next?_setPrev, DList.Heap.next?_setNext_of_ne m.apart.symm, DList.Heap.next?,
        htail]
      rfl
    · rw [DList.Heap.live_setPrev, DList.Heap.live_setNext, DList.Heap.Live, DList.Heap.value?, hnull]
      exact m.null

end Globals

end LearnMuduo.Proxy
