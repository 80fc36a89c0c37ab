/-
  LearnMuduo.Proxy.CacheList

  The cache over any sequence of calls, writes and reads as they come.

  Nothing that is read goes wrong, and what is linked are the objects written last: a
  front of all that were written, the newest first.  A read returns the newest of them for
  its URI, which is what `readItem` on the list of the objects is.
-/
import LearnMuduo.Proxy.CacheHeap

namespace LearnMuduo.Proxy

open Lib
open Lib.DList (Linked Reaches)

/-- One call, and the next is made when it has returned. -/
inductive Call where
  | write (obj : Addr × Node)
  | read (targetURI : Bytes)

/-- What a call links. -/
def Call.inserted : Call → Option (Addr × Item)
  | .write obj => some (obj.1, obj.2.value)
  | .read _ => none

namespace Globals

def call (sum : IntSum) (fuel : Nat) (g : Globals) : Call → Except Fault Globals
  | .write obj => g.write sum fuel obj
  | .read targetURI => g.readItem fuel targetURI >>= fun r => .ok r.2

/-- What is written is not in the cache. -/
def Allowed (g : Globals) : Call → Prop
  | .write obj => Insertable g obj
  | .read _ => True

/-- All that has been written, the newest first. -/
def written (calls : List Call) : List (Addr × Item) := (calls.filterMap Call.inserted).reverse

theorem written_cons (c : Call) (calls : List Call) :
    written (c :: calls) = written calls ++ c.inserted.toList := by
  cases c with
  | write obj => exact List.reverse_cons
  | read targetURI => exact (List.append_nil _).symm

theorem written_length (calls : List Call) : (written calls).length ≤ calls.length := by
  rw [written, List.length_reverse]
  exact List.length_filterMap_le _ _

/-- `p` is the newest of the objects for the URI, or null if there is none. -/
def Newest (targetURI : Bytes) (objs : List (Addr × Item)) (p : Addr) : Prop :=
  (p = NULL ∧ ∀ o ∈ objs, cStr targetURI ≠ cStr o.2.obj.uri) ∨
    ∃ newer o older, objs = newer ++ o :: older ∧ p = o.1 ∧ p ≠ NULL ∧
      cStr targetURI = cStr o.2.obj.uri ∧ ∀ o' ∈ newer, cStr targetURI ≠ cStr o'.2.obj.uri

variable {sum : IntSum} {g : Globals} {objs : List (Addr × Item)} {calls : List Call}
  {targetURI : Bytes} {fuel : Nat}

/-! ## Reading -/

/-- What is found from the head is the list, and null behind its ends. -/
theorem reaches_mem (hl : Holds g.cache g.heap objs) {p : Addr}
    (hp : Reaches g.heap g.cache.head p) :
    p ∈ g.cache.head :: (objs.map Prod.fst ++ [g.cache.tail]) ∨ p = NULL := by
  have hfirst : ∀ c, (g.cache.head :: (objs.map Prod.fst ++ [g.cache.tail])).head? = some c →
      g.heap.prev? c = some NULL := by
    intro c hc
    obtain rfl := Option.some.inj hc
    exact hl.first
  have hlast : ∀ c, (g.cache.head :: (objs.map Prod.fst ++ [g.cache.tail])).getLast? = some c →
      g.heap.next? c = some NULL := by
    intro c hc
    rw [← List.cons_append, List.getLast?_concat] at hc
    obtain rfl := Option.some.inj hc
    exact hl.last
  exact hl.linked.reaches hfirst hlast hl.null List.mem_cons_self hp

/-- No pointer leads from the cache to memory that has been freed. -/
theorem reaches_live (hl : Holds g.cache g.heap objs) {p : Addr}
    (hp : Reaches g.heap g.cache.head p) : p = NULL ∨ g.heap.Live p := by
  rcases reaches_mem hl hp with hmem | hnull
  · exact Or.inr (hl.live p hmem)
  · exact Or.inl hnull

theorem newest_find (hl : Holds g.cache g.heap objs) :
    Newest targetURI objs (((objs.find? (forURI targetURI)).map Prod.fst).getD NULL) := by
  cases hfind : objs.find? (forURI targetURI) with
  | none =>
    refine Or.inl ⟨rfl, fun o ho => ?_⟩
    exact of_decide_eq_false (Bool.eq_false_iff.mpr (List.find?_eq_none.mp hfind o ho))
  | some o =>
    obtain ⟨huri, newer, older, hsplit, hnewer⟩ := List.find?_eq_some_iff_append.mp hfind
    refine Or.inr ⟨newer, o, older, hsplit, rfl, fun hnull => ?_, of_decide_eq_true huri, ?_⟩
    · have hmem : o.1 ∈ g.cache.head :: (objs.map Prod.fst ++ [g.cache.tail]) := by
        simp [hsplit]
      exact hl.null (hnull ▸ hl.live o.1 hmem)
    · intro o' ho'
      simpa [forURI] using hnewer o' ho'

/-- A call of `readItem` reads what the list of the objects says. -/
theorem readItem_refines (hl : Holds g.cache g.heap objs) (hposted : Posted g)
    (hfuel : objs.length < fuel) :
    ∃ p g', g.readItem fuel targetURI = .ok (p, g') ∧
      (g.heap.value? p).map Item.obj = Proxy.readItem (objs.map fun o => o.2.obj) targetURI := by
  obtain ⟨g', hread, -⟩ := @readItem_spec g objs targetURI fuel hl hposted hfuel
  refine ⟨_, g', hread, ?_⟩
  rw [Proxy.readItem, List.find?_map]
  show _ = (objs.find? (forURI targetURI)).map fun o => o.2.obj
  cases hfind : objs.find? (forURI targetURI) with
  | none =>
    have hnull : g.heap.value? NULL = none := by
      by_contra hsome
      exact hl.null hsome
    show (g.heap.value? NULL).map Item.obj = none
    rw [hnull]
    rfl
  | some o =>
    show (g.heap.value? o.1).map Item.obj = some o.2.obj
    rw [hl.items o (List.mem_of_find?_eq_some hfind)]
    rfl

/-! ## Sequences of calls -/

theorem call_spec (hl : Holds g.cache g.heap objs) (hposted : Posted g) {c : Call}
    (hok : Allowed g c) (hfuel : objs.length + 1 < fuel) :
    ∃ g' objs', call sum fuel g c = .ok g' ∧ Holds g'.cache g'.heap objs' ∧ Posted g' ∧
      objs' <+: c.inserted.toList ++ objs ∧ g'.cache = g.cache := by
  cases c with
  | write obj =>
    obtain ⟨h, hwrite, hh⟩ := @write_spec sum g objs fuel obj hl hok hfuel
    refine ⟨_, _, hwrite, hh, hposted, ?_, rfl⟩
    split
    · exact ⟨objs, rfl⟩
    · exact List.prefix_rfl
  | read targetURI =>
    obtain ⟨g', hread, hposted', hheap, hcache, -⟩ :=
      @readItem_spec g objs targetURI fuel hl hposted (by omega)
    refine ⟨g', objs, ?_, ?_, hposted', List.prefix_rfl, hcache⟩
    · rw [call, hread, ok_then]
    · rw [hheap, hcache]
      exact hl

theorem run_calls (hl : Holds g.cache g.heap objs) (hposted : Posted g)
    (hok : Along (call sum fuel) Allowed g calls) (hfuel : objs.length + calls.length + 1 < fuel) :
    ∃ g' objs', run (call sum fuel) g calls = .ok g' ∧ Holds g'.cache g'.heap objs' ∧ Posted g' ∧
      objs' <+: written calls ++ objs := by
  induction calls generalizing g objs with
  | nil => exact ⟨g, objs, rfl, hl, hposted, List.prefix_rfl⟩
  | cons c calls ih =>
    rw [List.length_cons] at hfuel
    obtain ⟨g₁, objs₁, hcall, hl₁, hposted₁, hfront, -⟩ :=
      @call_spec sum g objs fuel hl hposted c hok.1 (by omega)
    have hless := hfront.length_le
    have hone : c.inserted.toList.length ≤ 1 := by cases c <;> simp [Call.inserted]
    rw [List.length_append] at hless
    obtain ⟨g', objs', hrun, hl', hposted', hfront'⟩ := ih hl₁ hposted₁ (hok.2 g₁ hcall) (by omega)
    refine ⟨g', objs', ?_, hl', hposted', ?_⟩
    · rw [run_cons, hcall, ok_then, hrun]
    · rw [written_cons, List.append_assoc]
      exact hfront'.trans ((List.prefix_append_right_inj _).mpr hfront)

/-- After any calls that write objects that are not in the cache the list is well formed,
    its objects are those written last, and a read of any URI returns the newest of them
    for it. -/
theorem cache_keeps_newest {m : Startup} {g₀ : Globals} (hstart : start m = .ok g₀)
    (hok : Along (call sum fuel) Allowed g₀ calls) (hfuel : calls.length + 1 < fuel) :
    ∃ g objs, run (call sum fuel) g₀ calls = .ok g ∧ Holds g.cache g.heap objs ∧
      (∀ p, Reaches g.heap g.cache.head p → p = NULL ∨ g.heap.Live p) ∧
      objs <+: written calls ∧
      ∀ targetURI, ∃ p g', g.readItem fuel targetURI = .ok (p, g') ∧ Newest targetURI objs p := by
  obtain ⟨g', hstart', hl, hposted, -⟩ := start_spec m
  obtain rfl := Except.ok.inj (hstart'.symm.trans hstart)
  obtain ⟨g, objs, hrun, hl', hposted', hfront⟩ :=
    run_calls hl hposted hok (by rw [List.length_nil]; omega)
  rw [List.append_nil] at hfront
  have hless := hfront.length_le
  have hall := written_length calls
  refine ⟨g, objs, hrun, hl', fun p => reaches_live hl', hfront, fun targetURI => ?_⟩
  obtain ⟨g', hread, -⟩ := @readItem_spec g objs targetURI fuel hl' hposted' (by omega)
  exact ⟨_, g', hread, newest_find hl'⟩

/-- Objects at addresses of their own are never in the cache when they are written. -/
structure Distinct (m : Startup) (objs : List (Addr × Item)) : Prop where
  nodup : (objs.map Prod.fst).Nodup
  apart : ∀ o ∈ objs, o.1 ≠ NULL ∧ o.1 ≠ m.head ∧ o.1 ≠ m.tail
  flags : ∀ o ∈ objs, o.2.flag ≠ AT

theorem Distinct.sublist {m : Startup} {objs' : List (Addr × Item)} (h : Distinct m objs)
    (hsub : objs'.Sublist objs) : Distinct m objs' where
  nodup := h.nodup.sublist (hsub.map Prod.fst)
  apart := fun o ho => h.apart o (hsub.subset ho)
  flags := fun o ho => h.flags o (hsub.subset ho)

theorem along_distinct {m : Startup} (hl : Holds g.cache g.heap objs) (hposted : Posted g)
    (hhead : g.cache.head = m.head) (htail : g.cache.tail = m.tail)
    (hall : Distinct m (written calls ++ objs)) (hfuel : objs.length + calls.length + 1 < fuel) :
    Along (call sum fuel) Allowed g calls := by
  induction calls generalizing g objs with
  | nil => trivial
  | cons c calls ih =>
    rw [List.length_cons] at hfuel
    rw [written_cons, List.append_assoc] at hall
    have hok : Allowed g c := by
      cases c with
      | read targetURI => trivial
      | write obj =>
        have hmem : (obj.1, obj.2.value) ∈ written calls ++
            ((Call.write obj).inserted.toList ++ objs) :=
          List.mem_append_right _ (List.mem_append_left _ (List.mem_singleton.mpr rfl))
        obtain ⟨hnull, hnothead, hnottail⟩ := hall.apart _ hmem
        refine ⟨hnull, fun hreach => ?_, hall.flags _ hmem⟩
        rcases reaches_mem hl hreach with hin | hin
        · rcases List.mem_cons.mp hin with heq | hin
          · exact hnothead (heq.trans hhead)
          · rcases List.mem_append.mp hin with hin | hin
            · have hnodup := (hall.sublist (List.sublist_append_right _ _)).nodup
              exact (List.nodup_cons.mp hnodup).1 hin
            · exact hnottail ((List.mem_singleton.mp hin).trans htail)
        · exact hnull hin
    obtain ⟨g₁, objs₁, hcall, hl₁, hposted₁, hfront, hcache⟩ :=
      @call_spec sum g objs fuel hl hposted c hok (by omega)
    have hless := hfront.length_le
    have hone : c.inserted.toList.length ≤ 1 := by cases c <;> simp [Call.inserted]
    rw [List.length_append] at hless
    exact along_cons hok hcall (ih hl₁ hposted₁ (hcache ▸ hhead) (hcache ▸ htail)
      (hall.sublist (List.Sublist.append_left hfront.sublist _)) (by omega))

theorem along_of_start {m : Startup} {g₀ : Globals} (hstart : start m = .ok g₀)
    (hall : Distinct m (written calls)) (hfuel : calls.length + 1 < fuel) :
    Along (call sum fuel) Allowed g₀ calls := by
  obtain ⟨g', hstart', hl, hposted, -, hhead, htail⟩ := start_spec m
  obtain rfl := Except.ok.inj (hstart'.symm.trans hstart)
  apply along_distinct hl hposted hhead htail
  · rw [List.append_nil]
    exact hall
  · rw [List.length_nil]
    omega

theorem wrapping_exact (a b : Int) (hlow : -2 ^ 31 ≤ a + b) (hhigh : a + b < 2 ^ 31) :
    toInt (a + b) = a + b := by
  unfold toInt
  exact Int.bmod_eq_of_le (by omega) (by omega)

/-- Sums that wrap. -/
def wrapping : IntSum where
  add := fun a b => toInt (a + b)
  exact := wrapping_exact

/-- An empty heap, and two nodes for the cache. -/
def sampleStartup : Startup where
  heap := fun _ => none
  head := 1
  tail := 2
  junk := fun _ => { flag := 0, obj := ⟨[], []⟩, respBodyLen := 0 }
  null := fun hlive => hlive rfl
  head_null := Nat.one_ne_zero
  tail_null := Nat.succ_ne_zero 1
  apart := Nat.ne_of_lt (Nat.lt_succ_self 1)

/-- Two objects for one URI, and a read between them. -/
def sampleCalls : List Call :=
  [.write (3, { value := ⟨36, ⟨ascii "/haha", []⟩, 21⟩, prev := NULL, next := NULL }),
    .read (ascii "/haha"),
    .write (4, { value := ⟨36, ⟨ascii "/haha", []⟩, 1⟩, prev := NULL, next := NULL })]

theorem sampleCalls_distinct : Distinct sampleStartup (written sampleCalls) where
  nodup := by decide
  apart := by decide
  flags := by decide

theorem cache_keeps_newest_example :
    ∃ g₀ g objs, start sampleStartup = .ok g₀ ∧ run (call wrapping 5) g₀ sampleCalls = .ok g ∧
      Holds g.cache g.heap objs ∧
      (∀ p, Reaches g.heap g.cache.head p → p = NULL ∨ g.heap.Live p) ∧
      objs <+: written sampleCalls ∧
      ∀ targetURI, ∃ p g', g.readItem 5 targetURI = .ok (p, g') ∧ Newest targetURI objs p := by
  obtain ⟨g₀, hstart, -⟩ := start_spec sampleStartup
  have hok : Along (call wrapping 5) Allowed g₀ sampleCalls :=
    along_of_start hstart sampleCalls_distinct (by decide)
  obtain ⟨g, objs, hrun⟩ := cache_keeps_newest hstart hok (by decide)
  exact ⟨g₀, g, objs, hstart, hrun⟩

end Globals

end LearnMuduo.Proxy
