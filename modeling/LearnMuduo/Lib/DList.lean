/-
  LearnMuduo.Lib.DList

  Doubly linked lists in a heap.

  A heap maps a pointer to its node, which has a value and two links.  `Linked h l` says
  that the nodes of `l` follow each other by `next` and by `prev`, and that none stands in
  it twice.  A node is linked in behind the first (`Linked.insert`) and unlinked and freed
  in front of the last (`Linked.removeLast`); either way the other links of the list stay.
-/
import Mathlib.Data.List.Chain
import Mathlib.Logic.Function.Basic
import Mathlib.Logic.Relation

namespace LearnMuduo.Lib.DList

structure Node (P V : Type*) where
  value : V
  prev : P
  next : P

abbrev Heap (P V : Type*) := P → Option (Node P V)

variable {P V : Type*}

namespace Heap

def value? (h : Heap P V) (p : P) : Option V := (h p).map Node.value

def prev? (h : Heap P V) (p : P) : Option P := (h p).map Node.prev

def next? (h : Heap P V) (p : P) : Option P := (h p).map Node.next

/-- There is a node at `p`. -/
def Live (h : Heap P V) (p : P) : Prop := h.value? p ≠ none

variable [DecidableEq P]

def setPrev (h : Heap P V) (p q : P) : Heap P V :=
  Function.update h p ((h p).map fun n => { n with prev := q })

def setNext (h : Heap P V) (p q : P) : Heap P V :=
  Function.update h p ((h p).map fun n => { n with next := q })

def free (h : Heap P V) (p : P) : Heap P V := Function.update h p none

/-- `p` is put between `a` and `b`. -/
def linkIn (h : Heap P V) (a p b : P) : Heap P V :=
  (((h.setNext p b).setPrev p a).setPrev b p).setNext a p

/-- `p` is taken from between `a` and `b`, its links are set to `null`, and it is freed. -/
def unlink (h : Heap P V) (a p b null : P) : Heap P V :=
  ((((h.setPrev b a).setNext a b).setNext p null).setPrev p null).free p

variable {h : Heap P V} {p q a : P}

omit [DecidableEq P] in
theorem live_iff : h.Live p ↔ ∃ n, h p = some n := by
  unfold Live value?
  cases h p with
  | none => simp
  | some n => simp

theorem map_update {W : Type*} (f : Node P V → Node P V) (g : Node P V → W) :
    (Function.update h p ((h p).map f) a).map g =
      if a = p then (h p).map (g ∘ f) else (h a).map g := by
  by_cases heq : a = p
  · rw [if_pos heq, heq, Function.update_self, Option.map_map]
  · rw [if_neg heq, Function.update_of_ne heq]

theorem map_update_same {W : Type*} (f : Node P V → Node P V) (g : Node P V → W)
    (hfg : g ∘ f = g) :
    (Function.update h p ((h p).map f) a).map g = (h a).map g := by
  rw [map_update, hfg]
  split
  · rename_i heq
    rw [heq]
  · rfl

@[simp] theorem value?_setPrev : (h.setPrev p q).value? a = h.value? a :=
  map_update_same _ _ rfl

@[simp] theorem value?_setNext : (h.setNext p q).value? a = h.value? a :=
  map_update_same _ _ rfl

@[simp] theorem next?_setPrev : (h.setPrev p q).next? a = h.next? a :=
  map_update_same _ _ rfl

@[simp] theorem prev?_setNext : (h.setNext p q).prev? a = h.prev? a :=
  map_update_same _ _ rfl

theorem prev?_setPrev_of_ne (hne : a ≠ p) : (h.setPrev p q).prev? a = h.prev? a := by
  rw [prev?, setPrev, Function.update_of_ne hne]
  rfl

theorem next?_setNext_of_ne (hne : a ≠ p) : (h.setNext p q).next? a = h.next? a := by
  rw [next?, setNext, Function.update_of_ne hne]
  rfl

theorem prev?_setPrev_self (hlive : h.Live p) : (h.setPrev p q).prev? p = some q := by
  obtain ⟨n, hn⟩ := live_iff.mp hlive
  rw [prev?, setPrev, Function.update_self, hn]
  rfl

theorem next?_setNext_self (hlive : h.Live p) : (h.setNext p q).next? p = some q := by
  obtain ⟨n, hn⟩ := live_iff.mp hlive
  rw [next?, setNext, Function.update_self, hn]
  rfl

@[simp] theorem live_setPrev : (h.setPrev p q).Live a ↔ h.Live a := by
  rw [Live, Live, value?_setPrev]

@[simp] theorem live_setNext : (h.setNext p q).Live a ↔ h.Live a := by
  rw [Live, Live, value?_setNext]

theorem free_of_ne (hne : a ≠ p) : h.free p a = h a := Function.update_of_ne hne ..

theorem value?_free_of_ne (hne : a ≠ p) : (h.free p).value? a = h.value? a :=
  congrArg (Option.map Node.value) (free_of_ne hne)

theorem next?_free_of_ne (hne : a ≠ p) : (h.free p).next? a = h.next? a :=
  congrArg (Option.map Node.next) (free_of_ne hne)

theorem prev?_free_of_ne (hne : a ≠ p) : (h.free p).prev? a = h.prev? a :=
  congrArg (Option.map Node.prev) (free_of_ne hne)

section Moves

variable {b c null : P}

@[simp] theorem value?_linkIn : (h.linkIn a p b).value? c = h.value? c := by
  simp [linkIn]

theorem prev?_linkIn_of_ne (hp : c ≠ p) (hb : c ≠ b) : (h.linkIn a p b).prev? c = h.prev? c := by
  rw [linkIn, prev?_setNext, prev?_setPrev_of_ne hb, prev?_setPrev_of_ne hp, prev?_setNext]

theorem next?_linkIn_of_ne (hp : c ≠ p) (ha : c ≠ a) : (h.linkIn a p b).next? c = h.next? c := by
  rw [linkIn, next?_setNext_of_ne ha, next?_setPrev, next?_setPrev, next?_setNext_of_ne hp]

theorem value?_unlink_of_ne (hp : c ≠ p) : (h.unlink a p b null).value? c = h.value? c := by
  rw [unlink, value?_free_of_ne hp, value?_setPrev, value?_setNext, value?_setNext,
    value?_setPrev]

theorem prev?_unlink_of_ne (hp : c ≠ p) (hb : c ≠ b) :
    (h.unlink a p b null).prev? c = h.prev? c := by
  rw [unlink, prev?_free_of_ne hp, prev?_setPrev_of_ne hp, prev?_setNext, prev?_setNext,
    prev?_setPrev_of_ne hb]

theorem next?_unlink_of_ne (hp : c ≠ p) (ha : c ≠ a) :
    (h.unlink a p b null).next? c = h.next? c := by
  rw [unlink, next?_free_of_ne hp, next?_setPrev, next?_setNext_of_ne hp, next?_setNext_of_ne ha,
    next?_setPrev]

end Moves

end Heap

/-! ## Lists -/

/-- `b` is next to `a`, and `a` in front of `b`. -/
structure Follows (h : Heap P V) (a b : P) : Prop where
  next : h.next? a = some b
  prev : h.prev? b = some a

structure Linked (h : Heap P V) (l : List P) : Prop where
  chain : l.IsChain (Follows h)
  nodup : l.Nodup

variable {h h' : Heap P V} {l : List P} {a b p q : P}

/-- The links inside the list are read from no other field than these. -/
theorem chain_frame (hchain : l.IsChain (Follows h))
    (hnext : ∀ a ∈ l.dropLast, h'.next? a = h.next? a)
    (hprev : ∀ b ∈ l.tail, h'.prev? b = h.prev? b) : l.IsChain (Follows h') := by
  induction l with
  | nil => exact List.IsChain.nil
  | cons a l ih =>
    cases l with
    | nil => exact List.IsChain.singleton a
    | cons b l =>
      obtain ⟨hfollows, hrest⟩ := List.isChain_cons_cons.mp hchain
      refine List.isChain_cons_cons.mpr ⟨⟨?_, ?_⟩, ih hrest ?_ ?_⟩
      · rw [hnext a List.mem_cons_self]
        exact hfollows.next
      · rw [hprev b List.mem_cons_self]
        exact hfollows.prev
      · intro c hc
        exact hnext c (List.mem_cons_of_mem a hc)
      · intro c hc
        exact hprev c (List.mem_cons_of_mem b hc)

theorem Follows.live_left (hab : Follows h a b) : h.Live a := by
  have hnext := hab.next
  rw [Heap.next?, Option.map_eq_some_iff] at hnext
  obtain ⟨n, hn, -⟩ := hnext
  exact Heap.live_iff.mpr ⟨n, hn⟩

theorem Follows.live_right (hab : Follows h a b) : h.Live b := by
  have hprev := hab.prev
  rw [Heap.prev?, Option.map_eq_some_iff] at hprev
  obtain ⟨n, hn, -⟩ := hprev
  exact Heap.live_iff.mpr ⟨n, hn⟩

/-- Every node of a list of two or more is there. -/
theorem Linked.live (hl : Linked h (a :: b :: l)) : ∀ c ∈ a :: b :: l, h.Live c := by
  have hchain := hl.chain
  clear hl
  induction l generalizing a b with
  | nil =>
    obtain ⟨hab, -⟩ := List.isChain_cons_cons.mp hchain
    intro c hc
    rcases List.mem_cons.mp hc with rfl | hc
    · exact hab.live_left
    · obtain rfl := List.mem_singleton.mp hc
      exact hab.live_right
  | cons d l ih =>
    obtain ⟨hab, hrest⟩ := List.isChain_cons_cons.mp hchain
    intro c hc
    rcases List.mem_cons.mp hc with rfl | hc
    · exact hab.live_left
    · exact ih hrest c hc

theorem chain_next (hchain : l.IsChain (Follows h)) (hp : p ∈ l) :
    l.getLast? = some p ∨ ∃ c ∈ l, h.next? p = some c := by
  induction l with
  | nil => cases hp
  | cons a l ih =>
    cases l with
    | nil =>
      obtain rfl := List.mem_singleton.mp hp
      exact Or.inl rfl
    | cons b l =>
      obtain ⟨hab, hrest⟩ := List.isChain_cons_cons.mp hchain
      rcases List.mem_cons.mp hp with rfl | hp
      · exact Or.inr ⟨b, List.mem_cons_of_mem _ List.mem_cons_self, hab.next⟩
      · rcases ih hrest hp with hlast | ⟨c, hc, hnext⟩
        · exact Or.inl (by rw [List.getLast?_cons_cons, hlast])
        · exact Or.inr ⟨c, List.mem_cons_of_mem a hc, hnext⟩

theorem chain_prev (hchain : l.IsChain (Follows h)) (hp : p ∈ l) :
    l.head? = some p ∨ ∃ c ∈ l, h.prev? p = some c := by
  induction l with
  | nil => cases hp
  | cons a l ih =>
    rcases List.mem_cons.mp hp with rfl | hp
    · exact Or.inl rfl
    · cases l with
      | nil => cases hp
      | cons b l =>
        obtain ⟨hab, hrest⟩ := List.isChain_cons_cons.mp hchain
        rcases ih hrest hp with hfirst | ⟨c, hc, hprev⟩
        · obtain rfl := Option.some.inj hfirst
          exact Or.inr ⟨a, List.mem_cons_self, hab.prev⟩
        · exact Or.inr ⟨c, List.mem_cons_of_mem a hc, hprev⟩

/-- The last three nodes of a list. -/
theorem Linked.back (hl : Linked h (l ++ [a, p, b])) :
    (l ++ [a]).IsChain (Follows h) ∧ Follows h a p ∧ Follows h p b ∧
      p ≠ b ∧ ∀ c ∈ l ++ [a], c ≠ p ∧ c ≠ b := by
  obtain ⟨hfront, hback⟩ := List.isChain_split.mp hl.chain
  obtain ⟨hap, hrest⟩ := List.isChain_cons_cons.mp hback
  obtain ⟨hpb, -⟩ := List.isChain_cons_cons.mp hrest
  obtain ⟨-, hnodup, hapart⟩ := List.nodup_append.mp hl.nodup
  obtain ⟨hap', hab', hpb'⟩ : a ≠ p ∧ a ≠ b ∧ p ≠ b := by simpa [and_assoc] using hnodup
  refine ⟨hfront, hap, hpb, hpb', fun c hc => ?_⟩
  rcases List.mem_append.mp hc with hc | hc
  · exact ⟨hapart c hc p (by simp), hapart c hc b (by simp)⟩
  · obtain rfl := List.mem_singleton.mp hc
    exact ⟨hap', hab'⟩

/-- `p` is found from `a` by following links. -/
def Reaches (h : Heap P V) : P → P → Prop :=
  Relation.ReflTransGen fun a b => h.next? a = some b ∨ h.prev? a = some b

/-- From its first node the whole list is found. -/
theorem reaches_of_chain (hchain : (a :: l).IsChain (Follows h)) (hp : p ∈ a :: l) :
    Reaches h a p := by
  induction l generalizing a with
  | nil =>
    obtain rfl := List.mem_singleton.mp hp
    exact Relation.ReflTransGen.refl
  | cons b l ih =>
    obtain ⟨hab, hrest⟩ := List.isChain_cons_cons.mp hchain
    rcases List.mem_cons.mp hp with rfl | hp
    · exact Relation.ReflTransGen.refl
    · exact Relation.ReflTransGen.head (Or.inl hab.next) (ih hrest hp)

/-- From a node of a list whose outer links are null the list is found, and null. -/
theorem Linked.reaches {null : P} (hl : Linked h l)
    (hfirst : ∀ c, l.head? = some c → h.prev? c = some null)
    (hlast : ∀ c, l.getLast? = some c → h.next? c = some null)
    (hnull : ¬h.Live null) (ha : a ∈ l) (hp : Reaches h a p) : p ∈ l ∨ p = null := by
  induction hp with
  | refl => exact Or.inl ha
  | @tail b c _ hlink ih =>
    rcases ih with hb | rfl
    · rcases hlink with hnext | hprev
      · rcases chain_next hl.chain hb with hend | ⟨d, hd, hnext'⟩
        · exact Or.inr (Option.some.inj (hnext.symm.trans (hlast b hend)))
        · obtain rfl := Option.some.inj (hnext.symm.trans hnext')
          exact Or.inl hd
      · rcases chain_prev hl.chain hb with hend | ⟨d, hd, hprev'⟩
        · exact Or.inr (Option.some.inj (hprev.symm.trans (hfirst b hend)))
        · obtain rfl := Option.some.inj (hprev.symm.trans hprev')
          exact Or.inl hd
    · -- there is no node at null to have a link
      exfalso
      apply hnull
      rcases hlink with hlink | hlink
      · obtain ⟨n, hn, -⟩ := Option.map_eq_some_iff.mp hlink
        exact Heap.live_iff.mpr ⟨n, hn⟩
      · obtain ⟨n, hn, -⟩ := Option.map_eq_some_iff.mp hlink
        exact Heap.live_iff.mpr ⟨n, hn⟩

variable [DecidableEq P]

/-- A node is linked in behind the first. -/
theorem Linked.insert (hl : Linked h (a :: b :: l)) (hp : p ∉ a :: b :: l) (hlive : h.Live p) :
    Linked (h.linkIn a p b) (a :: p :: b :: l) := by
  obtain ⟨hab, hrest⟩ := List.isChain_cons_cons.mp hl.chain
  obtain ⟨hanot, hbl⟩ := List.nodup_cons.mp hl.nodup
  have ha : p ≠ a := fun heq => hp (heq ▸ List.mem_cons_self)
  have hpnot : p ∉ b :: l := fun hmem => hp (List.mem_cons_of_mem a hmem)
  have hb : p ≠ b := fun heq => hpnot (heq ▸ List.mem_cons_self)
  have hap : Follows (h.linkIn a p b) a p := by
    constructor
    · exact Heap.next?_setNext_self (by simpa using hab.live_left)
    · rw [Heap.linkIn, Heap.prev?_setNext, Heap.prev?_setPrev_of_ne hb]
      exact Heap.prev?_setPrev_self (by simpa using hlive)
  have hpb : Follows (h.linkIn a p b) p b := by
    constructor
    · rw [Heap.linkIn, Heap.next?_setNext_of_ne ha, Heap.next?_setPrev, Heap.next?_setPrev]
      exact Heap.next?_setNext_self hlive
    · rw [Heap.linkIn, Heap.prev?_setNext]
      exact Heap.prev?_setPrev_self (by simpa using hab.live_right)
  -- in the rest of the list no link has changed
  have hrest' : (b :: l).IsChain (Follows (h.linkIn a p b)) := by
    apply chain_frame hrest
    · intro c hc
      have hmem : c ∈ b :: l := List.dropLast_subset _ hc
      apply Heap.next?_linkIn_of_ne
      · exact fun heq => hpnot (heq ▸ hmem)
      · exact fun heq => hanot (heq ▸ hmem)
    · intro c hc
      apply Heap.prev?_linkIn_of_ne
      · exact fun heq => hpnot (heq ▸ List.mem_cons_of_mem b hc)
      · exact fun heq => (List.nodup_cons.mp hbl).1 (heq ▸ hc)
  refine ⟨List.isChain_cons_cons.mpr ⟨hap, List.isChain_cons_cons.mpr ⟨hpb, hrest'⟩⟩, ?_⟩
  refine List.nodup_cons.mpr ⟨?_, List.nodup_cons.mpr ⟨hpnot, hbl⟩⟩
  intro hmem
  rcases List.mem_cons.mp hmem with heq | hmem
  · exact ha heq.symm
  · exact hanot hmem

/-- The node in front of the last is unlinked and freed. -/
theorem Linked.removeLast {null : P} (hl : Linked h (l ++ [a, p, b])) :
    Linked (h.unlink a p b null) (l ++ [a, b]) := by
  obtain ⟨hfront, hap, hpb, hpb', hapart⟩ := hl.back
  have hap' := (hapart a (List.mem_append_right _ List.mem_cons_self)).1
  have hfront' : (l ++ [a]).IsChain (Follows (h.unlink a p b null)) := by
    apply chain_frame hfront
    · intro c hc
      rw [List.dropLast_concat] at hc
      apply Heap.next?_unlink_of_ne
      · exact (hapart c (List.mem_append_left _ hc)).1
      · intro heq
        have hnodup := (List.nodup_append.mp hl.nodup).2.2
        exact hnodup c hc a List.mem_cons_self heq
    · intro c hc
      obtain ⟨hcp, hcb⟩ := hapart c (List.mem_of_mem_tail hc)
      exact Heap.prev?_unlink_of_ne hcp hcb
  have hab : Follows (h.unlink a p b null) a b := by
    constructor
    · rw [Heap.unlink, Heap.next?_free_of_ne hap', Heap.next?_setPrev,
        Heap.next?_setNext_of_ne hap']
      exact Heap.next?_setNext_self (by simpa using hap.live_left)
    · rw [Heap.unlink, Heap.prev?_free_of_ne hpb'.symm, Heap.prev?_setPrev_of_ne hpb'.symm,
        Heap.prev?_setNext, Heap.prev?_setNext]
      exact Heap.prev?_setPrev_self hpb.live_right
  constructor
  · refine List.isChain_split.mpr ⟨hfront', ?_⟩
    exact List.isChain_cons_cons.mpr ⟨hab, List.IsChain.singleton b⟩
  · refine hl.nodup.sublist (List.Sublist.append_left ?_ l)
    exact List.Sublist.cons_cons a (List.sublist_cons_self p [b])

end LearnMuduo.Lib.DList
