/-
  LearnMuduo.Lib.Decoder

  Decoders that are fed a stream piece by piece.

  A decoder looks at the symbols it has: it waits for more, refuses them, or takes an item
  off the front.  What comes later does not change what it made of the symbols in front
  (`item_append`, `refused_append`), so the chunks in which the stream comes do not matter
  (`feed_drain`).  Against an encoder, `drain_eq_iff` says that the items are exactly those
  whose encodings stand on the front.
-/
import Mathlib.Data.List.Basic

namespace LearnMuduo.Lib

variable {β α : Type*}

/-- What a decoder makes of the symbols that are there. -/
inductive Verdict (β α : Type*) where
  | more
  | refused
  | item (a : α) (rest : List β)

structure Decoder (β α : Type*) where
  next : List β → Verdict β α
  shorter : ∀ {s r : List β} {a : α}, next s = .item a r → r.length < s.length
  item_append : ∀ {s r : List β} {a : α} (t : List β),
    next s = .item a r → next (s ++ t) = .item a (r ++ t)
  refused_append : ∀ {s : List β} (t : List β), next s = .refused → next (s ++ t) = .refused

namespace Decoder

/-- No item stands on the front. -/
def Stops (d : Decoder β α) (s : List β) : Prop := ∀ a r, d.next s ≠ .item a r

/-- The items on the front, and what is left behind them. -/
def drain (d : Decoder β α) (s : List β) : List α × List β :=
  match _h : d.next s with
  | .item a r => (a :: (d.drain r).1, (d.drain r).2)
  | .more => ([], s)
  | .refused => ([], s)
termination_by s.length
decreasing_by exact d.shorter _h

variable {d : Decoder β α} {s r : List β} {a : α}

theorem drain_item (h : d.next s = .item a r) :
    d.drain s = (a :: (d.drain r).1, (d.drain r).2) := by
  rw [drain]
  split
  · rename_i b t heq
    rw [h] at heq
    cases heq
    rfl
  · rename_i heq
    rw [h] at heq
    cases heq
  · rename_i heq
    rw [h] at heq
    cases heq

theorem drain_stops (h : d.Stops s) : d.drain s = ([], s) := by
  rw [drain]
  split
  · rename_i b t heq
    exact absurd heq (h b t)
  · rfl
  · rfl

theorem stops_of_refused (h : d.next s = .refused) : d.Stops s := by
  intro a r hitem
  rw [h] at hitem
  cases hitem

theorem stops_nil : d.Stops [] := fun _ _ h => absurd (d.shorter h) (Nat.not_lt_zero _)

/-- Induction along the items on the front. -/
@[elab_as_elim] theorem items_induction {motive : List β → Prop} (s : List β)
    (stop : ∀ s, d.Stops s → motive s)
    (item : ∀ s a r, d.next s = .item a r → motive r → motive s) : motive s := by
  induction hn : s.length using Nat.strongRecOn generalizing s with
  | ind n ih =>
    cases h : d.next s with
    | item a r => exact item s a r h (ih r.length (hn ▸ d.shorter h) r rfl)
    | more => exact stop s fun a r hitem => by rw [h] at hitem; cases hitem
    | refused => exact stop s (stops_of_refused h)

theorem drain_rest_stops (s : List β) : d.Stops (d.drain s).2 := by
  induction s using items_induction (d := d) with
  | stop s h =>
    rw [drain_stops h]
    exact h
  | item s a r h ih =>
    rw [drain_item h]
    exact ih

/-- What is left goes on with what comes next. -/
theorem drain_append (s t : List β) :
    d.drain (s ++ t) = ((d.drain s).1 ++ (d.drain ((d.drain s).2 ++ t)).1,
      (d.drain ((d.drain s).2 ++ t)).2) := by
  induction s using items_induction (d := d) with
  | stop s h => rw [drain_stops h, List.nil_append]
  | item s a r h ih => rw [drain_item (d.item_append t h), ih, drain_item h, List.cons_append]

/-- A refused rest takes all that comes along. -/
theorem drain_append_refused {t : List β} (h : d.next (d.drain s).2 = .refused) :
    d.drain (s ++ t) = ((d.drain s).1, (d.drain s).2 ++ t) := by
  rw [drain_append, drain_stops (stops_of_refused (d.refused_append t h)), List.append_nil]

/-! ## Chunks -/

/-- The items so far and the symbols that are left, when another chunk has come. -/
def feed (d : Decoder β α) (p : List α × List β) (chunk : List β) : List α × List β :=
  (p.1 ++ (d.drain (p.2 ++ chunk)).1, (d.drain (p.2 ++ chunk)).2)

/-- The cuts of the stream are not seen. -/
theorem feed_drain (s chunk : List β) : d.feed (d.drain s) chunk = d.drain (s ++ chunk) := by
  rw [feed, drain_append s chunk]

/-! ## Encoders -/

/-- The decoder takes off the front what the encoder writes for the items it may write, and
    nothing else. -/
structure Inverts (d : Decoder β α) (ok : α → Prop) (encode : α → List β) : Prop where
  reads : ∀ {a : α} (t : List β), ok a → d.next (encode a ++ t) = .item a t
  writes : ∀ {s r : List β} {a : α}, d.next s = .item a r → ok a ∧ s = encode a ++ r

variable {ok : α → Prop} {encode : α → List β}

theorem Inverts.drain_flatMap (h : d.Inverts ok encode) {as : List α} (hok : ∀ a ∈ as, ok a)
    (t : List β) : d.drain (as.flatMap encode ++ t) = (as ++ (d.drain t).1, (d.drain t).2) := by
  induction as with
  | nil => rfl
  | cons a as ih =>
    have hnext := h.reads (as.flatMap encode ++ t) (hok a List.mem_cons_self)
    rw [List.flatMap_cons, List.append_assoc, drain_item hnext,
      ih fun b hb => hok b (List.mem_cons_of_mem a hb), List.cons_append]

theorem Inverts.drain_spec (h : d.Inverts ok encode) (s : List β) :
    (∀ a ∈ (d.drain s).1, ok a) ∧ s = (d.drain s).1.flatMap encode ++ (d.drain s).2 := by
  induction s using items_induction (d := d) with
  | stop s hs =>
    rw [drain_stops hs]
    exact ⟨fun a ha => absurd ha List.not_mem_nil, rfl⟩
  | item s a r hitem ih =>
    obtain ⟨hok, hs⟩ := h.writes hitem
    rw [drain_item hitem]
    refine ⟨fun b hb => ?_, ?_⟩
    · rcases List.mem_cons.mp hb with rfl | hb
      · exact hok
      · exact ih.1 b hb
    · rw [List.flatMap_cons, List.append_assoc, ← ih.2]
      exact hs

/-- The items are those whose encodings stand on the front, as far as they go. -/
theorem Inverts.drain_eq_iff (h : d.Inverts ok encode) {as : List α} :
    d.drain s = (as, r) ↔ (∀ a ∈ as, ok a) ∧ s = as.flatMap encode ++ r ∧ d.Stops r := by
  constructor
  · intro hs
    have hspec := h.drain_spec s
    have hstops := drain_rest_stops (d := d) s
    rw [hs] at hspec hstops
    exact ⟨hspec.1, hspec.2, hstops⟩
  · rintro ⟨hok, rfl, hstops⟩
    rw [h.drain_flatMap hok, drain_stops hstops, List.append_nil]

end Decoder

end LearnMuduo.Lib
