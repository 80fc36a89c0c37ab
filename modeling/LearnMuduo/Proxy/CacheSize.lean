/-
  LearnMuduo.Proxy.CacheSize

  What `CacheSize` counts.

  It is raised by every object that is written and lowered by none that is evicted.  Until
  the first object that does not fit it is the size of the cache; from then on every object
  finds the cache full, and evicts all there is (`accounts_iff_total`).  The objects are those
  that may stand in the list: none of them has the flag `'@'` of its ends (`Insertable`).
-/
import LearnMuduo.Proxy.CacheList

namespace LearnMuduo.Proxy

open Lib

namespace Globals

/-- The bytes of the bodies of the objects. -/
def total (objs : List (Addr × Item)) : Int := (objs.map fun o => o.2.respBodyLen).sum

/-- After the call `CacheSize` is the size of the cache, which is within the bound, and with
    one of the evicted objects more the new one would not have fitted. -/
def Accounts (sum : IntSum) (fuel : Nat) (g : Globals) : Call → Prop
  | .write obj => ∃ g' old k, Holds g.cache g.heap old ∧ g.write sum fuel obj = .ok g' ∧
      Holds g'.cache g'.heap ((obj.1, obj.2.value) :: old.take k) ∧
      g'.CacheSize = total ((obj.1, obj.2.value) :: old.take k) ∧
      g'.CacheSize ≤ MAX_CACHE_SIZE ∧
      (k < old.length → MAX_CACHE_SIZE < obj.2.value.respBodyLen + total (old.take (k + 1)))
  | .read _ => True

/-- The bodies are no longer than the array they stand in. -/
def Sized (objs : List (Addr × Item)) : Prop :=
  ∀ o ∈ objs, 0 ≤ o.2.respBodyLen ∧ o.2.respBodyLen ≤ MAX_OBJECT_SIZE

instance (objs : List (Addr × Item)) : Decidable (Sized objs) :=
  inferInstanceAs (Decidable (∀ o ∈ objs, 0 ≤ o.2.respBodyLen ∧ o.2.respBodyLen ≤ MAX_OBJECT_SIZE))

variable {sum : IntSum} {g : Globals} {objs old : List (Addr × Item)} {calls : List Call}
  {fuel : Nat}

theorem total_cons (o : Addr × Item) (objs : List (Addr × Item)) :
    total (o :: objs) = o.2.respBodyLen + total objs := List.sum_cons

theorem total_append (objs objs' : List (Addr × Item)) :
    total (objs ++ objs') = total objs + total objs' := by
  rw [total, List.map_append, List.sum_append]
  rfl

theorem total_nonneg (h : Sized objs) : 0 ≤ total objs := by
  induction objs with
  | nil => exact Int.le_refl 0
  | cons o objs ih =>
    have hrest := ih fun x hx => h x (List.mem_cons_of_mem o hx)
    have hfirst := (h o List.mem_cons_self).1
    rw [total_cons]
    omega

/-- One object, on a cache that is counted right. -/
theorem write_accounts_iff {obj : Addr × Node} (hl : Holds g.cache g.heap old)
    (hobj : Insertable g obj) (hcount : g.CacheSize = total old)
    (hold : 0 ≤ total old ∧ total old ≤ MAX_CACHE_SIZE)
    (hlen : 0 ≤ obj.2.value.respBodyLen ∧ obj.2.value.respBodyLen ≤ MAX_OBJECT_SIZE)
    (hfuel : old.length + 1 < fuel) :
    ∃ h, g.write sum fuel obj = .ok
        { g with heap := h, CacheSize := total old + obj.2.value.respBodyLen } ∧
      (total old + obj.2.value.respBodyLen ≤ MAX_CACHE_SIZE →
        Holds g.cache h ((obj.1, obj.2.value) :: old)) ∧
      (Accounts sum fuel g (.write obj) ↔
        total old + obj.2.value.respBodyLen ≤ MAX_CACHE_SIZE) := by
  have hmax : MAX_CACHE_SIZE = 1049000 := rfl
  have hmax' : MAX_OBJECT_SIZE = 102400 := rfl
  obtain ⟨h, hwrite, hh⟩ := @write_spec sum g old fuel obj hl hobj hfuel
  have hadd : sum.add g.CacheSize obj.2.value.respBodyLen =
      total old + obj.2.value.respBodyLen := by
    rw [hcount, sum.exact _ _ (by omega) (by omega)]
  have hfull : Full sum g obj.2.value ↔
      MAX_CACHE_SIZE < total old + obj.2.value.respBodyLen := by
    rw [Full, hcount, sum.exact _ _ (by omega) (by omega), Int.add_comm]
  have hkept : total old + obj.2.value.respBodyLen ≤ MAX_CACHE_SIZE →
      Holds g.cache h ((obj.1, obj.2.value) :: old) := by
    intro hfits
    rw [if_neg fun hcond => absurd (hfull.mp hcond) (Int.not_lt.mpr hfits)] at hh
    exact hh
  rw [hadd] at hwrite
  refine ⟨h, hwrite, hkept, ?_⟩
  constructor
  · -- the count has not been lowered, whatever was evicted
    rintro ⟨g', old', k, -, hwrite', -, -, hbound, -⟩
    obtain rfl := Except.ok.inj (hwrite.symm.trans hwrite')
    exact hbound
  · intro hfits
    refine ⟨_, old, old.length, hl, hwrite, ?_, ?_, ?_, fun hless => ?_⟩
    · rw [List.take_length]
      exact hkept hfits
    · rw [List.take_length, total_cons, Int.add_comm]
    · exact hfits
    · exact absurd hless (Nat.lt_irrefl _)

/-- The total with the objects that come later, one of them moved to the objects in the cache. -/
theorem total_write (calls : List Call) (obj : Addr × Node) (old : List (Addr × Item)) :
    total old + total (written (.write obj :: calls)) =
      total ((obj.1, obj.2.value) :: old) + total (written calls) := by
  have hone : total [(obj.1, obj.2.value)] = obj.2.value.respBodyLen := Int.add_zero _
  have hwritten : written (.write obj :: calls) = written calls ++ [(obj.1, obj.2.value)] :=
    written_cons _ _
  have hcons : total ((obj.1, obj.2.value) :: old) = obj.2.value.respBodyLen + total old :=
    total_cons _ _
  rw [hwritten, total_append, hone, hcons]
  omega

theorem run_accounts_iff (hl : Holds g.cache g.heap old) (hposted : Posted g)
    (hok : Along (call sum fuel) Allowed g calls) (hcount : g.CacheSize = total old)
    (hold : 0 ≤ total old ∧ total old ≤ MAX_CACHE_SIZE) (hsized : Sized (written calls))
    (hfuel : old.length + calls.length + 1 < fuel) :
    Along (call sum fuel) (Accounts sum fuel) g calls ↔
      total old + total (written calls) ≤ MAX_CACHE_SIZE := by
  induction calls generalizing g old with
  | nil =>
    have hnone : total (written []) = 0 := rfl
    exact iff_of_true trivial (by omega)
  | cons c calls ih =>
    rw [List.length_cons] at hfuel
    have hall := hsized
    rw [written_cons] at hall
    have hrest : Sized (written calls) := fun o ho => hall o (List.mem_append_left _ ho)
    cases c with
    | read targetURI =>
      obtain ⟨g', hread, hposted', hheap, hcache, hsize⟩ :=
        @readItem_spec g old targetURI fuel hl hposted (by omega)
      have hcall : call sum fuel g (.read targetURI) = .ok g' := by rw [call, hread, ok_then]
      have hiff := ih (hcache ▸ hheap ▸ hl) hposted' (hok.2 g' hcall) (hsize ▸ hcount) hold hrest
        (by omega)
      have hsame : written (.read targetURI :: calls) = written calls := rfl
      rw [along_cons_iff hcall, hiff, hsame]
      exact and_iff_right trivial
    | write obj =>
      have hlen : 0 ≤ obj.2.value.respBodyLen ∧ obj.2.value.respBodyLen ≤ MAX_OBJECT_SIZE :=
        hall _ (List.mem_append_right _ (List.mem_singleton.mpr rfl))
      have hcons : total ((obj.1, obj.2.value) :: old) = obj.2.value.respBodyLen + total old :=
        total_cons _ _
      obtain ⟨h, hwrite, hkept, hiff⟩ :=
        @write_accounts_iff sum g old fuel obj hl hok.1 hcount hold hlen (by omega)
      have hcall : call sum fuel g (.write obj) = .ok _ := hwrite
      rw [along_cons_iff hcall, hiff, total_write]
      by_cases hfits : total old + obj.2.value.respBodyLen ≤ MAX_CACHE_SIZE
      · rw [and_iff_right hfits]
        apply ih
        · exact hkept hfits
        · exact hposted
        · exact hok.2 _ hcall
        · show total old + obj.2.value.respBodyLen = _
          omega
        · omega
        · exact hrest
        · rw [List.length_cons]
          omega
      · -- later objects make it no less
        have hpos := total_nonneg hrest
        exact iff_of_false (fun h => hfits h.1) (by omega)

/-- Every call leaves the cache counted right exactly if nothing ever has to be evicted. -/
theorem accounts_iff_total {m : Startup} {g₀ : Globals} (hstart : start m = .ok g₀)
    (hok : Along (call sum fuel) Allowed g₀ calls) (hsized : Sized (written calls))
    (hfuel : calls.length + 1 < fuel) :
    Along (call sum fuel) (Accounts sum fuel) g₀ calls ↔
      total (written calls) ≤ MAX_CACHE_SIZE := by
  obtain ⟨g', hstart', hl, hposted, hcount, -⟩ := start_spec m
  obtain rfl := Except.ok.inj (hstart'.symm.trans hstart)
  have hnone : total [] = 0 := rfl
  have hiff := run_accounts_iff hl hposted hok hcount (by rw [hnone]; decide) hsized
    (by rw [List.length_nil]; omega)
  rw [hiff, hnone, Int.zero_add]

theorem accounts_iff_total_example :
    ∃ g₀, start sampleStartup = .ok g₀ ∧
      Along (call wrapping 5) (Accounts wrapping 5) g₀ sampleCalls := by
  obtain ⟨g₀, hstart, -⟩ := start_spec sampleStartup
  have hok : Along (call wrapping 5) Allowed g₀ sampleCalls :=
    along_of_start hstart sampleCalls_distinct (by decide)
  have hsized : Sized (written sampleCalls) := by decide
  exact ⟨g₀, hstart, (accounts_iff_total hstart hok hsized (by decide)).mpr (by decide)⟩

/-- Eleven objects of the largest size. -/
def elevenLargest : List Call :=
  (List.range 11).map fun i => .write (i + 3,
    { value := ⟨36, ⟨ascii "/haha", []⟩, MAX_OBJECT_SIZE⟩, prev := NULL, next := NULL })

/-- The eleventh does not fit, and what it evicts stays counted. -/
theorem evicted_counted :
    ∃ g₀, start sampleStartup = .ok g₀ ∧ Along (call wrapping 13) Allowed g₀ elevenLargest ∧
      Sized (written elevenLargest) ∧
      ¬Along (call wrapping 13) (Accounts wrapping 13) g₀ elevenLargest := by
  obtain ⟨g₀, hstart, hl, hposted, hcount, -⟩ := start_spec sampleStartup
  have hdistinct : Distinct sampleStartup (written elevenLargest) :=
    { nodup := by decide, apart := by decide, flags := by decide }
  have hok : Along (call wrapping 13) Allowed g₀ elevenLargest :=
    along_of_start hstart hdistinct (by decide)
  have hsized : Sized (written elevenLargest) := by decide
  have hiff := run_accounts_iff hl hposted hok hcount (by decide) hsized (by decide)
  exact ⟨g₀, hstart, hok, hsized, fun h => absurd (hiff.mp h) (by decide)⟩

end Globals

end LearnMuduo.Proxy
