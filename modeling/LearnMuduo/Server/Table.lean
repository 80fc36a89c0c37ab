/-
  LearnMuduo.Server.Table

  The loops of a server know a connection by its number; the source keeps a table of names
  and gives the connections to the threads in turn.  `Tabled` relates the two, every step of
  the loops is a call of the TcpServer or none, and so every state of the loops is one of a
  TcpServer.
-/
import LearnMuduo.Net.TcpServer
import LearnMuduo.Server.Ownership
import LearnMuduo.Server.TcpSteps

namespace LearnMuduo

open Lib

namespace HttpServerLoops

variable {n : Nat} {L : Type} {startLoop : Nat → L} {s s' : HttpServerLoops n} {t t' : TcpServer L}
  {i : Fin n}

/-- What the table depends on is the same. -/
structure SameTable (s s' : HttpServerLoops n) : Prop where
  nextConnId : s'.nextConnId_ = s.nextConnId_
  next : s'.next_ = s.next_
  connections : s'.connections_ = s.connections_
  loops : s'.loopOf = s.loopOf

theorem runFunctor_sameTable (f : IoFunctor) : SameTable s (s.runFunctor i f) := by
  obtain ⟨kind, c⟩ := f
  cases kind with
  | connectEstablished =>
    simp only [runFunctor]
    split <;> exact ⟨rfl, rfl, rfl, loopOf_setTcp⟩
  | shutdownInloop => exact ⟨rfl, rfl, rfl, loopOf_setTcp⟩
  | connectDestoryed => exact ⟨rfl, rfl, rfl, loopOf_destroyed⟩

theorem io_sameTable {a : IoAction} (hs : IoCase s i a s') : SameTable s s' := by
  cases hs with
  | functor _ _ =>
    obtain ⟨hid, hnext, hconn, hloops⟩ := runFunctor_sameTable (s := s.setIo i _) _
    exact ⟨hid, hnext, hconn, hloops⟩
  | hangup _ _ | act _ _ | handleWrite _ _ | message _ _ _ | readError _ _ _ =>
    exact ⟨rfl, rfl, rfl, loopOf_setTcp⟩
  | readClose _ _ _ => exact ⟨rfl, rfl, rfl, loopOf_setTcp.trans loopOf_setTcp⟩
  | _ => exact ⟨rfl, rfl, rfl, rfl⟩

/-- The main loop changes the table by these two. -/
theorem main_sameTable {a : MainAction} (hs : MainCase s a s') :
    SameTable s s' ∨ (∃ now, s' = s.newConnection now) ∨
      ∃ c rest, s.main.todo = c :: rest ∧
        s' = { s with main := { s.main with todo := rest } }.removeConnectionInLoop c := by
  cases hs with
  | newConnection _ => exact Or.inr (Or.inl ⟨_, rfl⟩)
  | removeConnectionInLoop _ htodo => exact Or.inr (Or.inr ⟨_, _, htodo, rfl⟩)
  | setState _ => exact Or.inl ⟨rfl, rfl, rfl, loopOf_setTcp⟩
  | _ => exact Or.inl ⟨rfl, rfl, rfl, rfl⟩

/-! ## The relation -/

structure Tabled (startLoop : Nat → L) (s : HttpServerLoops n) (t : TcpServer L) : Prop where
  kept : t.Kept startLoop
  listening : t.listening_ = true
  started : t.started_ = true
  threads : t.threadPool_.loops_.length = n
  count : t.nextConnId_ = s.nextConnId_
  next : t.threadPool_.next_ = s.next_
  loops : ∀ c o, t.objects[c]? = some o → o.loop_ = startLoop (s.loopOf (c + 1))
  mapped : ∀ c, c ∈ s.connections_ ↔ 0 < c ∧ c < s.nextConnId_ ∧
    ∀ l, (l, ServerFunctor.connectDestoryed, c - 1) ∉ t.handed

theorem Tabled.same (h : Tabled startLoop s t) (hs : SameTable s s') : Tabled startLoop s' t where
  kept := h.kept
  listening := h.listening
  started := h.started
  threads := h.threads
  count := h.count.trans hs.nextConnId.symm
  next := by rw [hs.next]; exact h.next
  loops := by rw [hs.loops]; exact h.loops
  mapped := by rw [hs.connections, hs.nextConnId]; exact h.mapped

theorem Tabled.newConnection {now : Nat} {localAddr peerAddr : InetAddress} {connfd : Nat}
    (h : Tabled startLoop s t) (hroom : s.nextConnId_ + 1 < 2 ^ 31) :
    ∃ t', t.call startLoop (.NewConnection (.connected connfd localAddr peerAddr)) = .ok t' ∧
      Tabled startLoop (s.newConnection now) t' := by
  obtain ⟨next, hturn, hnext⟩ := EventLoopThreadPool.getNextLoop_turn h.kept.next
  have hid : s.nextConnId_ = t.objects.length + 1 := h.count.symm.trans h.kept.count
  have hthreads : t.threadPool_.loops_ ≠ [] :=
    List.ne_nil_of_length_pos (h.threads ▸ s.next_.pos)
  obtain ⟨t', ht'⟩ : ∃ t', t.newConnection connfd localAddr peerAddr = .ok t' := by
    rw [TcpServer.newConnection, hturn, ok_then, if_pos (h.count ▸ hroom)]
    exact ⟨_, rfl⟩
  have hkept := h.kept.newConnection h.started ht'
  rw [TcpServer.newConnection, hturn, ok_then, if_pos (h.count ▸ hroom)] at ht'
  obtain rfl := Except.ok.inj ht'
  refine ⟨_, ?_, hkept, h.listening, h.started, h.threads, ?_, ?_, fun c o ho => ?_, fun c => ?_⟩
  · show t.newConnection connfd localAddr peerAddr = _
    rw [TcpServer.newConnection, hturn, ok_then, if_pos (h.count ▸ hroom)]
  · exact congrArg (· + 1) h.count
  · show next = (s.next_.val + 1) % n
    rw [hnext hthreads, ← h.next, h.kept.next hthreads, h.threads, Nat.mod_add_mod]
  · rcases TcpServer.concat_cases ho with hold | ⟨rfl, rfl⟩
    · have hlt := (List.getElem?_eq_some_iff.mp hold).1
      have hother : (s.newConnection now).loopOf (c + 1) = s.loopOf (c + 1) :=
        congrArg ServerConn.loop_ (constructed_conns_other (by omega))
      rw [hother]
      exact h.loops c o hold
    · have hself : (s.newConnection now).loopOf (t.objects.length + 1) = s.next_ :=
        hid ▸ congrArg ServerConn.loop_ (constructed_conns_self (s := s))
      rw [hself, ← h.next, h.kept.next hthreads]
      exact h.kept.turn_startLoop hthreads _
  · show c ∈ s.nextConnId_ :: s.connections_ ↔ 0 < c ∧ c < s.nextConnId_ + 1 ∧ _
    have hother : ∀ l, (l, ServerFunctor.connectDestoryed, c - 1) ∉ t.handed ++
        [(t.threadPool_.turn t.objects.length, .connectEstablished, t.objects.length)] ↔
        (l, ServerFunctor.connectDestoryed, c - 1) ∉ t.handed := fun l => by simp
    have hnone : ∀ l f, (l, f, t.objects.length) ∉ t.handed := fun l f hf => by
      obtain ⟨o, ho, -⟩ := h.kept.handed _ hf
      exact Nat.lt_irrefl _ (List.getElem?_eq_some_iff.mp ho).1
    rw [List.mem_cons, h.mapped, forall_congr' hother]
    constructor
    · rintro (rfl | ⟨hpos, hlt, hfree⟩)
      · refine ⟨by omega, by omega, fun l => ?_⟩
        rw [hid, Nat.add_sub_cancel]
        exact hnone l _
      · exact ⟨hpos, by omega, hfree⟩
    · rintro ⟨hpos, hlt, hfree⟩
      rcases Nat.lt_succ_iff_lt_or_eq.mp hlt with hold | hnew
      · exact Or.inr ⟨hpos, hold, hfree⟩
      · exact Or.inl hnew

theorem Tabled.removeConnectionInLoop {c : Nat} {rest : List Nat} (h : Tabled startLoop s t)
    (hpos : 0 < c) (hborn : c < s.nextConnId_) :
    ∃ t', t.call startLoop (.removeConnectionInLoop (c - 1)) = .ok t' ∧
      Tabled startLoop ({ s with main := { s.main with todo := rest } }.removeConnectionInLoop c)
        t' := by
  have hid : s.nextConnId_ = t.objects.length + 1 := h.count.symm.trans h.kept.count
  have hthere : c - 1 < t.objects.length := by omega
  have hcall : t.removeConnectionInLoop (c - 1) = .ok { t with
      connections_ := Function.update t.connections_ t.objects[c - 1].name_ none
      handed := t.handed ++ [(t.objects[c - 1].loop_, .connectDestoryed, c - 1)] } := by
    rw [TcpServer.removeConnectionInLoop, List.getElem?_eq_getElem hthere]
  refine ⟨_, hcall, h.kept.removeConnectionInLoop hcall, h.listening, h.started, h.threads,
    h.count, h.next, h.loops, fun d => ?_⟩
  have hfilter : d ∈ s.connections_.filter (· ≠ c) ↔ d ∈ s.connections_ ∧ d ≠ c := by
    rw [List.mem_filter, decide_eq_true_eq]
  show d ∈ s.connections_.filter (· ≠ c) ↔ _
  rw [hfilter, h.mapped]
  constructor
  · rintro ⟨⟨hd, hlt, hfree⟩, hne⟩
    refine ⟨hd, hlt, fun l hmem => ?_⟩
    rcases List.mem_append.mp hmem with hold | hnew
    · exact hfree l hold
    · have heq := List.mem_singleton.mp hnew
      simp only [Prod.mk.injEq, true_and] at heq
      omega
  · rintro ⟨hd, hlt, hfree⟩
    refine ⟨⟨hd, hlt, fun l hmem => hfree l (List.mem_append_left _ hmem)⟩, ?_⟩
    rintro rfl
    exact hfree _ (List.mem_append_right _ (List.mem_singleton_self _))

/-! ## Runs -/

/-- Only a connection that was accepted is removed. -/
theorem Sound.removing_born {c : Nat} (h : s.Sound) (hmem : c ∈ s.main.todo) :
    0 < c ∧ c < s.nextConnId_ := by
  by_contra hnot
  have hunborn : (s.life c).born = false := decide_eq_false hnot
  have hnone : decide (c ∈ s.main.todo ++ s.main.pendingFunctors_) = false :=
    congrArg Life.removing ((h.kept c).unborn hunborn)
  exact of_decide_eq_false hnone (List.mem_append_left _ hmem)

/-- The calls of the TcpServer behind a state of the loops. -/
def Called (startLoop : Nat → L) (loop : L) (nameArg : Bytes) (s : HttpServerLoops n)
    (calls : List ServerCall) (t : TcpServer L) : Prop :=
  Along (TcpServer.call startLoop) TcpServer.Possible (TcpServer.new loop nameArg) calls ∧
    run (TcpServer.call startLoop) (TcpServer.new loop nameArg) calls = .ok t ∧
    Tabled startLoop s t

variable {loop : L} {nameArg : Bytes} {calls : List ServerCall}

theorem Called.snoc {c : ServerCall} (h : Called startLoop loop nameArg s calls t)
    (hpossible : t.Possible c) (hcall : t.call startLoop c = .ok t')
    (htabled : Tabled startLoop s' t') :
    Called startLoop loop nameArg s' (calls ++ [c]) t' :=
  ⟨along_concat h.1 h.2.1 hpossible, run_concat h.2.1 hcall, htabled⟩

theorem start_called {first : Fin n} (hfirst : first.val = 0) (closeIdleConn : Bool) :
    ∃ calls t, Called startLoop loop nameArg (start first closeIdleConn) calls t := by
  have hset : (TcpServer.new loop nameArg).call startLoop (.setThreadNum n) =
      .ok { TcpServer.new loop nameArg with
        threadPool_ := (EventLoopThreadPool.new loop).setThreaadNum n } := by
    rw [TcpServer.call, TcpServer.setThreadNum, if_pos (Int.natCast_nonneg n)]
    rfl
  have halong : Along (TcpServer.call startLoop) TcpServer.Possible (TcpServer.new loop nameArg)
      [.setThreadNum n, .start] :=
    along_cons (Int.natCast_nonneg n) hset (along_cons trivial rfl trivial)
  refine ⟨_, _, halong, by rw [run_cons, hset]; rfl, ?_⟩
  refine
    { kept := TcpServer.kept_of_run halong (by rw [run_cons, hset]; rfl)
      listening := rfl
      started := rfl
      threads := ?_
      count := rfl
      next := hfirst.symm
      loops := fun c o ho => nomatch ho
      mapped := fun c => ?_ }
  · show ([] ++ (List.range (n : Int).toNat).map _).length = n
    rw [List.nil_append, List.length_map, List.length_range, Int.toNat_natCast]
  · show c ∈ [] ↔ 0 < c ∧ c < 1 ∧ _
    refine ⟨fun hmem => absurd hmem List.not_mem_nil, ?_⟩
    rintro ⟨hpos, hlt, -⟩
    omega

theorem Called.step {a : LoopsAction n} (h : Called startLoop loop nameArg s calls t)
    (hsound : s.Sound) (hs : s.step a = some s') (hids : s'.nextConnId_ < 2 ^ 31) :
    ∃ calls' t', Called startLoop loop nameArg s' calls' t' := by
  obtain ⟨halong, hrun, htabled⟩ := id h
  have hsame : SameTable s s' → ∃ calls' t', Called startLoop loop nameArg s' calls' t' :=
    fun hframe => ⟨calls, t, halong, hrun, htabled.same hframe⟩
  cases a with
  | main action =>
    rcases main_sameTable (main_cases hs) with hframe | ⟨now, rfl⟩ | ⟨c, rest, htodo, rfl⟩
    · exact hsame hframe
    · obtain ⟨t', hcall, hnew⟩ := @Tabled.newConnection _ _ _ _ _ now ⟨0, 0⟩ ⟨0, 0⟩ 0 htabled hids
      have hpossible : t.Possible (.NewConnection (.connected 0 ⟨0, 0⟩ ⟨0, 0⟩)) := htabled.listening
      exact ⟨_, t', h.snoc hpossible hcall hnew⟩
    · obtain ⟨hpos, hborn⟩ := hsound.removing_born (htodo ▸ List.mem_cons_self)
      obtain ⟨t', hcall, hnew⟩ := @Tabled.removeConnectionInLoop _ _ _ _ _ _ rest htabled hpos hborn
      have hpossible : t.Possible (.removeConnectionInLoop (c - 1)) := by
        have hcount := htabled.count.symm.trans htabled.kept.count
        show c - 1 < t.objects.length
        omega
      exact ⟨_, t', h.snoc hpossible hcall hnew⟩
  | io i action => exact hsame (io_sameTable (io_cases hs))

/-- **The table behind the loops.**  Every state of the loops, as long as there are numbers, is
    one in which a TcpServer can be, after calls of its own, with as many threads: it has given
    out the same numbers; it keeps a connection under a name exactly if the loops keep the
    number in that name; and each connection has the loop of the same thread. -/
theorem loops_refine_table {first : Fin n} (hfirst : first.val = 0) {closeIdleConn : Bool}
    (hs : Reachable step (start first closeIdleConn) s) (hids : s.nextConnId_ < 2 ^ 31)
    (startLoop : Nat → L) (loop : L) (nameArg : Bytes) :
    ∃ calls t,
      Along (TcpServer.call startLoop) TcpServer.Possible (TcpServer.new loop nameArg) calls ∧
      run (TcpServer.call startLoop) (TcpServer.new loop nameArg) calls = .ok t ∧
      t.nextConnId_ = s.nextConnId_ ∧
      (∀ c, c ∈ s.connections_ ↔ 0 < c ∧ t.connections_ (t.connName c) = some (c - 1)) ∧
      (∀ key c, t.connections_ key = some c → key = t.connName (c + 1)) ∧
      ∀ c o, t.objects[c]? = some o → o.loop_ = startLoop (s.conns (c + 1)).loop_ := by
  have hinv : s.Sound ∧ (s.nextConnId_ < 2 ^ 31 →
      ∃ calls t, Called startLoop loop nameArg s calls t) := by
    refine hs.invariant (P := fun s => s.Sound ∧ (s.nextConnId_ < 2 ^ 31 →
      ∃ calls t, Called startLoop loop nameArg s calls t))
      ⟨start_sound first closeIdleConn, fun _ => start_called hfirst _⟩ ?_
    rintro x a y ⟨hsound, hcalled⟩ - hstep
    refine ⟨hsound.goes (step_goes hsound hstep), fun hroom => ?_⟩
    have hless : x.nextConnId_ < 2 ^ 31 := by
      rcases nextConnId_step hstep with hsame | ⟨now, -, hnext⟩ <;> omega
    obtain ⟨calls, t, h⟩ := hcalled hless
    exact h.step hsound hstep hroom
  obtain ⟨calls, t, halong, hrun, h⟩ := hinv.2 hids
  have hcount := h.count.symm.trans h.kept.count
  refine ⟨calls, t, halong, hrun, h.count, fun c => ?_, fun key c hkey => ?_, h.loops⟩
  · rw [h.mapped, h.kept.table]
    refine and_congr_right fun hpos => and_congr_left fun _ => ⟨fun hlt => ?_, ?_⟩
    · have hthere : c - 1 < t.objects.length := by omega
      refine ⟨_, List.getElem?_eq_getElem hthere, ?_⟩
      rw [(h.kept.object _ _ (List.getElem?_eq_getElem hthere)).1, Nat.sub_add_cancel hpos]
    · rintro ⟨o, ho, -⟩
      have hthere := (List.getElem?_eq_some_iff.mp ho).1
      omega
  · obtain ⟨⟨o, ho, rfl⟩, -⟩ := (h.kept.table key c).mp hkey
    exact (h.kept.object c o ho).1

theorem loops_refine_table_two :
    ∃ calls t, run (TcpServer.call id) (TcpServer.new 7 (ascii "HttpServer")) calls = .ok t ∧
      t.connections_ (t.connName 1) = some 0 ∧ t.connections_ (t.connName 2) = some 1 := by
  have hs : Reachable step (start firstLoop true)
      (after step (start firstLoop true) [.main (.newConnection 5), .main (.newConnection 6)]) :=
    Reaches.after (by decide +kernel) fun _ _ _ => trivial
  obtain ⟨calls, t, -, hrun, -, htable, -⟩ :=
    loops_refine_table rfl hs (by decide +kernel) id 7 (ascii "HttpServer")
  exact ⟨calls, t, hrun, ((htable 1).mp (by decide +kernel)).2,
    ((htable 2).mp (by decide +kernel)).2⟩

end HttpServerLoops

end LearnMuduo
