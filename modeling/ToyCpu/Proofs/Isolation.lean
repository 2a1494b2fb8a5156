import ToyCpu.Proofs.Replay

/-!
# Cycles are isolated from what happens meanwhile

Between two phases of a cycle any request may be carried out: its cell rewritten or deleted,
the program reloaded, a register set. The cycle keeps the text that its fetch has captured,
while its operands are those of the machine as the requests have left it.

* `Journal.Fetched`, `Journal.Decoded` — a journal that ends within a cycle.
* `Journal.Isolated` — each instruction executed is the one that its cycle fetched.
* `isolated_replay` — at every moment of a session, with the requests carried out in the order
  sent and the machine their replay.
-/

namespace ToyCpu

open Session

/-- An instruction handed to the execution unit, or the event of its execution. -/
def Entry.IsExecution : Entry → Prop
  | .issued _ => True
  | e => e.phase? = some .execute

namespace Journal

/-- The last phase that ran was the fetch of this instruction, whose cell was the next one of
the machine of that moment and held this text, and no stop was carried out since. -/
def Fetched (m : Machine) (number : UInt64) (a : Address) (text : String) (j : Journal) : Prop :=
  ∃ (before since : Journal) (duration : Milliseconds),
    j = before ++ .event (.phase number .fetch a text duration) :: since ∧
      since.Uninterrupted ∧
      (m.replay before).memory.nextInstruction? (m.replay before).pc = some a ∧
      (m.replay before).memory.fetch? a = some text

/-- The last phases that ran were the fetch of this instruction and the decoding of the text
fetched, and no stop was carried out since. -/
def Decoded (m : Machine) (number : UInt64) (a : Address) (text : String) (j : Journal) : Prop :=
  ∃ (before since : Journal) (duration : Milliseconds),
    j = before ++ .event (.phase number .decode a
        ("Decoded: " ++ (Instruction.decode text).display) duration) :: since ∧
      since.Uninterrupted ∧ before.Fetched m number a text

/-- The instruction handed to execution after `before` is the text that its cycle fetched,
decoded. What is reported is what it does to the registers and the memory of that moment, and
the event of its execution follows at once. -/
def Carries (m : Machine) (before : Journal) (inst : Instruction) (after : Journal) : Prop :=
  ∃ (number : UInt64) (a : Address) (text : String) (duration : Milliseconds) (rest : Journal),
    before.Decoded m number a text ∧ inst = Instruction.decode text ∧
      (m.replay before).registers.ir = text ∧
      let done := execute inst (m.replay before).registers (m.replay before).memory
      after = (account done).1.map (Entry.fault a · text) ++
        .event (.phase number .execute a (account done).2 duration) :: rest

/-- Each instruction handed to execution is that of its cycle, and no execution has an event
but these. -/
structure Isolated (m : Machine) (j : Journal) : Prop where
  issued : ∀ before inst after, j = before ++ .issued inst :: after → Carries m before inst after
  executed : ∀ before number a content duration after,
    j = before ++ .event (.phase number .execute a content duration) :: after →
      ∃ (start : Journal) (inst : Instruction) (text : String) (faults : List Fault),
        before = start ++ .issued inst :: faults.map (Entry.fault a · text)

/-! ### Appending -/

variable {m : Machine} {number : UInt64} {a : Address} {text : String} {j j' : Journal}

theorem Fetched.append (h : j.Fetched m number a text) (h' : j'.Uninterrupted) :
    (j ++ j').Fetched m number a text := by
  obtain ⟨before, since, duration, rfl, hsince, hcell⟩ := h
  exact ⟨before, since ++ j', duration, by rw [List.append_assoc]; rfl, hsince.append h', hcell⟩

theorem Decoded.append (h : j.Decoded m number a text) (h' : j'.Uninterrupted) :
    (j ++ j').Decoded m number a text := by
  obtain ⟨before, since, duration, rfl, hsince, hfetched⟩ := h
  exact ⟨before, since ++ j', duration, by rw [List.append_assoc]; rfl, hsince.append h', hfetched⟩

/-- What comes later does not matter to an execution. -/
theorem Carries.append {before after : Journal} {inst : Instruction}
    (h : Carries m before inst after) (j' : Journal) : Carries m before inst (after ++ j') := by
  obtain ⟨number, a, text, duration, rest, hdecoded, hinst, hir, rfl⟩ := h
  refine ⟨number, a, text, duration, rest ++ j', hdecoded, hinst, hir, ?_⟩
  rw [List.append_assoc]
  rfl

/-- Where nothing is executed nothing can break the isolation. -/
theorem Isolated.append (h : j.Isolated m) (hfree : ∀ e ∈ j', ¬ e.IsExecution) :
    (j ++ j').Isolated m where
  issued before inst after heq := by
    rcases append_eq_append_cons heq with ⟨rest, hj, rfl⟩ | ⟨start, -, hj'⟩
    · exact (h.issued before inst rest hj).append j'
    · refine absurd trivial (hfree (.issued inst) ?_)
      rw [hj']
      exact List.mem_append_right _ List.mem_cons_self
  executed before number a content duration after heq := by
    rcases append_eq_append_cons heq with ⟨rest, hj, -⟩ | ⟨start, -, hj'⟩
    · exact h.executed before number a content duration rest hj
    · refine absurd rfl (hfree (.event (.phase number .execute a content duration)) ?_)
      rw [hj']
      exact List.mem_append_right _ List.mem_cons_self

/-- No further instruction is issued in an execution. -/
theorem execution_ne_append_issued {duration : Milliseconds} {done : Except Fault Executed}
    {before after : Journal} {inst : Instruction}
    (h : execution number a text duration done = before ++ .issued inst :: after) : False := by
  have hmem : Entry.issued inst ∈ execution number a text duration done := by
    rw [h]
    exact List.mem_append_right _ List.mem_cons_self
  rcases List.mem_append.mp hmem with hmem | hmem
  · obtain ⟨f, -, hf⟩ := List.mem_map.mp hmem
    cases hf
  · cases List.mem_singleton.mp hmem

/-- The only event of an execution is the last of its entries. -/
theorem execution_eq_append_cons {duration : Milliseconds} {done : Except Fault Executed}
    {before after : Journal} {e : TraceEvent}
    (h : execution number a text duration done = before ++ .event e :: after) :
    before = (account done).1.map (Entry.fault a · text) ∧
      e = .phase number .execute a (account done).2 duration := by
  rcases append_eq_append_cons h with ⟨rest, hfaults, -⟩ | ⟨start, rfl, hlast⟩
  · have hmem : Entry.event e ∈ (account done).1.map (Entry.fault a · text) := by
      rw [hfaults]
      exact List.mem_append_right _ List.mem_cons_self
    obtain ⟨f, -, hf⟩ := List.mem_map.mp hmem
    cases hf
  · cases start with
    | nil =>
      cases hlast
      exact ⟨List.append_nil _, rfl⟩
    | cons _ start => cases (List.append_eq_nil_iff.mp (List.cons.inj hlast).2.symm).2

/-- An execution of the text fetched keeps the isolation. -/
theorem Isolated.append_execution (h : j.Isolated m) (hdecoded : j.Decoded m number a text)
    (hir : (m.replay j).registers.ir = text) (duration : Milliseconds) :
    Isolated m (j ++ .issued (Instruction.decode text) ::
      execution number a text duration
        (execute (Instruction.decode text) (m.replay j).registers (m.replay j).memory)) where
  issued before inst after heq := by
    rcases append_eq_append_cons heq with ⟨rest, hj, rfl⟩ | ⟨start, rfl, hnew⟩
    · exact (h.issued before inst rest hj).append _
    · -- of the new entries only the first is an instruction issued
      cases start with
      | nil =>
        obtain ⟨hinst, rfl⟩ := List.cons.inj hnew
        cases hinst
        rw [List.append_nil]
        exact ⟨number, a, text, duration, [], hdecoded, rfl, hir, rfl⟩
      | cons e start => exact (execution_ne_append_issued (List.cons.inj hnew).2).elim
  executed before number' a' content duration' after heq := by
    rcases append_eq_append_cons heq with ⟨rest, hj, -⟩ | ⟨start, rfl, hnew⟩
    · exact h.executed before number' a' content duration' rest hj
    · cases start with
      | nil => cases (List.cons.inj hnew).1
      | cons e start =>
        obtain ⟨rfl, hrest⟩ := List.cons.inj hnew
        obtain ⟨rfl, he⟩ := execution_eq_append_cons hrest
        cases he
        exact ⟨j, _, text, _, rfl⟩

end Journal

namespace Session

/-! ### Every move -/

/-- The journal so far tells of the cycle in flight, and nothing has broken the isolation. -/
structure Tracked (m : Machine) (j : Journal) (s : Session) : Prop where
  fetched : ∀ c, s.cycle = some c → c.next = .decode → j.Fetched m c.number c.address c.text
  decoded : ∀ c, s.cycle = some c → c.next = .execute → j.Decoded m c.number c.address c.text
  isolated : j.Isolated m

/-- One move keeps the journal telling of the cycle in flight. -/
theorem Tracked.stride {m : Machine} {j j' : Journal} {s s' : Session} (h : Tracked m j s)
    (hs : Coherent s) (hm : s.machine = m.replay j) (hstride : Stride s j' s') :
    Tracked m (j ++ j') s' := by
  have hfree : ∀ {e : Entry}, ¬ e.IsExecution → ∀ e' ∈ [e], ¬ e'.IsExecution := by
    intro e he e' he'
    obtain rfl := List.mem_singleton.mp he'
    exact he
  cases hstride with
  | quiet hquiet =>
    have huninterrupted : Journal.Uninterrupted j' := fun e he =>
      ⟨(hquiet.entries e he).1, (hquiet.entries e he).2.1⟩
    have hcycle : ∀ c, s'.cycle = some c → s.cycle = some c := fun c hc => hquiet.cycle ▸ hc
    refine { fetched := fun c hc hnext => (h.fetched c (hcycle c hc) hnext).append huninterrupted
             decoded := fun c hc hnext => (h.decoded c (hcycle c hc) hnext).append huninterrupted
             isolated := h.isolated.append fun e he hexec => ?_ }
    obtain ⟨hphase, -, -, hissued⟩ := hquiet.entries e he
    cases e with
    | issued inst => exact hissued inst rfl
    | event e => exact absurd (hphase.symm.trans hexec) nofun
    | _ => exact absurd hexec nofun
  | stop hmachine hcycle hend =>
    refine { fetched := fun c hc => absurd (hcycle.symm.trans hc) nofun
             decoded := fun c hc => absurd (hcycle.symm.trans hc) nofun
             isolated := h.isolated.append fun e he hexec => ?_ }
    rcases List.mem_cons.mp he with rfl | he
    · cases hexec
    · obtain rfl := List.mem_singleton.mp he
      cases hexec
  | drop => exact ⟨nofun, nofun, h.isolated.append (hfree nofun)⟩
  | @fetch c hcycle hend hnext htext hnumber =>
    refine { fetched := fun c' hc' _ => ?_, decoded := fun c' hc' hnext' => ?_,
             isolated := h.isolated.append (hfree nofun) }
    · cases hc'
      -- the journal so far makes the very machine on which the search has found this cell
      rw [hm] at hnext htext
      exact ⟨j, [], s.timings.fetch, rfl, Journal.uninterrupted_nil, hnext, htext⟩
    · cases hc'
      cases hnext'
  | @decode c hcycle hnext =>
    refine { fetched := fun c' hc' hnext' => ?_, decoded := fun c' hc' _ => ?_,
             isolated := h.isolated.append (hfree nofun) }
    · cases hc'
      cases hnext'
    · cases hc'
      exact ⟨j, [], s.timings.decode, rfl, Journal.uninterrupted_nil, h.fetched c hcycle hnext⟩
  | @execute c hcycle hnext =>
    refine { fetched := fun c' hc' hnext' => ?_, decoded := fun c' hc' hnext' => ?_,
             isolated := ?_ }
    · cases hc'
      cases hnext'
    · cases hc'
      cases hnext'
    · -- the operands are read from that machine too, with all requests so far carried out
      have hir := (hs.fits c hcycle).ir_eq
      rw [hm] at hir ⊢
      exact h.isolated.append_execution (h.decoded c hcycle hnext) hir s.timings.execute
  | writeback hcycle hnext => exact ⟨nofun, nofun, h.isolated.append (hfree nofun)⟩

theorem tracked_of_reaches {s s' : Session} {j : Journal} (hs : Coherent s)
    (hcycle : s.cycle = none) (h : s.Reaches j s') : Tracked s.machine j s' := by
  induction h with
  | refl =>
    have hempty : Journal.Isolated s.machine [] :=
      { issued := fun _ _ _ heq => absurd heq Journal.nil_ne_append_cons
        executed := fun _ _ _ _ _ _ heq => absurd heq Journal.nil_ne_append_cons }
    exact { fetched := fun c hc => absurd (hcycle.symm.trans hc) nofun
            decoded := fun c hc => absurd (hcycle.symm.trans hc) nofun
            isolated := hempty }
  | tail hreach hmove ih =>
    have hcoherent := coherent_of_reaches hs hreach
    exact ih.stride hcoherent (machine_eq_replay hs hreach) (stride_of_move hcoherent hmove)

end Session

/-! ### The session as a whole -/

/-- Whatever is done to a new session, in any order, is made of moves; and at every moment of
any moves the machine is the replay of the requests carried out and the phases run, the
requests sent are those carried out, in the same order, followed by those still queued, and
each instruction executed is the text that its cycle fetched, with operands from the machine of
that moment. -/
theorem isolated_replay (m : Machine) (timings : Timings) (actions : List Action) :
    (Session.new m timings).Reaches ((Session.new m timings).performAll actions).2
        ((Session.new m timings).performAll actions).1 ∧
      ∀ (j : Journal) (s : Session), (Session.new m timings).Reaches j s →
        s.machine = m.replay j ∧ j.sent = j.handled ++ s.link.queue ∧ j.Isolated m := by
  refine ⟨performAll_reaches _ actions, fun j s h => ?_⟩
  have hnew := coherent_new m timings
  have hrequests : [] ++ j.sent = j.handled ++ s.link.queue := requests_of_reaches h
  exact ⟨machine_eq_replay hnew h, by rwa [List.nil_append] at hrequests,
    (tracked_of_reaches hnew rfl h).isolated⟩

end ToyCpu
