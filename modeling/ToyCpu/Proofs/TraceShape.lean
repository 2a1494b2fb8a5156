import ToyCpu.Proofs.Replay

/-!
# The shape of a trace

The phases in a journal come in stretches, one for each cycle: fetch, decode, execute and
writeback of one instruction, or the first few of them. A stretch that ends early has been
abandoned before the next one begins.

* `Journal.stamps` — number, phase and address of each phase that ran.
* `Stretch` — the part of a journal that belongs to one cycle.
* `Shaped` — a journal made of stretches, numbered one after the other.
* `trace_shaped` — at every moment of a session its journal has this shape.
-/

namespace ToyCpu

open Session

/-- The instruction's number, the phase and the address of a phase event. -/
def Entry.stamp? : Entry → Option (UInt64 × Phase × Address)
  | .event (.phase number p a _ _) => some (number, p, a)
  | _ => none

namespace Journal

/-- The phases that ran, in order. -/
def stamps (j : Journal) : List (UInt64 × Phase × Address) := j.filterMap Entry.stamp?

/-- How many fetches there were. -/
def fetches (j : Journal) : Nat := j.stamps.countP fun stamp => stamp.2.1 = .fetch

theorem stamps_append (j j' : Journal) : (j ++ j').stamps = j.stamps ++ j'.stamps :=
  List.filterMap_append

theorem fetches_append (j j' : Journal) : (j ++ j').fetches = j.fetches + j'.fetches := by
  rw [fetches, stamps_append, List.countP_append]
  rfl

/-- Quiet entries have no phase among them. -/
theorem stamps_of_isQuiet {j : Journal} (h : ∀ e ∈ j, e.IsQuiet) : j.stamps = [] := by
  refine List.filterMap_eq_nil_iff.mpr fun e he => ?_
  have hphase := (h e he).1
  cases e with
  | event e =>
    cases e with
    | phase => cases hphase
    | notice => rfl
  | _ => rfl

/-- An execution is one phase, whatever faults it reports. -/
theorem stamps_execution (inst : Instruction) (number : UInt64) (a : Address) (text : String)
    (duration : Milliseconds) (done : Except Fault Executed) :
    stamps (.issued inst :: execution number a text duration done) = [(number, .execute, a)] := by
  have hfaults : stamps ((account done).1.map (Entry.fault a · text)) = [] := by
    refine List.filterMap_eq_nil_iff.mpr fun e he => ?_
    obtain ⟨f, -, rfl⟩ := List.mem_map.mp he
    rfl
  show stamps (execution number a text duration done) = _
  rw [execution, stamps_append, hfaults]
  rfl

end Journal

/-! ### Stretches -/

/-- The part of a journal that belongs to one cycle: from its first phase up to the next
cycle's. -/
structure Stretch where
  number : UInt64
  address : Address
  /-- How many phases of the cycle ran. -/
  length : Nat
  entries : Journal

namespace Stretch

/-- The phases are the first of a cycle, at least one, all of one instruction. -/
structure WellFormed (x : Stretch) : Prop where
  nonempty : 1 ≤ x.length
  atMost : x.length ≤ 4
  stamps : x.entries.stamps = (Phase.all.take x.length).map (x.number, ·, x.address)

/-- After the last phase a stop was carried out, or a run found the session stopped. -/
def Abandoned (x : Stretch) : Prop :=
  ∃ ran rest : Journal, x.entries = ran ++ rest ∧ rest.stamps = [] ∧
    (.handled .stop ∈ rest ∨ .ended .stopped ∈ rest)

/-- The stretch with more entries. -/
def extend (x : Stretch) (j : Journal) : Stretch := { x with entries := x.entries ++ j }

variable {x : Stretch} {j : Journal}

theorem WellFormed.extend (h : x.WellFormed) (hj : j.stamps = []) : (x.extend j).WellFormed where
  nonempty := h.nonempty
  atMost := h.atMost
  stamps := by
    show (x.entries ++ j).stamps = _
    rw [Journal.stamps_append, hj, List.append_nil]
    exact h.stamps

theorem Abandoned.extend (h : x.Abandoned) (hj : j.stamps = []) : (x.extend j).Abandoned := by
  obtain ⟨ran, rest, hentries, hrest, hstop⟩ := h
  refine ⟨ran, rest ++ j, ?_, ?_, hstop.imp (List.mem_append_left j) (List.mem_append_left j)⟩
  · show x.entries ++ j = _
    rw [hentries, List.append_assoc]
  · rw [Journal.stamps_append, hrest, hj]
    rfl

/-- A stop ends a stretch, wherever it stands. -/
theorem abandoned_extend (x : Stretch) (hj : j.stamps = [])
    (hstop : .handled .stop ∈ j ∨ .ended .stopped ∈ j) : (x.extend j).Abandoned :=
  ⟨x.entries, j, rfl, hj, hstop⟩

/-- The stretch with the next phase of its cycle. -/
def next (x : Stretch) (j : Journal) : Stretch :=
  { x with length := x.length + 1, entries := x.entries ++ j }

theorem WellFormed.next (h : x.WellFormed) {p : Phase} (hp : Phase.all[x.length]? = some p)
    (hj : j.stamps = [(x.number, p, x.address)]) : (x.next j).WellFormed where
  nonempty := Nat.le_add_left 1 x.length
  atMost := (List.getElem?_eq_some_iff.mp hp).1
  stamps := by
    show (x.entries ++ j).stamps = (Phase.all.take (x.length + 1)).map (x.number, ·, x.address)
    rw [Journal.stamps_append, h.stamps, hj, List.take_add_one, hp, List.map_append]
    rfl

end Stretch

/-- A journal made of stretches, given with the latest first. Each has the number after that of
the one before it, and follows only a stretch that ran to its end or was abandoned. -/
inductive Shaped (first : UInt64) : Journal → List Stretch → Prop
  /-- Before the first fetch. -/
  | lead {j : Journal} (h : j.stamps = []) : Shaped first j []
  | stretch {j : Journal} {xs : List Stretch} {x : Stretch} (h : Shaped first j xs)
      (hx : x.WellFormed) (hnumber : x.number = first + UInt64.ofNat xs.length)
      (hlast : ∀ y ∈ xs.head?, y.length < 4 → y.Abandoned) :
      Shaped first (j ++ x.entries) (x :: xs)

namespace Shaped

variable {first : UInt64} {j j' : Journal} {x : Stretch} {xs : List Stretch}

/-- Further entries without a phase belong to the latest stretch. -/
theorem extend (h : Shaped first j (x :: xs)) (hj' : j'.stamps = []) :
    Shaped first (j ++ j') (x.extend j' :: xs) := by
  cases h with
  | stretch h hx hnumber hlast =>
    rw [List.append_assoc]
    exact .stretch h (hx.extend hj') hnumber hlast

/-- The next phase of the cycle belongs to the latest stretch. -/
theorem next (h : Shaped first j (x :: xs)) {p : Phase} (hp : Phase.all[x.length]? = some p)
    (hj' : j'.stamps = [(x.number, p, x.address)]) :
    Shaped first (j ++ j') (x.next j' :: xs) := by
  cases h with
  | stretch h hx hnumber hlast =>
    rw [List.append_assoc]
    exact .stretch h (hx.next hp hj') hnumber hlast

/-- Before the first fetch entries without a phase change nothing. -/
theorem lead_append (h : Shaped first j []) (hj' : j'.stamps = []) : Shaped first (j ++ j') [] := by
  cases h with
  | lead hj =>
    refine .lead ?_
    rw [Journal.stamps_append, hj, hj']
    rfl

end Shaped

namespace Session

/-! ### Every move -/

/-- How many phases of a cycle have run when this one is next. -/
def phasesBefore : Phase → Nat
  | .fetch => 0
  | .decode => 1
  | .execute => 2
  | .writeback => 3

/-- The latest stretch is that of the cycle in flight. Without one in flight it has run to its
end or been abandoned. -/
structure Latest (s : Session) (xs : List Stretch) : Prop where
  inFlight : ∀ c, s.cycle = some c → ∃ x rest, xs = x :: rest ∧ x.number = c.number ∧
    x.address = c.address ∧ x.length = phasesBefore c.next
  between : s.cycle = none → ∀ x ∈ xs.head?, x.length < 4 → x.Abandoned

/-- A move without a phase. -/
theorem shaped_append {first : UInt64} {j j' : Journal} {s s' : Session} {xs : List Stretch}
    (h : Shaped first j xs) (hlatest : Latest s xs) (hj' : j'.stamps = [])
    (hcycle : s'.cycle = s.cycle ∨
      s'.cycle = none ∧ (.handled .stop ∈ j' ∨ .ended .stopped ∈ j')) :
    ∃ xs', Shaped first (j ++ j') xs' ∧ xs'.length = xs.length + j'.fetches ∧ Latest s' xs' := by
  have hfetches : j'.fetches = 0 := by rw [Journal.fetches, hj']; rfl
  cases xs with
  -- before the first fetch there is no stretch to extend, and no cycle in flight
  | nil =>
    refine ⟨[], h.lead_append hj', by rw [hfetches]; rfl, fun c hc => ?_, nofun⟩
    rcases hcycle with hcycle | ⟨hcycle, -⟩
    · obtain ⟨x, rest, hxs, -⟩ := hlatest.inFlight c (hcycle ▸ hc)
      cases hxs
    · exact absurd (hcycle.symm.trans hc) nofun
  | cons x rest =>
    refine ⟨x.extend j' :: rest, h.extend hj', by rw [hfetches]; rfl, fun c hc => ?_,
      fun hnone y hy hshort => ?_⟩
    · rcases hcycle with hcycle | ⟨hcycle, -⟩
      · obtain ⟨x', rest', hxs, hnumber, haddress, hlength⟩ := hlatest.inFlight c (hcycle ▸ hc)
        cases hxs
        exact ⟨x.extend j', rest, rfl, hnumber, haddress, hlength⟩
      · exact absurd (hcycle.symm.trans hc) nofun
    · cases hy
      rcases hcycle with hcycle | ⟨-, hstop⟩
      · exact (hlatest.between (hcycle ▸ hnone) x rfl hshort).extend hj'
      · exact x.abandoned_extend hj' hstop

/-- A phase after the fetch: the cycle goes on, unless that was its writeback. -/
theorem shaped_next {first : UInt64} {j j' : Journal} {s s' : Session} {xs : List Stretch}
    {c : Cycle} (h : Shaped first j xs) (hlatest : Latest s xs) (hcycle : s.cycle = some c)
    (hbegun : c.next ≠ .fetch) (hj' : j'.stamps = [(c.number, c.next, c.address)])
    (honward : ∀ c', s'.cycle = some c' → c'.number = c.number ∧ c'.address = c.address ∧
      phasesBefore c'.next = phasesBefore c.next + 1)
    (hend : s'.cycle = none → c.next = .writeback) :
    ∃ xs', Shaped first (j ++ j') xs' ∧ xs'.length = xs.length + j'.fetches ∧ Latest s' xs' := by
  obtain ⟨x, rest, rfl, hnumber, haddress, hlength⟩ := hlatest.inFlight c hcycle
  -- as many phases have run as stand before the next one in the cycle
  have hp : Phase.all[x.length]? = some c.next := by
    rw [hlength]
    cases c.next <;> rfl
  have hfetches : j'.fetches = 0 := by
    rw [Journal.fetches, hj', List.countP_singleton, decide_eq_false hbegun]
    rfl
  refine ⟨x.next j' :: rest, h.next hp (by rw [hnumber, haddress, hj']), by rw [hfetches]; rfl,
    fun c' hc' => ?_, fun hnone y hy hshort => ?_⟩
  · obtain ⟨hnumber', haddress', hnext⟩ := honward c' hc'
    refine ⟨x.next j', rest, rfl, hnumber.trans hnumber'.symm, haddress.trans haddress'.symm, ?_⟩
    show x.length + 1 = _
    rw [hlength, hnext]
  · cases hy
    have hfour : x.length + 1 = 4 := by rw [hlength, hend hnone]; rfl
    exact absurd hfour (Nat.ne_of_lt hshort)

/-- A fetch begins a stretch. -/
theorem shaped_fetch {first : UInt64} {j j' : Journal} {s s' : Session} {xs : List Stretch}
    {c : Cycle} (h : Shaped first j xs) (hlatest : Latest s xs) (hcycle : s.cycle = none)
    (hcycle' : s'.cycle = some c) (hnext : c.next = .decode)
    (hj' : j'.stamps = [(c.number, .fetch, c.address)])
    (hnumber : c.number = first + UInt64.ofNat xs.length) :
    ∃ xs', Shaped first (j ++ j') xs' ∧ xs'.length = xs.length + j'.fetches ∧ Latest s' xs' := by
  -- the one before it has run to its end or been abandoned, since no cycle is in flight
  let x : Stretch := ⟨c.number, c.address, 1, j'⟩
  have hx : x.WellFormed := ⟨Nat.le_refl 1, Nat.le_add_left 1 3, hj'⟩
  have hfetches : j'.fetches = 1 := by rw [Journal.fetches, hj']; rfl
  refine ⟨x :: xs, .stretch h hx hnumber (hlatest.between hcycle), by rw [hfetches]; rfl,
    fun c' hc' => ?_, fun hnone => absurd (hcycle'.symm.trans hnone) nofun⟩
  cases hcycle'.symm.trans hc'
  exact ⟨x, xs, rfl, rfl, rfl, by rw [hnext]; rfl⟩

/-- One move keeps the shape. -/
theorem shaped_stride {start : UInt64} {j j' : Journal} {s s' : Session} {xs : List Stretch}
    (h : Shaped (start + 1) j xs) (hlatest : Latest s xs)
    (hstarted : s.machine.started = start + UInt64.ofNat xs.length) (hstride : Stride s j' s') :
    ∃ xs', Shaped (start + 1) (j ++ j') xs' ∧ xs'.length = xs.length + j'.fetches ∧
      Latest s' xs' := by
  cases hstride with
  | quiet hquiet =>
    exact shaped_append h hlatest (Journal.stamps_of_isQuiet hquiet.entries) (.inl hquiet.cycle)
  | stop hmachine hcycle hend =>
    exact shaped_append h hlatest rfl (.inr ⟨hcycle, .inl List.mem_cons_self⟩)
  | drop => exact shaped_append h hlatest rfl (.inr ⟨rfl, .inr List.mem_cons_self⟩)
  | @fetch c hcycle hend hnext htext hnumber =>
    refine shaped_fetch h hlatest hcycle rfl rfl rfl ?_
    show c.number = _
    rw [hnumber, hstarted, UInt64.add_assoc, UInt64.add_comm _ 1, UInt64.add_assoc]
  | @decode c hcycle hnext =>
    refine shaped_next h hlatest hcycle (by rw [hnext]; decide) (by rw [hnext]; rfl)
      (fun c' hc' => ?_) nofun
    cases hc'
    exact ⟨rfl, rfl, by rw [hnext]; rfl⟩
  | @execute c hcycle hnext =>
    refine shaped_next h hlatest hcycle (by rw [hnext]; decide)
      (by rw [hnext]; exact Journal.stamps_execution ..) (fun c' hc' => ?_) nofun
    cases hc'
    exact ⟨rfl, rfl, by rw [hnext]; rfl⟩
  | writeback hcycle hnext =>
    exact shaped_next h hlatest hcycle (by rw [hnext]; decide) (by rw [hnext]; rfl)
      (fun _ hc' => absurd hc' nofun) (fun _ => hnext)

/-- One move counts the fetches, and nothing else. -/
theorem started_stride {j : Journal} {s s' : Session} (h : Stride s j s') :
    s'.machine.started = s.machine.started + UInt64.ofNat j.fetches := by
  have hnone : ∀ {j : Journal} {m : Machine}, j.fetches = 0 → m.started = s.machine.started →
      m.started = s.machine.started + UInt64.ofNat j.fetches := by
    intro j m hj hm
    rw [hj, hm]
    exact (UInt64.add_zero _).symm
  cases h with
  | quiet hquiet =>
    exact hnone (by rw [Journal.fetches, Journal.stamps_of_isQuiet hquiet.entries]; rfl)
      hquiet.started
  | stop hmachine => exact hnone rfl (by rw [hmachine]; rfl)
  | drop => exact hnone rfl rfl
  | fetch hcycle hend hnext => exact afterPhase_fetch_started hnext
  | decode => exact hnone rfl rfl
  | execute =>
    exact hnone (by rw [Journal.fetches, Journal.stamps_execution]; rfl)
      (afterPhase_started _ (by decide))
  | writeback => exact hnone rfl (afterPhase_started _ (by decide))

/-- At every moment the journal is made of stretches, the latest of which is that of the cycle in
flight, and there is one for each fetch. -/
theorem shaped_of_reaches {s s' : Session} {j : Journal} (hs : Coherent s)
    (hcycle : s.cycle = none) (h : s.Reaches j s') :
    s'.machine.started = s.machine.started + UInt64.ofNat j.fetches ∧
      ∃ xs, Shaped (s.machine.started + 1) j xs ∧ xs.length = j.fetches ∧ Latest s' xs := by
  induction h with
  | refl =>
    refine ⟨(UInt64.add_zero _).symm, [], .lead rfl, rfl, fun c hc => ?_, nofun⟩
    exact absurd (hcycle.symm.trans hc) nofun
  | tail hreach hmove ih =>
    -- the count has gone up once for each stretch, so the next number is that of the next stretch
    obtain ⟨hstarted, xs, hshaped, hlength, hlatest⟩ := ih
    have hstride := stride_of_move (coherent_of_reaches hs hreach) hmove
    obtain ⟨xs', hshaped', hlength', hlatest'⟩ :=
      shaped_stride hshaped hlatest (by rw [hstarted, hlength]) hstride
    refine ⟨?_, xs', hshaped', by rw [hlength', hlength, Journal.fetches_append], hlatest'⟩
    rw [started_stride hstride, hstarted, Journal.fetches_append, UInt64.ofNat_add,
      UInt64.add_assoc]

end Session

/-- Whatever is done to a new session, in any order, is made of moves; and at every moment of
any moves the journal is made of stretches, numbered from the count at the start on, and the
count is that at the start and the fetches since. Counting is modulo `2 ^ 64`. -/
theorem trace_shaped (m : Machine) (timings : Timings) (actions : List Action) :
    (Session.new m timings).Reaches ((Session.new m timings).performAll actions).2
        ((Session.new m timings).performAll actions).1 ∧
      ∀ (j : Journal) (s : Session), (Session.new m timings).Reaches j s →
        (∃ xs, Shaped (m.started + 1) j xs ∧ xs.length = j.fetches) ∧
          s.machine.started = m.started + UInt64.ofNat j.fetches := by
  refine ⟨performAll_reaches _ actions, fun j s h => ?_⟩
  obtain ⟨hstarted, xs, hshaped, hlength, -⟩ := shaped_of_reaches (coherent_new m timings) rfl h
  exact ⟨⟨xs, hshaped, hlength⟩, hstarted⟩

end ToyCpu
