import ToyCpu.Proofs.Replay
import ToyCpu.Proofs.Scan
import ToyCpu.Proofs.StoredValues

/-!
# Numbers left between instructions

The search for the next instruction passes over what has no letter, and that is not all that is
read as a number: there are numbers whose text has a letter. A cell with one of these is found
and its text fetched like an instruction.

* `IsLettered` — the numbers' texts that have a letter.
* `any_isAlpha_iff_isLettered` — a number's text is one of these if it has a letter in it.
* `any_isAlpha_numberText` — the numbers that are written with one.
* `leftover_found_iff` — which numbers the search finds.
-/

namespace ToyCpu

open Binary64 Decimal

/-! ### Letters and blanks -/

namespace Text

/-- What is no blank stays when a text is trimmed. -/
theorem mem_trimChars_iff {c : Char} (h : isBlank c = false) (cs : List Char) :
    c ∈ trimChars cs ↔ c ∈ cs := by
  -- only blanks are dropped, first at the front and then at the end
  have hdrop : ∀ cs : List Char, c ∈ cs.dropWhile isBlank ↔ c ∈ cs := by
    intro cs
    refine ⟨fun hc => (List.dropWhile_suffix isBlank).subset hc, fun hc => ?_⟩
    rw [← List.takeWhile_append_dropWhile (p := isBlank) (l := cs)] at hc
    rcases List.mem_append.mp hc with hfront | hrest
    · exact absurd (List.mem_takeWhile_imp hfront) (by rw [h]; decide)
    · exact hrest
  rw [trimChars, List.mem_reverse, hdrop, List.mem_reverse, hdrop]

theorem not_isBlank_of_isAlpha {c : Char} (h : c.isAlpha = true) : isBlank c = false := by
  rcases (isAlpha_iff c).mp h with ⟨hle, hge⟩ | ⟨hle, hge⟩
  · exact not_isBlank_of_printable (Nat.lt_of_lt_of_le (by decide) hle)
      (Nat.lt_of_le_of_lt hge (by decide))
  · exact not_isBlank_of_printable (Nat.lt_of_lt_of_le (by decide) hle)
      (Nat.lt_of_le_of_lt hge (by decide))

/-- There is a letter in a trimmed text if there is one in the text. -/
theorem any_isAlpha_trimChars (cs : List Char) :
    (trimChars cs).any Char.isAlpha = cs.any Char.isAlpha := by
  rw [Bool.eq_iff_iff, List.any_eq_true, List.any_eq_true]
  refine exists_congr fun c => and_congr_left fun hletter => ?_
  exact mem_trimChars_iff (not_isBlank_of_isAlpha hletter) cs

end Text

/-! ### Numbers with a letter -/

/-- The numbers' texts that have a letter in them: what is not a number, the infinities, numbers
in another base and those with a power of ten. -/
inductive IsLettered : List Char → Prop
  | nan : IsLettered "NaN".toList
  | infinity {sign : List Char} (h : sign ∈ [[], ['+'], ['-']]) :
      IsLettered (sign ++ "Infinity".toList)
  | base {c : Char} {digits : List Char} (h : c ∈ ['x', 'X', 'o', 'O', 'b', 'B']) :
      IsLettered ('0' :: c :: digits)
  | power {cs : List Char} (h : 'e' ∈ cs ∨ 'E' ∈ cs) : IsLettered cs

theorem IsLettered.any_isAlpha {cs : List Char} (h : IsLettered cs) :
    cs.any Char.isAlpha = true := by
  cases h with
  | nan => rfl
  | infinity h =>
    rw [List.any_append]
    exact Bool.or_eq_true_iff.mpr (.inr rfl)
  | base h =>
    refine List.any_eq_true.mpr ⟨_, List.mem_cons_of_mem _ List.mem_cons_self, ?_⟩
    simp only [List.mem_cons, List.not_mem_nil, or_false] at h
    rcases h with rfl | rfl | rfl | rfl | rfl | rfl
    all_goals rfl
  | power h =>
    rcases h with h | h
    · exact List.any_eq_true.mpr ⟨_, h, rfl⟩
    · exact List.any_eq_true.mpr ⟨_, h, rfl⟩

/-- The only letters in a numeral are those before a power of ten. -/
theorem eq_e_of_isNumeralChar {c : Char} (h : isNumeralChar c = true) (hletter : c.isAlpha = true) :
    c = 'e' ∨ c = 'E' := by
  simp only [isNumeralChar, Bool.or_eq_true, beq_iff_eq] at h
  rcases h with ((((h | rfl) | rfl) | rfl) | rfl) | rfl
  · rw [Numeral.isAlpha_of_isDigit h] at hletter
    cases hletter
  · cases hletter
  · exact .inl rfl
  · exact .inr rfl
  · cases hletter
  · cases hletter

theorem isLettered_of_takeBase {cs digits : List Char} {base : Nat}
    (h : takeBase cs = some (base, digits)) : IsLettered cs := by
  unfold takeBase at h
  split at h
  · next c rest =>
    refine .base ?_
    by_contra hc
    simp only [List.mem_cons, List.not_mem_nil, or_false, not_or] at hc
    simp [hc] at h
  · cases h

/-- A text that is taken for a number and has a letter has it for one of these reasons. -/
theorem isLettered_of_number? {cs : List Char} {x : Float} (h : number? cs = some x)
    (hletter : cs.any Char.isAlpha = true) : IsLettered cs := by
  -- in the reader's order: no text, the infinities, another base, and numerals last
  unfold number? at h
  split at h
  · next hnil =>
    rw [List.isEmpty_iff.mp hnil] at hletter
    cases hletter
  · split at h
    · next hinfinity =>
      rcases Bool.or_eq_true_iff.mp hinfinity with heq | heq
      · exact beq_iff_eq.mp heq ▸ @IsLettered.infinity [] (by simp)
      · exact beq_iff_eq.mp heq ▸ @IsLettered.infinity ['+'] (by simp)
    · split at h
      · next hinfinity => exact beq_iff_eq.mp hinfinity ▸ @IsLettered.infinity ['-'] (by simp)
      · split at h
        · next hbase => exact isLettered_of_takeBase hbase
        · split at h
          · next hchars =>
            obtain ⟨c, hc, halpha⟩ := List.any_eq_true.mp hletter
            refine .power ?_
            rcases eq_e_of_isNumeralChar (List.all_eq_true.mp hchars c hc) halpha with rfl | rfl
            · exact .inl hc
            · exact .inr hc
          · cases h

/-- A text that is parsed as a number has a letter exactly if it is one of these. -/
theorem any_isAlpha_iff_isLettered {text : String} {x : Float}
    (h : Value.parse text = .number x) :
    text.toList.any Char.isAlpha = true ↔ IsLettered (Text.trimChars text.toList) := by
  rw [← Text.any_isAlpha_trimChars]
  refine ⟨fun hletter => ?_, IsLettered.any_isAlpha⟩
  unfold Value.parse at h
  split at h
  · next hread => exact isLettered_of_number? hread hletter
  · split at h
    · next hnan =>
      have hchars := congrArg String.toList (beq_iff_eq.mp hnan)
      rw [Text.toList_trim] at hchars
      exact hchars ▸ .nan
    · cases h

/-! ### Numbers that are written with a letter -/

variable {x : Float}

/-- The number is beyond those that are written plainly: not zero, and not from a millionth to
below `10 ^ 21`. The infinities are, and the value that is not a number. -/
def IsBeyondPlain (x : Float) : Prop := (x == 0) = false ∧ ¬ (1e-6 ≤ x.abs ∧ x.abs < 1e21)

theorem isBeyondPlain_nan : IsBeyondPlain nan := ⟨rfl, by decide⟩

theorem isBeyondPlain_infinity (h : magnitude x = infinityWord) : IsBeyondPlain x := by
  rw [← ofMagnitude_magnitude x, h]
  cases isNegative x
  · exact ⟨by decide, by decide⟩
  · exact ⟨by decide, by decide⟩

/-- A number is written with a letter exactly if it is beyond those that are written plainly. -/
theorem any_isAlpha_numberText (x : Float) :
    (numberText x).toList.any Char.isAlpha = true ↔ IsBeyondPlain x := by
  -- finite floats are written as numerals, and the others as words
  rcases Nat.lt_trichotomy (magnitude x) infinityWord with hlt | hinf | hnan
  · rcases Nat.eq_zero_or_pos (magnitude x) with hzero | hpos
    · rw [numberText_zero hzero]
      refine ⟨nofun, fun h => ?_⟩
      exact absurd ((beq_zero_iff x).mpr hzero) (by rw [h.1]; decide)
    · have hnonzero : (x == 0) = false := by
        rw [← Bool.not_eq_true, beq_zero_iff]
        exact hpos.ne'
      obtain ⟨hplain, hpowered⟩ := numberText_notation hpos hlt
      unfold IsBeyondPlain
      by_cases hrange : 1e-6 ≤ x.abs ∧ x.abs < 1e21
      · -- a numeral without an exponent has no letter
        refine ⟨fun hletter => ?_, fun h => absurd hrange h.2⟩
        obtain ⟨c, hc, halpha⟩ := List.any_eq_true.mp hletter
        obtain ⟨shown, hshown, -⟩ := numberText_numeral hpos hlt
        have hchar := (Numeral.chars_of_ofChars? hshown).2 c hc
        rcases eq_e_of_isNumeralChar hchar halpha with rfl | rfl
        · exact absurd hc (hplain hrange).1
        · exact absurd hc (hplain hrange).2
      · refine ⟨fun _ => ⟨hnonzero, hrange⟩, fun _ => ?_⟩
        obtain ⟨mantissa, sign, digits, htext, -⟩ := hpowered hrange
        rw [htext]
        exact List.any_eq_true.mpr ⟨'e', List.mem_append_right _ List.mem_cons_self, rfl⟩
  · refine ⟨fun _ => isBeyondPlain_infinity hinf, fun _ => ?_⟩
    rw [numberText_infinity hinf, String.toList_append, List.any_append]
    exact Bool.or_eq_true_iff.mpr (.inr rfl)
  · rw [numberText_nan hnan, eq_nan hnan]
    exact ⟨fun _ => isBeyondPlain_nan, fun _ => rfl⟩

/-! ### What is found -/

variable {mem : Memory} {a : Address} {text : String}

theorem Memory.hasLetter_iff_any_isAlpha (h : mem.fetch? a = some text) :
    mem.HasLetter a ↔ text.toList.any Char.isAlpha = true := by
  obtain ⟨cell, hcell, rfl⟩ := Option.map_eq_some_iff.mp h
  have hlooks := @Cell.looksLikeInstruction_iff cell
  unfold Memory.HasLetter
  rw [hcell]
  simp only [Option.some.injEq, exists_eq_left', ← hlooks]
  rfl

/-- What a search finds has a letter, and a search from a cell with a letter finds that cell. -/
theorem Memory.nextInstruction?_iff (h : mem.fetch? a = some text) :
    (∃ start, mem.nextInstruction? start = some a) ↔ text.toList.any Char.isAlpha = true := by
  rw [← hasLetter_iff_any_isAlpha h]
  constructor
  · rintro ⟨start, hnext⟩
    exact (nextInstruction?_least hnext).2.1
  · intro hletter
    refine ⟨a, nextInstruction?_eq_some_iff.mpr ⟨UInt32.le_refl a, hletter, ?_⟩⟩
    intro x hle hlt
    exact absurd hlt (UInt32.not_lt.mpr hle)

namespace Session

/-- A fetch is that of a cycle that begins, at the next instruction. -/
theorem fetch_of_stride {s s' : Session} {j : Journal} {number : UInt64} {duration : Milliseconds}
    (h : Stride s j s') (hmem : .event (.phase number .fetch a text duration) ∈ j) :
    s.machine.memory.nextInstruction? s.machine.pc = some a ∧
      s.machine.memory.fetch? a = some text := by
  cases h with
  -- of all moves only the begin of a cycle records a fetch
  | quiet h => exact absurd (h.entries _ hmem).1 nofun
  | stop => simp [notice] at hmem
  | drop => simp at hmem
  | fetch hcycle hend hnext htext =>
    cases Entry.event.inj (List.mem_singleton.mp hmem)
    exact ⟨hnext, htext⟩
  | decode => cases Entry.event.inj (List.mem_singleton.mp hmem)
  | execute => simp [execution] at hmem
  | writeback => cases Entry.event.inj (List.mem_singleton.mp hmem)

/-- At every moment of a session the texts fetched so far have a letter. -/
theorem any_isAlpha_of_fetch {s s' : Session} {j : Journal} (hs : Coherent s)
    (h : s.Reaches j s') {number : UInt64} {duration : Milliseconds}
    (hmem : .event (.phase number .fetch a text duration) ∈ j) :
    text.toList.any Char.isAlpha = true := by
  induction h with
  | refl => cases hmem
  | tail hreach hmove ih =>
    rcases List.mem_append.mp hmem with hbefore | hlast
    · exact ih hbefore
    · have hstride := stride_of_move (coherent_of_reaches hs hreach) hmove
      obtain ⟨hnext, htext⟩ := fetch_of_stride hstride hlast
      exact (Memory.nextInstruction?_iff htext).mp ⟨_, hnext⟩

end Session

/-- A cell whose text is parsed as a number is found by a search exactly if the text is one of the
numbers' texts with a letter. A number stored in a unified memory is found exactly if it is beyond
the numbers that are written plainly. And whatever is done to a session, no other numbers are ever
fetched. -/
theorem leftover_found_iff (mem : Memory) (m : Machine) (timings : Timings) :
    (∀ (a : Address) (text : String) (x : Float),
      mem.fetch? a = some text → Value.parse text = .number x →
        ((∃ start, mem.nextInstruction? start = some a) ↔
          IsLettered (Text.trimChars text.toList))) ∧
    (∀ (source target : String) (rest : List String) (regs : Registers) (done : Executed)
      (r : Register) (x : Float),
      execute ⟨"STORE", source :: target :: rest⟩ regs mem = .ok done → r.IsNamedBy source →
        regs.get r = .number x → mem.architecture = .unified →
        ∃ a, Operand.Names target a ∧
          ((∃ start, done.memory.nextInstruction? start = some a) ↔ IsBeyondPlain x)) ∧
    (∀ (j : Journal) (s : Session), (Session.new m timings).Reaches j s →
      ∀ number a text duration x, .event (.phase number .fetch a text duration) ∈ j →
        (Value.parse text = .number x → IsLettered (Text.trimChars text.toList)) ∧
        (text = numberText x → IsBeyondPlain x)) := by
  refine ⟨?_, ?_, ?_⟩
  · intro a text x hfetch hparse
    exact (Memory.nextInstruction?_iff hfetch).trans (any_isAlpha_iff_isLettered hparse)
  · intro source target rest regs done r x hstore hsource hvalue hunified
    obtain ⟨r', a, hsource', htarget, hmemory⟩ := store_of_ok hstore
    obtain rfl : r = r' := hsource.unique hsource'
    have hfetch : done.memory.fetch? a = some (numberText x) := by
      rw [hmemory, hvalue, Memory.fetch?, Memory.store, Memory.get?_set, if_pos ⟨.inl hunified, rfl⟩]
      rfl
    exact ⟨a, htarget, (Memory.nextInstruction?_iff hfetch).trans (any_isAlpha_numberText x)⟩
  · intro j s hreach number a text duration x hmem
    -- what is fetched has been found, and so it has a letter
    have hletter := Session.any_isAlpha_of_fetch (Session.coherent_new m timings) hreach hmem
    refine ⟨fun hparse => (any_isAlpha_iff_isLettered hparse).mp hletter, ?_⟩
    rintro rfl
    exact (any_isAlpha_numberText x).mp hletter

/-- A large number left before an instruction. -/
def largeLeftover : Memory :=
  ((Memory.empty .unified).set 1 "1e+21" .data).set 2 "MOV R1, #1" .instruction

/-- It is a number, and a search finds it. -/
theorem largeLeftover_found : Value.parse "1e+21" = .number 1e21 ∧
    ∃ start, largeLeftover.nextInstruction? start = some 1 := by
  have hread : coerce? "1e+21" = some 1e21 := by decide +kernel
  have hparse : Value.parse "1e+21" = .number 1e21 := by
    unfold Value.parse
    rw [hread]
  have hfound := (leftover_found_iff largeLeftover (.new largeLeftover) ⟨0, 0, 0, 0⟩).1 1 "1e+21"
    1e21 (by decide) hparse
  exact ⟨hparse, hfound.mpr (.power (.inl (by decide)))⟩

end ToyCpu
