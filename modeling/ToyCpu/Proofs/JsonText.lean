import ToyCpu.Json.Parser
import ToyCpu.Json.Printer
import ToyCpu.Proofs.Numerals

/-!
# JSON texts that read back

A tree is written and read without loss, if what it holds as written can be read at all: its
numbers are numerals, and its strings are escaped. Where the blanks are does not matter.

* `takeString_escape`, `unescape?_escape` — escaped strings.
* `takeNumber_spell` — numerals.
* `IsWritten`, `parse?_pretty`, `parse?_compact` — trees.
-/

namespace ToyCpu.Json

/-! ### Strings -/

/-- How a character stands in a string. -/
inductive Escaped (c : Char) : List Char → Prop
  | short (x : Char) (hunit : x ≠ 'u') (h : shortEscape? x = some c) : Escaped c ['\\', x]
  | control (h : c.toNat < 0x20) :
      Escaped c ['\\', 'u', '0', '0', Nat.digitChar (c.toNat / 16), Nat.digitChar (c.toNat % 16)]
  | plain (hquote : c ≠ '"') (hslash : c ≠ '\\') (h : ¬ c.toNat < 0x20) : Escaped c [c]

/-- Every character stands in one of these ways. -/
theorem escaped (c : Char) : Escaped c (escapeChar c) := by
  unfold escapeChar
  split
  · next h => rw [beq_iff_eq.mp h]; exact .short '"' (by decide) rfl
  split
  · next h => rw [beq_iff_eq.mp h]; exact .short '\\' (by decide) rfl
  split
  · next h => rw [beq_iff_eq.mp h]; exact .short 'b' (by decide) rfl
  split
  · next h => rw [beq_iff_eq.mp h]; exact .short 't' (by decide) rfl
  split
  · next h => rw [beq_iff_eq.mp h]; exact .short 'n' (by decide) rfl
  split
  · next h => rw [beq_iff_eq.mp h]; exact .short 'f' (by decide) rfl
  split
  · next h => rw [beq_iff_eq.mp h]; exact .short 'r' (by decide) rfl
  split
  · next h => exact .control h
  · next hquote hslash _ _ _ _ _ h =>
    exact .plain (fun hc => hquote (beq_iff_eq.mpr hc)) (fun hc => hslash (beq_iff_eq.mpr hc)) h

/-- The code unit of a control character. -/
theorem codeUnit?_control {n : Nat} (h : n < 0x20) :
    codeUnit? '0' '0' (Nat.digitChar (n / 16)) (Nat.digitChar (n % 16)) = some n := by
  revert n
  decide

/-- An escaped character is taken from the front of a string's text. -/
theorem takeString_escapeChar (c : Char) {cs raw rest : List Char}
    (h : takeString cs = some (raw, rest)) :
    takeString (escapeChar c ++ cs) = some (escapeChar c ++ raw, rest) := by
  have hform := escaped c
  generalize escapeChar c = text at hform ⊢
  cases hform with
  | short x hunit hshort =>
    show takeString ('\\' :: x :: cs) = some ('\\' :: x :: raw, rest)
    -- the equations of the reader overlap, so each comes with what rules out those before it
    rw [takeString.eq_4 x cs fun _ _ _ _ _ hu _ => hunit hu, hshort, h]
    rfl
  | control hcontrol =>
    show takeString ('\\' :: 'u' :: '0' :: '0' :: _ :: _ :: cs) = _
    rw [takeString.eq_3, codeUnit?_control hcontrol, h]
    rfl
  | plain hquote hslash hcontrol =>
    show takeString (c :: cs) = some (c :: raw, rest)
    rw [takeString.eq_5 c cs hquote (fun _ _ _ _ _ hc _ => hslash hc) fun _ _ hc _ => hslash hc,
      if_neg (by simp [hcontrol, hslash]), h]
    rfl

/-- The text of an escaped string is taken up to its quote. -/
theorem takeString_escape (cs rest : List Char) :
    takeString (escape cs ++ '"' :: rest) = some (escape cs, rest) := by
  induction cs with
  | nil => rfl
  | cons c cs ih =>
    rw [escape, List.flatMap_cons, List.append_assoc]
    exact takeString_escapeChar c ih

/-- Four characters that are no code unit stand for nothing. -/
theorem unescape?_of_codeUnit?_eq_none {a b c d : Char} (h : codeUnit? a b c d = none)
    (cs : List Char) : unescape? ('\\' :: 'u' :: a :: b :: c :: d :: cs) = none := by
  -- the reader looks ahead for a second unit, whether the first needs one or not
  by_cases hnext : ∃ e f g i rest, cs = '\\' :: 'u' :: e :: f :: g :: i :: rest
  · obtain ⟨e, f, g, i, rest, rfl⟩ := hnext
    rw [unescape?.eq_2, h]
  · rw [unescape?.eq_3 a b c d cs fun e f g i rest hcs => hnext ⟨e, f, g, i, rest, hcs⟩, h]

/-- A code unit that is no half of a pair stands for its character, whatever follows. -/
theorem unescape?_unit {a b c d : Char} {unit : Nat} (hunit : codeUnit? a b c d = some unit)
    (hleading : isLeading unit = false) (htrailing : isTrailing unit = false)
    {cs meant : List Char} (h : unescape? cs = some meant) :
    unescape? ('\\' :: 'u' :: a :: b :: c :: d :: cs) = some (Char.ofNat unit :: meant) := by
  by_cases hnext : ∃ e f g i rest, cs = '\\' :: 'u' :: e :: f :: g :: i :: rest
  · obtain ⟨e, f, g, i, rest, rfl⟩ := hnext
    rw [unescape?.eq_2, hunit]
    cases hsecond : codeUnit? e f g i with
    | some second =>
      simp only [hleading, htrailing, h]
      rfl
    | none =>
      rw [unescape?_of_codeUnit?_eq_none hsecond] at h
      cases h
  · rw [unescape?.eq_3 a b c d cs fun e f g i rest hcs => hnext ⟨e, f, g, i, rest, hcs⟩, hunit]
    simp only [hleading, htrailing, h]
    rfl

/-- An escaped character at the front of a text stands for itself. -/
theorem unescape?_escapeChar (c : Char) {cs meant : List Char} (h : unescape? cs = some meant) :
    unescape? (escapeChar c ++ cs) = some (c :: meant) := by
  have hform := escaped c
  generalize escapeChar c = text at hform ⊢
  cases hform with
  | short x hunit hshort =>
    show unescape? ('\\' :: x :: cs) = _
    rw [unescape?.eq_4 x cs (fun _ _ _ _ _ _ _ _ _ hu _ => hunit hu)
      fun _ _ _ _ _ hu _ => hunit hu, hshort, h]
    rfl
  | control hcontrol =>
    -- control characters are far below the units that come in pairs
    have hleading : isLeading c.toNat = false := by
      unfold isLeading
      simp only [Bool.and_eq_false_iff, decide_eq_false_iff_not]
      omega
    have htrailing : isTrailing c.toNat = false := by
      unfold isTrailing
      simp only [Bool.and_eq_false_iff, decide_eq_false_iff_not]
      omega
    have hread := unescape?_unit (codeUnit?_control hcontrol) hleading htrailing h
    rwa [Char.ofNat_toNat] at hread
  | plain hquote hslash hcontrol =>
    show unescape? (c :: cs) = _
    rw [unescape?.eq_5 c cs (fun _ _ _ _ _ _ _ _ _ hc _ => hslash hc)
      (fun _ _ _ _ _ hc _ => hslash hc) fun _ _ hc _ => hslash hc, h]
    rfl

/-- An escaped text stands for the text. -/
theorem unescape?_escape (cs : List Char) : unescape? (escape cs) = some cs := by
  induction cs with
  | nil => rfl
  | cons c cs ih => exact unescape?_escapeChar c ih

/-- Digits stand for themselves. -/
theorem escape_digits {ds : List Char} (h : ∀ c ∈ ds, c.isDigit = true) : escape ds = ds := by
  induction ds with
  | nil => rfl
  | cons c ds ih =>
    have hdigit := h c List.mem_cons_self
    have hne : ∀ d, d.isDigit = false → (c == d) = false := by
      intro d hd
      rw [beq_eq_false_iff_ne]
      rintro rfl
      exact absurd (hd.symm.trans hdigit) (by decide)
    have hcontrol : ¬ c.toNat < 0x20 := by
      have hle : 48 ≤ c.toNat := (Char.isDigit_iff_toNat.mp hdigit).1
      omega
    have hplain : escapeChar c = [c] := by
      simp only [escapeChar, hne '"' rfl, hne '\\' rfl, hne '\x08' rfl, hne '\t' rfl, hne '\n' rfl,
        hne '\x0c' rfl, hne '\r' rfl, hcontrol, Bool.false_eq_true, if_false]
    rw [escape, List.flatMap_cons, hplain]
    exact congrArg (c :: ·) (ih fun d hd => h d (List.mem_cons_of_mem c hd))

/-! ### Numbers -/

/-- What follows a value: nothing, a blank, a comma or a closing bracket. -/
def Ended (rest : List Char) : Prop :=
  ∀ c ∈ rest.head?, isSpace c = true ∨ c = ',' ∨ c = ']' ∨ c = '}'

/-- No other character comes first after a value. -/
theorem Ended.head_ne {rest : List Char} (h : Ended rest) {c : Char} {cs : List Char}
    (hc : (isSpace c || c == ',' || c == ']' || c == '}') = false) : rest ≠ c :: cs := by
  rintro rfl
  have hend := h c rfl
  simp only [Bool.or_eq_false_iff, beq_eq_false_iff_ne] at hc
  obtain ⟨⟨⟨hspace, hcomma⟩, hbracket⟩, hbrace⟩ := hc
  rcases hend with hc | hc | hc | hc
  · exact absurd hc (by rw [hspace]; decide)
  · exact hcomma hc
  · exact hbracket hc
  · exact hbrace hc

/-- What follows a value cannot be taken for more digits of a number. -/
theorem Ended.noDigitFirst {rest : List Char} (h : Ended rest) : NoDigitFirst rest := by
  intro c hc
  have hspaces : ∀ d, isSpace d = true → d.isDigit = false := by
    intro d hd
    simp only [isSpace, Bool.or_eq_true, beq_iff_eq] at hd
    rcases hd with ((rfl | rfl) | rfl) | rfl <;> rfl
  rcases h c hc with hspace | rfl | rfl | rfl
  · exact hspaces c hspace
  · rfl
  · rfl
  · rfl

/-- Digits are taken as far as they go, and there must be some. -/
theorem takeDigits_append {ds rest : List Char} (hds : ∀ c ∈ ds, c.isDigit = true)
    (hnonempty : ds ≠ []) (hrest : NoDigitFirst rest) :
    takeDigits (ds ++ rest) = some (ds, rest) := by
  obtain ⟨htake, hdrop⟩ := takeWhile_isDigit_append hds hrest
  obtain ⟨c, ds, rfl⟩ := List.exists_cons_of_ne_nil hnonempty
  rw [takeDigits, htake, hdrop]

/-- A minus is taken if there is one, for digits do not begin with it. -/
theorem takeMinus_append (negative : Bool) {ds : List Char} (hds : ∀ c ∈ ds, c.isDigit = true)
    (hnonempty : ds ≠ []) (rest : List Char) :
    takeMinus ((if negative then ['-'] else []) ++ (ds ++ rest))
      = (if negative then ['-'] else [], ds ++ rest) := by
  cases negative with
  | true => rfl
  | false =>
    obtain ⟨c, ds, rfl⟩ := List.exists_cons_of_ne_nil hnonempty
    have hminus : c ≠ '-' := by
      rintro rfl
      exact absurd (hds '-' List.mem_cons_self) (by decide)
    show takeMinus (c :: (ds ++ rest)) = _
    unfold takeMinus
    split
    · next heq => exact absurd (List.cons.inj heq).1 hminus
    · rfl

/-- Digits before the point are taken if they begin with a zero only where that is all of them. -/
theorem takeWhole_append {ds rest : List Char} (hds : ∀ c ∈ ds, c.isDigit = true)
    (hnonempty : ds ≠ []) (hleading : ∀ tail, ds = '0' :: tail → tail = [])
    (hrest : NoDigitFirst rest) : takeWhole (ds ++ rest) = some (ds, rest) := by
  unfold takeWhole
  rw [takeDigits_append hds hnonempty hrest]
  split
  · next c tail _ heq =>
    obtain ⟨hcons, -⟩ := Prod.mk.inj (Option.some.inj heq)
    exact absurd (hleading _ hcons) (List.cons_ne_nil c tail)
  · rfl

/-- A point is taken with the digits after it, which a numeral spells together or not at all. -/
theorem takePoint_append {ds rest : List Char} (hds : ∀ c ∈ ds, c.isDigit = true)
    (hrest : NoDigitFirst rest) (hpoint : ∀ cs, rest ≠ '.' :: cs) :
    takePoint ((if ds.isEmpty then [] else '.' :: ds) ++ rest)
      = some (if ds.isEmpty then [] else '.' :: ds, rest) := by
  cases ds with
  | nil =>
    show takePoint rest = some ([], rest)
    unfold takePoint
    split
    · next cs => exact absurd rfl (hpoint cs)
    · rfl
  | cons d ds =>
    show (takeDigits (d :: ds ++ rest)).map _ = some ('.' :: d :: ds, rest)
    rw [takeDigits_append hds (List.cons_ne_nil d ds) hrest]
    rfl

/-- A power is taken with its letter, its sign and its digits. -/
theorem takePower_append (e : Int) (powered : Bool) {rest : List Char} (hrest : Ended rest) :
    takePower ((if powered then Numeral.spellPower e else []) ++ rest)
      = some (if powered then Numeral.spellPower e else [], rest) := by
  cases powered with
  | false =>
    show takePower rest = some ([], rest)
    cases rest with
    | nil => rfl
    | cons c cs =>
      have hpower : (c == 'e' || c == 'E') = false := by
        rw [Bool.or_eq_false_iff, beq_eq_false_iff_ne, beq_eq_false_iff_ne]
        constructor
        · rintro rfl
          exact hrest.head_ne rfl rfl
        · rintro rfl
          exact hrest.head_ne rfl rfl
      rw [takePower, hpower]
      rfl
  | true =>
    have hds : ∀ c ∈ Nat.toDigits 10 e.natAbs, c.isDigit = true :=
      fun c hc => isDigit_of_mem_digits hc
    have hdigits := takeDigits_append hds Nat.toDigits_ne_nil hrest.noDigitFirst
    have hsign : ∀ cs, takeSign ((if e < 0 then '-' else '+') :: cs)
        = ([if e < 0 then '-' else '+'], cs) := by
      intro cs
      split <;> rfl
    have hpower : ('e' == 'e' || 'e' == 'E') = true := rfl
    simp only [if_true, Numeral.spellPower, List.cons_append, takePower, hpower, hsign, hdigits]
    rfl

/-- The text of a numeral is taken whole. -/
theorem takeNumber_spell {numeral : Numeral} {powered : Bool} (h : numeral.Spellable powered)
    {rest : List Char} (hrest : Ended rest) :
    takeNumber (numeral.spell powered ++ rest) = some (numeral.spell powered, rest) := by
  -- each part ends where the next begins, so what a later one may begin with is settled first
  have hpower := Numeral.noDigitFirst_power numeral powered hrest.noDigitFirst
  have hpoint : ∀ cs, (if powered then Numeral.spellPower numeral.exponent else []) ++ rest
      ≠ '.' :: cs := by
    cases powered
    · exact fun cs => hrest.head_ne rfl
    · exact nofun
  unfold takeNumber Numeral.spell
  simp only [List.append_assoc]
  rw [takeMinus_append numeral.negative h.whole h.nonempty]
  simp only
  rw [takeWhole_append h.whole h.nonempty h.leading (Numeral.noDigitFirst_point _ hpower),
    Option.bind_eq_bind, Option.bind_some, takePoint_append h.fraction hpower hpoint,
    Option.bind_some, takePower_append numeral.exponent powered hrest, Option.bind_some]
  rfl

/-! ### Blanks -/

/-- Characters that are all blanks. -/
def Blank (bs : List Char) : Prop := ∀ c ∈ bs, isSpace c = true

/-- Blanks are skipped all together, and a character that is none of them stops it. -/
theorem skip_append {bs : List Char} (h : Blank bs) (cs : List Char) : skip (bs ++ cs) = skip cs :=
  List.dropWhile_append_of_pos h

theorem skip_cons {c : Char} (h : isSpace c = false) (cs : List Char) : skip (c :: cs) = c :: cs :=
  List.dropWhile_cons_of_neg (by simp [h])

/-- Blanks before a value are passed over. -/
theorem takeValue_append {bs : List Char} (h : Blank bs) (n : Nat) (cs : List Char) :
    takeValue n (bs ++ cs) = takeValue n cs := by
  cases n with
  | zero => rw [takeValue, takeValue]
  | succ n => rw [takeValue, takeValue, skip_append h]

/-- So they are before the first item and before the first member. -/
theorem takeItems_append {bs : List Char} (h : Blank bs) (n : Nat) (cs : List Char) :
    takeItems n (bs ++ cs) = takeItems n cs := by
  cases n with
  | zero => rw [takeItems, takeItems]
  | succ n => rw [takeItems, takeItems, takeValue_append h]

theorem takeMembers_append {bs : List Char} (h : Blank bs) (n : Nat) (cs : List Char) :
    takeMembers n (bs ++ cs) = takeMembers n cs := by
  cases n with
  | zero => rw [takeMembers, takeMembers]
  | succ n => rw [takeMembers, takeMembers, skip_append h]

/-- Between the parts of a tree there are only blanks, and the colon after a key. -/
structure Spacing.IsBlank (spacing : Spacing) : Prop where
  lineStart : ∀ depth, Blank (spacing.lineStart depth)
  colon : ∃ bs, spacing.colon = ':' :: bs ∧ Blank bs

theorem Spacing.none_isBlank : Spacing.none.IsBlank where
  lineStart _ := nofun
  colon := ⟨[], rfl, nofun⟩

/-- On lines of their own the parts are set apart by line feeds and spaces. -/
theorem Spacing.lines_isBlank : Spacing.lines.IsBlank where
  lineStart depth := by
    intro c hc
    rcases List.mem_cons.mp hc with rfl | hc
    · rfl
    · rw [List.eq_of_mem_replicate hc]
      rfl
  colon := by
    refine ⟨[' '], rfl, ?_⟩
    rintro c ⟨⟩
    · rfl
    · contradiction

/-! ### Trees -/

/-- A tree in which every number is the text of a numeral and every string is escaped. -/
inductive IsWritten : Json → Prop
  | null : IsWritten .null
  | bool (b : Bool) : IsWritten (.bool b)
  | number {numeral : Numeral} {powered : Bool} (h : numeral.Spellable powered) :
      IsWritten (.number (numeral.spell powered))
  | string (cs : List Char) : IsWritten (.string (escape cs))
  | array {items : List Json} (h : ∀ j ∈ items, IsWritten j) : IsWritten (.array items)
  | object {members : List (List Char × Json)} (hkeys : ∀ m ∈ members, ∃ cs, m.1 = escape cs)
      (h : ∀ m ∈ members, IsWritten m.2) : IsWritten (.object members)

/-- What begins a number begins nothing else. -/
theorem ne_of_numberStart {c d : Char} (hc : c.isDigit = true ∨ c = '-')
    (hd : (d.isDigit || d == '-') = false) : c ≠ d := by
  rintro rfl
  rw [Bool.or_eq_false_iff, beq_eq_false_iff_ne] at hd
  rcases hc with hc | hc
  · exact absurd (hd.1.symm.trans hc) (by decide)
  · exact hd.2 hc

theorem isSpace_numberStart {c : Char} (hc : c.isDigit = true ∨ c = '-') : isSpace c = false := by
  simp only [isSpace, Bool.or_eq_false_iff, beq_eq_false_iff_ne]
  exact ⟨⟨⟨ne_of_numberStart hc rfl, ne_of_numberStart hc rfl⟩, ne_of_numberStart hc rfl⟩,
    ne_of_numberStart hc rfl⟩

/-- A numeral begins with a digit or a minus. -/
theorem spell_head {numeral : Numeral} {powered : Bool} (h : numeral.Spellable powered) :
    ∃ c cs, numeral.spell powered = c :: cs ∧ (c.isDigit = true ∨ c = '-') := by
  obtain ⟨c, ds, hwhole⟩ := List.exists_cons_of_ne_nil h.nonempty
  unfold Numeral.spell
  cases numeral.negative with
  | true => exact ⟨'-', _, rfl, .inr rfl⟩
  | false =>
    rw [hwhole]
    exact ⟨c, _, rfl, .inl (h.whole c (hwhole ▸ List.mem_cons_self))⟩

/-- The first character of a value is no blank and no closing bracket. -/
theorem write_head (spacing : Spacing) (depth : Nat) {j : Json} (h : j.IsWritten) :
    ∃ c cs, write spacing depth j = c :: cs ∧ isSpace c = false ∧ c ≠ ']' := by
  cases h with
  | null => exact ⟨'n', _, rfl, rfl, by decide⟩
  | bool b =>
    cases b
    · exact ⟨'f', _, rfl, rfl, by decide⟩
    · exact ⟨'t', _, rfl, rfl, by decide⟩
  | number h =>
    obtain ⟨c, cs, hspell, hc⟩ := spell_head h
    exact ⟨c, cs, hspell, isSpace_numberStart hc, ne_of_numberStart hc rfl⟩
  | string cs => exact ⟨'"', _, rfl, rfl, by decide⟩
  | @array items h =>
    cases items
    · exact ⟨'[', _, rfl, rfl, by decide⟩
    · exact ⟨'[', _, rfl, rfl, by decide⟩
  | @object members hkeys h =>
    cases members
    · exact ⟨'\x7b', _, rfl, rfl, by decide⟩
    · exact ⟨'\x7b', _, rfl, rfl, by decide⟩

/-! ### Reading one part -/

/-- A value that begins like a number is taken as one. -/
theorem takeValue_number {c : Char} (hc : c.isDigit = true ∨ c = '-') (n : Nat) (cs : List Char) :
    takeValue (n + 1) (c :: cs)
      = (takeNumber (c :: cs)).map fun (literal, rest) => (.number literal, rest) := by
  rw [takeValue, skip_cons (isSpace_numberStart hc)]
  split
  · next heq => exact absurd (List.cons.inj heq).1 (ne_of_numberStart hc rfl)
  · next heq => exact absurd (List.cons.inj heq).1 (ne_of_numberStart hc rfl)
  · next heq => exact absurd (List.cons.inj heq).1 (ne_of_numberStart hc rfl)
  · next heq => exact absurd (List.cons.inj heq).1 (ne_of_numberStart hc rfl)
  · next heq => exact absurd (List.cons.inj heq).1 (ne_of_numberStart hc rfl)
  · next heq => exact absurd (List.cons.inj heq).1 (ne_of_numberStart hc rfl)
  · rfl

/-- An array that is not closed at once is taken with its items. -/
theorem takeValue_array {cs items rest : List Char} {c : Char} (hskip : skip cs = c :: items)
    (hc : c ≠ ']') {n : Nat} {js : List Json} (h : takeItems n (c :: items) = some (js, rest)) :
    takeValue (n + 1) ('[' :: cs) = some (.array js, rest) := by
  rw [takeValue, skip_cons rfl]
  simp only [hskip]
  split
  · next heq => exact absurd (List.cons.inj heq).1 hc
  · rw [h]
    rfl

/-- An object that is not closed at once is taken with its members. -/
theorem takeValue_object {cs members rest : List Char} {c : Char} (hskip : skip cs = c :: members)
    (hc : c ≠ '\x7d') {n : Nat} {ms : List (List Char × Json)}
    (h : takeMembers n (c :: members) = some (ms, rest)) :
    takeValue (n + 1) ('\x7b' :: cs) = some (.object ms, rest) := by
  rw [takeValue, skip_cons rfl]
  simp only [hskip]
  split
  · next heq => exact absurd (List.cons.inj heq).1 hc
  · rw [h]
    rfl

/-- A value of this depth is read back from its text. -/
def Reads (spacing : Spacing) (depth : Nat) (j : Json) : Prop :=
  ∀ rest n, Ended rest → 2 * (write spacing depth j).length ≤ n →
    takeValue n (write spacing depth j ++ rest) = some (j, rest)

variable {spacing : Spacing} (hspacing : spacing.IsBlank)

/-- A written tree is not empty, so there is fuel for its first part. -/
theorem reads_of_succ {depth : Nat} {j : Json} (hj : j.IsWritten)
    (h : ∀ rest n, Ended rest → 2 * (write spacing depth j).length ≤ n + 1 →
      takeValue (n + 1) (write spacing depth j ++ rest) = some (j, rest)) :
    Reads spacing depth j := by
  intro rest n hrest hn
  obtain ⟨c, cs, hhead, -, -⟩ := write_head spacing depth hj
  cases n with
  | zero =>
    rw [hhead, List.length_cons] at hn
    omega
  | succ n => exact h rest n hrest hn

theorem ended_cons {c : Char} (h : isSpace c = true ∨ c = ',' ∨ c = ']' ∨ c = '\x7d')
    (cs : List Char) : Ended (c :: cs) := by
  rintro d ⟨⟩
  exact h

/-- Blanks before what ends a value end it as well. -/
theorem ended_append {bs : List Char} (hbs : Blank bs) {cs : List Char} (h : Ended cs) :
    Ended (bs ++ cs) := by
  cases bs with
  | nil => exact h
  | cons b bs => exact ended_cons (.inl (hbs b List.mem_cons_self)) _

include hspacing in
/-- The last item is taken up to the bracket behind it. -/
theorem takeItems_last {depth : Nat} {item : Json} (h : Reads spacing (depth + 1) item)
    {rest : List Char} {n : Nat} (hn : 2 * (write spacing (depth + 1) item).length ≤ n) :
    takeItems (n + 1) (write spacing (depth + 1) item
      ++ (spacing.lineStart depth ++ ']' :: rest)) = some ([item], rest) := by
  have hblank := hspacing.lineStart depth
  have hvalue := h _ n (ended_append hblank (ended_cons (.inr (.inr (.inl rfl))) rest)) hn
  rw [takeItems, hvalue, Option.bind_eq_bind, Option.bind_some]
  simp only [skip_append hblank, skip_cons (c := ']') rfl]

/-- Any other item is taken up to the comma, and the rest of the items after it. -/
theorem takeItems_more {depth : Nat} {item : Json} (h : Reads spacing (depth + 1) item)
    {more rest : List Char} {items : List Json} {n : Nat}
    (hn : 2 * (write spacing (depth + 1) item).length ≤ n)
    (hmore : takeItems n more = some (items, rest)) :
    takeItems (n + 1) (write spacing (depth + 1) item ++ ',' :: more)
      = some (item :: items, rest) := by
  have hvalue := h _ n (ended_cons (.inr (.inl rfl)) more) hn
  rw [takeItems, hvalue, Option.bind_eq_bind, Option.bind_some]
  simp only [skip_cons (c := ',') rfl, hmore]
  rfl

include hspacing in
/-- The last member is taken like the last item, with its key and its colon first. -/
theorem takeMembers_last {depth : Nat} {value : Json} (h : Reads spacing (depth + 1) value)
    (cs : List Char) {rest : List Char} {n : Nat}
    (hn : 2 * (write spacing (depth + 1) value).length ≤ n) :
    takeMembers (n + 1) ('"' :: (escape cs ++ '"' :: (spacing.colon
      ++ (write spacing (depth + 1) value ++ (spacing.lineStart depth ++ '\x7d' :: rest)))))
      = some ([(escape cs, value)], rest) := by
  obtain ⟨bs, hcolon, hbs⟩ := hspacing.colon
  have hblank := hspacing.lineStart depth
  have hvalue := h _ n (ended_append hblank (ended_cons (.inr (.inr (.inr rfl))) rest)) hn
  rw [takeMembers, skip_cons rfl, hcolon]
  simp only [takeString_escape, Option.bind_eq_bind, Option.bind_some, List.cons_append,
    skip_cons (c := ':') rfl, takeValue_append hbs, hvalue, skip_append hblank,
    skip_cons (c := '\x7d') rfl]

include hspacing in
theorem takeMembers_more {depth : Nat} {value : Json} (h : Reads spacing (depth + 1) value)
    (cs : List Char) {more rest : List Char} {members : List (List Char × Json)} {n : Nat}
    (hn : 2 * (write spacing (depth + 1) value).length ≤ n)
    (hmore : takeMembers n more = some (members, rest)) :
    takeMembers (n + 1) ('"' :: (escape cs ++ '"' :: (spacing.colon
      ++ (write spacing (depth + 1) value ++ ',' :: more))))
      = some ((escape cs, value) :: members, rest) := by
  obtain ⟨bs, hcolon, hbs⟩ := hspacing.colon
  have hvalue := h _ n (ended_cons (.inr (.inl rfl)) more) hn
  rw [takeMembers, skip_cons rfl, hcolon]
  simp only [takeString_escape, Option.bind_eq_bind, Option.bind_some, List.cons_append,
    skip_cons (c := ':') rfl, takeValue_append hbs, hvalue, skip_cons (c := ',') rfl, hmore]

/-! ### Reading a tree -/

/-- Items after a first one are read back from their text. -/
def ReadsItems (spacing : Spacing) (depth : Nat) (items : List Json) : Prop :=
  ∀ item rest n, Reads spacing (depth + 1) item →
    2 * ((write spacing (depth + 1) item).length + (writeItems spacing depth items).length) ≤ n →
    takeItems n (write spacing (depth + 1) item ++ (writeItems spacing depth items ++ rest))
      = some (item :: items, rest)

/-- Members after a first one are read back from their text. -/
def ReadsMembers (spacing : Spacing) (depth : Nat) (members : List (List Char × Json)) : Prop :=
  ∀ cs value rest n, Reads spacing (depth + 1) value →
    2 * ((write spacing (depth + 1) value).length + (writeMembers spacing depth members).length) ≤ n →
    takeMembers n ('"' :: (escape cs ++ '"' :: (spacing.colon ++ (write spacing (depth + 1) value
      ++ (writeMembers spacing depth members ++ rest)))))
      = some ((escape cs, value) :: members, rest)

include hspacing in
/-- A tree is read back from its text, and so are the items and the members of one. -/
theorem reads_write :
    (∀ depth j, IsWritten j → Reads spacing depth j) ∧
    (∀ depth members, (∀ m ∈ members, ∃ cs, m.1 = escape cs) → (∀ m ∈ members, IsWritten m.2) →
      ReadsMembers spacing depth members) ∧
    (∀ depth items, (∀ j ∈ items, IsWritten j) → ReadsItems spacing depth items) := by
  -- by induction on how the tree is written; what is left of the fuel is always twice the length
  -- of the text that is left, since no part takes more than two units for a character
  refine write.mutual_induct
    (fun depth j => IsWritten j → Reads spacing depth j)
    (fun depth members => (∀ m ∈ members, ∃ cs, m.1 = escape cs) →
      (∀ m ∈ members, IsWritten m.2) → ReadsMembers spacing depth members)
    (fun depth items => (∀ j ∈ items, IsWritten j) → ReadsItems spacing depth items)
    ?null ?true ?false ?number ?string ?noItems ?items ?noMembers ?members ?lastItem ?moreItems
    ?lastMember ?moreMembers
  case null =>
    intro depth hwritten
    refine reads_of_succ hwritten fun rest n _ _ => ?_
    rw [write, takeValue]
    rfl
  case true =>
    intro depth hwritten
    refine reads_of_succ hwritten fun rest n _ _ => ?_
    rw [write, takeValue]
    rfl
  case false =>
    intro depth hwritten
    refine reads_of_succ hwritten fun rest n _ _ => ?_
    rw [write, takeValue]
    rfl
  case number =>
    intro depth literal hwritten
    refine reads_of_succ hwritten fun rest n hrest _ => ?_
    obtain ⟨numeral, powered, h, rfl⟩ : ∃ (numeral : Numeral) (powered : Bool),
        numeral.Spellable powered ∧ literal = numeral.spell powered := by
      cases hwritten with
      | number h => exact ⟨_, _, h, rfl⟩
    obtain ⟨c, cs, hspell, hc⟩ := spell_head h
    have htaken := takeNumber_spell h hrest
    rw [write, hspell, List.cons_append]
    rw [hspell, List.cons_append] at htaken
    rw [takeValue_number hc, htaken]
    rfl
  case string =>
    rintro depth _ ⟨⟩
    refine reads_of_succ (.string _) fun rest n _ _ => ?_
    rw [write, takeValue, List.append_assoc, List.cons_append, skip_cons rfl]
    simp only [List.cons_append, List.nil_append, takeString_escape]
    rfl
  case noItems =>
    intro depth hwritten
    refine reads_of_succ hwritten fun rest n _ _ => ?_
    rw [write, takeValue]
    rfl
  case items =>
    intro depth item items hitem hitems hwritten
    refine reads_of_succ hwritten fun rest n _ hn => ?_
    have h : ∀ j ∈ item :: items, IsWritten j := by
      cases hwritten with
      | array h => exact h
    -- the first item decides that the array is not closed at once
    obtain ⟨c, cs, hhead, hspace, hc⟩ := write_head spacing (depth + 1) (h item List.mem_cons_self)
    rw [write] at hn ⊢
    simp only [List.length_append, List.length_cons] at hn
    have htaken := hitems (fun j hj => h j (List.mem_cons_of_mem item hj)) item rest n
      (hitem (h item List.mem_cons_self)) (by omega)
    simp only [List.append_assoc, List.cons_append]
    rw [hhead, List.cons_append] at htaken ⊢
    exact takeValue_array (by rw [skip_append (hspacing.lineStart _), skip_cons hspace]) hc htaken
  case noMembers =>
    intro depth hwritten
    refine reads_of_succ hwritten fun rest n _ _ => ?_
    rw [write, takeValue]
    rfl
  case members =>
    intro depth key value members hvalue hmembers hwritten
    refine reads_of_succ hwritten fun rest n _ hn => ?_
    obtain ⟨hkeys, h⟩ : (∀ m ∈ (key, value) :: members, ∃ cs, m.1 = escape cs) ∧
        ∀ m ∈ (key, value) :: members, IsWritten m.2 := by
      cases hwritten with
      | object hkeys h => exact ⟨hkeys, h⟩
    obtain ⟨cs, rfl⟩ : ∃ cs, key = escape cs := hkeys _ List.mem_cons_self
    rw [write] at hn ⊢
    simp only [List.length_append, List.length_cons] at hn
    have htaken := hmembers (fun m hm => hkeys m (List.mem_cons_of_mem _ hm))
      (fun m hm => h m (List.mem_cons_of_mem _ hm)) cs value rest n
      (hvalue (h _ List.mem_cons_self)) (by omega)
    simp only [List.append_assoc, List.cons_append]
    exact takeValue_object (by rw [skip_append (hspacing.lineStart _), skip_cons rfl]) (by decide)
      htaken
  case lastItem =>
    intro depth _ item rest n hitem hn
    rw [writeItems] at hn ⊢
    simp only [List.length_append, List.length_cons, List.length_nil] at hn
    obtain ⟨n, rfl⟩ : ∃ m, n = m + 1 := ⟨n - 1, by omega⟩
    rw [List.append_assoc, List.cons_append, List.nil_append]
    exact takeItems_last hspacing hitem (by omega)
  case moreItems =>
    intro depth item items hitem hitems h first rest n hfirst hn
    rw [writeItems] at hn ⊢
    simp only [List.length_append, List.length_cons] at hn
    obtain ⟨n, rfl⟩ : ∃ m, n = m + 1 := ⟨n - 1, by omega⟩
    have htaken := hitems (fun j hj => h j (List.mem_cons_of_mem item hj)) item rest n
      (hitem (h item List.mem_cons_self)) (by omega)
    simp only [List.append_assoc, List.cons_append]
    exact takeItems_more hfirst (by omega)
      (by rw [takeItems_append (hspacing.lineStart _)]; exact htaken)
  case lastMember =>
    intro depth _ _ cs value rest n hvalue hn
    rw [writeMembers] at hn ⊢
    simp only [List.length_append, List.length_cons, List.length_nil] at hn
    obtain ⟨n, rfl⟩ : ∃ m, n = m + 1 := ⟨n - 1, by omega⟩
    rw [List.append_assoc _ _ rest, List.cons_append, List.nil_append]
    exact takeMembers_last hspacing hvalue cs (by omega)
  case moreMembers =>
    intro depth key value members hvalue hmembers hkeys h cs first rest n hfirst hn
    obtain ⟨ks, rfl⟩ : ∃ ks, key = escape ks := hkeys _ List.mem_cons_self
    rw [writeMembers] at hn ⊢
    simp only [List.length_append, List.length_cons] at hn
    obtain ⟨n, rfl⟩ : ∃ m, n = m + 1 := ⟨n - 1, by omega⟩
    have htaken := hmembers (fun m hm => hkeys m (List.mem_cons_of_mem _ hm))
      (fun m hm => h m (List.mem_cons_of_mem _ hm)) ks value rest n
      (hvalue (h _ List.mem_cons_self)) (by omega)
    simp only [List.append_assoc, List.cons_append]
    exact takeMembers_more hspacing hfirst cs (by omega)
      (by rw [takeMembers_append (hspacing.lineStart _)]; exact htaken)

include hspacing in
/-- A tree that stands alone in its text is parsed, with any blanks between its parts. -/
theorem parse?_write {j : Json} (h : j.IsWritten) :
    parse? (String.ofList (write spacing 0 j)) = some j := by
  have hread := (reads_write hspacing).1 0 j h [] (2 * (write spacing 0 j).length + 2) nofun
    (by omega)
  rw [List.append_nil] at hread
  unfold parse?
  simp only [String.toList_ofList, hread]
  rfl

/-- A tree on lines of its own is read back. -/
theorem parse?_pretty {j : Json} (h : j.IsWritten) : parse? j.pretty = some j :=
  parse?_write Spacing.lines_isBlank h

/-- A tree on one line is read back. -/
theorem parse?_compact {j : Json} (h : j.IsWritten) : parse? j.compact = some j :=
  parse?_write Spacing.none_isBlank h

end ToyCpu.Json
