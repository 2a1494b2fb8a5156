import Mathlib.Data.List.Basic
import ToyCpu.Instruction

/-!
# Capitals have no capitals

A capital form is made of characters that are their own capital forms, so a text in capitals is
not changed by being put into capitals again. For the long runs of letters this is checked by
their ends: the capitals of one run lie outside each other run, or in between its letters. The
capitals that are spelled with several characters are few enough to be looked at one by one.

* `CapitalRun.misses`, `misses_of_mem` — no capital of a run is a letter of a run.
* `upperChar_ne_nil` — every character has a capital form.
* `upperChar_of_mem` — which is made of capitals.
* `not_isSeparator_of_mem_upperChar` — separators come from separators alone.
* `upperCase_eq_self`, `upperCase_upperCase` — a text in capitals stays as it is.
-/

namespace ToyCpu.Text

namespace CapitalRun

/-! ### The ends of a run -/

/-- The code point of the first capital. -/
def lowest (run : CapitalRun) : Nat := (run.first + run.shift).toNat

/-- The code point of the last capital. -/
def highest (run : CapitalRun) : Nat := (run.last + run.shift).toNat

/-- Letters lie one or two code points apart, and all capitals are characters: they begin after
the surrogates or end before these. -/
structure IsRegular (run : CapitalRun) : Prop where
  step : run.step = 1 ∨ run.step = 2
  ordered : run.first ≤ run.last
  start : 0 ≤ run.first + run.shift
  valid : run.highest < 0xd800 ∨ 0xdfff < run.lowest ∧ run.highest < 0x110000

instance (run : CapitalRun) : Decidable run.IsRegular :=
  decidable_of_iff
    ((run.step = 1 ∨ run.step = 2) ∧ run.first ≤ run.last ∧ 0 ≤ run.first + run.shift ∧
      (run.highest < 0xd800 ∨ 0xdfff < run.lowest ∧ run.highest < 0x110000))
    ⟨fun ⟨hstep, hordered, hstart, hvalid⟩ => ⟨hstep, hordered, hstart, hvalid⟩,
      fun h => ⟨h.step, h.ordered, h.start, h.valid⟩⟩

/-- The capitals of the run lie before or behind the letters of the other, or in between: these
letters lie two apart, and so do the capitals unless there is only one. -/
def misses (run other : CapitalRun) : Bool :=
  run.highest < other.first || other.last < run.lowest ||
    ((run.step == 2 || run.lowest == run.highest) && other.step == 2 &&
      (run.lowest + other.first) % 2 == 1)

/-- The code point is not among those from the first to the last capital of the run. -/
def avoids (run : CapitalRun) (n : Nat) : Bool := n < run.lowest || run.highest < n

/-- A letter lies between the ends of its run, on a step. -/
theorem covers_iff {run : CapitalRun} {n : Nat} :
    run.covers n = true ↔ run.first ≤ n ∧ n ≤ run.last ∧ (n - run.first) % run.step = 0 := by
  unfold covers
  simp only [Bool.and_eq_true, decide_eq_true_eq, beq_iff_eq, and_assoc]

/-- The capitals of a run lie as far apart as its letters. -/
theorem IsRegular.lowest_add {run : CapitalRun} (h : run.IsRegular) :
    run.lowest + run.last = run.highest + run.first := by
  have hordered := h.ordered
  have hstart := h.start
  unfold lowest highest
  omega

/-- The capital of a letter lies as far from the first capital as the letter from the first
letter. -/
theorem IsRegular.toNat_capital {run : CapitalRun} (h : run.IsRegular) {n : Nat}
    (hn : run.covers n = true) : (run.capital n).toNat = run.lowest + (n - run.first) := by
  obtain ⟨hfirst, hlast, -⟩ := covers_iff.mp hn
  have hstart := h.start
  have hends := h.lowest_add
  have hplace : (n + run.shift).toNat = run.lowest + (n - run.first) := by
    unfold lowest
    omega
  have hvalid : (run.lowest + (n - run.first)).isValidChar := by
    rcases h.valid with hlow | ⟨hlow, hhigh⟩
    · exact .inl (by omega)
    · exact .inr ⟨by omega, by omega⟩
  rw [capital, hplace, Char.ofNat, dif_pos hvalid]
  rfl

/-- The capitals lie between the first and the last one. -/
theorem IsRegular.avoids_eq_false {run : CapitalRun} (h : run.IsRegular) {n : Nat}
    (hn : run.covers n = true) : run.avoids (run.capital n).toNat = false := by
  obtain ⟨hfirst, hlast, -⟩ := covers_iff.mp hn
  have hends := h.lowest_add
  rw [h.toNat_capital hn, avoids]
  simp only [Bool.or_eq_false_iff, decide_eq_false_iff_not]
  omega

/-- A capital of a run that misses another one is no letter of that. -/
theorem IsRegular.not_covers {run other : CapitalRun} (h : run.IsRegular) {n : Nat}
    (hn : run.covers n = true) (hmisses : run.misses other = true) :
    other.covers (run.capital n).toNat = false := by
  rw [Bool.eq_false_iff, h.toNat_capital hn, Ne, covers_iff]
  rintro ⟨hafter, hbefore, hstep⟩
  obtain ⟨hfirst, hlast, hon⟩ := covers_iff.mp hn
  have hends := h.lowest_add
  unfold misses at hmisses
  simp only [Bool.or_eq_true, Bool.and_eq_true, decide_eq_true_eq, beq_iff_eq] at hmisses
  rcases hmisses with (hbehind | hahead) | ⟨⟨htwo | hsingle, hother⟩, hodd⟩
  · omega
  · omega
  · -- the capital has the parity of the first one, and the letters of the other run have not
    rw [htwo] at hon
    rw [hother] at hstep
    omega
  · rw [hother] at hstep
    omega

end CapitalRun

/-! ### What the data have in common -/

theorem regular_of_mem : ∀ run ∈ capitalRuns, run.IsRegular := by decide +kernel

/-- No capital of a run is a letter of any run. -/
theorem misses_of_mem : ∀ run ∈ capitalRuns, ∀ other ∈ capitalRuns, run.misses other = true := by
  have hall : capitalRuns.all (fun run => capitalRuns.all run.misses) = true := by decide +kernel
  intro run hrun other hother
  exact List.all_eq_true.mp (List.all_eq_true.mp hall run hrun) other hother

/-- No capital of a run is a letter whose capital is spelled. -/
theorem avoids_of_mem :
    ∀ run ∈ capitalRuns, ∀ entry ∈ spelledCapitals, run.avoids entry.1 = true := by
  have hall : capitalRuns.all (fun run => spelledCapitals.all (run.avoids ·.1)) = true := by
    decide +kernel
  intro run hrun entry hentry
  exact List.all_eq_true.mp (List.all_eq_true.mp hall run hrun) entry hentry

theorem not_isSeparator_of_mem_run : ∀ run ∈ capitalRuns, ∀ i < run.last + 1 - run.first,
    Instruction.isSeparator (run.capital (run.first + i)) = false := by
  decide +kernel

theorem spelling_of_mem : ∀ entry ∈ spelledCapitals, entry.2 ≠ [] ∧ ∀ n ∈ entry.2,
    upperChar (Char.ofNat n) = [Char.ofNat n] ∧
      Instruction.isSeparator (Char.ofNat n) = false := by
  decide +kernel

/-! ### The capital form of a character -/

/-- A character is a letter of a run, or one whose capital is spelled, or its own capital. -/
theorem upperChar_cases (c : Char) :
    (∃ run ∈ capitalRuns, run.covers c.toNat = true ∧ upperChar c = [run.capital c.toNat]) ∨
      (∃ spelling, (c.toNat, spelling) ∈ spelledCapitals ∧
        upperChar c = spelling.map Char.ofNat) ∨
      upperChar c = [c] := by
  unfold upperChar
  cases hrun : capitalRuns.find? (·.covers c.toNat) with
  | some run =>
    have hcovers := List.find?_some (p := fun run : CapitalRun => run.covers c.toNat) hrun
    exact .inl ⟨run, List.mem_of_find?_eq_some hrun, hcovers, rfl⟩
  | none =>
    cases hspelling : spelledCapitals.lookup c.toNat with
    | some spelling =>
      obtain ⟨before, after, hsplit, -⟩ := List.lookup_eq_some_iff.mp hspelling
      have hmem : (c.toNat, spelling) ∈ spelledCapitals := by
        rw [hsplit]
        exact List.mem_append_right before List.mem_cons_self
      exact .inr (.inl ⟨spelling, hmem, rfl⟩)
    | none => exact .inr (.inr rfl)

/-- Every capital form has a character. -/
theorem upperChar_ne_nil (c : Char) : upperChar c ≠ [] := by
  rcases upperChar_cases c with ⟨run, -, -, h⟩ | ⟨spelling, hmem, h⟩ | h
  · rw [h]
    exact List.cons_ne_nil _ _
  · rw [h]
    exact mt List.map_eq_nil_iff.mp (spelling_of_mem _ hmem).1
  · rw [h]
    exact List.cons_ne_nil _ _

/-- The capital of a letter of a run is its own capital. -/
theorem upperChar_capital {run : CapitalRun} (hrun : run ∈ capitalRuns) {n : Nat}
    (hn : run.covers n = true) : upperChar (run.capital n) = [run.capital n] := by
  have hregular := regular_of_mem run hrun
  -- the runs miss each other, so none of them is found for a capital
  have hruns : capitalRuns.find? (·.covers (run.capital n).toNat) = none := by
    refine List.find?_eq_none.mpr fun other hother => ?_
    rw [hregular.not_covers hn (misses_of_mem run hrun other hother)]
    exact Bool.false_ne_true
  have hspelled : spelledCapitals.lookup (run.capital n).toNat = none := by
    refine List.lookup_eq_none_iff.mpr fun entry hentry => ?_
    rw [bne_iff_ne]
    -- no letter that is spelled lies where the capitals of the run lie
    intro heq
    have havoids := avoids_of_mem run hrun entry hentry
    rw [← heq, hregular.avoids_eq_false hn] at havoids
    exact Bool.false_ne_true havoids
  unfold upperChar
  rw [hruns, hspelled]

/-- The characters of a capital form are their own capital forms. -/
theorem upperChar_of_mem {c d : Char} (hd : d ∈ upperChar c) : upperChar d = [d] := by
  rcases upperChar_cases c with ⟨run, hrun, hcovers, h⟩ | ⟨spelling, hmem, h⟩ | h
  · rw [h] at hd
    rw [List.mem_singleton.mp hd]
    exact upperChar_capital hrun hcovers
  · rw [h] at hd
    obtain ⟨n, hn, rfl⟩ := List.mem_map.mp hd
    exact ((spelling_of_mem _ hmem).2 n hn).1
  · rw [h] at hd
    rw [List.mem_singleton.mp hd]
    exact h

/-- A character that is no separator has no separator in its capital form. -/
theorem not_isSeparator_of_mem_upperChar {c d : Char} (hc : Instruction.isSeparator c = false)
    (hd : d ∈ upperChar c) : Instruction.isSeparator d = false := by
  rcases upperChar_cases c with ⟨run, hrun, hcovers, h⟩ | ⟨spelling, hmem, h⟩ | h
  · rw [h] at hd
    obtain ⟨hfirst, hlast, -⟩ := CapitalRun.covers_iff.mp hcovers
    have hunseparating := not_isSeparator_of_mem_run run hrun (c.toNat - run.first) (by omega)
    rw [Nat.add_sub_cancel' hfirst] at hunseparating
    rw [List.mem_singleton.mp hd]
    exact hunseparating
  · rw [h] at hd
    obtain ⟨n, hn, rfl⟩ := List.mem_map.mp hd
    exact ((spelling_of_mem _ hmem).2 n hn).2
  · rw [h] at hd
    rw [List.mem_singleton.mp hd]
    exact hc

/-! ### The capital form of a text -/

@[simp] theorem toList_upperCase (text : String) :
    (upperCase text).toList = text.toList.flatMap upperChar := by
  rw [upperCase, String.toList_ofList]

/-- A text of capitals is its own capital form. -/
theorem upperCase_eq_self {text : String} (h : ∀ c ∈ text.toList, upperChar c = [c]) :
    upperCase text = text := by
  rw [upperCase, List.flatMap_congr h, List.flatMap_singleton', String.ofList_toList]

/-- Capitals are left as they are. -/
theorem upperCase_upperCase (text : String) : upperCase (upperCase text) = upperCase text := by
  refine upperCase_eq_self fun d hd => ?_
  rw [toList_upperCase] at hd
  obtain ⟨c, -, hc⟩ := List.mem_flatMap.mp hd
  exact upperChar_of_mem hc

/-- A text with characters has some in capitals. -/
theorem upperCase_ne_nil {text : String} (h : text.toList ≠ []) : (upperCase text).toList ≠ [] := by
  rw [toList_upperCase]
  intro hnil
  obtain ⟨c, hc⟩ := List.exists_mem_of_ne_nil _ h
  exact upperChar_ne_nil c (List.flatMap_eq_nil_iff.mp hnil c hc)

end ToyCpu.Text
