/-!
# Blanks, trimming and splitting

What counts as a blank is the `White_Space` property: the ASCII blanks and
seventeen characters beyond them (U+0085, U+00A0, U+3000 and others), but not
U+200B or U+FEFF.

* `isBlank` — the property.
* `trim` — a text without the blanks at its two ends.
* `trimChars_eq_self`, `trimChars_trimChars` — there is nothing to trim without a blank, nor a
  second time.
* `tokens`, `lines` — the stretches between separators.
* `cutAtBlank` — a text cut at its first blank.
-/

namespace ToyCpu.Text

/-- The characters with the `White_Space` property. -/
def isBlank (c : Char) : Bool :=
  let n := c.toNat
  (9 ≤ n && n ≤ 13) || n == 0x20 || n == 0x85 || n == 0xa0 || n == 0x1680 ||
  (0x2000 ≤ n && n ≤ 0x200a) || n == 0x2028 || n == 0x2029 || n == 0x202f ||
  n == 0x205f || n == 0x3000

/-- The printable ASCII characters but for the space are no blanks. -/
theorem not_isBlank_of_printable {c : Char} (hlow : 0x20 < c.toNat) (hhigh : c.toNat < 0x7f) :
    isBlank c = false := by
  unfold isBlank
  simp only [Bool.or_eq_false_iff, Bool.and_eq_false_iff, beq_eq_false_iff_ne,
    decide_eq_false_iff_not]
  omega

/-! ### Trimming -/

/-- The characters from the first to the last that is no blank. -/
def trimChars (cs : List Char) : List Char :=
  ((cs.dropWhile isBlank).reverse.dropWhile isBlank).reverse

/-- The text without the blanks at its two ends. -/
def trim (text : String) : String :=
  String.ofList (trimChars text.toList)

@[simp] theorem toList_trim (text : String) : (trim text).toList = trimChars text.toList := by
  simp [trim]

@[simp] theorem trimChars_nil : trimChars [] = [] := rfl

theorem dropWhile_isBlank_eq_self {cs : List Char} (h : ∀ c ∈ cs.head?, isBlank c = false) :
    cs.dropWhile isBlank = cs := by
  cases cs with
  | nil => rfl
  | cons c cs => exact List.dropWhile_cons_of_neg (by rw [h c rfl]; decide)

theorem not_isBlank_of_mem_head?_dropWhile (cs : List Char) :
    ∀ c ∈ (cs.dropWhile isBlank).head?, isBlank c = false := by
  intro c hc
  have hnot := List.head?_dropWhile_not isBlank cs
  rw [Option.mem_def.mp hc] at hnot
  exact hnot

/-- There is nothing to trim where there is no blank. -/
theorem trimChars_eq_self {cs : List Char} (h : ∀ c ∈ cs, isBlank c = false) :
    trimChars cs = cs := by
  have hfront : ∀ c ∈ cs.head?, isBlank c = false := fun c hc => h c (List.mem_of_mem_head? hc)
  have hback : ∀ c ∈ cs.reverse.head?, isBlank c = false :=
    fun c hc => h c (List.mem_reverse.mp (List.mem_of_mem_head? hc))
  rw [trimChars, dropWhile_isBlank_eq_self hfront, dropWhile_isBlank_eq_self hback,
    List.reverse_reverse]

/-- A trimmed text has no blank at its front. -/
theorem not_isBlank_of_mem_head?_trimChars {cs : List Char} :
    ∀ c ∈ (trimChars cs).head?, isBlank c = false := by
  intro c hc
  refine not_isBlank_of_mem_head?_dropWhile cs c ?_
  -- the blanks trimmed at the back leave the front as it is
  obtain ⟨blanks, hblanks⟩ :=
    List.dropWhile_suffix isBlank (l := (cs.dropWhile isBlank).reverse)
  have hsplit := congrArg List.reverse hblanks
  rw [List.reverse_append, List.reverse_reverse] at hsplit
  obtain ⟨rest, hrest⟩ := List.head?_eq_some_iff.mp hc
  rw [trimChars] at hrest
  rw [← hsplit, hrest]
  rfl

/-- A trimmed text stays as it is when it is trimmed again. -/
@[simp] theorem trimChars_trimChars (cs : List Char) : trimChars (trimChars cs) = trimChars cs := by
  have hback : (trimChars cs).reverse.dropWhile isBlank = (trimChars cs).reverse := by
    refine dropWhile_isBlank_eq_self ?_
    rw [trimChars, List.reverse_reverse]
    exact not_isBlank_of_mem_head?_dropWhile _
  rw [trimChars, dropWhile_isBlank_eq_self not_isBlank_of_mem_head?_trimChars, hback,
    List.reverse_reverse]

/-! ### Splitting -/

/-- The maximal stretches without a separator. -/
def tokens (isSeparator : Char → Bool) (cs : List Char) : List (List Char) :=
  (cs.splitOnP isSeparator).filter (!·.isEmpty)

/-- The trimmed lines of a text that are not blank, in order. -/
def lines (text : String) : List String :=
  (((text.toList.splitOn '\n').map trimChars).filter (!·.isEmpty)).map String.ofList

/-- The text before its first blank and the text after it; `none` if it has no blank. -/
def cutAtBlank (text : String) : Option (String × String) :=
  match text.toList.dropWhile (!isBlank ·) with
  | [] => none
  | _ :: rest => some (String.ofList (text.toList.takeWhile (!isBlank ·)), String.ofList rest)

end ToyCpu.Text
