import ToyCpu.Proofs.Capitals
import ToyCpu.Proofs.Faults

/-!
# Decoding and display

Which words a text has is said without an order in which it is read: separators, then a word that
is as long as can be, then the words of what is left. The words are all that decoding looks at.
The display of a decoded instruction has the words of the instruction, and in capitals the
mnemonic is its own capital form. So decoding a display gives the instruction back.

* `Text.Words` — the words of a text, with whatever separates them.
* `Text.words_iff` — they are its tokens, so there is just one list of them.
* `Instruction.Spelled`, `Instruction.spelled_decode` — the instructions that texts write.
* `Instruction.Spelled.decode_display` — such an instruction is decoded from its display.
* `Instruction.decode_inverts_display` — what decoding makes of a text, and that the display,
  wherever it is told, tells it.
-/

namespace ToyCpu

/-! ### Words -/

namespace Text

variable {isSeparator : Char → Bool}

/-- The words of a text, in order. A word has no separator in it, and goes on for as long as there
is none. -/
inductive Words (isSeparator : Char → Bool) : List Char → List (List Char) → Prop
  /-- Nothing but separators, of any number. -/
  | blank {gap : List Char} (hgap : ∀ c ∈ gap, isSeparator c = true) : Words isSeparator gap []
  /-- Any number of separators, a word, and a text that begins with a separator unless it is
  empty. -/
  | word {gap word rest : List Char} {words : List (List Char)}
      (hgap : ∀ c ∈ gap, isSeparator c = true) (hnonempty : word ≠ [])
      (hword : ∀ c ∈ word, isSeparator c = false)
      (hrest : ∀ c ∈ rest.head?, isSeparator c = true) (h : Words isSeparator rest words) :
      Words isSeparator (gap ++ (word ++ rest)) (word :: words)

/-- A separator at the front belongs to no word. -/
theorem tokens_cons_of_isSeparator {c : Char} (hc : isSeparator c = true) (cs : List Char) :
    tokens isSeparator (c :: cs) = tokens isSeparator cs := by
  have hsplit : (c :: cs).splitOnP isSeparator = [] :: cs.splitOnP isSeparator := by
    have h := List.splitOnP_append_cons [] cs hc
    rw [List.splitOnP_nil] at h
    exact h
  rw [tokens, hsplit]
  rfl

theorem tokens_gap_append {gap : List Char} (hgap : ∀ c ∈ gap, isSeparator c = true)
    (cs : List Char) : tokens isSeparator (gap ++ cs) = tokens isSeparator cs := by
  induction gap with
  | nil => rfl
  | cons c gap ih =>
    rw [List.cons_append, tokens_cons_of_isSeparator (hgap c List.mem_cons_self)]
    exact ih fun d hd => hgap d (List.mem_cons_of_mem c hd)

/-- A word is a token when it ends with the text or before a separator. -/
theorem tokens_word_append {word rest : List Char} (hnonempty : word ≠ [])
    (hword : ∀ c ∈ word, isSeparator c = false)
    (hrest : ∀ c ∈ rest.head?, isSeparator c = true) :
    tokens isSeparator (word ++ rest) = word :: tokens isSeparator rest := by
  have hsingle : word.splitOnP isSeparator = [word] := List.splitOnP_eq_singleton hword
  have hkept : [word].filter (!·.isEmpty) = [word] := by
    rw [List.filter_singleton, List.isEmpty_eq_false_iff.mpr hnonempty]
    rfl
  cases rest with
  | nil =>
    rw [List.append_nil, tokens, hsingle, hkept]
    rfl
  | cons sep rest =>
    have hsep := hrest sep rfl
    rw [tokens_cons_of_isSeparator hsep, tokens, List.splitOnP_append_cons word rest hsep,
      List.filter_append, hsingle, hkept]
    rfl

theorem Words.tokens_eq {cs : List Char} {words : List (List Char)}
    (h : Words isSeparator cs words) : tokens isSeparator cs = words := by
  induction h with
  | @blank gap hgap =>
    have htokens := tokens_gap_append hgap []
    rw [List.append_nil] at htokens
    exact htokens
  | word hgap hnonempty hword hrest _ ih =>
    rw [tokens_gap_append hgap, tokens_word_append hnonempty hword hrest, ih]

theorem Words.first {word rest : List Char} {words : List (List Char)} (hnonempty : word ≠ [])
    (hword : ∀ c ∈ word, isSeparator c = false) (hrest : ∀ c ∈ rest.head?, isSeparator c = true)
    (h : Words isSeparator rest words) : Words isSeparator (word ++ rest) (word :: words) := by
  rw [← List.nil_append (word ++ rest)]
  exact .word nofun hnonempty hword hrest h

variable (isSeparator) in
/-- Every text has words: a character more goes to the separators before them, or to the first
word, or makes a word of its own. -/
theorem exists_words (cs : List Char) : ∃ words, Words isSeparator cs words := by
  induction cs with
  | nil => exact ⟨[], .blank nofun⟩
  | cons c cs ih =>
    obtain ⟨words, hwords⟩ := ih
    cases hc : isSeparator c with
    | true =>
      have hmore : ∀ {gap : List Char}, (∀ d ∈ gap, isSeparator d = true) →
          ∀ d ∈ c :: gap, isSeparator d = true :=
        fun hgap => List.forall_mem_cons.mpr ⟨hc, hgap⟩
      cases hwords with
      | blank hgap => exact ⟨[], .blank (hmore hgap)⟩
      | word hgap hnonempty hword hrest h =>
        exact ⟨_, .word (hmore hgap) hnonempty hword hrest h⟩
    | false =>
      have halone : ∀ d ∈ [c], isSeparator d = false := List.forall_mem_singleton.mpr hc
      cases hwords with
      | @blank gap hgap =>
        refine ⟨[[c]], .first (List.cons_ne_nil c []) halone ?_ (.blank hgap)⟩
        exact fun d hd => hgap d (List.mem_of_mem_head? hd)
      | @word gap word rest words hgap hnonempty hword hrest h =>
        cases gap with
        | nil =>
          -- the text began with a word already
          exact ⟨(c :: word) :: words, .first (List.cons_ne_nil c word)
            (List.forall_mem_cons.mpr ⟨hc, hword⟩) hrest h⟩
        | cons sep gap =>
          -- the text began with a separator, which ends the new word
          refine ⟨[c] :: word :: words, .first (List.cons_ne_nil c []) halone ?_
            (.word hgap hnonempty hword hrest h)⟩
          intro d hd
          rw [← Option.some.inj hd]
          exact hgap sep List.mem_cons_self

/-- The words of a text are its tokens. -/
theorem words_iff {cs : List Char} {words : List (List Char)} :
    Words isSeparator cs words ↔ tokens isSeparator cs = words := by
  constructor
  · exact Words.tokens_eq
  · rintro rfl
    obtain ⟨words, hwords⟩ := exists_words isSeparator cs
    rw [hwords.tokens_eq]
    exact hwords

theorem Words.forall_mem {cs : List Char} {words : List (List Char)}
    (h : Words isSeparator cs words) :
    ∀ word ∈ words, word ≠ [] ∧ ∀ c ∈ word, isSeparator c = false := by
  induction h with
  | blank => nofun
  | word _ hnonempty hword _ _ ih => exact List.forall_mem_cons.mpr ⟨⟨hnonempty, hword⟩, ih⟩

end Text

open Text

namespace Instruction

/-! ### Instructions that are written -/

/-- A word of an instruction. -/
structure IsToken (token : String) : Prop where
  nonempty : token.toList ≠ []
  unseparated : ∀ c ∈ token.toList, isSeparator c = false

/-- The instructions that a text can write: none at all, or a word in capitals with words
behind it. -/
inductive Spelled : Instruction → Prop
  | blank : Spelled ⟨"", []⟩
  | words {op : String} {operands : List String} (hop : IsToken op)
      (hcapitals : upperCase op = op) (hoperands : ∀ token ∈ operands, IsToken token) :
      Spelled ⟨op, operands⟩

/-- Decoding looks at the words of a text, and at nothing else. -/
theorem decode_of_words {text : String} {words : List (List Char)}
    (h : Words isSeparator text.toList words) :
    decode text = ⟨upperCase (.ofList (words.headD [])), words.tail.map .ofList⟩ := by
  rw [decode, h.tokens_eq]
  cases words with
  | nil => rfl
  | cons op operands => rfl

theorem Spelled.isToken_of_mem {inst : Instruction} (h : inst.Spelled) {token : String}
    (htoken : token ∈ inst.operands) : IsToken token := by
  cases h with
  | blank => cases htoken
  | words _ _ hoperands => exact hoperands token htoken

/-- A word in capitals is a word. -/
theorem IsToken.upperCase {token : String} (h : IsToken token) : IsToken (upperCase token) where
  nonempty := upperCase_ne_nil h.nonempty
  unseparated d hd := by
    rw [toList_upperCase] at hd
    obtain ⟨c, hc, hd⟩ := List.mem_flatMap.mp hd
    exact not_isSeparator_of_mem_upperChar (h.unseparated c hc) hd

theorem spelled_decode (text : String) : Spelled (decode text) := by
  obtain ⟨words, hwords⟩ := exists_words isSeparator text.toList
  have htokens : ∀ word ∈ words, IsToken (.ofList word) := by
    intro word hword
    have hsound := hwords.forall_mem word hword
    constructor
    · rw [String.toList_ofList]
      exact hsound.1
    · rw [String.toList_ofList]
      exact hsound.2
  rw [decode_of_words hwords]
  cases words with
  | nil => exact .blank
  | cons op operands =>
    obtain ⟨hop, hoperands⟩ := List.forall_mem_cons.mp htokens
    refine .words hop.upperCase (upperCase_upperCase _) ?_
    exact List.forall_mem_map.mpr hoperands

/-! ### Display -/

/-- Operands with a comma and a blank between them are as many words. -/
theorem tokens_intercalate {operands : List String}
    (h : ∀ token ∈ operands, IsToken token) :
    tokens isSeparator (", ".intercalate operands).toList = operands.map String.toList := by
  induction operands with
  | nil => rfl
  | cons token operands ih =>
    obtain ⟨htoken, hoperands⟩ := List.forall_mem_cons.mp h
    cases operands with
    | nil =>
      rw [String.intercalate_singleton, ← List.append_nil token.toList]
      exact tokens_word_append htoken.nonempty htoken.unseparated nofun
    | cons token' operands =>
      have hcomma : ∀ c ∈ ", ".toList, isSeparator c = true := by simp [isSeparator, isBlank]
      rw [String.intercalate_cons_cons, String.toList_append, String.toList_append,
        List.append_assoc, tokens_word_append htoken.nonempty htoken.unseparated,
        tokens_gap_append hcomma, ih hoperands]
      · rfl
      · intro c hc
        exact hcomma c (List.mem_of_mem_head? hc)

/-- The words of a display are the mnemonic and the operands. -/
theorem tokens_display {op : String} {operands : List String} (hop : IsToken op)
    (hoperands : ∀ token ∈ operands, IsToken token) :
    tokens isSeparator (display ⟨op, operands⟩).toList
      = op.toList :: operands.map String.toList := by
  cases operands with
  | nil =>
    -- without operands the display is the mnemonic
    have hsingle := tokens_intercalate (List.forall_mem_singleton.mpr hop)
    rw [String.intercalate_singleton] at hsingle
    exact hsingle
  | cons token operands =>
    have hblank : ∀ c ∈ " ".toList, isSeparator c = true := by simp [isSeparator, isBlank]
    show tokens isSeparator (op ++ " " ++ ", ".intercalate (token :: operands)).toList = _
    rw [String.toList_append, String.toList_append, List.append_assoc,
      tokens_word_append hop.nonempty hop.unseparated, tokens_gap_append hblank,
      tokens_intercalate hoperands]
    intro c hc
    exact hblank c (List.mem_of_mem_head? hc)

/-- An instruction that a text can write is written by its display. -/
theorem Spelled.decode_display {inst : Instruction} (h : inst.Spelled) :
    decode inst.display = inst := by
  cases h with
  | blank => rfl
  | @words op operands hop hcapitals hoperands =>
    rw [decode_of_words (words_iff.mpr (tokens_display hop hoperands))]
    show Instruction.mk (Text.upperCase (.ofList op.toList))
      ((operands.map String.toList).map .ofList) = _
    rw [String.ofList_toList, hcapitals, List.map_map]
    congr 1
    exact List.map_id'' (fun token => String.ofList_toList) operands

/-- A text has just one list of words. Whichever text has them decodes to the first of them in
capitals and to the others as they are. The display of what is decoded is decoded to the same
again, and so is what a decoding phase and the fault about an unknown instruction tell. -/
theorem decode_inverts_display (text : String) :
    (∃ words, (∀ words', Words isSeparator text.toList words' ↔ words' = words) ∧
      ∀ text' : String, Words isSeparator text'.toList words →
        decode text' = ⟨upperCase (.ofList (words.headD [])), words.tail.map .ofList⟩) ∧
    decode (decode text).display = decode text ∧
    (∀ (m : Machine) (c : Cycle), c.next = .decode → c.text = text →
      ∃ shown, (Session.phaseResult m c).content = "Decoded: " ++ shown ∧
        decode shown = decode text) ∧
    ∀ (regs : Registers) (mem : Memory) (shown : String),
      execute (decode text) regs mem = .error (.unknownInstruction shown) →
        decode shown = decode text := by
  have hinverse := (spelled_decode text).decode_display
  refine ⟨⟨tokens isSeparator text.toList, ?_, ?_⟩, hinverse, ?_, ?_⟩
  · intro words'
    rw [words_iff, eq_comm]
  · intro text' hwords
    exact decode_of_words hwords
  · rintro m c hnext rfl
    refine ⟨(decode c.text).display, ?_, hinverse⟩
    rw [Session.phaseResult, hnext]
    rfl
  · intro regs mem shown h
    cases refused_of_error h with
    | unknown => exact hinverse

/-- The capital of the first word has a letter more, and all separators but one are lost. -/
example : decode ",ß\u3000 x,," = ⟨"SS", ["x"]⟩ ∧ (decode ",ß\u3000 x,,").display = "SS x" := by
  decide

end Instruction

end ToyCpu
