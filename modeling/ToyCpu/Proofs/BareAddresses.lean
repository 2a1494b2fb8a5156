import ToyCpu.Proofs.NumberGrammar
import ToyCpu.Proofs.StoredValues

/-!
# Bare addresses

A token of digits is read as an address in two ways. The executor takes it for a number, which is
rounded, and asks which address the number is worth; the resolver adds up the digits. Rounding
loses nothing that an address could have, and it does not make an address out of what is none, so
both ways come to the same address and a load gives what a move gives.

* `Operand.coerce?_of_isBare` — digits are taken for the float nearest to what they add up to.
* `Operand.address?_eq_bareAddress?` — the two ways of reading a token.
* `bare_address_agreement` — loads and moves from bare addresses.
-/

namespace ToyCpu

open Binary64

variable {token : String}

/-- However many digits there are, they are taken for the nearest float. -/
theorem Operand.coerce?_of_isBare (h : IsBare token) : ∃ x, coerce? token = some x ∧
    IsNearest (decimalNatural (Text.trimChars token.toList)) x := by
  have hspell : DigitsSpell 10 (Text.trimChars token.toList) _ :=
    digitsSpell_ten_iff.mpr ⟨h.digits, rfl⟩
  obtain ⟨numeral, hread, hsign, hvalue⟩ :=
    Numeral.ofChars?_of_mantissa .none (.whole hspell h.nonempty) .none
  obtain ⟨-, hnearest⟩ := Numeral.isNearest_toFloat (Numeral.chars_of_ofChars? hread).1
  rw [List.nil_append, List.append_nil] at hread
  rw [hsign, signed_false, hvalue, Nat.cast_zero, sub_zero, zpow_zero, mul_one] at hnearest
  exact ⟨numeral.toFloat, Numeral.number?_eq hread, hnearest⟩

/-- An address is what digits add up to if it is what their number is worth: below `2 ^ 32` the
number is exact, and from there on it does not come down again. -/
theorem Operand.address?_eq_bareAddress? (h : IsBare token) :
    address? token = bareAddress? (Text.trimChars token.toList) := by
  obtain ⟨x, hread, hnearest⟩ := coerce?_of_isBare h
  refine Option.ext fun a => ?_
  rw [address?_eq_some_iff, bareAddress?_eq_some_iff]
  have hworth : IsWorth x a.toNat ↔ a.toNat = decimalNatural (Text.trimChars token.toList) :=
    isWorth_iff_of_isNearest hnearest (Nat.lt_trans a.toNat_lt (by decide))
  constructor
  · rintro ⟨y, hy, ha⟩
    obtain rfl := Option.some.inj (hread.symm.trans hy)
    exact (hworth.mp ha).symm
  · intro ha
    exact ⟨x, hread, hworth.mpr ha.symm⟩

theorem Value.parse_ne_empty (text : String) : parse text ≠ .empty := by
  unfold parse
  split
  · exact nofun
  · split
    · exact nofun
    · exact nofun

variable {regs : Registers} {mem : Memory} {dest source : String} {r : Register} {v : Value}

/-- A move puts what its operand stands for into its register. -/
theorem move_of_resolve {rest : List String} (hdest : r.IsNamedBy dest)
    (hsource : Operand.resolve (some source) regs mem = .ok v) :
    ∃ moved, execute ⟨"MOV", dest :: source :: rest⟩ regs mem = .ok moved ∧
      moved.registers.get r = v := by
  have hmove : execute ⟨"MOV", dest :: source :: rest⟩ regs mem
      = executeMov (dest :: source :: rest) regs mem := execute_of_op (k := .mov) rfl
  have hregister := Registers.get_set regs r r v
  rw [if_pos rfl] at hregister
  unfold executeMov at hmove
  simp only [hsource, destination_of_isNamedBy hdest] at hmove
  exact ⟨_, hmove, hregister⟩

/-- The executor and the resolver name the same address by a token of digits, or both none. A move
from the token gives an empty value exactly if a load from it is refused for there being no such
cell; otherwise the load is carried out and puts the same value into its register. -/
theorem bare_address_agreement (h : Operand.IsBare token) :
    Operand.address? token = Operand.bareAddress? (Text.trimChars token.toList) ∧
    ∀ (regs : Registers) (mem : Memory) (dest : String) (r : Register) (rest rest' : List String),
      r.IsNamedBy dest →
      ∃ moved, execute ⟨"MOV", dest :: token :: rest⟩ regs mem = .ok moved ∧
        (execute ⟨"LOAD", dest :: token :: rest'⟩ regs mem = .error (.addressNotFound token) ↔
          moved.registers.get r = .empty) ∧
        (moved.registers.get r ≠ .empty →
          ∃ loaded, execute ⟨"LOAD", dest :: token :: rest'⟩ regs mem = .ok loaded ∧
            loaded.registers.get r = moved.registers.get r) := by
  have hagree := Operand.address?_eq_bareAddress? h
  refine ⟨hagree, fun regs mem dest r rest rest' hdest => ?_⟩
  have hresolve := @Operand.resolve_of_isBare regs mem token h
  rw [← hagree] at hresolve
  obtain ⟨moved, hmove, hvalue⟩ := @move_of_resolve _ _ dest token r _ rest hdest hresolve
  refine ⟨moved, hmove, ?_⟩
  rw [hvalue]
  -- both instructions read the one cell that the token names, if there is one
  cases hcell : (Operand.address? token).bind mem.read? with
  | none =>
    have hload : execute ⟨"LOAD", dest :: token :: rest'⟩ regs mem
        = .error (.addressNotFound token) := by
      refine (execute_of_op (k := .load) rfl).trans (executeLoad_of_no_cell fun a ha => ?_)
      rw [← Operand.address?_eq_some_iff] at ha
      rwa [ha, Option.bind_some] at hcell
    exact ⟨⟨fun _ => rfl, fun _ => hload⟩, fun hne => absurd rfl hne⟩
  | some text =>
    obtain ⟨a, haddress, hread⟩ := Option.bind_eq_some_iff.mp hcell
    have hnames := Operand.address?_eq_some_iff.mp haddress
    obtain ⟨loaded, hload, hsame, -⟩ :=
      @load_of_read regs mem rest' dest token text a r hnames hdest hread
    constructor
    · rw [hload]
      exact ⟨nofun, fun hempty => absurd hempty (Value.parse_ne_empty text)⟩
    · exact fun _ => ⟨loaded, hload, hsame⟩

/-- The first number that is no address, with zeros before it. -/
theorem bare_address_past_the_last : Operand.IsBare " 0004294967296" ∧
    Operand.address? " 0004294967296" = none := by
  have hbare : Operand.IsBare " 0004294967296" := ⟨by decide, List.all_eq_true.mp rfl⟩
  exact ⟨hbare, (bare_address_agreement hbare).1.trans (by decide)⟩

end ToyCpu
