import ToyCpu.Proofs.Nearest
import ToyCpu.Proofs.SnapshotCodec
import ToyCpu.Trace.Log

/-!
# Trace lines that read back

An event is read from the line that it is written to, with its counts up to 64 bits and its texts
of any characters. The kind of an event decides how it is read, so all its fields are set aside
until the kind is found, which asks of the numbers that they are no larger than floats. A line
feed in a text is escaped, and there is none elsewhere in a line. So the lines of a trace can be
told apart, and the whole trace is read back.

* `Json.isSound_record`, `TraceEvent.isSound_toJson` — what can be set aside.
* `Json.partition_tagged` — the kind is found among the fields.
* `TraceEvent.ofLine?_line` — a line is read as its event.
* `Json.IsWritten.not_mem_write` — there is no line feed in a tree on one line.
* `TraceEvent.jsonLines_lossless` — a trace is read back from its lines.
-/

namespace ToyCpu

/-! ### Numbers that are set aside -/

/-- A natural number of 64 bits is read as a finite float. -/
theorem Numeral.magnitude_toDigits_lt {n : Nat} (h : n < 2 ^ 64) :
    Binary64.magnitude (Numeral.toFloat ⟨false, Nat.toDigits 10 n, [], 0⟩) <
      Binary64.infinityWord := by
  -- the rounding is told how many digits there are, so the number has to fit into them
  have hlt : n < 10 ^ (Nat.toDigits 10 n).length := by
    have hdigits := decimalNatural_lt fun c hc => isDigit_of_mem_digits (n := n) hc
    rwa [decimalNatural_toDigits] at hdigits
  have hrounded := isRounded_scaledWord (e := 0) hlt
  rw [zpow_zero, mul_one] at hrounded
  rw [magnitude_toFloat]
  simp only [List.append_nil, decimalNatural_toDigits]
  exact hrounded.lt_infinityWord (natCast_lt_overflow h)

namespace Json

/-- An escaped text is sound at any depth. -/
theorem isSound_ofText (depth : Nat) (text : String) : isSound depth (ofText text) = true := by
  rw [ofText, isSound, unescape?_escape]
  rfl

/-- So is a natural number of 64 bits, since the float nearest to it is finite. -/
theorem isSound_ofNat (depth : Nat) {n : Nat} (h : n < 2 ^ 64) :
    isSound depth (ofNat n) = true := by
  have hread := Numeral.ofChars?_spell (spellable_toDigits n)
  rw [spell_toDigits] at hread
  rw [ofNat, isSound, float?, hread]
  simp only [if_pos (Numeral.magnitude_toDigits_lt h)]
  rfl

/-! ### Structures with a kind -/

/-- A structure can be set aside where its fields can be, one level deeper. -/
theorem isSound_record {depth : Nat} {fields : List (String × Json)}
    (h : ∀ f ∈ fields, isSound depth f.2 = true) : isSound (depth + 1) (record fields) = true := by
  rw [record, isSound]
  induction fields with
  | nil => rfl
  | cons field fields ih =>
    obtain ⟨hfirst, hrest⟩ := List.forall_mem_cons.mp h
    rw [List.map_cons, areSoundMembers, unescape?_escape, hfirst, ih hrest]
    rfl

/-- The first field is told from the others by its name. -/
theorem partition_tagged {name : String} {value : Json} {names : List String}
    {fields : List (String × Json)} (hnames : fields.map Prod.fst = names) (h : name ∉ names) :
    (((name, value) :: fields).map fun (name, value) => (escape name.toList, value)).partition
        (fun (key, _) => unescape? key == some name.toList) =
      ([(escape name.toList, value)],
        fields.map fun (name, value) => (escape name.toList, value)) := by
  have hfirst : (unescape? (escape name.toList) == some name.toList) = true := by
    rw [unescape?_escape, beq_self_eq_true]
  have hothers : ∀ m ∈ fields.map fun (name, value) => (escape name.toList, value),
      (unescape? m.1 == some name.toList) = false := by
    intro m hm
    obtain ⟨f, hf, rfl⟩ := List.mem_map.mp hm
    rw [unescape?_escape, beq_eq_false_iff_ne]
    intro heq
    have hname : f.1 = name := String.toList_inj.mp (Option.some.inj heq)
    rw [← hname, ← hnames] at h
    exact h (List.mem_map_of_mem hf)
  -- the kind alone passes the test, and all other fields fail it
  rw [List.partition_eq_filter_filter, List.map_cons, Prod.mk.injEq]
  constructor
  · rw [List.filter_cons]
    refine (if_pos hfirst).trans (congrArg _ (List.filter_eq_nil_iff.mpr ?_))
    intro m hm
    exact Bool.eq_false_iff.mp (hothers m hm)
  · rw [List.filter_cons]
    refine (if_neg (Bool.eq_false_iff.mp (congrArg not hfirst))).trans ?_
    refine List.filter_eq_self.mpr ?_
    intro m hm
    exact congrArg not (hothers m hm)

end Json

/-! ### Events -/

/-- The keys of the phases are told apart. -/
theorem Phase.lookup_key (p : Phase) : Phase.names.lookup p.key = some p := by
  cases p <;> rfl

namespace TraceEvent

open Json (bind_fields?_record isWritten_record isWritten_ofText isWritten_ofNat isSound_ofText
  isSound_ofNat)

/-- All fields of an event can be set aside, whatever its texts are. -/
theorem isSound_toJson (e : TraceEvent) : e.toJson.isSound Json.depthLimit = true := by
  cases e with
  | phase number p address content duration =>
    refine Json.isSound_record ?_
    simp only [List.forall_mem_cons]
    exact ⟨isSound_ofText _ _, isSound_ofNat _ number.toNat_lt, isSound_ofText _ _,
      isSound_ofNat _ (Nat.lt_trans address.toNat_lt (by decide)), isSound_ofText _ _,
      isSound_ofNat _ duration.toNat_lt, nofun⟩
  | notice message =>
    refine Json.isSound_record ?_
    simp only [List.forall_mem_cons]
    exact ⟨isSound_ofText _ _, isSound_ofText _ _, nofun⟩

/-- The kind of an event is found under its key, and the other fields are read for it. -/
theorem ofJson?_tagged {kind : String} {names : List String} {fields : List (String × Json)}
    (h : "event" ∉ names) (hnames : fields.map Prod.fst = names)
    (hsound : (Json.record (("event", .ofText kind) :: fields)).isSound Json.depthLimit = true) :
    ofJson? (.record (("event", .ofText kind) :: fields)) = ofFields? kind (.record fields) := by
  unfold ofJson?
  rw [hsound]
  simp only [Bool.not_true, Bool.false_eq_true, if_false]
  unfold Json.record
  simp only [Json.partition_tagged hnames h, Json.text?_ofText]
  rfl

/-- An event is read back, by the fields of its kind. -/
theorem ofJson?_toJson (e : TraceEvent) : ofJson? e.toJson = some e := by
  have hsound := e.isSound_toJson
  cases e with
  | phase number p address content duration =>
    have hother : "event" ∉ ["instruction", "phase", "address", "content", "duration_ms"] := by
      decide
    -- the kind first, then each field by its name
    refine (ofJson?_tagged hother rfl hsound).trans ?_
    refine (bind_fields?_record ["instruction", "phase", "address", "content", "duration_ms"] rfl
      (by decide) _).trans ?_
    show (countOfJson? (.ofNat number.toNat)).bind (fun number =>
      (Json.choice? Phase.names .setAside (.ofText p.key)).bind fun p =>
        (addressOfJson? (.ofNat address.toNat)).bind fun address =>
          (Json.text? (.ofText content)).bind fun content =>
            (countOfJson? (.ofNat duration.toNat)).bind fun duration =>
              some (TraceEvent.phase number p address content duration)) = _
    rw [countOfJson?_ofNat, Json.choice?_ofText, Phase.lookup_key, addressOfJson?_ofNat,
      Json.text?_ofText, countOfJson?_ofNat]
    rfl
  | notice message =>
    have hother : "event" ∉ ["message"] := by decide
    refine (ofJson?_tagged hother rfl hsound).trans ?_
    refine (bind_fields?_record ["message"] rfl (by decide) _).trans ?_
    show (Json.text? (.ofText message)).bind (fun message =>
      some (TraceEvent.notice message)) = _
    rw [Json.text?_ofText]
    rfl

theorem isWritten_toJson (e : TraceEvent) : e.toJson.IsWritten := by
  cases e with
  | phase number p address content duration =>
    refine isWritten_record ?_
    simp only [List.forall_mem_cons]
    exact ⟨isWritten_ofText _, isWritten_ofNat _, isWritten_ofText _, isWritten_ofNat _,
      isWritten_ofText _, isWritten_ofNat _, nofun⟩
  | notice message =>
    refine isWritten_record ?_
    simp only [List.forall_mem_cons]
    exact ⟨isWritten_ofText _, isWritten_ofText _, nofun⟩

/-- The line of an event is read as the event. -/
theorem ofLine?_line (e : TraceEvent) : ofLine? e.line = some e := by
  rw [ofLine?, line, Json.parse?_compact e.isWritten_toJson]
  exact e.ofJson?_toJson

end TraceEvent

/-! ### Line feeds -/

namespace Json

/-- The escape of a control character is spelled with a backslash, a letter and digits. -/
theorem not_mem_control {n : Nat} (h : n < 0x20) :
    '\n' ∉ ['\\', 'u', '0', '0', Nat.digitChar (n / 16), Nat.digitChar (n % 16)] := by
  revert n
  decide

/-- A line feed is a control character, and those are escaped. -/
theorem not_mem_escape (cs : List Char) : '\n' ∉ escape cs := by
  intro hmem
  obtain ⟨c, -, hc⟩ := List.mem_flatMap.mp hmem
  have hform := escaped c
  generalize escapeChar c = text at hform hc
  cases hform with
  | short x hunit h =>
    rcases List.mem_pair.mp hc with heq | heq
    · cases heq
    · -- a backslash stands before a letter, and never before the line feed itself
      rw [← heq] at h
      cases h
  | control h => exact not_mem_control h hc
  | plain hquote hslash h =>
    rw [← List.mem_singleton.mp hc] at h
    exact h (by decide)

/-- A numeral is spelled on one line. -/
theorem not_mem_spell {numeral : Numeral} {powered : Bool} (h : numeral.Spellable powered) :
    '\n' ∉ numeral.spell powered := by
  intro hmem
  have hchars := (Numeral.chars_of_ofChars? (Numeral.ofChars?_spell h)).2
  exact absurd (hchars _ hmem) (by decide)

@[simp] theorem Spacing.lineStart_none (depth : Nat) : Spacing.none.lineStart depth = [] := rfl

@[simp] theorem Spacing.colon_none : Spacing.none.colon = [':'] := rfl

/-- Items that are on one line each are on one line together. -/
theorem not_mem_writeItems {items : List Json}
    (h : ∀ j ∈ items, ∀ depth, '\n' ∉ write .none depth j) (depth : Nat) :
    '\n' ∉ writeItems .none depth items := by
  induction items with
  | nil =>
    simp [writeItems]
  | cons item items ih =>
    obtain ⟨hfirst, hrest⟩ := List.forall_mem_cons.mp h
    simp [writeItems, hfirst, ih hrest]

/-- So are members, since their keys are escaped. -/
theorem not_mem_writeMembers {members : List (List Char × Json)}
    (hkeys : ∀ m ∈ members, ∃ cs, m.1 = escape cs)
    (h : ∀ m ∈ members, ∀ depth, '\n' ∉ write .none depth m.2) (depth : Nat) :
    '\n' ∉ writeMembers .none depth members := by
  induction members with
  | nil =>
    simp [writeMembers]
  | cons member members ih =>
    obtain ⟨hfirst, hrest⟩ := List.forall_mem_cons.mp h
    obtain ⟨⟨cs, hkey⟩, hrestKeys⟩ := List.forall_mem_cons.mp hkeys
    simp [writeMembers, hkey, not_mem_escape, hfirst, ih hrestKeys hrest]

/-- A tree without blanks is on one line. -/
theorem IsWritten.not_mem_write {j : Json} (h : j.IsWritten) (depth : Nat) :
    '\n' ∉ write .none depth j := by
  -- by induction on how the tree is written; only strings and keys can hold a line feed, and there
  -- it is escaped
  induction h generalizing depth with
  | null => simp [write]
  | bool b => cases b <;> simp [write]
  | number h =>
    rw [write]
    exact not_mem_spell h
  | string cs => simp [write, not_mem_escape]
  | @array items _ ih =>
    cases items with
    | nil => simp [write]
    | cons item items =>
      obtain ⟨hfirst, hrest⟩ := List.forall_mem_cons.mp ih
      simp [write, hfirst, not_mem_writeItems hrest]
  | @object members hkeys _ ih =>
    cases members with
    | nil => simp [write]
    | cons member members =>
      obtain ⟨hfirst, hrest⟩ := List.forall_mem_cons.mp ih
      obtain ⟨⟨cs, hkey⟩, hrestKeys⟩ := List.forall_mem_cons.mp hkeys
      simp [write, hkey, not_mem_escape, hfirst, not_mem_writeMembers hrestKeys hrest]

end Json

namespace TraceEvent

/-- There is no line feed within the line of an event. -/
theorem not_mem_line (e : TraceEvent) : '\n' ∉ e.line.toList := by
  rw [line, Json.compact, String.toList_ofList]
  exact e.isWritten_toJson.not_mem_write 0

/-- A trace begins with the line of its first event, up to the first line feed. -/
theorem toList_jsonLines_cons (e : TraceEvent) (events : List TraceEvent) :
    (jsonLines none (e :: events)).toList
      = e.line.toList ++ '\n' :: (jsonLines none events).toList := by
  unfold jsonLines
  rw [List.map_cons, String.join_cons, String.toList_append]
  show (e.line ++ "\n").toList ++ _ = _
  rw [String.toList_append, List.append_assoc]
  rfl

/-- A trace is cut at its line feeds into the lines of its events, and nothing behind them. -/
theorem splitOn_jsonLines (events : List TraceEvent) :
    (jsonLines none events).toList.splitOn '\n'
      = (events.map line).map String.toList ++ [[]] := by
  induction events with
  | nil => rfl
  | cons e events ih =>
    -- the first cut is at the end of the line, since there is none within it
    have hline : e.line.toList.splitOn '\n' = [e.line.toList] := by
      refine List.splitOnP_eq_singleton fun c hc => ?_
      rw [beq_eq_false_iff_ne]
      rintro rfl
      exact e.not_mem_line hc
    have hcut : (e.line.toList ++ '\n' :: (jsonLines none events).toList).splitOn '\n'
        = e.line.toList.splitOn '\n' ++ (jsonLines none events).toList.splitOn '\n' :=
      List.splitOnP_append_cons _ _ (by decide)
    rw [toList_jsonLines_cons, hcut, hline, ih]
    rfl

/-- A trace has one line feed for each of its events. -/
theorem count_jsonLines (events : List TraceEvent) :
    (jsonLines none events).toList.count '\n' = events.length := by
  induction events with
  | nil => rfl
  | cons e events ih =>
    rw [toList_jsonLines_cons, List.count_append, List.count_cons_self, ih,
      List.count_eq_zero.mpr e.not_mem_line, Nat.zero_add, List.length_cons]

/-- Line by line the events are read back. -/
theorem mapM_ofLine? (events : List TraceEvent) : (events.map line).mapM ofLine? = some events := by
  induction events with
  | nil => rfl
  | cons e events ih =>
    rw [List.map_cons, List.mapM_cons, ofLine?_line, ih]
    rfl

/-- A trace that is written has a line feed for each event. Cut at these it gives a line for each
event and nothing behind the last, and the lines are read as the events, in order. -/
theorem jsonLines_lossless (events : List TraceEvent) :
    (jsonLines none events).toList.count '\n' = events.length ∧
      ∃ lines : List String,
        (jsonLines none events).toList.splitOn '\n' = lines.map String.toList ++ [[]] ∧
          lines.mapM ofLine? = some events :=
  ⟨count_jsonLines events, events.map line, splitOn_jsonLines events, mapM_ofLine? events⟩

end TraceEvent

end ToyCpu
