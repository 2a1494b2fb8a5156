import ToyCpu.Proofs.Conversation
import ToyCpu.Proofs.Listing

/-!
# The state that a run ends with

A run of the program starts from a fresh machine or from a snapshot, edits it and conducts a
session on it. If the snapshot was saved of a machine that was brought about from an empty memory,
then nothing in this leads out of such machines, so what is written at the end shows every cell.

* `Program.RestoresSaved` — a run that starts from no other snapshot.
* `Program.setUp_built`, `Program.conduct_built` — what a run starts from and ends with.
* `Program.run_shows_cells` — a run shows every cell of what it saves.
-/

namespace ToyCpu.Program

variable {arch : Architecture} {m : Machine} {o : Options} {files : Files}

/-! ### Machines brought about -/

/-- A machine is restored from a file whose text loads as it. -/
theorem restore_eq_ok {path : String} (h : restore o files path = .ok m) :
    ∃ text, files path = some text ∧ Snapshot.load? text = some m := by
  unfold restore at h
  obtain ⟨text, htext, h⟩ := ok_of_bind h
  have hfile : files path = some text := by
    unfold readFile at htext
    split at htext
    · next hfile => rw [hfile, Except.ok.inj htext]
    · cases htext
  refine ⟨text, hfile, ?_⟩
  split at h
  · cases h
  · next m' hload =>
    -- a layout that was asked for can only be refused
    have hsame : m' = m := by
      split at h
      · split at h
        · exact Except.ok.inj h
        · cases h
      · exact Except.ok.inj h
    rw [hload, hsame]

/-- A snapshot that a run starts from was saved of a machine that was brought about from an empty
memory. -/
def RestoresSaved (o : Options) (files : Files) : Prop :=
  ∀ path text, o.state = some path → files path = some text →
    ∃ arch m, Machine.Built arch m ∧ text = Snapshot.save m

/-- A fresh machine is brought about, with the defaults in its memory or without. -/
theorem fresh_built (o : Options) (arch : Architecture) : (fresh o arch).Built arch := by
  unfold fresh
  split
  · exact .new
  · exact (Machine.Built.new.operate .resetDefaults).setRest {} (Memory.seeded arch).entry 0

/-- So is one that is restored, if its snapshot was saved of such a machine. -/
theorem restore_built {path : String} (hsaved : RestoresSaved o files)
    (hstate : o.state = some path) (h : restore o files path = .ok m) : ∃ arch, m.Built arch := by
  obtain ⟨text, hfile, hload⟩ := restore_eq_ok h
  obtain ⟨arch, saved, hbuilt, rfl⟩ := hsaved path text hstate hfile
  exact ⟨arch, hbuilt.reload hload⟩

theorem withPolicy_built (h : m.Built arch) (policy : LoadPolicy) :
    (withPolicy m policy).Built arch :=
  h.operate (.setPolicy policy)

/-- Edits bring about no other machines. -/
theorem applyAll_built (h : m.Built arch) (edits : List Edit) :
    (applyAll m edits).1.Built arch := by
  induction edits generalizing m with
  | nil => exact h
  | cons e rest ih => exact ih (h.apply e)

/-- How setting up ends: the program is loaded and the values are placed. -/
def enter (o : Options) (files : Files) (timings : Timings) (m : Machine) :
    Except HostError (Timings × Machine × List Output) := do
  let program ← match o.program with
    | some path => do pure [Edit.loadProgram (← readFile files path)]
    | none => pure []
  let (m, output) := applyAll m (program ++ o.data.map .setData)
  return (timings, m, output)

theorem enter_built {before : Machine} {timings timings' : Timings} {output : List Output}
    (hbefore : before.Built arch)
    (h : enter o files timings before = .ok (timings', m, output)) : m.Built arch := by
  -- whether there is a program to load or not, what is left to do are edits
  have hedited : ∃ edits, (applyAll before edits).1 = m := by
    unfold enter at h
    dsimp only at h
    split at h
    · obtain ⟨text, -, h⟩ := ok_of_bind h
      obtain ⟨program, -, h⟩ := ok_of_bind h
      exact ⟨_, congrArg (·.2.1) (Except.ok.inj h)⟩
    · obtain ⟨program, -, h⟩ := ok_of_bind h
      exact ⟨_, congrArg (·.2.1) (Except.ok.inj h)⟩
  obtain ⟨edits, rfl⟩ := hedited
  exact applyAll_built hbefore edits

/-- A run starts with a machine that is brought about from an empty memory. -/
theorem setUp_built {timings : Timings} {output : List Output} (hsaved : RestoresSaved o files)
    (h : setUp o files = .ok (timings, m, output)) : ∃ arch, m.Built arch := by
  unfold setUp at h
  obtain ⟨config, -, h⟩ := ok_of_bind h
  dsimp only at h
  split at h
  · next path hstate =>
    -- restored, and with another policy where one is asked for
    obtain ⟨restored, hrestore, h⟩ := ok_of_bind h
    obtain ⟨⟨config', before⟩, hbefore, h⟩ := ok_of_bind h
    obtain ⟨arch, hrestored⟩ := restore_built hsaved hstate hrestore
    have hbuilt : before.Built arch := by
      obtain ⟨-, rfl⟩ := Prod.mk.inj (Except.ok.inj hbefore)
      split
      · exact withPolicy_built hrestored _
      · exact hrestored
    exact ⟨arch, enter_built hbuilt h⟩
  · obtain ⟨⟨config', before⟩, hbefore, h⟩ := ok_of_bind h
    obtain ⟨rfl, rfl⟩ := Prod.mk.inj (Except.ok.inj hbefore)
    have hfresh := fresh_built o config.architecture
    exact ⟨_, enter_built (withPolicy_built hfresh config.effectivePolicy) h⟩

/-- A session leads to no other machine, whether it is conducted by input or not. -/
theorem conduct_built (h : m.Built arch) (o : Options) (timings : Timings) (lines : List String) :
    (conduct o timings m lines).1.Built arch := by
  have hoperated (cs : List Control) := (Session.new m timings).operateAll_reaches cs
  unfold conduct
  dsimp only
  -- either way the program plays first, and then it is talked with or left to itself
  split
  · have hplayed := hoperated [.share, .play, .release]
    have hcoherent := Session.coherent_of_reaches (Session.coherent_new m timings) hplayed
    have htalks := Session.converse_talks hcoherent (Session.listening_of_reaches hplayed)
      { turns := Command.turns lines }
    exact h.session (hplayed.trans htalks.reaches)
  · exact h.session ((hoperated [.play, .release]).trans (Session.run_reaches _ []))

/-! ### The end of a run -/

/-- A run that writes its state for people to read shows each cell of the machine that it ends
with, and that is the machine that it saves, if it saves one. -/
theorem run_shows_cells {timings : Timings} {launched : List Output}
    (hsaved : RestoresSaved o files) (hplain : o.jsonTrace = false)
    (h : setUp o files = .ok (timings, m, launched)) (lines : List String) :
    ∃ (final : Machine) (earlier : List Output) (shown : List String),
      (run o files lines).output = earlier ++ shown.map .result ∧ final.memory.ShownIn shown ∧
        ∀ path, o.exportTo = some path →
          (run o files lines).ending = .saves path (Snapshot.save final) := by
  obtain ⟨arch, hbuilt⟩ := setUp_built hsaved h
  have hended := conduct_built hbuilt o timings lines
  refine ⟨(conduct o timings m lines).1, launched ++ (conduct o timings m lines).2, _, ?_,
    stateLines_show hended.tagged, fun path hpath => ?_⟩
  · simp only [run, h, hplain, Bool.false_eq_true, if_false]
  · simp only [run, h, hpath]

end ToyCpu.Program
