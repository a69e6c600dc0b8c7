import StackingPlanner.CommandLine.Options
import StackingPlanner.Proofs.Document.Shown
import Mathlib.Tactic.Common

/-!
# What options hold

An option that takes a value is missing, states a value of its kind or was
emptied.  Every option that is taken keeps it so, and a command line that is
carried out names a file or an example.  Whatever an option holds can be shown.
-/

namespace StackingPlanner

namespace Options

/-- A description comes from a file or from an example, unless the option was emptied. -/
inductive Names : Source → Prop where
  | file (path : String) : Names (.file (.text path))
  | sample {name : String} (known : Puzzle.sampleNames.contains name = true) :
      Names (.sample (.text name))
  | noFile : Names (.file emptied)
  | noSample : Names (.sample emptied)

/-- A whole number that is short enough to be read. -/
def IsWhole (value : Value) : Prop := ∃ n, Number.Short n ∧ value = .whole n

def IsReal (value : Value) : Prop := ∃ x, value = .real x

theorem IsWhole.shown {value : Value} (whole : IsWhole value) : value.Shown := by
  obtain ⟨n, short, rfl⟩ := whole
  exact Value.shown_whole_iff.mpr short

theorem IsReal.shown {value : Value} (real : IsReal value) : value.Shown := by
  obtain ⟨x, rfl⟩ := real
  rfl

/-- A value is missing, is of some kind or was emptied. -/
inductive Holds (kind : Value → Prop) : Value → Prop where
  | missing : Holds kind .null
  | states {value : Value} (given : kind value) : Holds kind value
  | emptied : Holds kind emptied

theorem Holds.shown {kind : Value → Prop} {value : Value} (holds : Holds kind value)
    (told : ∀ {value}, kind value → value.Shown) : value.Shown := by
  cases holds with
  | missing => rfl
  | states given => exact told given
  | emptied => rfl

structure WellKept (o : Options) : Prop where
  source : ∀ s, o.source = some s → Names s
  horizon : Holds IsWhole o.horizon
  maxNodes : Holds IsWhole o.maxNodes
  timeLimit : Holds IsReal o.timeLimit
  workers : IsWhole o.workers ∨ o.workers = emptied

theorem isWhole_of_readWhole? {text : String} {n : Int}
    (read : Number.readWhole? text = some n) : IsWhole (.whole n) :=
  ⟨n, Number.short_of_readWhole? read, rfl⟩

variable {o taken : Options} {name : OptionName}

theorem WellKept.named (kept : o.WellKept) {s : Source} (names : Names s) :
    { o with source := some s }.WellKept :=
  { kept with source := fun _ same => Option.some.inj same ▸ names }

theorem WellKept.takeFile (kept : o.WellKept) {path : Value} (names : Names (.file path))
    (takes : o.takeFile path = some taken) : taken.WellKept := by
  unfold Options.takeFile at takes
  split at takes
  · cases takes
  · cases takes
    exact kept.named names

theorem WellKept.takeSample (kept : o.WellKept) {value : Value} (names : Names (.sample value))
    (takes : o.takeSample value = some taken) : taken.WellKept := by
  unfold Options.takeSample at takes
  split at takes
  · cases takes
  · cases takes
    exact kept.named names

theorem WellKept.takeValue (kept : o.WellKept) {text : String}
    (takes : o.takeValue name text = some taken) : taken.WellKept := by
  cases name with
  | domain => exact kept.takeFile (.file text) takes
  | sample =>
      simp only [Options.takeValue] at takes
      split at takes
      · rename_i known
        exact kept.takeSample (.sample known) takes
      · cases takes
  | horizon =>
      obtain ⟨n, read, rfl⟩ := Option.map_eq_some_iff.mp takes
      exact { kept with horizon := .states (isWhole_of_readWhole? read) }
  | maxNodes =>
      obtain ⟨n, read, rfl⟩ := Option.map_eq_some_iff.mp takes
      exact { kept with maxNodes := .states (isWhole_of_readWhole? read) }
  | timeLimit =>
      obtain ⟨x, _, rfl⟩ := Option.map_eq_some_iff.mp takes
      exact { kept with timeLimit := .states ⟨x, rfl⟩ }
  | workers =>
      obtain ⟨n, read, rfl⟩ := Option.map_eq_some_iff.mp takes
      exact { kept with workers := .inl (isWhole_of_readWhole? read) }
  | logLevel =>
      obtain ⟨level, _, rfl⟩ := Option.map_eq_some_iff.mp takes
      exact { kept with }
  | logFile =>
      cases takes
      exact { kept with }
  | help | json | timeline | explain => cases takes

theorem WellKept.empty (kept : o.WellKept) (takes : o.empty name = some taken) :
    taken.WellKept := by
  cases name with
  | domain => exact kept.takeFile .noFile takes
  | sample => exact kept.takeSample .noSample takes
  | horizon =>
      cases takes
      exact { kept with horizon := .emptied }
  | maxNodes =>
      cases takes
      exact { kept with maxNodes := .emptied }
  | timeLimit =>
      cases takes
      exact { kept with timeLimit := .emptied }
  | workers =>
      cases takes
      exact { kept with workers := .inr rfl }
  | logLevel | logFile =>
      cases takes
      exact { kept with }
  | help | json | timeline | explain => cases takes

theorem WellKept.takeJoined (kept : o.WellKept) {text : String}
    (takes : o.takeJoined name text = some taken) : taken.WellKept := by
  unfold Options.takeJoined at takes
  split at takes
  · exact kept.empty takes
  · exact kept.takeValue takes

theorem WellKept.takeFlag (kept : o.WellKept) (name : OptionName) :
    (o.takeFlag name).WellKept := by
  unfold Options.takeFlag
  split
  case h_4 => exact kept
  all_goals exact { kept with }

end Options

end StackingPlanner
