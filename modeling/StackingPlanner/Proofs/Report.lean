import StackingPlanner.Proofs.Document.Keys
import StackingPlanner.Report.Named

/-!
# What a report says of an error and its cause

A report on an error that another error caused states the message, each entry of
the context and the report on the cause, which may have a cause of its own.  The
context is the one that is given; only a report on a broken invariant has a step,
a state and an action of its own in it, and these are null in the place of any
that are given.
-/

namespace StackingPlanner

/-- The details that a report of a kind has, whether they are given or not. -/
def ReportKind.ownDetails : ReportKind → List String
  | .invariantViolation => ["step", "state", "action"]
  | _ => []

namespace Report

def contextWords (context : Entries) : String :=
  if context.isEmpty then "" else " | Context: " ++ contextText context

/-- A report in words, with that on its cause at the end. -/
inductive Worded : Report → String → Prop where
  | outside (name : String) (argument : Value) :
      Worded (.outside name argument)
        (if name = "KeyError" then argument.display else argument.plain)
  | alone (kind : ReportKind) (message : String) (context : Entries) :
      Worded (.planner kind message context none) (message ++ contextWords context)
  | caused (kind : ReportKind) (message : String) (context : Entries) {cause : Report}
      {words : String} (worded : Worded cause words) :
      Worded (.planner kind message context (some cause))
        (message ++ contextWords context ++ " | Caused by: " ++ cause.name ++ ": " ++ words)

theorem text_outside (name : String) (argument : Value) :
    (outside name argument).text =
      if name = "KeyError" then argument.display else argument.plain := by
  rw [text, parts, String.intercalate_singleton]

theorem contextWords_cons (entry : String × Value) (rest : Entries) :
    contextWords (entry :: rest) = " | " ++ ("Context: " ++ contextText (entry :: rest)) := by
  rw [← String.append_assoc]
  rfl

theorem causeWords (words : String) :
    " | Caused by: " ++ words = " | " ++ ("Caused by: " ++ words) := by
  rw [← String.append_assoc]
  rfl

theorem text_alone (kind : ReportKind) (message : String) (context : Entries) :
    (planner kind message context none).text = message ++ contextWords context := by
  rw [text, parts, causeParts]
  cases context with
  | nil => simp [contextWords]
  | cons entry rest => simp [-String.reduceAppend, contextWords_cons, String.append_assoc]

theorem text_caused (kind : ReportKind) (message : String) (context : Entries) (cause : Report) :
    (planner kind message context (some cause)).text =
      message ++ contextWords context ++ " | Caused by: " ++ cause.name ++ ": " ++ cause.text := by
  rw [text, parts, causeParts]
  cases context with
  | nil => simp [-String.reduceAppend, contextWords, causeWords, String.append_assoc, text]
  | cons entry rest =>
      simp [-String.reduceAppend, contextWords_cons, causeWords, String.append_assoc, text]

/-- The text of a report says what is to be said, down to the first cause. -/
theorem worded_text : (r : Report) → r.Worded r.text
  | .outside name argument => text_outside name argument ▸ .outside name argument
  | .planner kind message context none =>
      text_alone kind message context ▸ .alone kind message context
  | .planner kind message context (some cause) =>
      text_caused kind message context cause ▸ .caused kind message context (worded_text cause)

theorem wrap_eq (cause : Report) (kind : ReportKind) (message : String) {context : Entries}
    (once : context.keys.Nodup) :
    cause.wrap kind message context =
      planner kind message (context.setAll (kind.ownDetails.map (·, .null))) (some cause) := by
  have given : Entries.setAll [] context = context := Entries.setAll_of_nodup once
  rw [wrap, make, given]
  cases kind <;> rfl

/--
Wrapping keeps the cause, the message and the context that is given, except that
a report on a broken invariant has null in the place of a step, a state or an
action.  The text says all of it, down to the first cause.
-/
theorem wrapNamed_keeps (cause : Report) (kind : ReportKind) (message : String)
    {context : Entries} (once : context.keys.Nodup)
    (free : ∀ key ∈ context.keys, key ∉ ["exc", "planner_exception_class", "message"]) :
    ∃ kept, cause.wrapNamed (some kind) (.text message) context =
        .ok (planner kind message kept (some cause)) ∧
      (∀ entry ∈ context, kept.get? entry.1 =
        some (if entry.1 ∈ kind.ownDetails then .null else entry.2)) ∧
      (∀ key ∈ kind.ownDetails, kept.get? key = some .null) ∧
      kept.keys = context.keys ++ kind.ownDetails.filter (· ∉ context.keys) ∧
      (planner kind message kept (some cause)).text =
        message ++ contextWords kept ++ " | Caused by: " ++ cause.name ++ ": " ++ cause.text ∧
      cause.Worded cause.text := by
  have ownOnce : (Entries.keys (kind.ownDetails.map (·, .null))).Nodup := by
    rw [Entries.keys_nulls]
    cases kind <;> decide
  have allowed : context.any (fun entry =>
      ["exc", "planner_exception_class", "message"].contains entry.1) = false := by
    rw [List.any_eq_false]
    intro entry member
    rw [List.contains_iff_mem]
    exact free entry.1 (List.mem_map_of_mem member)
  refine ⟨context.setAll (kind.ownDetails.map (·, .null)), ?_, fun entry member => ?_,
    fun key listed => ?_, ?_, text_caused kind message _ cause, worded_text cause⟩
  · rw [wrapNamed, allowed, ← wrap_eq cause kind message once]
    rfl
  · rw [Entries.get?_setAll ownOnce, Entries.get?_nulls, Entries.get?_of_mem once member]
    split <;> rfl
  · rw [Entries.get?_setAll ownOnce, Entries.get?_nulls, if_pos listed]
    rfl
  · rw [Entries.keys_setAll ownOnce, Entries.keys_nulls]

/-- A report on a broken invariant loses the step that it is given, but not its cause. -/
theorem wrapNamed_keeps_step :
    let cause : Report := .outside "KeyError" (.text "x")
    let inner : Report := .planner .configuration "unreadable" [("path", .text "p")] (some cause)
    ∃ kept, inner.wrapNamed (some .invariantViolation) (.text "halted")
        [("step", .whole 3), ("worker", .whole 2)] =
          .ok (planner .invariantViolation "halted" kept (some inner)) ∧
      kept.get? "step" = some .null ∧ kept.get? "worker" = some (.whole 2) ∧
      kept.keys = ["step", "worker", "state", "action"] := by
  intro cause inner
  obtain ⟨kept, wrapped, keeps, -, order, -, -⟩ :=
    @wrapNamed_keeps inner .invariantViolation "halted"
      [("step", .whole 3), ("worker", .whole 2)] (by decide) (by decide)
  have step := keeps ("step", .whole 3) (by simp)
  have worker := keeps ("worker", .whole 2) (by simp)
  exact ⟨kept, wrapped, step, worker, order⟩

end Report

end StackingPlanner
