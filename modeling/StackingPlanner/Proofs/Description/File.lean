import StackingPlanner.Description.File
import StackingPlanner.Proofs.Description.Failures
import StackingPlanner.Proofs.Document.Limits
import StackingPlanner.Proofs.Text.Utf8

/-!
# What keeps a description file from being read

A file that cannot be opened, a text that is no document and a document that is
no description all lead to a failure that blames the description.  Four things do
not: a path that cannot be looked up, bytes that are no text, a number with too
many digits and containers that are nested too deeply.  The last two take long
texts.
-/

namespace StackingPlanner

theorem Text.length_normalLines_le (cs : List Char) : (normalLines cs).length ≤ cs.length := by
  fun_induction normalLines cs with
  | case1 => exact Nat.le_refl _
  | case2 rest ih | case3 rest _ ih | case4 c rest _ _ ih =>
      simp only [List.length_cons]
      omega

theorem Text.normalLines_of_not_mem {cs : List Char} (free : '\r' ∉ cs) :
    normalLines cs = cs := by
  fun_induction normalLines cs with
  | case1 => rfl
  | case2 rest ih | case3 rest _ ih => exact absurd List.mem_cons_self free
  | case4 c rest _ _ ih =>
      rw [ih (fun later => free (List.mem_cons_of_mem c later))]

namespace Description

/-- What reading a description from a file can end in besides a description and a failure. -/
inductive Escapes (path : Path) : FileContent → Misuse → Prop where
  /-- The path cannot be looked up. -/
  | path {content : FileContent} {misuse : Misuse} (refused : path.check = .error misuse) :
      Escapes path content misuse
  /-- The bytes of the file are no text. -/
  | bytes {bytes : List Nat} {e : Text.Utf8Error} (passes : path.check = .ok ())
      (unread : Text.decodeUtf8 bytes = .error e) : Escapes path (.ok bytes) (.undecodable e)
  /-- The text of the file holds a number with too many digits. -/
  | longNumber {text : List Char} {digits : Nat} (passes : path.check = .ok ())
      (exceeds : Value.read (Text.normalLines text) = .error (.longNumber digits)) :
      Escapes path (.ok (Text.utf8Bytes text)) (.longNumber digits)
  /-- The text of the file is nested too deeply. -/
  | tooDeep {text : List Char} (passes : path.check = .ok ())
      (exceeds : Value.read (Text.normalLines text) = .error .tooDeep) :
      Escapes path (.ok (Text.utf8Bytes text)) .tooDeep

variable {path : Path} {content : FileContent} {text : List Char}

/-! ## The stages of reading a file -/

theorem fileDocument_utf8Bytes (passes : path.check = .ok ()) (text : List Char) :
    fileDocument path (.ok (Text.utf8Bytes text)) = textDocument path (Text.normalLines text) := by
  have read : Text.decodeUtf8 (Text.utf8Bytes text) = .ok text :=
    Text.decodeUtf8_eq_ok_iff.mpr rfl
  simp only [fileDocument, passes, read]

/-- Whatever ends the reading of a document ends the reading of the description. -/
theorem ofFile_error {fault : Fault} (fails : fileDocument path content = .error fault) :
    ofFile path content = .error fault := by
  rw [ofFile, fails]

/-- What is no misuse while a document is read is none while the description is read. -/
theorem ofFile_misuse {misuse : Misuse} (fails : ofFile path content = .error (.misuse misuse)) :
    fileDocument path content = .error (.misuse misuse) := by
  unfold ofFile at fails
  split at fails
  · rename_i document
    cases fails
    exact document
  · rename_i entries _
    cases read : ofValue (.object entries) (.text path.stem) with
    | ok d => rw [read] at fails; cases fails
    | error failure => rw [read] at fails; cases fails
  · cases fails

theorem fileDocument_blames {failure : Failure}
    (fails : fileDocument path content = .error (.failure failure)) :
    failure.report.isConfiguration = true := by
  unfold fileDocument at fails
  split at fails
  · cases fails
  · split at fails
    · cases fails
      rfl
    · split at fails
      · cases fails
      · unfold textDocument at fails
        split at fails
        · cases fails
        · cases fails
          rfl
        · cases fails
        · cases fails

theorem exists_read_of_fileDocument {value : Value}
    (found : fileDocument path content = .ok value) : ∃ text, Value.read text = .ok value := by
  unfold fileDocument at found
  split at found
  · cases found
  · split at found
    · cases found
    · split at found
      · cases found
      · unfold textDocument at found
        split at found
        · rename_i read
          cases found
          exact ⟨_, read⟩
        all_goals cases found

/-- Reading a document is misuse in four cases only. -/
theorem escapes_of_fileDocument {misuse : Misuse}
    (fails : fileDocument path content = .error (.misuse misuse)) :
    Escapes path content misuse := by
  unfold fileDocument at fails
  split at fails
  · rename_i refused
    cases fails
    exact .path refused
  · rename_i passes
    split at fails
    · cases fails
    · split at fails
      · rename_i unread
        cases fails
        exact .bytes passes unread
      · rename_i bytes _ cs read
        rw [Text.decodeUtf8_eq_ok_iff] at read
        subst read
        unfold textDocument at fails
        split at fails
        · cases fails
        · cases fails
        · rename_i exceeds
          cases fails
          exact .longNumber passes exceeds
        · rename_i exceeds
          cases fails
          exact .tooDeep passes exceeds

theorem fileDocument_of_escapes {misuse : Misuse} (escapes : Escapes path content misuse) :
    fileDocument path content = .error (.misuse misuse) := by
  cases escapes with
  | path refused => rw [fileDocument.eq_def, refused]
  | bytes passes unread => simp only [fileDocument, passes, unread]
  | longNumber passes exceeds => rw [fileDocument_utf8Bytes passes, textDocument, exceeds]
  | tooDeep passes exceeds => rw [fileDocument_utf8Bytes passes, textDocument, exceeds]

/-! ## Reading a description from a file -/

theorem ofFile_misuse_iff {misuse : Misuse} :
    ofFile path content = .error (.misuse misuse) ↔ Escapes path content misuse :=
  ⟨fun fails => escapes_of_fileDocument (ofFile_misuse fails),
    fun escapes => ofFile_error (fileDocument_of_escapes escapes)⟩

/-- What the text of a file says can be shown, so a failure to read it can be told. -/
theorem ofFile_blames {failure : Failure}
    (fails : ofFile path content = .error (.failure failure)) :
    failure.report.isConfiguration = true := by
  unfold ofFile at fails
  split at fails
  · rename_i document
    cases fails
    exact fileDocument_blames document
  · rename_i entries document
    obtain ⟨text, found⟩ := exists_read_of_fileDocument document
    cases read : ofValue (.object entries) (.text path.stem) with
    | ok d => rw [read] at fails; cases fails
    | error other =>
        rw [read] at fails
        cases fails
        exact (ofValue_blames _ _).report read ⟨Value.shown_of_read found, rfl⟩
  · cases fails
    rfl

theorem exists_read_of_ofFile {d : Description} (loaded : ofFile path content = .ok d) :
    ∃ text entries, Value.read text = .ok (.object entries) ∧
      ofValue (.object entries) (.text path.stem) = .ok d := by
  unfold ofFile at loaded
  split at loaded
  · cases loaded
  · rename_i entries document
    obtain ⟨text, read⟩ := exists_read_of_fileDocument document
    cases accepted : ofValue (.object entries) (.text path.stem) with
    | ok found =>
        rw [accepted] at loaded
        cases loaded
        exact ⟨text, entries, read, accepted⟩
    | error failure =>
        rw [accepted] at loaded
        cases loaded
  · cases loaded

theorem shown_of_ofFile {d : Description} (loaded : ofFile path content = .ok d) : d.Shown := by
  obtain ⟨text, entries, read, accepted⟩ := exists_read_of_ofFile loaded
  exact shown_of_ofValue (Value.shown_of_read read) accepted

/-- A file without a text that is out of bounds is read, or a failure blames the description. -/
theorem ofFile_of_not_escapes (kept : ∀ misuse, ¬ Escapes path content misuse) :
    (∃ d, ofFile path content = .ok d) ∨
      ∃ failure, ofFile path content = .error (.failure failure) := by
  cases read : ofFile path content with
  | ok d => exact .inl ⟨d, rfl⟩
  | error fault =>
      cases fault with
      | failure failure => exact .inr ⟨failure, rfl⟩
      | misuse misuse => exact absurd (ofFile_misuse_iff.mp read) (kept misuse)

theorem not_escapes_of_short (passes : path.check = .ok ())
    (short : text.length ≤ Value.mostNested) (misuse : Misuse) :
    ¬ Escapes path (.ok (Text.utf8Bytes text)) misuse := by
  intro escapes
  have fails := fileDocument_of_escapes escapes
  rw [fileDocument_utf8Bytes passes, textDocument] at fails
  have few := Nat.le_trans (Text.length_normalLines_le text) short
  cases read : Value.read (Text.normalLines text) with
  | ok value => rw [read] at fails; cases fails
  | error fault =>
      obtain ⟨e, rfl⟩ := Value.malformed_of_read few read
      rw [read] at fails
      cases fails

/--
Whatever the path and whatever the file holds, every failure to read a
description blames the description, and anything else that keeps it from being
read is one of four misuses.  Under a path that can be looked up, a file that
cannot be opened leads to such a failure.  Of the files that can be opened,
exactly those whose bytes are no text end in a misuse of the bytes, and a text of
few characters never ends in a misuse.
-/
theorem ofFile_blames_or_escapes (path : Path) (content : FileContent) :
    (∀ failure, ofFile path content = .error (.failure failure) →
        failure.report.isConfiguration = true) ∧
      (∀ misuse, ofFile path content = .error (.misuse misuse) ↔ Escapes path content misuse) ∧
      (path.check = .ok () →
        (∀ cause, content = .error cause →
          ∃ failure, ofFile path content = .error (.failure failure)) ∧
        (∀ bytes, content = .ok bytes →
          ((∃ e, ofFile path content = .error (.misuse (.undecodable e))) ↔
            ∀ text, bytes ≠ Text.utf8Bytes text)) ∧
        ∀ text, content = .ok (Text.utf8Bytes text) → text.length ≤ Value.mostNested →
          (∃ d, ofFile path content = .ok d) ∨
            ∃ failure, ofFile path content = .error (.failure failure)) := by
  refine ⟨fun _ => ofFile_blames, fun _ => ofFile_misuse_iff, fun passes => ⟨?_, ?_, ?_⟩⟩
  · rintro cause rfl
    have fails : fileDocument path (.error cause) =
        .error (Failure.unreadable path.text cause) := by
      simp only [fileDocument, passes]
    exact ⟨_, ofFile_error fails⟩
  · rintro bytes rfl
    rw [← Text.exists_decodeUtf8_error_iff]
    apply exists_congr
    intro e
    rw [ofFile_misuse_iff]
    constructor
    · intro escapes
      cases escapes with
      | path refused => cases passes.symm.trans refused
      | bytes _ unread => exact unread
    · exact .bytes passes
  · rintro text rfl short
    exact ofFile_of_not_escapes (not_escapes_of_short passes short)

/-- A byte that begins no character ends in a misuse, and a file that is missing in a failure. -/
theorem ofFile_blames_or_escapes_loneByte :
    (Path.ofText "d.json").check = .ok () ∧
      (∃ e, ofFile (Path.ofText "d.json") (.ok [0xff]) = .error (.misuse (.undecodable e))) ∧
      ∃ failure, ofFile (Path.ofText "d.json") (.error .missing) = .error (.failure failure) := by
  have passes : (Path.ofText "d.json").check = .ok () := by rfl
  have unread : Text.decodeUtf8 [0xff] = .error ⟨.startByte, 0xff, 0, 1⟩ := by rfl
  obtain ⟨-, misused, -⟩ := ofFile_blames_or_escapes (Path.ofText "d.json") (.ok [0xff])
  obtain ⟨-, -, read⟩ := ofFile_blames_or_escapes (Path.ofText "d.json") (.error .missing)
  refine ⟨passes, ⟨_, (misused _).mpr (.bytes passes unread)⟩, ?_⟩
  exact (read passes).1 _ rfl

end Description

end StackingPlanner
