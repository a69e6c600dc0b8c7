import StackingPlanner.Proofs.Description.Parts
import StackingPlanner.Proofs.Document.Shown

/-!
# What is wrong with a description

Reading a description and finding the problem that it states are made of many
checks.  Whichever of them fails, the failure blames the description, and if all
that was given can be shown in a message, then so can the failure.  Otherwise
the attempt to show it ends in another error.
-/

namespace StackingPlanner

namespace Failure

variable {failure : Failure}

theorem report_of_told (told : failure.excess? = none) : failure.report = failure.account := by
  rw [report, told]

theorem report_of_excess {excess : Value.Excess} (beyond : failure.excess? = some excess) :
    failure.report = excess.report := by
  rw [report, beyond]

/-- The error that is raised blames the description exactly if the failure can be told. -/
theorem report_isConfiguration_iff (blames : failure.isConfiguration = true) :
    failure.report.isConfiguration = true ↔ failure.excess? = none := by
  cases beyond : failure.excess? with
  | none =>
      rw [report_of_told beyond]
      exact iff_of_true blames rfl
  | some excess =>
      rw [report_of_excess beyond]
      cases excess <;> simp [Value.Excess.report, Report.isConfiguration]

/--
A failure comes out as an error that blames the description exactly if it can be
told, which it can if all that was given can be shown.  Otherwise the error is
that on showing what it would tell.
-/
structure BlamesOrEscapes (shown : Prop) (failure : Failure) : Prop where
  blames : failure.report.isConfiguration = true ↔ failure.excess? = none
  escapes : ∀ excess, failure.excess? = some excess → failure.report = excess.report
  told : shown → failure.excess? = none

end Failure

/--
Whatever goes wrong blames the description, and the failure can be told if what
it may show can be shown.
-/
def BlamesDescription {α : Type} (shown : Prop) (result : Except Failure α) : Prop :=
  ∀ failure, result = .error failure →
    failure.isConfiguration = true ∧ (shown → failure.excess? = none)

namespace BlamesDescription

variable {α β : Type} {shown : Prop} {failure : Failure}

theorem blamesOrEscapes {result : Except Failure α} (blames : BlamesDescription shown result)
    (fails : result = .error failure) : failure.BlamesOrEscapes shown where
  blames := Failure.report_isConfiguration_iff (blames failure fails).1
  escapes _ := Failure.report_of_excess
  told := (blames failure fails).2

theorem report {result : Except Failure α} (blames : BlamesDescription shown result)
    (fails : result = .error failure) (known : shown) : failure.report.isConfiguration = true :=
  (blames.blamesOrEscapes fails).blames.mpr ((blames failure fails).2 known)

/-- It is enough to know more of what may be shown. -/
theorem mono {known : Prop} {result : Except Failure α} (blames : BlamesDescription shown result)
    (told : known → shown) : BlamesDescription known result :=
  fun failure fails => (blames failure fails).imp_right (· ∘ told)

theorem ok (a : α) : BlamesDescription shown (.ok a) := fun _ fails => nomatch fails

theorem silent (blames : failure.isConfiguration = true) (shows : failure.shown? = none) :
    BlamesDescription shown (.error failure : Except Failure α) := by
  rintro _ ⟨⟩
  refine ⟨blames, fun _ => ?_⟩
  rw [Failure.excess?, shows]
  rfl

theorem showing {value : Value} (blames : failure.isConfiguration = true)
    (shows : failure.shown? = some value) (told : shown → value.Shown) :
    BlamesDescription shown (.error failure : Except Failure α) := by
  rintro _ ⟨⟩
  refine ⟨blames, fun known => ?_⟩
  rw [Failure.excess?, shows]
  exact told known

theorem bind {first : Except Failure α} {next : α → Except Failure β}
    (here : BlamesDescription shown first)
    (later : ∀ a, first = .ok a → BlamesDescription shown (next a)) :
    BlamesDescription shown (first >>= next) := by
  cases result : first with
  | error failure =>
      rintro _ ⟨⟩
      exact here failure result
  | ok a => exact later a result

theorem mapM {read : α → Except Failure β} {items : List α}
    (each : ∀ a ∈ items, BlamesDescription shown (read a)) :
    BlamesDescription shown (items.mapM read) := by
  induction items with
  | nil => exact ok []
  | cons item rest ih =>
      obtain ⟨here, others⟩ := List.forall_mem_cons.mp each
      rw [List.mapM_cons]
      exact bind here (fun first _ => bind (ih others) (fun later _ => ok (first :: later)))

theorem forM {check : α → Except Failure PUnit}
    (each : ∀ a, BlamesDescription shown (check a)) (items : List α) :
    BlamesDescription shown (items.forM check) := by
  induction items with
  | nil => exact ok _
  | cons item rest ih => exact bind (each item) (fun _ _ => ih)

end BlamesDescription

open BlamesDescription

/-! ## Reading a description -/

namespace Description

variable {part : String} {value defaultName : Value} {shown : Prop}

section Parts

variable (part) (told : shown → value.Shown)

include told

theorem readObject_blames : BlamesDescription shown (readObject part value) := by
  unfold readObject
  split
  · exact ok _
  · exact showing rfl rfl told

theorem readList_blames : BlamesDescription shown (readList part value) := by
  unfold readList
  split
  · exact ok _
  · exact showing rfl rfl told

theorem readText_blames : BlamesDescription shown (readText part value) := by
  unfold readText
  split
  · exact ok _
  · exact showing rfl rfl told

theorem readBool_blames : BlamesDescription shown (readBool part value) := by
  unfold readBool
  split
  · exact ok _
  · exact showing rfl rfl told

theorem readCapacity_blames : BlamesDescription shown (readCapacity part value) := by
  unfold readCapacity
  split
  · exact ok _
  · exact ok _
  · exact showing rfl rfl told

theorem readSettings_blames : BlamesDescription shown (readSettings part value) := by
  unfold readSettings
  split
  · exact ok _
  · exact readObject_blames _ told

/-- The settings of a category are those that are given, or there are none. -/
theorem shown_of_readSettings {settings : Entries} (read : readSettings part value = .ok settings)
    (known : shown) : (Value.object settings).Shown := by
  unfold readSettings at read
  split at read
  · cases read
    rfl
  · rw [← readObject_eq_ok_iff.mp read]
    exact told known

omit part in
theorem readCategory_blames (name : String) : BlamesDescription shown (readCategory name value) := by
  refine bind (readSettings_blames _ told) fun settings given => ?_
  have setting : ∀ {key : String} {missing : Value}, missing.Shown → shown →
      ((settings.get? key).getD missing).Shown :=
    fun known all => (shown_of_readSettings _ told given all).getD known
  refine bind (readCapacity_blames _ (setting (by decide))) fun _ _ => ?_
  refine bind (readList_blames _ (setting rfl)) fun allowed listed => ?_
  have occupants : shown → (Value.list allowed).Shown := by
    rw [← readList_eq_ok_iff.mp listed]
    exact setting rfl
  refine bind (mapM fun a member => readText_blames _ fun all =>
    (occupants all).mem_list a member) fun _ _ => ?_
  exact bind (readBool_blames _ (setting rfl)) fun _ _ => ok _

omit part in
theorem readMember_blames (name : String) : BlamesDescription shown (readMember name value) :=
  bind (readText_blames _ told) fun _ _ => ok _

omit part in
theorem readHorizon_blames : BlamesDescription shown (readHorizon value) := by
  unfold readHorizon
  split
  · split
    · exact showing rfl rfl told
    · exact ok _
  · exact showing rfl rfl told

omit part in
theorem literal_ofValue_blames : BlamesDescription shown (Literal.ofValue value) := by
  unfold Literal.ofValue
  split
  · split
    · exact ok _
    · rename_i misspelling _
      cases misspelling <;> exact silent rfl rfl
  · exact showing rfl rfl told

theorem readLiterals_blames : BlamesDescription shown (readLiterals part value) := by
  refine bind (readList_blames _ told) fun items listed => mapM fun item member => ?_
  have known : shown → item.Shown := fun all =>
    Value.Shown.mem_list (readList_eq_ok_iff.mp listed ▸ told all) item member
  exact bind (readText_blames _ known) fun _ _ => literal_ofValue_blames fun _ => rfl

end Parts

theorem readSection_blames (entries : Entries) (name : String) :
    BlamesDescription shown (readSection entries name) := by
  unfold readSection
  split
  · exact ok _
  · exact silent rfl rfl

/-- Whatever keeps a value from being read as a description blames the description. -/
theorem ofValue_blames (value defaultName : Value) :
    BlamesDescription (value.Shown ∧ defaultName.Shown) (ofValue value defaultName) := by
  refine bind (readObject_blames _ And.left) fun entries opened => ?_
  have whole : value.Shown ∧ defaultName.Shown → (Value.object entries).Shown := by
    rw [← readObject_eq_ok_iff.mp opened]
    exact And.left
  have found : ∀ {name part}, readSection entries name = .ok part →
      value.Shown ∧ defaultName.Shown → part.Shown :=
    fun read all => (whole all).get? (readSection_eq_ok_iff.mp read)
  refine bind (readSection_blames _ _) fun categories first => ?_
  refine bind (readSection_blames _ _) fun objects second => ?_
  refine bind (readSection_blames _ _) fun initial third => ?_
  refine bind (readSection_blames _ _) fun goal fourth => ?_
  refine bind (readSection_blames _ _) fun horizon fifth => ?_
  refine bind (readObject_blames _ (found first)) fun declared listed => ?_
  rw [readObject_eq_ok_iff.mp listed] at first
  refine bind (mapM fun e member => readCategory_blames
    (fun all => (found first all).mem_object e member) e.1) fun _ _ => ?_
  refine bind (readObject_blames _ (found second)) fun members listed => ?_
  rw [readObject_eq_ok_iff.mp listed] at second
  refine bind (mapM fun e member => readMember_blames
    (fun all => (found second all).mem_object e member) e.1) fun _ _ => ?_
  refine bind (readHorizon_blames (found fifth)) fun _ _ => ?_
  refine bind (readLiterals_blames _ (found third)) fun _ _ => ?_
  refine bind (readLiterals_blames _ (found fourth)) fun _ _ => ?_
  refine bind (readText_blames _ fun all => (whole all).getD all.2) fun _ _ => ?_
  exact bind (readObject_blames _ fun all => (whole all).getD rfl) fun _ _ => ok _

end Description

/-! ## The problem that a description states -/

namespace Schema

variable {shown : Prop}

theorem acceptCategories_blames (before : List Category) {declared : List CategoryDeclaration}
    (told : shown → ∀ c ∈ declared, c.capacity.Shown) :
    BlamesDescription shown (acceptCategories before declared) := by
  induction declared generalizing before with
  | nil => exact ok _
  | cons c rest ih =>
      have here : shown → c.capacity.Shown := fun all => told all c List.mem_cons_self
      have others : shown → ∀ c ∈ rest, c.capacity.Shown :=
        fun all c member => told all c (List.mem_cons_of_mem _ member)
      unfold acceptCategories
      split
      · exact silent rfl rfl
      · split
        · exact showing rfl rfl here
        · dsimp only
          split
          · exact silent rfl rfl
          · exact ih _ others

theorem resolve_blames (categories : List Category) (before : List Member)
    (objects : List DomainObject) :
    BlamesDescription shown (resolve categories before objects) := by
  induction objects generalizing before with
  | nil => exact ok _
  | cons o rest ih =>
      unfold resolve
      split
      · exact silent rfl rfl
      · split
        · exact silent rfl rfl
        · rename_i c _
          have others := ih (before ++ [⟨o.name, c⟩])
          split
          · exact ok _
          · rename_i failure fails
            rintro _ ⟨⟩
            exact others failure fails

theorem build_blames (objects : List DomainObject) {declared : List CategoryDeclaration}
    (told : shown → ∀ c ∈ declared, c.capacity.Shown) :
    BlamesDescription shown (build objects declared) := by
  refine bind (acceptCategories_blames _ told) fun categories _ => ?_
  dsimp only
  split
  · exact silent rfl rfl
  · refine bind (resolve_blames _ _ _) fun members _ => ?_
    split
    · exact silent rfl rfl
    · exact ok _

variable (schema : Schema)

theorem checkLiteral_blames (l : Literal) : BlamesDescription shown (schema.checkLiteral l) := by
  unfold checkLiteral
  split
  · exact silent rfl rfl
  · split
    · exact silent rfl rfl
    · split
      · exact ok _
      · exact silent rfl rfl

theorem requireOperators_blames (label : String) (literals : List Literal) :
    BlamesDescription shown (schema.requireOperators label literals) := by
  unfold requireOperators
  split
  · exact silent rfl rfl
  · exact ok _

theorem checkLiterals_blames (label : String) (literals : List Literal) :
    BlamesDescription shown (schema.checkLiterals label literals) := by
  refine bind (forM schema.checkLiteral_blames _) fun _ _ => ?_
  split
  · exact silent rfl rfl
  · exact schema.requireOperators_blames _ _

theorem goal_blames (literals : List Literal) :
    BlamesDescription shown (schema.goal literals) :=
  bind (schema.checkLiterals_blames _ _) fun _ _ => ok _

end Schema

theorem Links.checkAcyclic_blames {shown : Prop} (links : Links) :
    BlamesDescription shown links.checkAcyclic := by
  unfold Links.checkAcyclic
  split
  · exact silent rfl rfl
  · exact ok _

namespace Arrangement

variable {shown : Prop}

theorem checkHeld_blames (a : Arrangement) : BlamesDescription shown a.checkHeld := by
  unfold checkHeld
  split
  · exact ok _
  · split
    · exact silent rfl rfl
    · split
      · exact ok _
      · exact silent rfl rfl
  · exact silent rfl rfl

theorem check_blames (schema : Schema) (a : Arrangement) :
    BlamesDescription shown (a.check schema) := by
  unfold check
  dsimp only
  split
  · exact silent rfl rfl
  · refine bind a.checkHeld_blames fun _ _ => ?_
    split
    · exact silent rfl rfl
    · exact a.links.checkAcyclic_blames

end Arrangement

theorem Schema.initialState_blames {shown : Prop} (schema : Schema) (literals : List Literal) :
    BlamesDescription shown (schema.initialState literals) := by
  refine bind ?_ fun a _ => ?_
  · exact bind (schema.checkLiterals_blames _ _) fun _ _ =>
      bind (Arrangement.check_blames _ _) fun _ _ => ok _
  · unfold complete
    split
    · exact silent rfl rfl
    · exact ok _

theorem Problem.make_blames (schema : Schema) (initial : State) (goal : OrderedSet Literal)
    {horizon : Value} {shown : Prop} (told : shown → horizon.Shown) :
    BlamesDescription shown (Problem.make schema initial goal horizon) := by
  have read : BlamesDescription shown (Problem.readHorizon horizon) := by
    unfold Problem.readHorizon
    split
    · split
      · exact ok _
      · exact showing rfl rfl told
    · exact showing rfl rfl told
  unfold Problem.make
  split
  · exact ok _
  · rename_i failure fails
    rintro _ ⟨⟩
    exact read failure fails

namespace Description

/-- A description whose numbers and other values can be shown in messages. -/
structure Shown (d : Description) : Prop where
  capacities : ∀ c ∈ d.categories, c.capacity.Shown
  horizon : d.horizon.Shown

theorem shown_of_ofValue {value defaultName : Value} (shown : value.Shown) {d : Description}
    (accepted : ofValue value defaultName = .ok d) : d.Shown := by
  obtain ⟨entries, rfl, reads⟩ := readsFrom_of_ofValue accepted
  constructor
  case capacities =>
    intro c member
    obtain ⟨declared, found, readCategories⟩ := reads.categories
    obtain ⟨e, listed, read⟩ := Except.exists_of_mapM_eq_ok readCategories member
    have declaration : e.2.Shown := (shown.get? found).mem_object e listed
    obtain ⟨settings, given, stated⟩ := exists_settings_of_readCategory read
    rw [stated.capacity]
    exact (shown_of_readSettings _ (fun _ => declaration) given trivial).getD (by decide)
  case horizon =>
    obtain ⟨n, -, found, steps⟩ := reads.horizon
    rw [steps]
    exact shown.get? found

/-- Whatever keeps a description from stating a problem blames the description. -/
theorem problem_blames (d : Description) : BlamesDescription d.Shown d.problem :=
  bind (Schema.build_blames _ Shown.capacities) fun schema _ =>
    bind (schema.initialState_blames _) fun _ _ =>
      bind (schema.goal_blames _) fun _ _ => Problem.make_blames _ _ _ Shown.horizon

end Description

end StackingPlanner
