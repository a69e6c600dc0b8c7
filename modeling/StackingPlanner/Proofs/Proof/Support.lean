import Mathlib.Data.List.Nodup
import Mathlib.Order.Bounds.Basic
import StackingPlanner.Proof.Support

/-!
# What supports a step

The support of a step is collected by going through the links to parents in
breadth.  Links may lead in circles or to steps that do not exist.  What is
collected is each step that links lead to, once, and what is nearer comes first.

The steps that wait are those at some distance that were not gone through yet,
and after them those one link further that were met.  What lies nearer was met.
-/

namespace StackingPlanner

namespace Proof

variable {p : Proof} {s t u : ProofStep} {key : Key} {keys met : List Key} {n d : Nat}

/-! ## Links -/

/--
A proof whose steps can be told apart by their identifiers and have lists of
identifiers as parents.  The parents need not be steps of the proof.
-/
structure Tidy (p : Proof) : Prop where
  equal : ∀ s ∈ p.steps, s.id.equalsItself = true
  readable : ∀ s ∈ p.steps, ∃ keys, s.parentKeys = .ok keys
  distinct : (p.steps.map ProofStep.key).Nodup

def Links (p : Proof) (s t : ProofStep) : Prop :=
  t ∈ p.steps ∧ ∃ keys, s.parentKeys = .ok keys ∧ t.key ∈ keys

/-- A number of links lead from a step to another, each of them to a step of the proof. -/
inductive Leads (p : Proof) (s : ProofStep) : Nat → ProofStep → Prop where
  | start : Leads p s 0 s
  | onward {n : Nat} {t u : ProofStep} (before : Leads p s n t) (link : p.Links t u) :
      Leads p s (n + 1) u

def Distance (p : Proof) (s t : ProofStep) (n : Nat) : Prop :=
  IsLeast {n | 0 < n ∧ p.Leads s n t} n

theorem Leads.mem (leads : p.Leads s (n + 1) t) : t ∈ p.steps := by
  cases leads with
  | onward _ link => exact link.1

theorem Leads.mem_of_mem (leads : p.Leads s n t) (member : s ∈ p.steps) : t ∈ p.steps := by
  cases leads with
  | start => exact member
  | onward _ link => exact link.1

theorem memberKeys_texts (texts : List String) :
    ProofStep.memberKeys (texts.map Value.text) = .ok (texts.map Key.text) := by
  induction texts with
  | nil => rfl
  | cons text texts ih =>
      rw [List.map_cons, ProofStep.memberKeys, ih]
      rfl

theorem parentKeys_of_texts {parents : List String} (areTexts : s.parents = Value.texts parents) :
    s.parentKeys = .ok (parents.map Key.text) := by
  rw [ProofStep.parentKeys, areTexts]
  exact memberKeys_texts parents

/-- A proof is tidy if all its identifiers are texts, and those of its steps are different. -/
theorem tidy_of_texts (distinct : (p.steps.map ProofStep.id).Nodup)
    (texts : ∀ s ∈ p.steps, ∃ id parents, s.id = .text id ∧ s.parents = Value.texts parents) :
    p.Tidy where
  equal s member := by
    obtain ⟨id, _, isText, -⟩ := texts s member
    rw [isText]
    rfl
  readable s member := by
    obtain ⟨_, parents, -, areTexts⟩ := texts s member
    exact ⟨parents.map Key.text, parentKeys_of_texts areTexts⟩
  distinct := by
    refine List.Nodup.map_on (fun s first t second same => ?_) distinct.of_map
    obtain ⟨id, _, isText, -⟩ := texts s first
    obtain ⟨other, _, alsoText, -⟩ := texts t second
    rw [ProofStep.key, ProofStep.key, isText, alsoText] at same
    cases same
    exact List.inj_on_of_nodup_map distinct first second (isText.trans alsoText.symm)

namespace Tidy

variable (tidy : p.Tidy)

include tidy

theorem eq_of_key (first : s ∈ p.steps) (second : t ∈ p.steps) (same : s.key = t.key) : s = t :=
  List.inj_on_of_nodup_map tidy.distinct first second same

theorem find?_eq_some_iff : p.find? key = some t ↔ t ∈ p.steps ∧ t.key = key := by
  constructor
  · intro found
    have here := List.find?_some found
    rw [Bool.and_eq_true, decide_eq_true_eq] at here
    exact ⟨List.mem_of_find?_eq_some found, here.2⟩
  · rintro ⟨member, rfl⟩
    cases found : p.find? t.key with
    | none =>
        have differs := List.find?_eq_none.mp found t member
        simp [tidy.equal t member] at differs
    | some other =>
        have here := List.find?_some found
        rw [Bool.and_eq_true, decide_eq_true_eq] at here
        rw [tidy.eq_of_key (List.mem_of_find?_eq_some found) member here.2]

theorem mem_filterMap_find?_iff : t ∈ keys.filterMap p.find? ↔ t ∈ p.steps ∧ t.key ∈ keys := by
  rw [List.mem_filterMap]
  constructor
  · rintro ⟨key, listed, found⟩
    obtain ⟨member, rfl⟩ := tidy.find?_eq_some_iff.mp found
    exact ⟨member, listed⟩
  · rintro ⟨member, listed⟩
    exact ⟨t.key, listed, tidy.find?_eq_some_iff.mpr ⟨member, rfl⟩⟩

theorem parentsOf_key (member : t ∈ p.steps) : p.parentsOf t.key = t.parentKeys := by
  rw [parentsOf, tidy.find?_eq_some_iff.mpr ⟨member, rfl⟩]

/-- The steps under different keys have these keys. -/
theorem nodup_filterMap_find? (distinct : keys.Nodup) :
    ((keys.filterMap p.find?).map ProofStep.key).Nodup := by
  refine List.pairwise_map.mpr (List.Pairwise.filterMap _ ?_ distinct)
  intro first second differ t found u other
  rw [(tidy.find?_eq_some_iff.mp found).2, (tidy.find?_eq_some_iff.mp other).2]
  exact differ

end Tidy

/-! ## New keys -/

theorem mem_newcomers_iff : key ∈ newcomers met keys ↔ key ∈ keys ∧ key ∉ met := by
  refine ⟨mem_of_mem_newcomers, ?_⟩
  rintro ⟨listed, new⟩
  induction keys generalizing met with
  | nil => cases listed
  | cons first keys ih =>
      rw [newcomers]
      split
      · rename_i old
        rcases List.mem_cons.mp listed with rfl | later
        · exact absurd old new
        · exact ih later new
      · by_cases here : key = first
        · exact List.mem_cons.mpr (.inl here)
        · have later := List.mem_of_ne_of_mem here listed
          exact List.mem_cons_of_mem _ (ih later (by simp [here, new]))

theorem nodup_newcomers (met keys : List Key) : (newcomers met keys).Nodup := by
  induction keys generalizing met with
  | nil => exact .nil
  | cons first keys ih =>
      rw [newcomers]
      split
      · exact ih met
      · refine List.nodup_cons.mpr ⟨fun again => ?_, ih (first :: met)⟩
        exact (mem_newcomers_iff.mp again).2 List.mem_cons_self

/-! ## Going through the links in breadth -/

/--
How far the links from a step were followed: the steps that wait are `now`, at a
given distance, and `later`, one link further.
-/
structure Followed (p : Proof) (s : ProofStep) (d : Nat) (met : List Key)
    (now later : List ProofStep) : Prop where
  nowAt : ∀ t ∈ now, p.Leads s d t
  laterAt : ∀ t ∈ later, p.Leads s (d + 1) t
  /-- What is near was met. -/
  near : ∀ n t, 0 < n → n ≤ d → p.Leads s n t → t.key ∈ met
  /-- What is one link further was met, or it is a parent of a step that waits. -/
  next : ∀ t, p.Leads s (d + 1) t → t.key ∈ met ∨ ∃ u ∈ now, p.Links u t
  /-- Of the steps that were met, only those that wait may be further away. -/
  reached : ∀ t ∈ p.steps, t.key ∈ met → t ∈ later ∨ ∃ n, n ≤ d ∧ p.Leads s n t

namespace Followed

variable {now later : List ProofStep}

theorem start (p : Proof) (s : ProofStep) : p.Followed s 0 [] [s] [] where
  nowAt t listed := by
    obtain rfl := List.mem_singleton.mp listed
    exact .start
  laterAt t listed := nomatch listed
  near n t positive upTo _ := absurd positive (Nat.not_lt.mpr upTo)
  next t leads := by
    cases leads with
    | onward before link =>
        cases before
        exact .inr ⟨s, List.mem_singleton_self s, link⟩
  reached t _ listed := nomatch listed

/-- When no step at a distance waits any more, what is one link further was met. -/
theorem mem_of_le (followed : p.Followed s d met [] later) (positive : 0 < n) (upTo : n ≤ d + 1)
    (leads : p.Leads s n t) : t.key ∈ met := by
  rcases Nat.lt_or_eq_of_le upTo with below | rfl
  · exact followed.near n t positive (Nat.le_of_lt_succ below) leads
  · rcases followed.next t leads with listed | ⟨u, waits, -⟩
    · exact listed
    · cases waits

theorem further (followed : p.Followed s d met [] later) : p.Followed s (d + 1) met later [] where
  nowAt := followed.laterAt
  laterAt t listed := nomatch listed
  near n t positive upTo leads := followed.mem_of_le positive upTo leads
  next t leads := by
    cases leads with
    | @onward _ u _ before link =>
        have listed := followed.mem_of_le d.succ_pos (Nat.le_refl _) before
        rcases followed.reached u before.mem listed with waits | ⟨n, upTo, nearer⟩
        · exact .inr ⟨u, waits, link⟩
        · have within := Nat.succ_le_succ upTo
          exact .inl (followed.mem_of_le n.succ_pos within (.onward nearer link))
  reached t member listed := by
    rcases followed.reached t member listed with waits | ⟨n, upTo, leads⟩
    · exact .inr ⟨d + 1, Nat.le_refl _, followed.laterAt t waits⟩
    · exact .inr ⟨n, Nat.le_succ_of_le upTo, leads⟩

/-- When a step was gone through, its parents were met and those that are new wait. -/
theorem visit (tidy : p.Tidy) (followed : p.Followed s d met (u :: now) later)
    (parents : u.parentKeys = .ok keys) :
    p.Followed s d (met ++ newcomers met keys) now
      (later ++ (newcomers met keys).filterMap p.find?) where
  nowAt t listed := followed.nowAt t (List.mem_cons_of_mem _ listed)
  laterAt t listed := by
    rcases List.mem_append.mp listed with old | new
    · exact followed.laterAt t old
    · obtain ⟨member, fresh⟩ := tidy.mem_filterMap_find?_iff.mp new
      have link : p.Links u t := ⟨member, keys, parents, (mem_newcomers_iff.mp fresh).1⟩
      exact .onward (followed.nowAt u List.mem_cons_self) link
  near n t positive upTo leads :=
    List.mem_append_left _ (followed.near n t positive upTo leads)
  next t leads := by
    rcases followed.next t leads with listed | ⟨v, waits, link⟩
    · exact .inl (List.mem_append_left _ listed)
    · rcases List.mem_cons.mp waits with rfl | waits
      · obtain ⟨_, others, same, isParent⟩ := link
        cases same.symm.trans parents
        by_cases old : t.key ∈ met
        · exact .inl (List.mem_append_left _ old)
        · exact .inl (List.mem_append_right _ (mem_newcomers_iff.mpr ⟨isParent, old⟩))
      · exact .inr ⟨v, waits, link⟩
  reached t member listed := by
    rcases List.mem_append.mp listed with old | fresh
    · rcases followed.reached t member old with waits | nearer
      · exact .inl (List.mem_append_left _ waits)
      · exact .inr nearer
    · exact .inl (List.mem_append_right _ (tidy.mem_filterMap_find?_iff.mpr ⟨member, fresh⟩))

/-- When no step waits, everything that links lead to was met. -/
theorem mem_of_leads (followed : p.Followed s d met [] []) (leads : p.Leads s (n + 1) t) :
    t.key ∈ met := by
  have onward : ∀ more, p.Followed s (d + more) met [] [] := by
    intro more
    induction more with
    | zero => exact followed
    | succ more ih => exact ih.further
  exact (onward (n + 1)).near (n + 1) t n.succ_pos (Nat.le_add_left _ _) leads

/-- The first step that waits is at the distance that is gone through, or else one further. -/
theorem exists_head {waiting : List Key} (followed : p.Followed s d met now later)
    (queue : key :: waiting = (now ++ later).map ProofStep.key) :
    ∃ d u now later, p.Followed s d met (u :: now) later ∧ u.key = key ∧
      waiting = (now ++ later).map ProofStep.key := by
  cases now with
  | cons u now =>
      cases queue
      exact ⟨d, u, now, later, followed, rfl, rfl⟩
  | nil =>
      cases later with
      | nil => cases queue
      | cons u later =>
          cases queue
          exact ⟨d + 1, u, later, [], followed.further, rfl, by rw [List.append_nil]⟩

end Followed

/--
Steps are collected that links from a step lead to and that were not met, each
once, and none before one that is nearer.
-/
structure Collects (p : Proof) (s : ProofStep) (met : List Key) (l : List ProofStep) : Prop where
  mem_iff : ∀ t, t ∈ l ↔ t.key ∉ met ∧ ∃ n, p.Leads s (n + 1) t
  distinct : (l.map ProofStep.key).Nodup
  nearest : l.Pairwise (fun t u => ∀ n, 0 < n → p.Leads s n u →
    ∃ m, 0 < m ∧ m ≤ n ∧ p.Leads s m t)

/-- What one step adds comes before everything that is collected after it. -/
theorem Collects.visit {now later others : List ProofStep} (tidy : p.Tidy)
    (followed : p.Followed s d met (u :: now) later) (parents : u.parentKeys = .ok keys)
    (rest : p.Collects s (met ++ newcomers met keys) others) :
    p.Collects s met ((newcomers met keys).filterMap p.find? ++ others) := by
  have first : ∀ t ∈ (newcomers met keys).filterMap p.find?,
      t.key ∉ met ∧ p.Leads s (d + 1) t := by
    intro t listed
    obtain ⟨-, fresh⟩ := tidy.mem_filterMap_find?_iff.mp listed
    exact ⟨(mem_newcomers_iff.mp fresh).2,
      (followed.visit tidy parents).laterAt t (List.mem_append_right _ listed)⟩
  have after : ∀ t ∈ others, t.key ∉ met ∧ t.key ∉ newcomers met keys := by
    intro t listed
    have new := ((rest.mem_iff t).mp listed).1
    rwa [List.mem_append, not_or] at new
  constructor
  case mem_iff =>
    intro t
    rw [List.mem_append, rest.mem_iff, List.mem_append, not_or]
    constructor
    · rintro (listed | ⟨⟨new, -⟩, leads⟩)
      · exact ⟨(first t listed).1, d, (first t listed).2⟩
      · exact ⟨new, leads⟩
    · rintro ⟨new, n, leads⟩
      by_cases fresh : t.key ∈ newcomers met keys
      · exact .inl (tidy.mem_filterMap_find?_iff.mpr ⟨leads.mem, fresh⟩)
      · exact .inr ⟨⟨new, fresh⟩, n, leads⟩
  case distinct =>
    rw [List.map_append]
    refine (tidy.nodup_filterMap_find? (nodup_newcomers met keys)).append rest.distinct ?_
    intro key here there
    obtain ⟨t, listed, rfl⟩ := List.mem_map.mp here
    obtain ⟨v, collected, same⟩ := List.mem_map.mp there
    have fresh := (tidy.mem_filterMap_find?_iff.mp listed).2
    exact (after v collected).2 (same ▸ fresh)
  case nearest =>
    -- What was not met is further away than `d`, and the parents are not.
    have least : ∀ t ∈ (newcomers met keys).filterMap p.find?, ∀ v, v.key ∉ met →
        ∀ n, 0 < n → p.Leads s n v → ∃ m, 0 < m ∧ m ≤ n ∧ p.Leads s m t := by
      intro t listed v new n positive leads
      refine ⟨d + 1, d.succ_pos, ?_, (first t listed).2⟩
      by_contra near
      exact new (followed.near n v positive (by omega) leads)
    refine List.pairwise_append.mpr ⟨?_, rest.nearest, fun t listed v collected =>
      least t listed v (after v collected).1⟩
    exact List.pairwise_of_forall_mem_list (fun t listed v other =>
      least t listed v (first v other).1)

theorem collect_cons {current : Key} {waiting : List Key}
    (parents : p.parentsOf current = .ok keys) {others : List ProofStep}
    (rest : p.collect (met ++ newcomers met keys)
      (waiting ++ ((newcomers met keys).filterMap p.find?).map ProofStep.key) = .ok others) :
    p.collect met (current :: waiting) =
      .ok ((newcomers met keys).filterMap p.find? ++ others) := by
  rw [collect]
  split
  · rename_i misuse found
    cases found.symm.trans parents
  · rename_i same found
    cases found.symm.trans parents
    have onward : p.collect (met ++ newcomers met keys)
        (waiting ++ ((newcomers met keys).filterMap p.find?).map (·.key)) = .ok others := rest
    simp only [onward]

/-- From any point of the search what is still missing is collected, and nothing is refused. -/
theorem exists_collect (tidy : p.Tidy) (member : s ∈ p.steps) {now later : List ProofStep}
    {waiting : List Key} (followed : p.Followed s d met now later)
    (queue : waiting = (now ++ later).map ProofStep.key) :
    ∃ l, p.collect met waiting = .ok l ∧ p.Collects s met l := by
  -- By the recursion of the search: a step that waits is gone through, and then the rest is.
  induction met, waiting using collect.induct p generalizing d now later with
  | case1 met =>
      obtain ⟨rfl, rfl⟩ := List.append_eq_nil_iff.mp (List.map_eq_nil_iff.mp queue.symm)
      have complete : ∀ t, ¬ (t.key ∉ met ∧ ∃ n, p.Leads s (n + 1) t) := by
        rintro t ⟨new, n, leads⟩
        exact new (followed.mem_of_leads leads)
      exact ⟨[], by rw [collect], by simp [complete], .nil, .nil⟩
  | case2 met current waiting misuse refused =>
      obtain ⟨d, u, now, later, followed, rfl, -⟩ := followed.exists_head queue
      have known := (followed.nowAt u List.mem_cons_self).mem_of_mem member
      obtain ⟨keys, parents⟩ := tidy.readable u known
      rw [tidy.parentsOf_key known, parents] at refused
      cases refused
  | case3 met current waiting keys found fresh steps result
  | case4 met current waiting keys found fresh steps result =>
      rename_i ih
      obtain ⟨d, u, now, later, followed, rfl, rest⟩ := followed.exists_head queue
      have known := (followed.nowAt u List.mem_cons_self).mem_of_mem member
      have parents := tidy.parentsOf_key known ▸ found
      have onward : waiting ++ steps.map ProofStep.key =
          (now ++ (later ++ steps)).map ProofStep.key := by
        rw [rest, ← List.map_append, List.append_assoc]
      obtain ⟨others, collected, collects⟩ := ih (followed.visit tidy parents) onward
      exact ⟨_, collect_cons found collected, collects.visit tidy followed parents⟩

/-! ## The support of a step -/

/--
Steps that support a step: those that one or more links lead to, each once, and
what is nearer first.
-/
structure Supports (p : Proof) (s : ProofStep) (l : List ProofStep) : Prop where
  mem_iff : ∀ t, t ∈ l ↔ ∃ n, p.Leads s (n + 1) t
  distinct : (l.map ProofStep.key).Nodup
  nearest : l.Pairwise (fun t u => ∀ m n, p.Distance s t m → p.Distance s u n → m ≤ n)

theorem support_of_not_mem {id : Value} (unknown : ∀ s ∈ p.steps, s.key ≠ id.key) :
    p.support id = .ok [] := by
  have absent : p.find? id.key = none :=
    List.find?_eq_none.mpr (fun s member => by simp [unknown s member])
  have parents : p.parentsOf id.key = .ok [] := by rw [parentsOf, absent]
  exact collect_cons parents (by rw [newcomers, List.filterMap_nil]; exact collect.eq_1 ..)

/--
The steps that support a step of a tidy proof are found, and an identifier
without a step has no support.
-/
theorem exists_support (tidy : p.Tidy) (id : Value) :
    (∀ s ∈ p.steps, s.key = id.key → ∃ l, p.support id = .ok l ∧ p.Supports s l) ∧
      ((∀ s ∈ p.steps, s.key ≠ id.key) → p.support id = .ok []) := by
  refine ⟨fun s member same => ?_, support_of_not_mem⟩
  obtain ⟨l, found, collects⟩ := exists_collect tidy member (.start p s) rfl
  refine ⟨l, by rw [support, ← same]; exact found, ?_, collects.distinct, ?_⟩
  · exact fun t => (collects.mem_iff t).trans (and_iff_right List.not_mem_nil)
  · refine collects.nearest.imp (fun {t u} nearer m n first second => ?_)
    obtain ⟨k, positive, upTo, leads⟩ := nearer n second.1.1 second.1.2
    exact (first.2 ⟨positive, leads⟩).trans upTo

/-- Two steps that depend on each other, one of them on itself and one on an unknown step. -/
def circle : Proof where
  query := .null
  steps :=
    [{ id := .text "a", kind := .premise, parents := Value.texts ["b", "lost"] },
      { id := .text "b", kind := .premise, parents := Value.texts ["b", "a", "a"] }]

/-- Each of them supports itself and the other. -/
theorem exists_support_circle :
    circle.Tidy ∧ ∃ s ∈ circle.steps, ∃ l, circle.support (.text "a") = .ok l ∧
      circle.Supports s l ∧ s ∈ l := by
  have tidy : circle.Tidy := by
    refine tidy_of_texts (by simp [circle]) (fun s member => ?_)
    rcases List.mem_pair.mp member with rfl | rfl
    · exact ⟨"a", ["b", "lost"], rfl, rfl⟩
    · exact ⟨"b", ["b", "a", "a"], rfl, rfl⟩
  obtain ⟨known, -⟩ := exists_support tidy (.text "a")
  obtain ⟨l, found, supports⟩ := known _ List.mem_cons_self rfl
  have second : circle.steps[1] ∈ circle.steps := List.getElem_mem _
  have there : circle.Links circle.steps[0] circle.steps[1] :=
    ⟨second, [.text "b", .text "lost"], rfl, List.mem_cons_self⟩
  have back : circle.Links circle.steps[1] circle.steps[0] :=
    ⟨List.mem_cons_self, [.text "b", .text "a", .text "a"], rfl, by decide⟩
  exact ⟨tidy, _, List.mem_cons_self, l, found, supports,
    (supports.mem_iff _).mpr ⟨1, .onward (.onward .start there) back⟩⟩

end Proof

end StackingPlanner
