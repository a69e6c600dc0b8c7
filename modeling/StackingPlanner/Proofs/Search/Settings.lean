import StackingPlanner.Search.Outcome
import StackingPlanner.Proofs.Except

/-!
# Searches that are not cut short

A table of at least one place never lacks room, and a meter without bounds that
was not cancelled grants every visit.
-/

namespace StackingPlanner

namespace Number

theorem twoTo_pos (exponent : Nat) : 0 < twoTo exponent := Nat.pow_pos Nat.two_pos

theorem isAtMost_eq (a b : Number) : a.isAtMost b = (a.compare? b).any (·.isLE) := by
  simp only [isAtMost, isBelow]
  cases a.compare? b with
  | none => rfl
  | some order => cases order <;> rfl

theorem scaled_whole_mono {k n : Int} (le : k ≤ n) (e : Int) : scaled k 0 e ≤ scaled n 0 e :=
  Int.mul_le_mul_of_nonneg_right le (Int.natCast_nonneg _)

theorem scaled_whole_strictMono {k n : Int} (lt : k < n) (e : Int) : scaled k 0 e < scaled n 0 e :=
  Int.mul_lt_mul_of_pos_right lt (Int.natCast_pos.mpr (twoTo_pos _))

theorem Exact.not_below_of_le {n k : Int} {value : Exact}
    (large : ((Exact.finite n 0).compare? value).any (·.isLE) = true) (le : k ≤ n) :
    value.compare? (.finite k 0) ≠ some .lt := by
  cases value with
  | undefined => cases large
  | infinite negative =>
      cases negative with
      | false => rintro ⟨⟩
      | true => cases large
  | finite m e =>
      have least : scaled n 0 e ≤ scaled m e 0 := Std.isLE_compare.mp large
      intro below
      have order : compare (scaled m e 0) (scaled k 0 e) = .lt := Option.some.inj below
      rw [Std.compare_eq_lt] at order
      have less := scaled_whole_mono le e
      omega

theorem Exact.not_atMost_of_lt {n k : Int} {value : Exact}
    (large : ((Exact.finite n 0).compare? value).any (·.isLE) = true) (lt : k < n) :
    (value.compare? (.finite k 0)).any (·.isLE) = false := by
  cases value with
  | undefined => cases large
  | infinite negative =>
      cases negative with
      | false => rfl
      | true => cases large
  | finite m e =>
      have least : scaled n 0 e ≤ scaled m e 0 := Std.isLE_compare.mp large
      have less := scaled_whole_strictMono lt e
      change (compare (scaled m e 0) (scaled k 0 e)).isLE = false
      rw [← Bool.not_eq_true, Std.isLE_compare]
      omega

theorem isBelow_whole (n m : Int) : (whole n).isBelow (whole m) = decide (n < m) := by
  rw [Bool.eq_iff_iff, isBelow, compare?, beq_iff_eq, Option.some.injEq, Std.compare_eq_lt,
    decide_eq_true_iff]

variable {n k : Int} {value : Number}

theorem isBelow_of_le (large : (whole n).isAtMost value = true) (le : k ≤ n) :
    value.isBelow (.whole k) = false := by
  rw [isAtMost_eq] at large
  rw [isBelow, beq_eq_false_iff_ne]
  cases value with
  | whole m =>
      have least : n ≤ m := Std.isLE_compare.mp large
      intro below
      have order : compare m k = .lt := Option.some.inj below
      rw [Std.compare_eq_lt] at order
      omega
  | real x => exact Exact.not_below_of_le large le

theorem isAtMost_of_lt (large : (whole n).isAtMost value = true) (lt : k < n) :
    value.isAtMost (.whole k) = false := by
  rw [isAtMost_eq] at large ⊢
  cases value with
  | whole m =>
      have least : n ≤ m := Std.isLE_compare.mp large
      change (compare m k).isLE = false
      rw [← Bool.not_eq_true, Std.isLE_compare]
      omega
  | real x => exact Exact.not_atMost_of_lt large lt

end Number

namespace SearchSettings

/-- A table, if one is used, has at least one place. -/
def HasRoom (settings : SearchSettings) : Prop :=
  settings.usesTable = true →
    ∃ size, settings.tableSize.number? = some size ∧ Number.isAtMost (.whole 1) size = true

theorem hasRoom_of_whole {settings : SearchSettings} {size : Int} (positive : 1 ≤ size)
    (given : settings.tableSize = .whole size) : settings.HasRoom := by
  intro _
  refine ⟨.whole size, by rw [given]; rfl, ?_⟩
  rw [Number.isAtMost_eq]
  exact Std.isLE_compare.mpr positive

def Roomy (settings : SearchSettings) : Prop :=
  ∃ table, settings.table = .ok table ∧
    ∀ t, table = some t → t.entries = ∅ ∧ t.isNarrow = false

theorem HasRoom.roomy {settings : SearchSettings} (room : settings.HasRoom) :
    settings.Roomy := by
  unfold Roomy SearchSettings.table
  split
  · rename_i uses
    obtain ⟨size, given, large⟩ := room uses
    have wide := Number.isBelow_of_le large (Int.le_refl 1)
    have positive := Number.isAtMost_of_lt large Int.one_pos
    refine ⟨some ⟨size, ∅, 0, 0, 0⟩, ?_, ?_⟩
    · simp [DeadEndTable.make, given, positive, Except.map]
    · rintro t ⟨⟩
      exact ⟨rfl, wide⟩
  · exact ⟨none, rfl, by simp⟩

/-- Whatever the size of its table is, a search cannot begin, has room or has a narrow table. -/
theorem table_cases (settings : SearchSettings) :
    (∃ misuse, settings.table = .error misuse) ∨ settings.Roomy ∨
      ∃ t, settings.table = .ok (some t) ∧ t.entries = ∅ ∧ t.isNarrow = true := by
  cases made : settings.table with
  | error misuse => exact .inl ⟨misuse, rfl⟩
  | ok table =>
      refine .inr ?_
      cases table with
      | none => exact .inl ⟨none, made, by simp⟩
      | some t =>
          have new : t.entries = ∅ := by
            simp only [SearchSettings.table] at made
            split at made
            · obtain ⟨u, built, same⟩ := Except.exists_of_map_eq_ok made
              cases same
              simp only [DeadEndTable.make] at built
              split at built
              · cases built
              · split at built
                · cases built
                · cases built
                  rfl
            · cases made
          cases narrow : t.isNarrow with
          | true => exact .inr ⟨t, rfl, new, narrow⟩
          | false =>
              refine .inl ⟨some t, made, ?_⟩
              rintro u ⟨⟩
              exact ⟨new, narrow⟩

end SearchSettings

namespace Budget

/-- The reasons for which a budget has visits refused. -/
def Imposes (b : Budget) : Refusal → Prop
  | .cancelled => False
  | .nodeBudget => b.maxNodes.isSome = true
  | .timeLimit => b.timeLimit.isSome = true

theorem not_imposes_of_unlimited {b : Budget} (unbounded : b.unlimited = true)
    (reason : Refusal) : ¬ b.Imposes reason := by
  simp only [unlimited, Bool.and_eq_true, Option.isNone_iff_eq_none] at unbounded
  cases reason with
  | cancelled => exact id
  | nodeBudget => simp [Imposes, unbounded.1]
  | timeLimit => simp [Imposes, unbounded.2]

end Budget

namespace Meter

structure Serves (m : Meter) (b : Budget) : Prop where
  budget : m.budget = b
  granting : m.cancelled = false

/-- A meter that grants every visit: its budget has no bounds, and it was not cancelled. -/
structure Unlimited (m : Meter) : Prop where
  unbounded : m.budget.unlimited = true
  granting : m.cancelled = false

variable {m n : Meter} {b : Budget}

theorem serves_fresh (b : Budget) (clock : Clock) : (fresh b clock).Serves b := ⟨rfl, rfl⟩

theorem Serves.start (serves : m.Serves b) : m.start.Serves b := by
  unfold Meter.start
  split <;> exact ⟨serves.budget, serves.granting⟩

theorem Serves.elapsed (serves : m.Serves b) : m.elapsed.2.Serves b := by
  unfold Meter.elapsed
  split <;> exact ⟨serves.budget, serves.granting⟩

theorem Serves.count (serves : m.Serves b) : { m with nodes := m.nodes + 1 }.Serves b :=
  ⟨serves.budget, serves.granting⟩

theorem Serves.charged (serves : m.Serves b) : m.charge.2.Serves b := by
  unfold Meter.charge
  split
  · exact serves
  · split
    · exact serves
    · split
      · exact serves.count
      · exact serves.count.elapsed

theorem charge_of_cancelled (cancelled : m.cancelled = true) :
    m.charge = (some .cancelled, m) := by
  rw [charge, if_pos cancelled]

theorem charge_of_exhausted (granting : m.cancelled = false)
    (exhausted : exhausts m.budget m.nodes = true) : m.charge = (some .nodeBudget, m) := by
  rw [charge, if_neg (ne_true_of_eq_false granting), if_pos exhausted]

theorem exhausts_whole {limit : Nat} (bound : b.maxNodes = some (.whole limit)) (nodes : Nat) :
    exhausts b nodes = decide (limit ≤ nodes) := by
  rw [exhausts, bound, Bool.eq_iff_iff, decide_eq_true_iff]
  exact (Number.whole_le_whole _ _).trans Int.ofNat_le

theorem Serves.imposes (serves : m.Serves b) {reason : Refusal} {used : Meter}
    (refused : m.charge = (some reason, used)) : b.Imposes reason := by
  have open? : ¬ m.cancelled = true := ne_true_of_eq_false serves.granting
  rw [Meter.charge, if_neg open?, serves.budget] at refused
  split at refused
  · rename_i full
    cases refused
    obtain ⟨most, given, _⟩ := (Option.any_eq_true _ _).mp full
    simp [Budget.Imposes, given]
  · split at refused
    · cases refused
    · rename_i limit given
      have late : reason = .timeLimit := by
        have refusal := congrArg Prod.fst refused
        dsimp only at refusal
        split at refusal
        · exact (Option.some.inj refusal).symm
        · cases refusal
      simp [late, Budget.Imposes, given]

theorem Unlimited.serves (unlimited : m.Unlimited) : m.Serves m.budget :=
  ⟨rfl, unlimited.granting⟩

theorem unlimited_fresh {budget : Budget} (unbounded : budget.unlimited = true) (clock : Clock) :
    (fresh budget clock).Unlimited :=
  ⟨unbounded, rfl⟩

theorem Unlimited.start (unlimited : m.Unlimited) : m.start.Unlimited := by
  unfold Meter.start
  split <;> exact ⟨unlimited.unbounded, unlimited.granting⟩

/-- Each charge of an unlimited meter is granted and only counted. -/
theorem Unlimited.charge (unlimited : m.Unlimited) :
    m.charge = (none, { m with nodes := m.nodes + 1 }) := by
  have bounds := unlimited.unbounded
  simp only [Budget.unlimited, Bool.and_eq_true, Option.isNone_iff_eq_none] at bounds
  simp [Meter.charge, exhausts, unlimited.granting, bounds.1, bounds.2]

theorem Unlimited.granted (unlimited : m.Unlimited) : m.charge.1 = none := by
  rw [unlimited.charge]

theorem Unlimited.charged (unlimited : m.Unlimited) : m.charge.2.Unlimited := by
  rw [unlimited.charge]
  exact ⟨unlimited.unbounded, unlimited.granting⟩

/-- Two meters with the same budget and the same time, whatever they have counted. -/
structure Like (m n : Meter) : Prop where
  budget : m.budget = n.budget
  clock : m.clock = n.clock
  startedAt : m.startedAt = n.startedAt

theorem Like.refl (m : Meter) : m.Like m := ⟨rfl, rfl, rfl⟩

theorem Like.trans {k : Meter} (first : m.Like n) (second : n.Like k) : m.Like k :=
  ⟨first.budget.trans second.budget, first.clock.trans second.clock,
    first.startedAt.trans second.startedAt⟩

theorem Like.elapsed (like : m.Like n) : m.elapsed.1 = n.elapsed.1 := by
  unfold Meter.elapsed
  rw [like.startedAt, like.clock]
  cases n.startedAt <;> rfl

theorem like_cancel (m : Meter) : m.cancel.Like m := ⟨rfl, rfl, rfl⟩

theorem start_of_started (started : m.startedAt.isSome = true) : m.start = m := by
  obtain ⟨time, same⟩ := Option.isSome_iff_exists.mp started
  simp [Meter.start, same]

theorem like_charge (unbounded : m.budget.unlimited = true) : m.charge.2.Like m := by
  simp only [Budget.unlimited, Bool.and_eq_true, Option.isNone_iff_eq_none] at unbounded
  simp only [Meter.charge, unbounded.2]
  split
  · exact Like.refl m
  · split
    · exact Like.refl m
    · exact ⟨rfl, rfl, rfl⟩

end Meter

end StackingPlanner
