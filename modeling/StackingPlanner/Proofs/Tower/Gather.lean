import StackingPlanner.Proofs.Schema.Described
import StackingPlanner.Proofs.Tower.Piles
import Mathlib.Data.List.Perm.Subperm
import Mathlib.Order.WellFoundedSet

/-!
# Gathering discs on a peg

From any state in which every disc rests somewhere and the hand is empty, all
discs can be gathered on one peg.  Whatever rests on top of those that have been
gathered already is gathered as it is.  When nothing does, some other disc
carries nothing, since no chain of discs goes on forever, and can be carried
there.
-/

namespace StackingPlanner

namespace Puzzle

namespace Tower

/-- Some of the discs have been gathered on a peg, listed from top to bottom. -/
structure Gathered (discs : List String) (schema : Schema) (peg : String) (s : State)
    (stock : List String) : Prop where
  sane : schema.Sane s
  free : .handEmpty ∈ s.facts
  ends : WellFounded (fun b a => s.RestsOn a b)
  placed : ∀ x ∈ discs, ∃ y, s.RestsOn x y
  stacked : (stock ++ [peg]).IsChain s.RestsOn
  once : stock.Nodup
  discs : stock ⊆ discs

variable {discs pegs : List String} {schema : Schema} {s : State} {peg : String}
  {stock others : List String} {x y : String}

theorem exists_infix_pair {α : Type} {x last : α} {l : List α} (member : x ∈ l) :
    ∃ y, [x, y] <:+: l ++ [last] := by
  obtain ⟨before, after, rfl⟩ := List.append_of_mem member
  obtain ⟨y, rest, shape⟩ := List.exists_cons_of_ne_nil (by simp : after ++ [last] ≠ [])
  exact ⟨y, before, rest, by simp [shape]⟩

theorem IsSchema.nodup_concat (isSchema : IsSchema discs pegs schema) (isPeg : peg ∈ pegs)
    (once : stock.Nodup) (within : stock ⊆ discs) : (stock ++ [peg]).Nodup := by
  rw [← List.concat_eq_append, List.nodup_concat]
  exact ⟨fun member => isSchema.not_disc isPeg (within member), once⟩

namespace Gathered

variable (gathered : Gathered discs schema peg s stock)

include gathered

theorem restsOn_of_above (above : [x, y] <:+: stock ++ [peg]) : s.RestsOn x y :=
  List.isChain_pair.mp <| List.IsChain.infix gathered.stacked above

theorem above_of_restsOn (placed : s.RestsOn x y) (member : x ∈ stock) :
    [x, y] <:+: stock ++ [peg] := by
  obtain ⟨z, above⟩ : ∃ z, [x, z] <:+: stock ++ [peg] := exists_infix_pair member
  rwa [gathered.sane.oneSupport x y z placed (gathered.restsOn_of_above above)]

theorem exists_bare (isSchema : IsSchema discs pegs schema) (isPeg : peg ∈ pegs)
    (missing : ∃ x ∈ discs, x ∉ stock) : ∃ x ∈ discs, x ∉ stock ∧ ∀ w, ¬ s.RestsOn w x := by
  let remaining : Set String := {x | x ∈ discs ∧ x ∉ stock}
  have finite : remaining.Finite := (List.finite_toSet discs).subset (fun _ member => member.1)
  have order : IsStrictOrder String (Relation.TransGen s.RestsOn) :=
    { irrefl := State.acyclic_of_wellFounded gathered.ends
      trans := fun _ _ _ => Relation.TransGen.trans }
  obtain ⟨d, isDisc, new⟩ := missing
  have upward : remaining.WellFoundedOn (Relation.TransGen s.RestsOn) := finite.wellFoundedOn
  obtain ⟨⟨x, isDisc, new⟩, -, top⟩ :=
    upward.has_min Set.univ ⟨⟨d, isDisc, new⟩, trivial⟩
  refine ⟨x, isDisc, new, fun w carried => ?_⟩
  have upper := (isSchema.known_of_restsOn gathered.sane carried).1
  refine top ⟨w, upper, fun member => ?_⟩ trivial (.single carried)
  -- A gathered disc rests on another one or on the peg.
  have below := (gathered.above_of_restsOn carried member).subset (by simp : x ∈ [w, x])
  rcases List.mem_append.mp below with below | below
  · exact new below
  · rw [List.mem_singleton.mp below] at isDisc
    exact isSchema.not_disc isPeg isDisc

/-- What rests on top of the gathered discs is a disc that can be gathered as it is. -/
theorem cons_of_restsOn (isSchema : IsSchema discs pegs schema) (isPeg : peg ∈ pegs) {top : String}
    {lower : List String}
    (shape : stock ++ [peg] = top :: lower) (carried : s.RestsOn x top) :
    Gathered discs schema peg s (x :: stock) := by
  have isDisc := (isSchema.known_of_restsOn gathered.sane carried).1
  have once := isSchema.nodup_concat isPeg gathered.once gathered.discs
  have new : x ∉ stock := by
    intro member
    have above := gathered.above_of_restsOn carried member
    rw [shape] at above once
    exact (List.nodup_cons.mp once).1 (mem_of_pair_infix_cons above)
  refine ⟨gathered.sane, gathered.free, gathered.ends, gathered.placed, ?_,
    List.nodup_cons.mpr ⟨new, gathered.once⟩, List.cons_subset.mpr ⟨isDisc, gathered.discs⟩⟩
  have stacked := gathered.stacked
  rw [List.cons_append]
  rw [shape] at stacked ⊢
  exact List.isChain_cons_cons.mpr ⟨carried, stacked⟩

theorem exists_carry (isSchema : IsSchema discs pegs schema) (isPeg : peg ∈ pegs) {top : String}
    {lower : List String} (shape : stock ++ [peg] = top :: lower)
    (bareTop : ∀ w, ¬ s.RestsOn w top) (isDisc : x ∈ discs) (new : x ∉ stock)
    (bare : ∀ w, ¬ s.RestsOn w x) :
    ∃ t, schema.Leads s t ∧ Gathered discs schema peg t (x :: stock) := by
  have known : ∀ y ∈ stock ++ [peg], y ≠ x ∧ (y ∈ discs ∨ y ∈ pegs) := by
    intro y member
    rcases List.mem_append.mp member with member | member
    · exact ⟨fun same => new (same ▸ member), .inl (gathered.discs member)⟩
    · rw [List.mem_singleton.mp member]
      exact ⟨fun same => isSchema.not_disc isPeg (same ▸ isDisc), .inr isPeg⟩
  have isTop : top ∈ stock ++ [peg] := by simp [shape]
  obtain ⟨y, placed⟩ := gathered.placed x isDisc
  obtain ⟨t, ⟨choices, walk⟩, sane, free, moved⟩ := isSchema.exists_carry gathered.sane
    gathered.free placed (known top isTop).2 (known top isTop).1.symm bare bareTop
  refine ⟨t, ⟨choices, walk⟩, sane, free, ?_, ?_, ?_, List.nodup_cons.mpr ⟨new, gathered.once⟩,
    List.cons_subset.mpr ⟨isDisc, gathered.discs⟩⟩
  · exact (gathered.sane.positions_walk isSchema.accepted walk gathered.ends).2
  · intro a other
    by_cases same : a = x
    · exact ⟨top, (moved a top).mpr (.inl ⟨same, rfl⟩)⟩
    · obtain ⟨b, placed⟩ := gathered.placed a other
      exact ⟨b, (moved a b).mpr (.inr ⟨same, placed⟩)⟩
  · have kept : (stock ++ [peg]).IsChain t.RestsOn := by
      refine gathered.stacked.imp_of_mem_imp ?_
      intro a b first _ placed
      exact (moved a b).mpr (.inr ⟨(known a first).1, placed⟩)
    rw [List.cons_append]
    rw [shape] at kept ⊢
    exact List.isChain_cons_cons.mpr ⟨(moved x top).mpr (.inl ⟨rfl, rfl⟩), kept⟩

/-- While a disc is missing, one more can be gathered. -/
theorem exists_more (isSchema : IsSchema discs pegs schema) (isPeg : peg ∈ pegs)
    (missing : ∃ x ∈ discs, x ∉ stock) :
    ∃ t x, schema.Leads s t ∧ Gathered discs schema peg t (x :: stock) := by
  obtain ⟨top, lower, shape⟩ := List.exists_cons_of_ne_nil (by simp : stock ++ [peg] ≠ [])
  by_cases carries : ∃ x, s.RestsOn x top
  · obtain ⟨x, carried⟩ := carries
    exact ⟨s, x, .refl s, gathered.cons_of_restsOn isSchema isPeg shape carried⟩
  · obtain ⟨x, isDisc, new, bare⟩ := gathered.exists_bare isSchema isPeg missing
    obtain ⟨t, leads, gathered⟩ :=
      gathered.exists_carry isSchema isPeg shape (not_exists.mp carries) isDisc new bare
    exact ⟨t, x, leads, gathered⟩

theorem length_le : stock.length ≤ discs.length :=
  (List.Nodup.subperm gathered.once gathered.discs).length_le

/-- All discs can be gathered. -/
theorem exists_all (isSchema : IsSchema discs pegs schema) (isPeg : peg ∈ pegs) :
    ∃ t all, schema.Leads s t ∧ Gathered discs schema peg t all ∧ all.Perm discs := by
  -- Every disc that is gathered leaves one less to gather.
  induction left : discs.length - stock.length using Nat.strongRecOn generalizing s stock with
  | _ left ih =>
    subst left
    by_cases missing : ∃ x ∈ discs, x ∉ stock
    · obtain ⟨t, x, first, more⟩ := gathered.exists_more isSchema isPeg missing
      have fewer : discs.length - (x :: stock).length < discs.length - stock.length := by
        have within := more.length_le
        rw [List.length_cons] at within ⊢
        omega
      obtain ⟨u, all, later, rest⟩ := ih _ fewer more rfl
      exact ⟨u, all, first.trans later, rest⟩
    · have every : ∀ x, x ∈ stock ↔ x ∈ discs := fun x =>
        ⟨fun member => gathered.discs member, fun isDisc =>
          by_contra (fun new => missing ⟨x, isDisc, new⟩)⟩
      have distinct := (List.nodup_append.mp isSchema.distinct).1
      exact ⟨s, stock, .refl s, gathered,
        (List.perm_ext_iff_of_nodup gathered.once distinct).mpr every⟩

/-- Once all discs are gathered on a peg, they are the pile on it, and any other pegs are bare. -/
theorem piled (isSchema : IsSchema discs pegs schema) (all : stock.Perm discs)
    (distinct : (peg :: others).Nodup) (arePegs : ∀ p ∈ peg :: others, p ∈ pegs) :
    Piled discs pegs schema s ((stock ++ [peg]) :: others.map (fun p => [p])) := by
  have order : ((stock ++ [peg]) :: others.map (fun p => [p])).flatten =
      stock ++ peg :: others := by
    simp [← List.flatMap_def]
  refine ⟨gathered.sane, gathered.free, ?_, ?_, fun x y => ?_⟩
  · rw [order, List.nodup_append]
    refine ⟨gathered.once, distinct, ?_⟩
    rintro x member y isPeg rfl
    exact isSchema.not_disc (arePegs x isPeg) (gathered.discs member)
  · rw [order]
    intro x member
    rcases List.mem_append.mp member with member | isPeg
    · exact .inl (gathered.discs member)
    · exact .inr (arePegs x isPeg)
  · constructor
    · intro placed
      have isDisc := (isSchema.known_of_restsOn gathered.sane placed).1
      exact ⟨_, List.mem_cons_self, gathered.above_of_restsOn placed (all.mem_iff.mpr isDisc)⟩
    · rintro ⟨pile, listed, above⟩
      rcases List.mem_cons.mp listed with rfl | listed
      · exact gathered.restsOn_of_above above
      · obtain ⟨p, -, rfl⟩ := List.mem_map.mp listed
        have short := above.length_le
        simp at short

end Gathered

end Tower

end Puzzle

end StackingPlanner
