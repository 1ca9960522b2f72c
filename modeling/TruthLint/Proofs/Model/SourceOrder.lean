import TruthLint.Proofs.Model.Lowered
import TruthLint.Proofs.Outline.Order

/-! The order of the expressions of a model. They come in source order, and the expressions in a
lambda come right behind the one that contains the lambda. -/

namespace TruthLint

open Cst

namespace Model

/-- Expressions are recorded in the order of the rows that they are read from, so that none is
recorded twice. Those in the lambdas of an expression follow it, and everything else comes before
or behind all of its rows. -/
theorem exprs_in_order {root : Node} (hFields : root.FieldsInOrder)
    (hNumbered : (root.preorder.map (·.label.row)).Pairwise (· < ·)) :
    let seeds := Entry.seedsAll (Outline.ofTree root)
    let rows := seeds.map fun seed => seed.node.label.row
    (ofTree root).exprs = seeds.map Seed.expr ∧
      (seeds.map Seed.node).Sublist root.preorder ∧ rows.Pairwise (· < ·) ∧ rows.Nodup ∧
      ∀ before seed after, seeds = before ++ seed :: after →
        ∃ outside, after = seed.lambdaSeeds ++ outside ∧
          (∀ inside ∈ seed.lambdaSeeds, inside.node ∈ seed.node.preorder) ∧
          ∀ inner ∈ seed.node.preorder,
            (∀ earlier ∈ before, earlier.node.label.row < inner.label.row) ∧
            ∀ later ∈ outside, inner.label.row < later.node.label.row := by
  intro seeds rows
  have hOrder : InOrder seeds root.preorder := Outline.inOrder_ofNode hFields .members
  have hRows : rows.Pairwise (· < ·) := by
    have hSublist := hOrder.sublist.map (·.label.row)
    rw [List.map_map] at hSublist
    exact hNumbered.sublist hSublist
  refine ⟨exprs_ofTree root, hOrder.sublist, hRows, hRows.imp Nat.ne_of_lt, ?_⟩
  intro before seed after hSeeds
  obtain ⟨outside, hAfter, hApart⟩ := hOrder.apart before seed after hSeeds
  have hSeed : seed.node ∈ root.preorder :=
    hApart.subset (List.mem_append_left _ (List.mem_append_right _ seed.node.mem_preorder_self))
  have hLambdas := Outline.inOrder_ofNode (hFields.of_mem hSeed) .lambdas
  have hApart := (List.pairwise_map.mp hNumbered).sublist hApart
  obtain ⟨hUpTo, -, hLast⟩ := List.pairwise_append.mp hApart
  obtain ⟨-, -, hFirst⟩ := List.pairwise_append.mp hUpTo
  refine ⟨outside, hAfter, fun inside hInside => ?_, fun inner hInner => ⟨?_, ?_⟩⟩
  · exact hLambdas.sublist.subset (List.mem_map_of_mem hInside)
  · exact fun earlier hEarlier => hFirst _ (List.mem_map_of_mem hEarlier) inner hInner
  · exact fun later hLater =>
      hLast inner (List.mem_append_right _ hInner) _ (List.mem_map_of_mem hLater)

/-- The tree of `while (g([] { x++; })) y;`. -/
def loopWithLambda : Node :=
  .ofRows "while (g([] \x7b x++; \x7d)) y;"
    [⟨none, "translation_unit", true, false, false, false, none, 0, 25⟩,
      ⟨some 0, "while_statement", true, false, false, false, none, 0, 25⟩,
      ⟨some 1, "condition_clause", true, false, false, false, some "condition", 6, 22⟩,
      ⟨some 2, "call_expression", true, false, false, false, some "value", 7, 21⟩,
      ⟨some 3, "identifier", true, false, false, false, some "function", 7, 8⟩,
      ⟨some 3, "argument_list", true, false, false, false, some "arguments", 8, 21⟩,
      ⟨some 5, "lambda_expression", true, false, false, false, none, 9, 20⟩,
      ⟨some 6, "lambda_capture_specifier", true, false, false, false, some "captures", 9, 11⟩,
      ⟨some 6, "compound_statement", true, false, false, false, some "body", 12, 20⟩,
      ⟨some 8, "expression_statement", true, false, false, false, none, 14, 18⟩,
      ⟨some 9, "update_expression", true, false, false, false, none, 14, 17⟩,
      ⟨some 10, "identifier", true, false, false, false, some "argument", 14, 15⟩,
      ⟨some 10, "++", false, false, false, false, some "operator", 15, 17⟩,
      ⟨some 1, "expression_statement", true, false, false, false, some "body", 23, 25⟩,
      ⟨some 13, "identifier", true, false, false, false, none, 23, 24⟩]

/-- The step in the lambda comes between the condition and the body of the loop. -/
theorem exprs_in_order_loop :
    let seeds := Entry.seedsAll (Outline.ofTree loopWithLambda)
    let rows := seeds.map fun seed => seed.node.label.row
    loopWithLambda.FieldsInOrder ∧
      (loopWithLambda.preorder.map (·.label.row)).Pairwise (· < ·) ∧ rows = [3, 10, 14] ∧
      (ofTree loopWithLambda).exprs = seeds.map Seed.expr ∧ rows.Pairwise (· < ·) := by
  intro seeds rows
  have hFields : loopWithLambda.FieldsInOrder := .of_rows (by decide +kernel)
  have hNumbered : (loopWithLambda.preorder.map (·.label.row)).Pairwise (· < ·) := by
    decide +kernel
  obtain ⟨hExprs, -, hRows, -⟩ := exprs_in_order hFields hNumbered
  exact ⟨hFields, hNumbered, by decide +kernel, hExprs, hRows⟩

end Model

end TruthLint
