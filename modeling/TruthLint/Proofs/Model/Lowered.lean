import TruthLint.Cst.Row
import TruthLint.Proofs.Model.Extends
import TruthLint.Proofs.Outline.Lowered

/-! The expressions of a model and the nodes that they were read from. -/

namespace TruthLint

open Cst

namespace Model

variable {model : Model}

/-- The whole expressions of a model, in order. -/
def exprs (model : Model) : List Expr := model.roots.toList.map Root.expr

theorem exprs_of_roots_eq {before : Model} (h : model.roots = before.roots) :
    model.exprs = before.exprs := by
  rw [exprs, h, exprs]

mutual

/-- Recording an entry adds the expressions in it, in order. -/
theorem exprs_record (current : Nat) (model : Model) : ∀ entry : Entry,
    (record current model entry).exprs = model.exprs ++ entry.seeds.map Seed.expr
  | .var _ _ _ => by simp [record, exprs, declareVariable, Entry.seeds]
  | .function name returns line => by
      rw [Entry.seeds, List.map_nil, List.append_nil]
      exact exprs_of_roots_eq (roots_declareNamed model current name returns line)
  | .root seed context => by simp [record, exprs, addRoot, Entry.seeds]
  | .scope kind name line body => exprs_recordAll _ (model.createScope kind name current line) body
  | .nameSpace path line body => by
      have hOpened := exprs_of_roots_eq (roots_openPath model current line path)
      rw [Entry.seeds, ← hOpened]
      exact exprs_recordAll _ _ body
  | .definition none name _ line body =>
      exprs_recordAll _ (model.createScope .function name current line) body
  | .definition (some declared) name returns line body => by
      have hDeclared := exprs_of_roots_eq (roots_declareNamed model current declared returns line)
      rw [Entry.seeds, ← hDeclared]
      exact exprs_recordAll _ (Model.createScope _ .function name _ line) body

/-- Entries contribute the expressions of their seeds, in order, wherever they are recorded. -/
theorem exprs_recordAll (current : Nat) (model : Model) : ∀ entries : List Entry,
    (recordAll current model entries).exprs =
      model.exprs ++ (Entry.seedsAll entries).map Seed.expr
  | [] => by rw [recordAll, Entry.seedsAll, List.map_nil, List.append_nil]
  | entry :: entries => by
      rw [recordAll, exprs_recordAll, exprs_record, Entry.seedsAll, List.map_append,
        List.append_assoc]

end

/-- The expressions of a model are those that the outline of its tree asks for. -/
theorem exprs_ofTree (root : Node) :
    (ofTree root).exprs = (Entry.seedsAll (Outline.ofTree root)).map Seed.expr :=
  exprs_recordAll globalScope initial _

section

variable {position? : Expr → Option Position} {kind : Kind} {place : Node → Position}

/-- The assignment that an initialization stands for is of no sort that is placed by nodes. -/
theorem sublist_of_seed (h : Expr.PlacedBy position? kind place) (seed : Seed) :
    (seed.expr.preorder.filterMap position?).Sublist
      ((seed.reads.filter fun read => read.kind == kind).map place) := by
  cases seed with
  | expression node => exact h.sublist Expr.nestingLimit node
  | initialization name pos operator value =>
      have hValue :
          (Seed.initialization name pos operator value).expr.preorder.filterMap position? =
            (Expr.ofNode value).preorder.filterMap position? := by
        simp [Seed.expr, Expr.preorder, h.var, h.assign]
      rw [hValue]
      exact h.sublist Expr.nestingLimit value

/-- The expressions of a sort in a model are at most as many as the nodes that they are read from,
at every position. -/
theorem positions_subperm (h : Expr.PlacedBy position? kind place) {root : Node}
    (hListed : root.ArgumentsListed) :
    (((ofTree root).exprs.flatMap Expr.preorder).filterMap position?).Subperm
      ((root.preorder.filter fun node => node.kind == kind).map place) := by
  have hLowered := ((Outline.within_ofNode root hListed).1 .members).filter
    fun read => read.kind == kind
  refine List.Subperm.trans ?_ (hLowered.image place)
  rw [exprs_ofTree, List.flatMap_map, List.filterMap_flatMap, Outline.lowered, List.filter_flatMap,
    List.map_flatMap]
  exact (List.Sublist.flatMap_right _ fun seed _ => sublist_of_seed h seed).subperm

end

/-- No node is lowered twice for one model: the nodes that are read for its expressions are nodes of
the tree, each at most once. So there are at most as many binary operators, increments and
decrements, and calls at a position as the tree has nodes for them there. -/
theorem lowered_once {root : Node} (h : root.ArgumentsListed) :
    let lowered := Outline.lowered (Outline.ofTree root)
    let parts := (ofTree root).exprs.flatMap Expr.preorder
    let nodes (kind : Kind) := root.preorder.filter fun node => node.kind == kind
    (ofTree root).exprs = (Entry.seedsAll (Outline.ofTree root)).map Seed.expr ∧
      lowered.Subperm root.preorder ∧
      ((root.preorder.map (·.label.row)).Nodup → (lowered.map (·.label.row)).Nodup) ∧
      (parts.filterMap Expr.binaryPosition?).Subperm
        ((nodes .binaryExpression).map Expr.operatorPosition) ∧
      (parts.filterMap Expr.stepPosition?).Subperm
        ((nodes .updateExpression).map Expr.operatorPosition) ∧
      (parts.filterMap Expr.callPosition?).Subperm ((nodes .callExpression).map Node.position) := by
  have hLowered : (Outline.lowered (Outline.ofTree root)).Subperm root.preorder :=
    (Outline.within_ofNode root h).1 .members
  refine ⟨exprs_ofTree root, hLowered, fun hNodup => ?_, ?_, ?_, ?_⟩
  · obtain ⟨lowered, hPerm, hSublist⟩ := hLowered.image (·.label.row)
    exact (hPerm.nodup_iff).mp (hNodup.sublist hSublist)
  · exact positions_subperm Expr.placedBy_binary h
  · exact positions_subperm Expr.placedBy_step h
  · exact positions_subperm Expr.placedBy_call h

/-- The tree of `g([](bool b) { b++; }, b == 2);`. -/
def callWithLambda : Node :=
  .ofRows "g([](bool b) \x7b b++; \x7d, b == 2);"
    [⟨none, "translation_unit", true, false, false, false, none, 0, 31⟩,
      ⟨some 0, "expression_statement", true, false, false, false, none, 0, 31⟩,
      ⟨some 1, "call_expression", true, false, false, false, none, 0, 30⟩,
      ⟨some 2, "identifier", true, false, false, false, some "function", 0, 1⟩,
      ⟨some 2, "argument_list", true, false, false, false, some "arguments", 1, 30⟩,
      ⟨some 4, "lambda_expression", true, false, false, false, none, 2, 21⟩,
      ⟨some 5, "lambda_capture_specifier", true, false, false, false, some "captures", 2, 4⟩,
      ⟨some 5, "abstract_function_declarator", true, false, false, false, some "declarator", 4, 12⟩,
      ⟨some 7, "parameter_list", true, false, false, false, some "parameters", 4, 12⟩,
      ⟨some 8, "parameter_declaration", true, false, false, false, none, 5, 11⟩,
      ⟨some 9, "primitive_type", true, false, false, false, some "type", 5, 9⟩,
      ⟨some 9, "identifier", true, false, false, false, some "declarator", 10, 11⟩,
      ⟨some 5, "compound_statement", true, false, false, false, some "body", 13, 21⟩,
      ⟨some 12, "expression_statement", true, false, false, false, none, 15, 19⟩,
      ⟨some 13, "update_expression", true, false, false, false, none, 15, 18⟩,
      ⟨some 14, "identifier", true, false, false, false, some "argument", 15, 16⟩,
      ⟨some 14, "++", false, false, false, false, some "operator", 16, 18⟩,
      ⟨some 4, "binary_expression", true, false, false, false, none, 23, 29⟩,
      ⟨some 17, "identifier", true, false, false, false, some "left", 23, 24⟩,
      ⟨some 17, "==", false, false, false, false, some "operator", 25, 27⟩,
      ⟨some 17, "number_literal", true, false, false, false, some "right", 28, 29⟩]

/-- The call is read with the lambda as an argument that is not entered, and the step in the lambda
is read afterwards. -/
theorem lowered_once_lambda :
    let lowered := Outline.lowered (Outline.ofTree callWithLambda)
    callWithLambda.ArgumentsListed ∧ lowered.map (·.label.row) = [2, 5, 17, 18, 20, 14, 15] ∧
      (ofTree callWithLambda).exprs.length = 2 ∧ lowered.Subperm callWithLambda.preorder ∧
      (lowered.map (·.label.row)).Nodup := by
  intro lowered
  have hListed : callWithLambda.ArgumentsListed := by unfold Node.ArgumentsListed; decide +kernel
  obtain ⟨-, hLowered, hRows, -⟩ := lowered_once hListed
  exact ⟨hListed, by decide +kernel, by decide +kernel, hLowered, hRows (by decide +kernel)⟩

end Model

end TruthLint
