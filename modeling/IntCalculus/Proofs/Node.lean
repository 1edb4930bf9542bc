/-
Nodes built by an operator.

Sums, differences and products are treated alike by evaluation, by reduction and
by the folds of a simplification.  `Operator.node` names the node of an operator,
so that what holds of the three is said once.  `Expr.operator_induction` goes down an
expression through its operators and stops at its leaves, while `Expr.node_induction`
goes through function values and calculus nodes too.  `Expr.parts` lists what stands
in an expression; nothing inside a vector literal or a calculus node does.
`Expr.postorder` lists the same with the operands first.
`Expr.reached` lists what the operators reach, and `Expr.leaves` the leaves among it.
-/
import IntCalculus.Expr

namespace IntCalculus

/-- The node that applies an operator. -/
def Operator.node : Operator → Expr → Expr → Expr
  | plus => .add
  | minus => .sub
  | times => .mul

theorem Operator.node_inj {operator : Operator} {l r l' r' : Expr} :
    operator.node l r = operator.node l' r' ↔ l = l' ∧ r = r' := by
  cases operator <;> simp [node]

namespace Expr

/-- Whether no operator stands at the root. -/
def isLeaf : Expr → Bool
  | add _ _ | sub _ _ | mul _ _ | neg _ => false
  | _ => true

@[elab_as_elim]
theorem operator_induction {motive : Expr → Prop}
    (leaf : ∀ e, e.isLeaf = true → motive e)
    (node : ∀ (operator : Operator) l r, motive l → motive r → motive (operator.node l r))
    (neg : ∀ e, motive e → motive (.neg e)) : ∀ e, motive e
  | .add l r => node .plus l r (operator_induction leaf node neg l)
      (operator_induction leaf node neg r)
  | .sub l r => node .minus l r (operator_induction leaf node neg l)
      (operator_induction leaf node neg r)
  | .mul l r => node .times l r (operator_induction leaf node neg l)
      (operator_induction leaf node neg r)
  | .neg e => neg e (operator_induction leaf node neg e)
  | .constant _ => leaf _ rfl
  | .bool _ => leaf _ rfl
  | .str _ => leaf _ rfl
  | .var _ => leaf _ rfl
  | .function _ _ => leaf _ rfl
  | .vector _ => leaf _ rfl
  | .derivative _ _ _ => leaf _ rfl
  | .gradient _ _ _ => leaf _ rfl

/-- Every kind of node, with the operators taken as one.  The values of a vector literal
are not gone into. -/
@[elab_as_elim]
theorem node_induction {motive : Expr → Prop}
    (constant : ∀ c, motive (.constant c)) (bool : ∀ b, motive (.bool b))
    (str : ∀ s, motive (.str s)) (var : ∀ x, motive (.var x))
    (node : ∀ (operator : Operator) l r, motive l → motive r → motive (operator.node l r))
    (neg : ∀ e, motive e → motive (.neg e))
    (function : ∀ params body, motive body → motive (.function params body))
    (vector : ∀ elements, motive (.vector elements))
    (derivative : ∀ f x options, motive f → motive (.derivative f x options))
    (gradient : ∀ f xs options, motive f → motive (.gradient f xs options)) (e : Expr) :
    motive e :=
  @Expr.rec motive (fun _ => True) (fun _ => True) constant bool str var (node .plus) (node .minus)
    neg (node .times) function (fun elements _ => vector elements) derivative gradient
    (fun _ => trivial) (fun _ => trivial) (fun _ => trivial) (fun _ _ _ => trivial)
    (fun _ _ => trivial) trivial (fun _ _ _ _ => trivial) e

/-- The expression and all that it is built from, down to the leaves. -/
def parts : Expr → List Expr
  | add l r => add l r :: (l.parts ++ r.parts)
  | sub l r => sub l r :: (l.parts ++ r.parts)
  | neg e => neg e :: e.parts
  | mul l r => mul l r :: (l.parts ++ r.parts)
  | function params body => function params body :: body.parts
  | e => [e]

theorem parts_node (operator : Operator) (l r : Expr) :
    (operator.node l r).parts = operator.node l r :: (l.parts ++ r.parts) := by
  cases operator <;> rfl

theorem parts_neg (e : Expr) : (neg e).parts = neg e :: e.parts := rfl

/-- The parts, but a node after what stands in it: the order in which they are evaluated. -/
def postorder : Expr → List Expr
  | add l r => l.postorder ++ (r.postorder ++ [add l r])
  | sub l r => l.postorder ++ (r.postorder ++ [sub l r])
  | neg e => e.postorder ++ [neg e]
  | mul l r => l.postorder ++ (r.postorder ++ [mul l r])
  | function params body => body.postorder ++ [function params body]
  | e => [e]

theorem postorder_node (operator : Operator) (l r : Expr) :
    (operator.node l r).postorder = l.postorder ++ (r.postorder ++ [operator.node l r]) := by
  cases operator <;> rfl

theorem postorder_neg (e : Expr) : (neg e).postorder = e.postorder ++ [neg e] := rfl

theorem postorder_perm (e : Expr) : e.postorder.Perm e.parts := by
  induction e using node_induction with
  | node operator l r ihl ihr =>
    rw [postorder_node, parts_node, ← List.append_assoc]
    exact (List.perm_append_singleton _ _).trans ((ihl.append ihr).cons _)
  | neg e ih =>
    rw [postorder_neg, parts_neg]
    exact (List.perm_append_singleton _ _).trans (ih.cons _)
  | function params body ih => exact (List.perm_append_singleton _ _).trans (ih.cons _)
  | _ => exact List.Perm.refl _

theorem mem_postorder {e part : Expr} : part ∈ e.postorder ↔ part ∈ e.parts :=
  (postorder_perm e).mem_iff

theorem freeNames_node (operator : Operator) (l r : Expr) :
    (operator.node l r).freeNames = l.freeNames ++ r.freeNames := by
  cases operator <;> rfl

/-- What is reached through operators alone, a node before its operands and the left
operand before the right one. -/
def reached : Expr → List Expr
  | add l r => add l r :: (l.reached ++ r.reached)
  | sub l r => sub l r :: (l.reached ++ r.reached)
  | neg e => neg e :: e.reached
  | mul l r => mul l r :: (l.reached ++ r.reached)
  | e => [e]

theorem reached_node (operator : Operator) (l r : Expr) :
    (operator.node l r).reached = operator.node l r :: (l.reached ++ r.reached) := by
  cases operator <;> rfl

theorem reached_neg (e : Expr) : (neg e).reached = neg e :: e.reached := rfl

theorem reached_of_isLeaf {e : Expr} (h : e.isLeaf = true) : e.reached = [e] := by
  cases e with
  | add | sub | mul | neg => cases h
  | _ => rfl

theorem self_mem_reached (e : Expr) : e ∈ e.reached := by
  cases e <;> exact List.mem_cons_self

/-- What is reached refers to no other names than the whole. -/
theorem freeNames_subset_of_mem_reached {e t : Expr} (h : t ∈ e.reached) :
    t.freeNames ⊆ e.freeNames := by
  induction e using operator_induction with
  | leaf e hleaf =>
    rw [reached_of_isLeaf hleaf, List.mem_singleton] at h
    rw [h]
    exact List.Subset.refl _
  | node operator l r ihl ihr =>
    rw [reached_node, List.mem_cons, List.mem_append] at h
    rw [freeNames_node]
    rcases h with rfl | hl | hr
    · rw [freeNames_node]
      exact List.Subset.refl _
    · exact List.subset_append_of_subset_left _ (ihl hl)
    · exact List.subset_append_of_subset_right _ (ihr hr)
  | neg e ih =>
    rw [reached_neg, List.mem_cons] at h
    rcases h with rfl | he
    · exact List.Subset.refl _
    · exact ih he

/-- The leaves that operators reach, from left to right. -/
def leaves (e : Expr) : List Expr := e.reached.filter isLeaf

theorem mem_leaves {e leaf : Expr} : leaf ∈ e.leaves ↔ leaf ∈ e.reached ∧ leaf.isLeaf = true :=
  List.mem_filter

theorem leaves_node (operator : Operator) (l r : Expr) :
    (operator.node l r).leaves = l.leaves ++ r.leaves := by
  have hnode : ¬ (operator.node l r).isLeaf = true := by
    cases operator <;> exact Bool.false_ne_true
  rw [leaves, reached_node, List.filter_cons_of_neg hnode, List.filter_append]
  rfl

theorem leaves_neg (e : Expr) : (neg e).leaves = e.leaves := rfl

theorem leaves_of_isLeaf {e : Expr} (h : e.isLeaf = true) : e.leaves = [e] := by
  rw [leaves, reached_of_isLeaf h, List.filter_cons_of_pos h, List.filter_nil]

end Expr
end IntCalculus
