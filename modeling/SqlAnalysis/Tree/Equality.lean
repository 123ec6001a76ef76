import SqlAnalysis.Tree.Basic

/-!
Structural equality of nodes of one tree, without regard to their places in the source. How names
are compared is a parameter, and comparing them may be a computation of its own.
-/

namespace SqlAnalysis.Tree

variable [Monad m]

/-- Whether the lists have one length and agree place by place; stops at the first difference. -/
def sameParts (same : Link → Link → m Bool) :
    List Link → List Link → m Bool
  | [], [] => pure true
  | a :: as, b :: bs => do
    if ← same a b then sameParts same as bs else pure false
  | _, _ => pure false

def equalUpTo (t : Tree) (sameNames : List String → List String → m Bool) :
    Nat → Link → Link → m Bool
  | 0, _, _ => pure false
  | depth + 1, a, b =>
    if a = b then pure true
    else match t.form? a, t.form? b with
      | none, none => pure true
      | some (.call x), some (.call y) =>
        if x.operator = y.operator ∧ x.operands.length = y.operands.length then
          sameParts (equalUpTo t sameNames depth) x.operands y.operands
        else pure false
      | some (.list xs), some (.list ys) =>
        if xs.length = ys.length then sameParts (equalUpTo t sameNames depth) xs ys else pure false
      | some (.identifier x), some (.identifier y) => sameNames x.names y.names
      | some (.literal x), some (.literal y) => pure (x.sameValue y)
      | some (.typeSpec x), some (.typeSpec y) => pure (x == y)
      | some (.parameter x), some (.parameter y) => pure (x == y)
      | some (.qualifier x), some (.qualifier y) => pure (x == y)
      | _, _ => pure false

def equalWith (t : Tree) (sameNames : List String → List String → m Bool) (a b : Link) :
    m Bool :=
  t.equalUpTo sameNames (max (a.getD 0) (b.getD 0) + 1) a b

def equal (t : Tree) (a b : Link) : Bool :=
  Id.run (t.equalWith (fun x y => pure (x == y)) a b)

end SqlAnalysis.Tree
